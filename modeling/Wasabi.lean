import Wasabi.Bytes
import Wasabi.Usize
import Wasabi.Tiling
import Wasabi.Header
import Wasabi.Uefi
import Wasabi.FirstFit
import Wasabi.HeapInvariant
import Wasabi.HeapSafety
import Wasabi.Runs
import Wasabi.HeapRuns
import Wasabi.Allocation
import Wasabi.HeapReuse
import Wasabi.HeapSplit
import Wasabi.Outcome
import Wasabi.RadixTree
import Wasabi.PageTable
import Wasabi.PageWalk
import Wasabi.Mapping
import Wasabi.KernelHeap
import Wasabi.Kernel
import Wasabi.CycleRing
import Wasabi.Bits
import Wasabi.Trb
import Wasabi.CommandRing
import Wasabi.ProducerRing
import Wasabi.RingDelivery
import Wasabi.EventRing
import Wasabi.EventDelivery
import Wasabi.Descriptor
import Wasabi.DescriptorWalk
import Wasabi.DescriptorSegments
import Wasabi.LastOf
import Wasabi.InterfacePick
import Wasabi.ControlTransfer
import Wasabi.ControlDelivery
import Wasabi.EventWait
import Wasabi.RequestCompletion
import Wasabi.Executor
import Wasabi.Locking
import Wasabi.Keyboard
import Wasabi.Serial
import Wasabi.Pci
import Wasabi.Acpi
import Wasabi.Bar
import Wasabi.SetupPacket
import Wasabi.XhcRegisters
import Wasabi.DeviceSlots
import Wasabi.InputContext
import Wasabi.BitField
import Wasabi.SlotFields
import Wasabi.EndpointFields
import Wasabi.DeviceInit
import Wasabi.PortReset
import Wasabi.ControlEndpoint
import Wasabi.Records
import Wasabi.BootServices
import Wasabi.MemoryMap
import Wasabi.Boot
import Wasabi.Stack
import Wasabi.X86
import Wasabi.Interrupts
import Wasabi.EntryStack
import Wasabi.SegmentTables
import Wasabi.Boxes
import Wasabi.Exceptions
import Wasabi.Scratchpad
import Wasabi.RegisterTrace
import Wasabi.XhcReset
import Wasabi.XhcMemory
import Wasabi.XhcStart
import Wasabi.BarCache
import Wasabi.RegisterPair
import Wasabi.PciProbe
import Wasabi.KeyboardStart
import Wasabi.Utf8
import Wasabi.StringDescriptor
import Wasabi.UsbRequests
import Wasabi.UsbBus
import Wasabi.Enumeration
import Wasabi.UsbDevice
import Wasabi.Loopback
import Wasabi.I64
import Wasabi.Cells
import Wasabi.Graphics
import Wasabi.RoundDiv
import Wasabi.DrawLine
import Wasabi.Font
import Wasabi.TextDraw
import Wasabi.Rounding
import Wasabi.BitRanges
import Wasabi.Hpet
import Wasabi.Chunks
import Wasabi.Hexadecimal
import Wasabi.Hexdump
