import Wasabi.Runs

namespace Wasabi
set_option autoImplicit true

/-- Code on the I/O ports, one access after the other. A busy loop reads a port until the value
lets it go on. -/
inductive PortIo (α : Type) where
  | pure (a : α)
  | read (port : Nat) (rest : UInt8 → PortIo α)
  | write (port : Nat) (data : UInt8) (rest : PortIo α)
  | busyLoop (port : Nat) (ready : UInt8 → Bool) (rest : PortIo α)

structure SerialPort where
  base : Nat
  fits : base + 7 < 0x10000

namespace SerialPort

def newForCom1 : SerialPort := ⟨0x3f8, by decide⟩

/-- The end of `try_read`, where it writes the FIFO control register. -/
def tryReadClear (port : SerialPort) (c : UInt8) : PortIo (Option UInt8) :=
  .write (port.base + 2) 0xC7 (.pure (some c))

def tryReadData (port : SerialPort) : PortIo (Option UInt8) :=
  .read port.base fun c => port.tryReadClear c

def tryRead (port : SerialPort) : PortIo (Option UInt8) :=
  .read (port.base + 5) fun status =>
    if status &&& 0x01 = 0 then .pure none else port.tryReadData

/-- The cast of a character to a byte keeps its low bits. -/
def byte (c : Char) : UInt8 := UInt8.ofNat c.toNat

def sendCharData (port : SerialPort) (c : Char) : PortIo Unit :=
  .write port.base (byte c) (.pure ())

def sendChar (port : SerialPort) (c : Char) : PortIo Unit :=
  .busyLoop (port.base + 5) (fun status => status &&& 0x20 != 0) (port.sendCharData c)

end SerialPort

structure Uart where
  rx : List UInt8
  tx : List UInt8
  deriving DecidableEq, Repr

namespace Uart

def fifoSize : Nat := 16

/-- Reading the data register takes a byte out of the receive FIFO, and two bits of the line status
register tell about the FIFOs. Nothing else is known about the values. -/
def Reads (u : Uart) (register : Nat) (v : UInt8) (u' : Uart) : Prop :=
  match register with
  | 0 => match u.rx with
    | [] => u' = u
    | c :: rest => v = c ∧ u' = { u with rx := rest }
  | 5 => (v &&& 0x01 = 0 ↔ u.rx = []) ∧ (v &&& 0x20 = 0 ↔ u.tx ≠ []) ∧ u' = u
  | _ => u' = u

def lineStatus (u : Uart) : UInt8 :=
  (if u.rx = [] then 0 else 0x01) ||| (if u.tx = [] then 0x20 else 0)

theorem reads_lineStatus (u : Uart) : u.Reads 5 u.lineStatus u := by
  refine ⟨?_, ?_, rfl⟩
  · by_cases hrx : u.rx = [] <;> by_cases htx : u.tx = [] <;> simp [lineStatus, hrx, htx] <;> decide
  · by_cases hrx : u.rx = [] <;> by_cases htx : u.tx = [] <;> simp [lineStatus, hrx, htx] <;> decide

/-- Bits 1 and 2 of the FIFO control register empty the FIFOs. -/
def write (u : Uart) (register : Nat) (data : UInt8) : Uart :=
  match register with
  | 0 => if u.tx.length < fifoSize then { u with tx := u.tx ++ [data] } else u
  | 2 => ⟨if data &&& 0x02 = 0 then u.rx else [], if data &&& 0x04 = 0 then u.tx else []⟩
  | _ => u

/-- No byte that the FIFO control register could throw away. -/
def Drained (u : Uart) : Prop := u.rx = [] ∧ u.tx = []

instance (u : Uart) : Decidable u.Drained := inferInstanceAs (Decidable (_ ∧ _))

end Uart

/-- One access of a piece of code to the device at `port`; `ok` restricts the states in which the
FIFO control register is written. -/
inductive Access (port : SerialPort) (ok : Uart → Prop) :
    PortIo α → Uart → PortIo α → Uart → Prop where
  | read : u.Reads (addr - port.base) v u' → Access port ok (.read addr rest) u (rest v) u'
  | write : (addr = port.base + 2 → ok u) →
      Access port ok (.write addr data rest) u rest (u.write (addr - port.base) data)
  | spin : u.Reads (addr - port.base) v u' → ready v = false →
      Access port ok (.busyLoop addr ready rest) u (.busyLoop addr ready rest) u'
  | leave : u.Reads (addr - port.base) v u' → ready v = true →
      Access port ok (.busyLoop addr ready rest) u rest u'

namespace Access

variable {port : SerialPort} {ok : Uart → Prop} {u u' : Uart}

theorem status (h : Access port ok port.tryRead u rest u') :
    u' = u ∧ (rest = .pure none ∨ u.rx ≠ [] ∧ rest = port.tryReadData) := by
  unfold SerialPort.tryRead at h
  cases h with
  | read hreads =>
    rw [Nat.add_sub_cancel_left] at hreads
    obtain ⟨hrx, _, rfl⟩ := hreads
    refine ⟨rfl, ?_⟩
    dsimp only
    split
    · exact .inl rfl
    · next hdata => exact .inr ⟨fun he => hdata (hrx.2 he), rfl⟩

theorem data (h : Access port ok port.tryReadData u rest u') (hne : u.rx ≠ []) :
    ∃ c rx, u.rx = c :: rx ∧ rest = port.tryReadClear c ∧ u' = { u with rx := rx } := by
  unfold SerialPort.tryReadData at h
  cases h with
  | read hreads =>
    rw [Nat.sub_self] at hreads
    obtain ⟨c, rx, hrx⟩ := List.exists_cons_of_ne_nil hne
    rw [Uart.Reads, hrx] at hreads
    obtain ⟨rfl, rfl⟩ := hreads
    exact ⟨_, rx, hrx, rfl, rfl⟩

theorem clear (h : Access port ok (port.tryReadClear c) u rest u') :
    ok u ∧ rest = .pure (some c) ∧ u' = ⟨[], []⟩ := by
  unfold SerialPort.tryReadClear at h
  cases h with
  | write hok =>
    rw [Nat.add_sub_cancel_left]
    exact ⟨hok rfl, rfl, rfl⟩

theorem wait (h : Access port ok (port.sendChar c) u rest u') :
    u' = u ∧ (rest = port.sendChar c ∨ u.tx = [] ∧ rest = port.sendCharData c) := by
  unfold SerialPort.sendChar at h
  cases h with
  | spin hreads _ =>
    rw [Nat.add_sub_cancel_left] at hreads
    exact ⟨hreads.2.2, .inl rfl⟩
  | leave hreads hready =>
    rw [Nat.add_sub_cancel_left] at hreads
    obtain ⟨_, htx, rfl⟩ := hreads
    have hempty : u'.tx = [] := Decidable.not_not.1 fun hne => by
      simp [htx.2 hne] at hready
    exact ⟨rfl, .inr ⟨hempty, rfl⟩⟩

theorem store (h : Access port ok (port.sendCharData c) u rest u') (hempty : u.tx = []) :
    rest = .pure () ∧ u' = { u with tx := [SerialPort.byte c] } := by
  unfold SerialPort.sendCharData at h
  cases h with
  | write _ =>
    rw [Nat.sub_self, Uart.write, hempty]
    exact ⟨rfl, rfl⟩

end Access

/-- The call that is running on the port, with what is left of it. -/
inductive SerialCall where
  | idle
  | reading (rest : PortIo (Option UInt8))
  | sending (c : Char) (rest : PortIo Unit)

/-- The device, the running call, the bytes that have arrived and left on the line, and those that
calls have returned and sent. -/
structure SerialSystem where
  uart : Uart
  running : SerialCall
  received : List UInt8
  line : List UInt8
  returned : List UInt8
  sent : List UInt8

namespace SerialSystem

def init : SerialSystem := ⟨⟨[], []⟩, .idle, [], [], [], []⟩

def resumeRead (s : SerialSystem) : PortIo (Option UInt8) → SerialSystem
  | .pure c => { s with running := .idle, returned := s.returned ++ c.toList }
  | rest => { s with running := .reading rest }

def resumeSend (s : SerialSystem) (c : Char) : PortIo Unit → SerialSystem
  | .pure () => { s with running := .idle, sent := s.sent ++ [SerialPort.byte c] }
  | rest => { s with running := .sending c rest }

end SerialSystem

/-- The device and the calls, which follow each other, in any order. -/
inductive SerialStep (port : SerialPort) (ok : Uart → Prop) :
    SerialSystem → SerialSystem → Prop where
  | receive (c : UInt8) : s.uart.rx.length < Uart.fifoSize → SerialStep port ok s { s with
      uart := { s.uart with rx := s.uart.rx ++ [c] }, received := s.received ++ [c] }
  | transmit : s.uart.tx = c :: rest → SerialStep port ok s { s with
      uart := { s.uart with tx := rest }, line := s.line ++ [c] }
  | tryRead : s.running = .idle → SerialStep port ok s { s with running := .reading port.tryRead }
  | sendChar (c : Char) : s.running = .idle →
      SerialStep port ok s { s with running := .sending c (port.sendChar c) }
  | reading : s.running = .reading call → Access port ok call s.uart rest uart →
      SerialStep port ok s ({ s with uart := uart }.resumeRead rest)
  | sending : s.running = .sending c call → Access port ok call s.uart rest uart →
      SerialStep port ok s ({ s with uart := uart }.resumeSend c rest)

/-- The line of the port, in both directions. -/
structure SerialKept (s : SerialSystem) : Prop where
  received : s.returned <+: s.received
  sent : s.sent = s.line ++ s.uart.tx

/-- Where a call can be, what it knows of the device, and the byte that it has taken out of it. -/
inductive CallAt (port : SerialPort) : SerialCall → Uart → List UInt8 → Prop where
  | idle : CallAt port .idle u []
  | status : CallAt port (.reading port.tryRead) u []
  | data : u.rx ≠ [] → CallAt port (.reading port.tryReadData) u []
  | clear : CallAt port (.reading (port.tryReadClear c)) u [c]
  | wait : CallAt port (.sending c (port.sendChar c)) u []
  | store : u.tx = [] → CallAt port (.sending c (port.sendCharData c)) u []

/-- Every byte that arrived is accounted for, and so is every byte that was sent. -/
def SerialInv (port : SerialPort) (s : SerialSystem) : Prop :=
  ∃ taken, CallAt port s.running s.uart taken ∧
    s.received = s.returned ++ taken ++ s.uart.rx ∧ s.sent = s.line ++ s.uart.tx

namespace SerialInv

variable {port : SerialPort} {s t : SerialSystem}

theorem init : SerialInv port .init := ⟨[], .idle, rfl, rfl⟩

theorem kept (h : SerialInv port s) : SerialKept s := by
  obtain ⟨taken, _, hrx, htx⟩ := h
  refine ⟨?_, htx⟩
  rw [hrx, List.append_assoc]
  exact List.prefix_append _ _

theorem receive (h : SerialInv port s) (c : UInt8) : SerialInv port { s with
    uart := { s.uart with rx := s.uart.rx ++ [c] }, received := s.received ++ [c] } := by
  obtain ⟨taken, hcall, hrx, htx⟩ := h
  refine ⟨taken, ?_, ?_, htx⟩
  · generalize s.running = running at hcall ⊢
    cases hcall with
    | idle => exact .idle
    | status => exact .status
    | data hne => exact .data (List.append_ne_nil_of_left_ne_nil hne _)
    | clear => exact .clear
    | wait => exact .wait
    | store hempty => exact .store hempty
  · dsimp only
    rw [hrx, List.append_assoc]

theorem transmit (h : SerialInv port s) (hhead : s.uart.tx = c :: rest) : SerialInv port { s with
    uart := { s.uart with tx := rest }, line := s.line ++ [c] } := by
  obtain ⟨taken, hcall, hrx, htx⟩ := h
  refine ⟨taken, ?_, hrx, ?_⟩
  · generalize s.running = running at hcall ⊢
    cases hcall with
    | idle => exact .idle
    | status => exact .status
    | data hne => exact .data hne
    | clear => exact .clear
    | wait => exact .wait
    | store hempty =>
      rw [hempty] at hhead
      cases hhead
  · dsimp only
    rw [htx, hhead, List.append_assoc, List.singleton_append]

theorem reading (h : SerialInv port s) (hcall : s.running = .reading call)
    (hs : Access port Uart.Drained call s.uart rest uart) :
    SerialInv port ({ s with uart := uart }.resumeRead rest) := by
  obtain ⟨taken, hat, hrx, htx⟩ := h
  rw [hcall] at hat
  cases hat with
  | status =>
    rcases hs.status with ⟨rfl, rfl | ⟨hne, rfl⟩⟩
    · exact ⟨[], .idle, by simpa [SerialSystem.resumeRead] using hrx, htx⟩
    · exact ⟨[], .data hne, hrx, htx⟩
  | data hne =>
    obtain ⟨c, rx, hhead, rfl, rfl⟩ := hs.data hne
    refine ⟨[c], .clear, ?_, htx⟩
    rw [hhead, List.append_nil] at hrx
    exact hrx.trans (List.append_cons _ _ _)
  | clear =>
    obtain ⟨⟨hempty, hempty'⟩, rfl, rfl⟩ := hs.clear
    rw [hempty] at hrx
    rw [hempty'] at htx
    exact ⟨[], .idle, hrx.trans (List.append_nil _).symm, htx⟩

theorem sending (h : SerialInv port s) (hcall : s.running = .sending c call)
    (hs : Access port ok call s.uart rest uart) :
    SerialInv port ({ s with uart := uart }.resumeSend c rest) := by
  obtain ⟨taken, hat, hrx, htx⟩ := h
  rw [hcall] at hat
  cases hat with
  | wait =>
    rcases hs.wait with ⟨rfl, rfl | ⟨hempty, rfl⟩⟩
    · exact ⟨[], .wait, hrx, htx⟩
    · exact ⟨[], .store hempty, hrx, htx⟩
  | store hempty =>
    obtain ⟨rfl, rfl⟩ := hs.store hempty
    rw [hempty, List.append_nil] at htx
    exact ⟨[], .idle, hrx, congrArg (· ++ [SerialPort.byte c]) htx⟩

theorem step (h : SerialInv port s) (hs : SerialStep port Uart.Drained s t) : SerialInv port t := by
  cases hs with
  | receive c _ => exact h.receive c
  | transmit hhead => exact h.transmit hhead
  | tryRead hidle =>
    obtain ⟨taken, hat, hrx, htx⟩ := h
    rw [hidle] at hat
    cases hat
    exact ⟨[], .status, hrx, htx⟩
  | sendChar c hidle =>
    obtain ⟨taken, hat, hrx, htx⟩ := h
    rw [hidle] at hat
    cases hat
    exact ⟨[], .wait, hrx, htx⟩
  | reading hcall haccess => exact h.reading hcall haccess
  | sending hcall haccess => exact h.sending hcall haccess

end SerialInv

/-- A call of `try_read` returns the oldest byte and throws away what else is in the FIFOs, unless
`ok` forbids it. -/
theorem tryRead_runs {port : SerialPort} {s : SerialSystem} (hidle : s.running = .idle)
    (hrx : s.uart.rx = c :: rx) (hok : ok { s.uart with rx := rx }) :
    Runs (SerialStep port ok) s
      { s with uart := ⟨[], []⟩, returned := s.returned ++ [c], running := .idle } := by
  have hne : s.uart.lineStatus &&& 0x01 ≠ 0 := by
    rw [ne_eq, s.uart.reads_lineStatus.1, hrx]
    exact List.cons_ne_nil _ _
  have hstatus : Access port ok port.tryRead s.uart port.tryReadData s.uart := by
    have hread : Access port ok port.tryRead s.uart
        (if s.uart.lineStatus &&& 0x01 = 0 then .pure none else port.tryReadData) s.uart := by
      apply Access.read
      rw [Nat.add_sub_cancel_left]
      exact s.uart.reads_lineStatus
    rwa [if_neg hne] at hread
  have hdata : Access port ok port.tryReadData s.uart (port.tryReadClear c)
      { s.uart with rx := rx } := by
    apply Access.read
    rw [Nat.sub_self, Uart.Reads, hrx]
    exact ⟨rfl, rfl⟩
  have hclear : Access port ok (port.tryReadClear c) { s.uart with rx := rx } (.pure (some c))
      ({ s.uart with rx := rx }.write (port.base + 2 - port.base) 0xC7) := .write fun _ => hok
  rw [Nat.add_sub_cancel_left] at hclear
  have hstart : SerialStep port ok s { s with running := .reading port.tryRead } := .tryRead hidle
  have hready := SerialStep.reading (s := { s with running := .reading port.tryRead }) rfl hstatus
  have htaken := SerialStep.reading (s := { s with running := .reading port.tryReadData }) rfl hdata
  have hreturned := SerialStep.reading (s := { s with
    uart := { s.uart with rx := rx }, running := .reading (port.tryReadClear c) }) rfl hclear
  exact (((Relation.ReflTransGen.single hstart).tail hready).tail htaken).tail hreturned

theorem sendChar_runs {port : SerialPort} {s : SerialSystem} (hidle : s.running = .idle)
    (htx : s.uart.tx = []) (c : Char) : Runs (SerialStep port ok) s { s with
      uart := { s.uart with tx := [SerialPort.byte c] }, sent := s.sent ++ [SerialPort.byte c],
      running := .idle } := by
  have hready : (s.uart.lineStatus &&& 0x20 != 0) = true := by
    have hbit := mt s.uart.reads_lineStatus.2.1.1 fun h => h htx
    simpa using hbit
  have hwait : Access port ok (port.sendChar c) s.uart (port.sendCharData c) s.uart := by
    apply Access.leave (v := s.uart.lineStatus)
    · rw [Nat.add_sub_cancel_left]
      exact s.uart.reads_lineStatus
    · exact hready
  have hstore : Access port ok (port.sendCharData c) s.uart (.pure ())
      (s.uart.write (port.base - port.base) (SerialPort.byte c)) :=
    .write fun h => absurd h (by omega)
  rw [Nat.sub_self, Uart.write, htx] at hstore
  have hstart : SerialStep port ok s { s with running := .sending c (port.sendChar c) } :=
    .sendChar c hidle
  have hfree := SerialStep.sending
    (s := { s with running := .sending c (port.sendChar c) }) rfl hwait
  have hsent := SerialStep.sending
    (s := { s with running := .sending c (port.sendCharData c) }) rfl hstore
  exact ((Relation.ReflTransGen.single hstart).tail hfree).tail hsent

/-- Nothing is lost while `try_read` clears the FIFOs only when they are empty. -/
theorem serial_keeps (hs : Runs (SerialStep port Uart.Drained) .init s) : SerialKept s :=
  SerialInv.kept (hs.invariant (SerialInv port) (fun _ _ h => h.step) .init)

/-- Two bytes come in around one that goes out, and another one is still in the FIFO. -/
theorem serial_keeps_both : ∃ s, Runs (SerialStep .newForCom1 Uart.Drained) .init s ∧
    s.returned = [1, 2] ∧ s.sent = [0x41, 0x42] ∧ s.line = [0x41] ∧ SerialKept s := by
  have harrive : SerialStep .newForCom1 Uart.Drained .init ⟨⟨[1], []⟩, .idle, [1], [], [], []⟩ :=
    .receive 1 (Nat.zero_lt_succ 15)
  have hfirst := (Relation.ReflTransGen.single harrive).trans (tryRead_runs rfl rfl ⟨rfl, rfl⟩)
  have hsending := hfirst.trans (sendChar_runs rfl rfl 'A')
  have hsecond : SerialStep .newForCom1 Uart.Drained
      ⟨⟨[], [0x41]⟩, .idle, [1], [], [1], [0x41]⟩ ⟨⟨[2], [0x41]⟩, .idle, [1, 2], [], [1], [0x41]⟩ :=
    .receive 2 (Nat.zero_lt_succ 15)
  have hgone : SerialStep .newForCom1 Uart.Drained
      ⟨⟨[2], [0x41]⟩, .idle, [1, 2], [], [1], [0x41]⟩
      ⟨⟨[2], []⟩, .idle, [1, 2], [0x41], [1], [0x41]⟩ := .transmit rfl
  have hread := ((hsending.tail hsecond).tail hgone).trans (tryRead_runs rfl rfl ⟨rfl, rfl⟩)
  have hruns := hread.trans (sendChar_runs rfl rfl 'B')
  exact ⟨_, hruns, rfl, rfl, rfl, serial_keeps hruns⟩

/-- Of two bytes that are there at one call the second one is skipped. -/
theorem tryRead_skips : ∃ s, Runs (SerialStep .newForCom1 fun _ => True) .init s ∧
    s.received = [1, 2, 3] ∧ s.returned = [1, 3] ∧ ¬SerialKept s := by
  have harrive : SerialStep .newForCom1 (fun _ => True) .init ⟨⟨[1], []⟩, .idle, [1], [], [], []⟩ :=
    .receive 1 (Nat.zero_lt_succ 15)
  have hsecond : SerialStep .newForCom1 (fun _ => True) ⟨⟨[1], []⟩, .idle, [1], [], [], []⟩
      ⟨⟨[1, 2], []⟩, .idle, [1, 2], [], [], []⟩ := .receive 2 (by decide)
  have hfirst := ((Relation.ReflTransGen.single harrive).tail hsecond).trans
    (tryRead_runs rfl rfl trivial)
  have hthird : SerialStep .newForCom1 (fun _ => True) ⟨⟨[], []⟩, .idle, [1, 2], [], [1], []⟩
      ⟨⟨[3], []⟩, .idle, [1, 2, 3], [], [1], []⟩ := .receive 3 (by decide)
  have hruns := (hfirst.tail hthird).trans (tryRead_runs rfl rfl trivial)
  refine ⟨_, hruns, rfl, rfl, fun hkept => ?_⟩
  exact absurd hkept.received (by decide)

end Wasabi
