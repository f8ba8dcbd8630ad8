import Wasabi.LastOf
import Wasabi.Serial
import Wasabi.Usize

namespace Wasabi
set_option autoImplicit true

namespace PortIo

def bind : PortIo α → (α → PortIo β) → PortIo β
  | .pure a, f => f a
  | .read port rest, f => .read port fun v => (rest v).bind f
  | .write port data rest, f => .write port data (rest.bind f)
  | .busyLoop port ready rest, f => .busyLoop port ready (rest.bind f)

instance : Monad PortIo where
  pure := .pure
  bind := bind

def writeIoPortU8 (port : Nat) (data : UInt8) : PortIo Unit := .write port data (.pure ())

end PortIo

namespace SerialPort

def sendStr (port : SerialPort) (s : String) : PortIo Unit := s.toList.forM port.sendChar

/-- What `info!` sends. It also prints to the screen, which takes no port. -/
def loopbackInfo : String := "[INFO]  src/serial.rs:59 : Serial port loopback test passed\n"

def loopbackTest (port : SerialPort) : PortIo (Except Fault Unit) := do
  -- Set in loopback mode
  PortIo.writeIoPortU8 (port.base + 4) 0x1e
  port.sendChar 'T'
  match ← port.tryRead with
  | none => return .error (.err "loopback_test failed: No response")
  | some c =>
    if c ≠ byte 'T' then
      return .error (.err "loopback_test failed wrong data received")
    else
      -- return into normal mode
      PortIo.writeIoPortU8 (port.base + 4) 0x0f
      newForCom1.sendStr loopbackInfo
      return .ok ()

end SerialPort

/-- The code returns `a` after reading the values `answers` and writing `writes`. -/
inductive PortIo.Returns : PortIo α → List UInt8 → List (Nat × UInt8) → α → Prop where
  | pure : Returns (.pure a) [] [] a
  | read (v : UInt8) : Returns (rest v) answers writes a →
      Returns (.read port rest) (v :: answers) writes a
  | write : Returns rest answers writes a →
      Returns (.write port data rest) answers ((port, data) :: writes) a
  | spin (v : UInt8) : ready v = false → Returns (.busyLoop port ready rest) answers writes a →
      Returns (.busyLoop port ready rest) (v :: answers) writes a
  | leave (v : UInt8) : ready v = true → Returns rest answers writes a →
      Returns (.busyLoop port ready rest) (v :: answers) writes a

def SerialPort.modemControl? (port : SerialPort) (w : Nat × UInt8) : Option UInt8 :=
  if w.1 = port.base + 4 then some w.2 else none

def busy (status : UInt8) : Bool := status &&& 0x20 == 0

/-- The line status from the first one on that lets the `T` be sent: then the status says that data
is there, and the data is the `T`. -/
def Echoed (answers : List UInt8) : Prop :=
  ∃ ready status rest,
    answers.dropWhile busy = ready :: status :: SerialPort.byte 'T' :: rest ∧ status &&& 0x01 ≠ 0

namespace PortIo.Returns

variable {port : SerialPort} {writes : List (Nat × UInt8)}

theorem sendChar_bind {f : Unit → PortIo β} (h : Returns (port.sendChar c >>= f) answers writes b) :
    ∃ ready rest writes', answers.dropWhile busy = ready :: rest ∧
      writes = (port.base, SerialPort.byte c) :: writes' ∧ Returns (f ()) rest writes' b := by
  generalize hcode : port.sendChar c >>= f = code at h
  induction h with
  | pure => cases hcode
  | read => cases hcode
  | write => cases hcode
  | spin v hready _ ih =>
    obtain ⟨ready, rest, writes', hdrop, hwrites, hrest⟩ := ih hcode
    cases hcode
    have hbusy : busy v = true := by simpa [busy] using hready
    refine ⟨ready, rest, writes', ?_, hwrites, hrest⟩
    rw [List.dropWhile_cons_of_pos hbusy, hdrop]
  | leave v hready hrest =>
    cases hcode
    cases hrest with
    | write hrest =>
      have hbusy : ¬busy v = true := by simpa [busy] using hready
      exact ⟨v, _, _, List.dropWhile_cons_of_neg hbusy, rfl, hrest⟩

theorem tryRead_bind {f : Option UInt8 → PortIo β}
    (h : Returns (port.tryRead >>= f) answers writes b) :
    (∃ status rest, answers = status :: rest ∧ status &&& 0x01 = 0 ∧
        Returns (f none) rest writes b) ∨
      ∃ status c rest writes', answers = status :: c :: rest ∧ status &&& 0x01 ≠ 0 ∧
        writes = (port.base + 2, 0xC7) :: writes' ∧ Returns (f (some c)) rest writes' b := by
  have hcode : port.tryRead >>= f = .read (port.base + 5) fun status =>
      (if status &&& 0x01 = 0 then PortIo.pure none else port.tryReadData).bind f := rfl
  rw [hcode] at h
  cases h with
  | read status h =>
    dsimp only at h
    by_cases hnone : status &&& 0x01 = 0
    · rw [if_pos hnone] at h
      exact .inl ⟨status, _, rfl, hnone, h⟩
    · rw [if_neg hnone] at h
      cases h with
      | read c h =>
        cases h with
        | write h => exact .inr ⟨status, c, _, _, rfl, hnone, rfl, h⟩

theorem sendStr (h : Returns (port.sendStr s >>= f) answers writes b) :
    ∃ rest sent writes', writes = sent ++ writes' ∧ (∀ w ∈ sent, w.1 = port.base) ∧
      Returns (f ()) rest writes' b := by
  unfold SerialPort.sendStr at h
  generalize s.toList = cs at h
  induction cs generalizing answers writes with
  | nil => exact ⟨answers, [], writes, rfl, List.forall_mem_nil _, h⟩
  | cons c cs ih =>
    have hcode : (c :: cs).forM port.sendChar >>= f =
        port.sendChar c >>= fun _ => cs.forM port.sendChar >>= f := rfl
    rw [hcode] at h
    obtain ⟨_, _, writes', _, rfl, hrest⟩ := sendChar_bind h
    obtain ⟨rest, sent, writes'', rfl, hsent, hf⟩ := ih hrest
    exact ⟨rest, (port.base, SerialPort.byte c) :: sent, writes'', rfl,
      List.forall_mem_cons.2 ⟨rfl, hsent⟩, hf⟩

theorem lastOf_modemControl (h : ∀ w ∈ writes, w.1 ≠ port.base + 4) (v : UInt8) :
    lastOf port.modemControl? ((port.base + 4, v) :: writes) = some v := by
  have hnone : lastOf port.modemControl? writes = none :=
    (lastOf_eq_none _ _).2 fun w hw => if_neg (h w hw)
  have hset : port.modemControl? (port.base + 4, v) = some v := if_pos rfl
  rw [lastOf_cons, hnone, hset, Option.none_or]

theorem loopbackTest (h : Returns port.loopbackTest answers writes r)
    (hport : port.base + 4 ≠ SerialPort.newForCom1.base) :
    Echoed answers ∧ lastOf port.modemControl? writes = some 0x0f ∨
      ¬Echoed answers ∧ lastOf port.modemControl? writes = some 0x1e := by
  unfold SerialPort.loopbackTest at h
  cases h with
  | write hsend =>
    obtain ⟨ready, rest, writes, hdrop, rfl, hread⟩ := sendChar_bind hsend
    obtain ⟨status, rest, rfl, hnone, hend⟩ | ⟨status, c, rest, writes, rfl, hsome, rfl, hend⟩ :=
      tryRead_bind hread
    · cases hend
      refine .inr ⟨?_, lastOf_modemControl (by simp) _⟩
      rintro ⟨_, _, _, hdrop', _⟩
      -- The test has read one value after the wait, no data.
      cases hdrop.symm.trans hdrop'
    · dsimp only at hend
      split at hend
      · next hwrong =>
        cases hend
        refine .inr ⟨?_, lastOf_modemControl (by simp) _⟩
        rintro ⟨_, _, _, hdrop', _⟩
        cases hdrop.symm.trans hdrop'
        exact hwrong rfl
      · next hright =>
        obtain rfl := not_not.1 hright
        cases hend with
        | write hinfo =>
          obtain ⟨_, sent, writes, rfl, hsent, hend⟩ := sendStr hinfo
          cases hend
          refine .inl ⟨⟨ready, status, rest, hdrop, hsome⟩, ?_⟩
          rw [lastOf_cons, lastOf_cons, lastOf_cons, lastOf_modemControl fun w hw => ?_]
          · rfl
          · rw [List.append_nil] at hw
            rw [hsent w hw]
            exact hport.symm

end PortIo.Returns

/-- The test leaves the port in normal mode exactly when the `T` comes back. -/
theorem loopback_restores_iff (port : SerialPort)
    (hport : port.base + 4 ≠ SerialPort.newForCom1.base)
    (h : PortIo.Returns port.loopbackTest answers writes r) :
    lastOf port.modemControl? writes = some 0x0f ↔ Echoed answers := by
  rcases h.loopbackTest hport with ⟨hecho, hlast⟩ | ⟨hecho, hlast⟩
  · exact iff_of_true hlast hecho
  · rw [hlast]
    exact iff_of_false (by decide) hecho

theorem loopbackTest_silent : PortIo.Returns SerialPort.newForCom1.loopbackTest [0x20, 0x20]
    [(0x3fc, 0x1e), (0x3f8, 0x54)] (.error (.err "loopback_test failed: No response")) :=
  .write (.leave 0x20 rfl (.write (.read 0x20 .pure)))

theorem PortIo.Returns.sendStr_ready {f : Unit → PortIo β} (port : SerialPort) (s : String)
    (h : Returns (f ()) answers writes b) :
    Returns (port.sendStr s >>= f) (List.replicate s.toList.length 0x20 ++ answers)
      (s.toList.map (fun c => (port.base, SerialPort.byte c)) ++ writes) b := by
  unfold SerialPort.sendStr
  generalize s.toList = cs
  induction cs with
  | nil => exact h
  | cons c cs ih => exact .leave 0x20 rfl (.write ih)

/-- The answers of a device that is always ready and has the `T` for the next read. -/
def echoedAnswers : List UInt8 :=
  [0x20, 0x21, 0x54] ++ List.replicate SerialPort.loopbackInfo.toList.length 0x20

def echoedWrites : List (Nat × UInt8) :=
  [(0x3fc, 0x1e), (0x3f8, 0x54), (0x3fa, 0xC7), (0x3fc, 0x0f)] ++
    SerialPort.loopbackInfo.toList.map fun c => (0x3f8, SerialPort.byte c)

theorem loopbackTest_echoed :
    PortIo.Returns SerialPort.newForCom1.loopbackTest echoedAnswers echoedWrites (.ok ()) := by
  have hinfo := PortIo.Returns.sendStr_ready
    (f := fun _ => PortIo.pure (.ok () : Except Fault Unit))
    .newForCom1 SerialPort.loopbackInfo .pure
  rw [List.append_nil, List.append_nil] at hinfo
  exact .write (.leave 0x20 rfl (.write (.read 0x21 (.read 0x54 (.write (.write hinfo))))))

theorem loopback_restores_answers :
    (lastOf SerialPort.newForCom1.modemControl? echoedWrites = some 0x0f ↔ Echoed echoedAnswers) ∧
      (lastOf SerialPort.newForCom1.modemControl? [(0x3fc, 0x1e), (0x3f8, 0x54)] = some 0x0f ↔
        Echoed [0x20, 0x20]) :=
  ⟨loopback_restores_iff .newForCom1 (by decide) loopbackTest_echoed,
    loopback_restores_iff .newForCom1 (by decide) loopbackTest_silent⟩

theorem loopback_stays :
    PortIo.Returns SerialPort.newForCom1.loopbackTest [0x20, 0x20] [(0x3fc, 0x1e), (0x3f8, 0x54)]
        (.error (.err "loopback_test failed: No response")) ∧
      lastOf SerialPort.newForCom1.modemControl? [(0x3fc, 0x1e), (0x3f8, 0x54)] = some 0x1e :=
  ⟨loopbackTest_silent, rfl⟩

end Wasabi
