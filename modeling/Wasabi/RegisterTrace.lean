import Wasabi.LastOf

namespace Wasabi
set_option autoImplicit true

inductive RegAccess (ρ α : Type) where
  | read (r : ρ) (v : α)
  | write (r : ρ) (v : α)
  deriving DecidableEq, Repr

namespace RegAccess
variable {ρ α : Type} [DecidableEq ρ]

def written (r : ρ) : RegAccess ρ α → Option α
  | .read _ _ => none
  | .write r' v => if r' = r then some v else none

def seen (r : ρ) : RegAccess ρ α → Option α
  | .read r' v => if r' = r then some v else none
  | .write r' v => if r' = r then some v else none

end RegAccess

/-- Rules for the order of events: where each one leads to, if it is allowed. -/
structure Rules (φ ι : Type) where
  start : φ
  next : φ → ι → Option φ

namespace Rules
variable {φ ι : Type} (R : Rules φ ι)

/-- Where a trace leads to, if all of it is allowed. -/
def phase (trace : List ι) : Option φ := trace.foldlM R.next R.start

variable {R}

theorem phase_append (pre post : List ι) :
    R.phase (pre ++ post) = (R.phase pre).bind fun p => post.foldlM R.next p :=
  List.foldlM_append

theorem phase_snoc {trace : List ι} (h : R.phase trace = some p) (a : ι) :
    R.phase (trace ++ [a]) = R.next p a := by
  rw [phase_append, h, Option.bind_some, List.foldlM_cons]
  cases R.next p a <;> rfl

end Rules

end Wasabi
