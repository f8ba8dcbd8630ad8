import Mathlib.Data.Finset.Sort
import Mathlib.Data.Finset.SymmDiff

namespace Wasabi
set_option autoImplicit true

inductive KeyEvent where
  | none
  | char (c : Char)
  | unknown (usageId : UInt8)
  | enter
  deriving DecidableEq, Repr

namespace KeyEvent

/-- A character of the source, which casts it from a byte. -/
def ofByte (c : UInt8) : KeyEvent := .char (Char.ofUInt8 c)

def fromUsbKeyId (usageId : UInt8) : KeyEvent :=
  if usageId = 0 then .none
  else if 4 ≤ usageId ∧ usageId ≤ 29 then ofByte (97 + usageId - 4)
  else if 30 ≤ usageId ∧ usageId ≤ 39 then ofByte (48 + (usageId + 1) % 10)
  else if usageId = 40 then .enter
  else if usageId = 42 then ofByte 8
  else if usageId = 44 then .char ' '
  else if usageId = 45 then .char '-'
  else if usageId = 51 then .char ':'
  else if usageId = 54 then .char ','
  else if usageId = 55 then .char '.'
  else if usageId = 56 then .char '/'
  else .unknown usageId

example : fromUsbKeyId 39 = .char '0' := by decide

end KeyEvent

structure KeyLog where
  down : Bool
  id : UInt8
  event : KeyEvent
  deriving DecidableEq, Repr

/-- The keys of a report; the sets of the source iterate in ascending order. -/
def pressedKeys (report : List UInt8) : Finset UInt8 :=
  ((report.drop 2).filter (· ≠ 0)).toFinset

/-- One round of the loop of `start_usb_keyboard`: what it logs and the next `prev_pressed`. -/
def keyboardRound (prevPressed : Finset UInt8) (report : List UInt8) :
    List KeyLog × Finset UInt8 :=
  let pressed := pressedKeys report
  let diff := (symmDiff pressed prevPressed).sort
  (diff.map fun id => ⟨decide (id ∈ pressed), id, KeyEvent.fromUsbKeyId id⟩, pressed)

def keyboardLoop (reports : List (List UInt8)) : List KeyLog × Finset UInt8 :=
  reports.foldl (fun s report =>
    let (logs, pressed) := keyboardRound s.2 report
    (s.1 ++ logs, pressed)) ([], ∅)

theorem keyboardLoop_concat (reports : List (List UInt8)) (report : List UInt8) :
    keyboardLoop (reports ++ [report]) =
      ((keyboardLoop reports).1 ++ (keyboardRound (keyboardLoop reports).2 report).1,
        pressedKeys report) := by
  rw [keyboardLoop, List.foldl_append]
  rfl

def transitions (key : UInt8) (logs : List KeyLog) : List Bool :=
  (logs.filter (·.id = key)).map (·.down)

theorem transitions_append :
    transitions key (xs ++ ys) = transitions key xs ++ transitions key ys := by
  rw [transitions, List.filter_append, List.map_append]
  rfl

def Alternates (downs : List Bool) : Prop := ∀ (i : Nat) b, downs[i]? = some b → b = (i % 2 == 0)

namespace Alternates

theorem nil : Alternates [] := by
  intro i b h
  cases h

theorem getLast (h : Alternates downs) :
    downs.getLast? = some true ↔ downs.length % 2 = 1 := by
  rw [List.getLast?_eq_getElem?]
  rcases Nat.eq_zero_or_pos downs.length with hz | hpos
  · rw [List.length_eq_zero_iff.1 hz]
    decide
  · have hlt : downs.length - 1 < downs.length := by omega
    have hlast := h _ _ (List.getElem?_eq_getElem hlt)
    rw [List.getElem?_eq_getElem hlt, hlast, Option.some.injEq, beq_iff_eq]
    omega

theorem concat (h : Alternates downs) (hb : b = true ↔ downs.getLast? ≠ some true) :
    Alternates (downs ++ [b]) := by
  intro i c hc
  rcases Nat.lt_trichotomy i downs.length with hlt | heq | hgt
  · rw [List.getElem?_append_left hlt] at hc
    exact h i c hc
  · subst heq
    rw [List.getElem?_concat_length, Option.some.injEq] at hc
    subst hc
    rw [Bool.eq_iff_iff, hb, ne_eq, h.getLast, beq_iff_eq]
    omega
  · rw [List.getElem?_eq_none (by simp; omega)] at hc
    cases hc

end Alternates

/-- A round logs one event for each key whose state it changes. -/
theorem keyboardRound_transitions (prevPressed : Finset UInt8) (report : List UInt8) (key : UInt8) :
    transitions key (keyboardRound prevPressed report).1 =
      if key ∈ pressedKeys report ↔ key ∈ prevPressed then []
      else [decide (key ∈ pressedKeys report)] := by
  have hfilter : transitions key (keyboardRound prevPressed report).1 =
      ((symmDiff (pressedKeys report) prevPressed).sort.filter (· = key)).map
        fun key => decide (key ∈ pressedKeys report) := by
    simp only [transitions, keyboardRound, List.filter_map, List.map_map]
    rfl
  have hmem : key ∈ (symmDiff (pressedKeys report) prevPressed).sort ↔
      ¬(key ∈ pressedKeys report ↔ key ∈ prevPressed) := by
    rw [Finset.mem_sort, Finset.mem_symmDiff]
    tauto
  rw [hfilter, List.filter_eq]
  split
  · next h => rw [List.count_eq_zero.2 fun hk => hmem.1 hk h, List.replicate_zero, List.map_nil]
  · next h =>
    rw [List.count_eq_one_of_mem (Finset.sort_nodup _ _) (hmem.2 h), List.replicate_one,
      List.map_singleton]

/-- The events so far replay to the keys that are held down. -/
structure KeysInv (s : List KeyLog × Finset UInt8) : Prop where
  alternates : ∀ key, Alternates (transitions key s.1)
  isDown : ∀ key, (transitions key s.1).getLast? = some true ↔ key ∈ s.2

namespace KeysInv

theorem round (h : KeysInv s) (report : List UInt8) :
    KeysInv (s.1 ++ (keyboardRound s.2 report).1, pressedKeys report) := by
  have hkey : ∀ key, Alternates (transitions key (s.1 ++ (keyboardRound s.2 report).1)) ∧
      ((transitions key (s.1 ++ (keyboardRound s.2 report).1)).getLast? = some true ↔
        key ∈ pressedKeys report) := by
    intro key
    have halt := h.alternates key
    have hdown := h.isDown key
    rw [transitions_append, keyboardRound_transitions]
    split
    · next hsame =>
      rw [List.append_nil, hdown]
      exact ⟨halt, hsame.symm⟩
    · next hchanged =>
      refine ⟨halt.concat ?_, ?_⟩
      · rw [ne_eq, hdown, decide_eq_true_eq]
        tauto
      · rw [List.getLast?_concat, Option.some.injEq, decide_eq_true_eq]
  exact ⟨fun key => (hkey key).1, fun key => (hkey key).2⟩

theorem loop (reports : List (List UInt8)) : KeysInv (keyboardLoop reports) := by
  induction reports using List.reverseRecOn with
  | nil => exact ⟨fun _ => .nil, fun key => by simp [keyboardLoop, transitions]⟩
  | append_singleton reports report ih =>
    rw [keyboardLoop_concat]
    exact ih.round report

end KeysInv

/-- What the log says after the reports `reports`, the last of which is `report`. -/
structure KeysReplayed (reports : List (List UInt8)) (report : List UInt8) : Prop where
  alternates : ∀ key, Alternates (transitions key (keyboardLoop (reports ++ [report])).1)
  isDown : ∀ key, (transitions key (keyboardLoop (reports ++ [report])).1).getLast? = some true ↔
    ∃ i, 2 ≤ i ∧ report[i]? = some key ∧ key ≠ 0
  quiet : ∀ next, pressedKeys next = pressedKeys report →
    (keyboardLoop (reports ++ [report] ++ [next])).1 = (keyboardLoop (reports ++ [report])).1

theorem mem_pressedKeys :
    key ∈ pressedKeys report ↔ ∃ i, 2 ≤ i ∧ report[i]? = some key ∧ key ≠ 0 := by
  rw [pressedKeys, List.mem_toFinset, List.mem_filter, List.mem_iff_getElem?]
  simp only [List.getElem?_drop, decide_eq_true_eq]
  constructor
  · rintro ⟨⟨i, hi⟩, hne⟩
    exact ⟨2 + i, by omega, hi, hne⟩
  · rintro ⟨i, hle, hi, hne⟩
    exact ⟨⟨i - 2, by rwa [Nat.add_sub_cancel' hle]⟩, hne⟩

/-- The log of the keyboard loop replays the state of every key, whatever is reported. -/
theorem keyboard_replays (reports : List (List UInt8)) (report : List UInt8) :
    KeysReplayed reports report where
  alternates := (KeysInv.loop _).alternates
  isDown key := by
    rw [(KeysInv.loop _).isDown, keyboardLoop_concat]
    exact mem_pressedKeys
  quiet next hnext := by
    rw [keyboardLoop_concat _ next, keyboardLoop_concat reports report]
    have hdiff : (keyboardRound (pressedKeys report) next).1 = [] := by
      simp [keyboardRound, hnext]
    rw [hdiff, List.append_nil]

end Wasabi
