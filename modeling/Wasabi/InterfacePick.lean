import Mathlib.Data.List.Infix
import Wasabi.Descriptor
import Wasabi.LastOf

namespace Wasabi
set_option autoImplicit true

def InterfaceDescriptor.triple (this : InterfaceDescriptor) : UInt8 × UInt8 × UInt8 :=
  (this.interfaceClass, this.interfaceSubclass, this.interfaceProtocol)

structure Pick where
  config : Option ConfigDescriptor
  interface : Option InterfaceDescriptor
  epList : List EndpointDescriptor

def pickLoop (triple : UInt8 × UInt8 × UInt8) (this : Pick) : List UsbDescriptor → Pick
  | [] => this
  | .config e :: rest =>
    if this.interface.isSome then this  -- `break`
    else pickLoop triple { this with config := some e, epList := [] } rest
  | .interface e :: rest =>
    if triple = e.triple then pickLoop triple { this with interface := some e } rest
    else pickLoop triple this rest
  | .endpoint e :: rest => pickLoop triple { this with epList := this.epList ++ [e] } rest
  | .unknown _ _ :: rest => pickLoop triple this rest

def pickInterfaceWithTriple (descriptors : List UsbDescriptor) (triple : UInt8 × UInt8 × UInt8) :
    Option (ConfigDescriptor × InterfaceDescriptor × List EndpointDescriptor) :=
  let this := pickLoop triple ⟨none, none, []⟩ descriptors
  match this.config, this.interface with
  | some config, some interface => some (config, interface, this.epList)
  | _, _ => none

namespace UsbDescriptor

def config? : UsbDescriptor → Option ConfigDescriptor
  | .config e => some e
  | _ => none

def interface? (triple : UInt8 × UInt8 × UInt8) : UsbDescriptor → Option InterfaceDescriptor
  | .interface e => if triple = e.triple then some e else none
  | _ => none

def endpoint? : UsbDescriptor → Option EndpointDescriptor
  | .endpoint e => some e
  | _ => none

def endsInterface : UsbDescriptor → Bool
  | .config _ => true
  | .interface _ => true
  | _ => false

end UsbDescriptor

open UsbDescriptor

def endpoints (ds : List UsbDescriptor) : List EndpointDescriptor := ds.filterMap endpoint?

/-- The endpoints of the interface that `post` stands behind. -/
def ownEndpoints (post : List UsbDescriptor) : List EndpointDescriptor :=
  endpoints (post.takeWhile fun d => !d.endsInterface)

def Configured (ds : List UsbDescriptor) (triple : UInt8 × UInt8 × UInt8) : Prop :=
  ∃ pre e post, ds = pre ++ .interface e :: post ∧ e.triple = triple ∧ ∃ c, .config c ∈ pre

/-- Something is picked when a configuration has the triple behind it; what is picked is an
interface of the list, the configuration it belongs to and its own endpoints. -/
structure CoherentPick (ds : List UsbDescriptor) (triple : UInt8 × UInt8 × UInt8)
    (picked : Option (ConfigDescriptor × InterfaceDescriptor × List EndpointDescriptor)) :
    Prop where
  isSome_iff : picked.isSome ↔ Configured ds triple
  coherent : ∀ c i eps, picked = some (c, i, eps) →
    ∃ pre post, ds = pre ++ .interface i :: post ∧ i.triple = triple ∧
      lastOf config? pre = some c ∧ eps = ownEndpoints post

/-- The first configuration with the triple: its descriptors `block`, the last interface among them
that has the triple, and the configurations behind it. -/
structure FirstBlock (ds : List UsbDescriptor) (triple : UInt8 × UInt8 × UInt8)
    (pre : List UsbDescriptor) (c : ConfigDescriptor) (block : List UsbDescriptor)
    (i : InterfaceDescriptor) (rest : List UsbDescriptor) : Prop where
  eq : ds = pre ++ .config c :: (block ++ rest)
  before : lastOf (interface? triple) pre = none
  within : lastOf config? block = none
  last : lastOf (interface? triple) block = some i
  ends : rest = [] ∨ ∃ c' rest', rest = .config c' :: rest'

/-- No endpoint of a block stands before the interface or behind the next one. -/
def OwnBlock (block : List UsbDescriptor) (i : InterfaceDescriptor) : Prop :=
  ∃ front behind, block = front ++ .interface i :: behind ∧ endpoints front = [] ∧
    ownEndpoints behind = endpoints behind

/-- The same configuration comes again, with the same interface and endpoints. -/
def Repeated (c : ConfigDescriptor) (i : InterfaceDescriptor) (eps : List EndpointDescriptor)
    (rest : List UsbDescriptor) : Prop :=
  ∃ mid front behind, rest = mid ++ .config c :: (front ++ .interface i :: behind) ∧
    lastOf config? front = none ∧ ownEndpoints behind = eps

/-- The lists that keep the interfaces with the triple apart from the others. -/
structure Separated (ds : List UsbDescriptor) (triple : UInt8 × UInt8 × UInt8) : Prop where
  configured : ∀ pre c post, ds = pre ++ .config c :: post → lastOf config? pre = none →
    lastOf (interface? triple) pre ≠ none → lastOf (interface? triple) post = none
  own : ∀ pre c block i rest, FirstBlock ds triple pre c block i rest →
    OwnBlock block i ∨ Repeated c i (endpoints block) rest

theorem interface?_endpoint : interface? triple (.endpoint e) = none := rfl

theorem interface?_unknown : interface? triple (.unknown len ty) = none := rfl

theorem interface?_eq_some (h : interface? triple d = some i) :
    d = .interface i ∧ i.triple = triple := by
  cases d with
  | interface e =>
    rw [interface?] at h
    split at h
    · next heq =>
      cases h
      exact ⟨rfl, heq.symm⟩
    · cases h
  | config e => cases h
  | endpoint e => cases h
  | unknown len ty => cases h

theorem interface?_matching (h : i.triple = triple) : interface? triple (.interface i) = some i :=
  if_pos h.symm

theorem config?_eq_some (h : config? d = some c) : d = .config c := by
  cases d with
  | config e =>
    cases h
    rfl
  | interface e => cases h
  | endpoint e => cases h
  | unknown len ty => cases h

section
variable (triple : UInt8 × UInt8 × UInt8) (this : Pick) (xs ys : List UsbDescriptor)

theorem pickLoop_block (h : lastOf config? xs = none) :
    pickLoop triple this (xs ++ ys) =
      pickLoop triple ⟨this.config, (lastOf (interface? triple) xs).or this.interface,
        this.epList ++ endpoints xs⟩ ys := by
  induction xs generalizing this with
  | nil =>
    rw [endpoints, List.filterMap_nil, List.append_nil]
    rfl
  | cons d xs ih =>
    rw [lastOf_cons, Option.or_eq_none_iff] at h
    have hrest := fun this => ih this h.1
    rw [List.cons_append, lastOf_cons]
    cases d with
    | config e => cases h.2
    | interface e =>
      rw [pickLoop, interface?]
      by_cases heq : triple = e.triple
      · rw [if_pos heq, if_pos heq, hrest, Option.or_assoc]
        rfl
      · rw [if_neg heq, if_neg heq, hrest, Option.or_none]
        rfl
    | endpoint e =>
      rw [pickLoop, hrest, List.append_assoc, interface?_endpoint, Option.or_none]
      rfl
    | unknown len ty =>
      rw [pickLoop, hrest, interface?_unknown, Option.or_none]
      rfl

theorem pickLoop_before (hthis : this.interface = none) (h : lastOf (interface? triple) xs = none) :
    ∃ this' : Pick, this'.interface = none ∧
      pickLoop triple this (xs ++ ys) = pickLoop triple this' ys := by
  induction xs generalizing this with
  | nil => exact ⟨this, hthis, rfl⟩
  | cons d xs ih =>
    rw [lastOf_cons, Option.or_eq_none_iff] at h
    have hrest := fun this hthis => ih this hthis h.1
    rw [List.cons_append]
    cases d with
    | config e =>
      rw [pickLoop, hthis, Option.isSome_none, if_neg Bool.false_ne_true]
      exact hrest _ rfl
    | interface e =>
      have hne : ¬triple = e.triple := by
        intro heq
        have hsome := h.2
        rw [interface?, if_pos heq] at hsome
        cases hsome
      rw [pickLoop, if_neg hne]
      exact hrest this hthis
    | endpoint e =>
      rw [pickLoop]
      exact hrest _ hthis
    | unknown len ty =>
      rw [pickLoop]
      exact hrest this hthis

theorem pickLoop_ends (hthis : this.interface = some i)
    (h : ys = [] ∨ ∃ c rest, ys = .config c :: rest) : pickLoop triple this ys = this := by
  obtain rfl | ⟨c, rest, rfl⟩ := h
  · rfl
  · rw [pickLoop, hthis]
    rfl

end

/-- The first configuration with the triple is the one that is picked from. -/
theorem FirstBlock.pick (h : FirstBlock ds triple pre c block i rest) :
    pickInterfaceWithTriple ds triple = some (c, i, endpoints block) := by
  obtain ⟨this, hthis, hloop⟩ :=
    pickLoop_before triple ⟨none, none, []⟩ pre (.config c :: (block ++ rest)) rfl h.before
  rw [← h.eq, pickLoop, hthis, Option.isSome_none, if_neg Bool.false_ne_true,
    pickLoop_block triple _ block rest h.within, h.last, pickLoop_ends triple _ rest rfl h.ends]
    at hloop
  rw [pickInterfaceWithTriple, hloop]
  rfl

/-- An interface with the triple before the first configuration ends the loop there. -/
theorem pick_early (hds : ds = pre ++ .config c :: post) (hconfig : lastOf config? pre = none)
    (hmatch : lastOf (interface? triple) pre ≠ none) :
    pickInterfaceWithTriple ds triple = none := by
  obtain ⟨e, he⟩ := Option.ne_none_iff_exists'.1 hmatch
  rw [pickInterfaceWithTriple, hds, pickLoop_block triple _ pre _ hconfig, he,
    pickLoop_ends triple _ _ rfl (.inr ⟨c, post, rfl⟩)]

theorem pick_unconfigured (h : lastOf config? ds = none) :
    pickInterfaceWithTriple ds triple = none := by
  have hloop := pickLoop_block triple ⟨none, none, []⟩ ds [] h
  rw [List.append_nil] at hloop
  rw [pickInterfaceWithTriple, hloop]
  rfl

theorem pick_unmatched (h : lastOf (interface? triple) ds = none) :
    pickInterfaceWithTriple ds triple = none := by
  obtain ⟨this, hthis, hloop⟩ := pickLoop_before triple ⟨none, none, []⟩ ds [] rfl h
  rw [List.append_nil, pickLoop] at hloop
  rw [pickInterfaceWithTriple, hloop, hthis]
  cases this.config <;> rfl

section
variable {triple : UInt8 × UInt8 × UInt8} {ds pre q block rest : List UsbDescriptor}
variable {c : ConfigDescriptor} {i : InterfaceDescriptor}

theorem not_mem_of_lastOf (h : lastOf config? ds = none) : .config c ∉ ds := by
  intro hmem
  cases (lastOf_eq_none _ _).1 h _ hmem

theorem configured_iff (hds : ds = pre ++ .config c :: q) (hpre : lastOf config? pre = none) :
    Configured ds triple ↔ lastOf (interface? triple) q ≠ none := by
  constructor
  · rintro ⟨front, e, behind, heq, he, c', hc'⟩ hnone
    rw [hds] at heq
    rcases append_eq_append_cons heq with ⟨between, hfront, _⟩ | ⟨between, hfront, hq⟩
    · rw [hfront, lastOf_append, Option.or_eq_none_iff] at hpre
      exact not_mem_of_lastOf hpre.2 hc'
    · cases between with
      | nil => cases hq
      | cons d between =>
        rw [List.cons_append, List.cons.injEq] at hq
        rw [hq.2, lastOf_append, lastOf_cons, interface?_matching he] at hnone
        cases hlast : lastOf (interface? triple) behind <;> rw [hlast] at hnone <;> cases hnone
  · intro hq
    obtain ⟨e, he⟩ := Option.ne_none_iff_exists'.1 hq
    obtain ⟨front, d, behind, rfl, hd, _⟩ := (lastOf_eq_some _ _).1 he
    obtain ⟨rfl, htriple⟩ := interface?_eq_some hd
    refine ⟨pre ++ .config c :: front, e, behind, ?_, htriple, c, ?_⟩
    · rw [hds, List.append_assoc, List.cons_append]
    · exact List.mem_append_right _ List.mem_cons_self

theorem not_configured (h : lastOf config? ds = none) : ¬Configured ds triple := by
  rintro ⟨front, e, behind, rfl, _, c, hc⟩
  rw [lastOf_append, Option.or_eq_none_iff] at h
  exact not_mem_of_lastOf h.2 hc

theorem exists_firstBlock (hpre : lastOf (interface? triple) pre = none)
    (hq : lastOf (interface? triple) q ≠ none) :
    ∃ pre' c' block i rest, FirstBlock (pre ++ .config c :: q) triple pre' c' block i rest := by
  induction hn : q.length using Nat.strong_induction_on generalizing pre c q with
  | _ n ih =>
  rcases exists_first config? q with hnone | ⟨block, d, q', c', rfl, hblock, hd⟩
  · obtain ⟨i, hi⟩ := Option.ne_none_iff_exists'.1 hq
    refine ⟨pre, c, q, i, [], ?_, hpre, hnone, hi, .inl rfl⟩
    rw [List.append_nil]
  · obtain rfl := config?_eq_some hd
    cases hi : lastOf (interface? triple) block with
    | some i => exact ⟨pre, c, block, i, _, rfl, hpre, hblock, hi, .inr ⟨c', q', rfl⟩⟩
    | none =>
      have hpre' : lastOf (interface? triple) (pre ++ .config c :: block) = none := by
        rw [lastOf_append, lastOf_cons, hi, hpre]
        rfl
      have hq' : lastOf (interface? triple) q' ≠ none := by
        intro hnone
        rw [lastOf_append, lastOf_cons, hi, hnone] at hq
        exact hq rfl
      have hlt : q'.length < n := by
        rw [← hn, List.length_append, List.length_cons]
        omega
      have hfirst := ih _ hlt (c := c') hpre' hq' rfl
      rw [List.append_assoc, List.cons_append] at hfirst
      exact hfirst

theorem endpoints_append : endpoints (ds ++ rest) = endpoints ds ++ endpoints rest :=
  List.filterMap_append

theorem endpoints_interface : endpoints (.interface i :: ds) = endpoints ds := rfl

theorem ownEndpoints_length (ds : List UsbDescriptor) :
    (ownEndpoints ds).length ≤ (endpoints ds).length :=
  ((List.takeWhile_prefix _).filterMap _).length_le

theorem ownEndpoints_append (h : rest = [] ∨ ∃ c' rest', rest = .config c' :: rest') :
    ownEndpoints (ds ++ rest) = ownEndpoints ds := by
  have hrest : rest.takeWhile (fun d => !d.endsInterface) = [] := by
    obtain rfl | ⟨c', rest', rfl⟩ := h <;> rfl
  rw [ownEndpoints, List.takeWhile_append, hrest, List.append_nil, ownEndpoints]
  split
  · next hall =>
    rw [(List.takeWhile_prefix _).eq_of_length hall]
  · rfl

theorem lastOf_front (h : rest = [] ∨ ∃ c' rest', rest = .config c' :: rest')
    (hrest : rest = front ++ .interface i :: post) : ∃ c, lastOf config? front = some c := by
  cases front with
  | nil =>
    obtain rfl | ⟨c', rest', rfl⟩ := h <;> cases hrest
  | cons d front =>
    obtain rfl | ⟨c', rest', rfl⟩ := h
    · cases hrest
    · rw [List.cons_append, List.cons.injEq] at hrest
      rw [lastOf_cons, ← hrest.1]
      cases lastOf config? front with
      | none => exact ⟨c', rfl⟩
      | some c => exact ⟨c, rfl⟩

theorem FirstBlock.occurrence (h : FirstBlock ds triple pre c block i rest)
    (hds : ds = pre' ++ .interface i :: post') (hc : lastOf config? pre' = some c)
    (heps : endpoints block = ownEndpoints post') :
    OwnBlock block i ∨ Repeated c i (endpoints block) rest := by
  obtain ⟨_, d, _, _, hd, _⟩ := (lastOf_eq_some _ _).1 h.last
  obtain ⟨rfl, htriple⟩ := interface?_eq_some hd
  have heq := h.eq.symm.trans hds
  rcases append_eq_append_cons heq with ⟨between, hpre, _⟩ | ⟨between, rfl, hbetween⟩
  · have hbefore := h.before
    rw [hpre, lastOf_append, lastOf_cons, interface?_matching htriple] at hbefore
    cases hlast : lastOf (interface? triple) between <;> rw [hlast] at hbefore <;> cases hbefore
  cases between with
  | nil => cases hbetween
  | cons d between =>
  rw [List.cons_append, List.cons.injEq] at hbetween
  obtain ⟨rfl, hbetween⟩ := hbetween
  rcases append_eq_append_cons hbetween with ⟨behind, hblock, rfl⟩ | ⟨front, rfl, hrest⟩
  · left
    rw [ownEndpoints_append h.ends, hblock, endpoints_append, endpoints_interface] at heps
    have hlen := congrArg List.length heps
    have hle := ownEndpoints_length behind
    rw [List.length_append] at hlen
    have hnil : endpoints between = [] := List.eq_nil_of_length_eq_zero (by omega)
    rw [hnil] at heps
    exact ⟨between, behind, hblock, hnil, heps.symm⟩
  · right
    obtain ⟨c', hc'⟩ := lastOf_front h.ends hrest
    have hsame : lastOf config? front = some c := by
      rw [lastOf_append, lastOf_cons, lastOf_append, hc'] at hc
      rw [hc']
      exact hc
    obtain ⟨mid, d, front, rfl, hd, hfront⟩ := (lastOf_eq_some _ _).1 hsame
    obtain rfl := config?_eq_some hd
    refine ⟨mid, front, post', ?_, hfront, heps.symm⟩
    rw [hrest, List.append_assoc, List.cons_append]

theorem FirstBlock.coherent (h : FirstBlock ds triple pre c block i rest)
    (hown : OwnBlock block i ∨ Repeated c i (endpoints block) rest) :
    ∃ pre post, ds = pre ++ .interface i :: post ∧ i.triple = triple ∧
      lastOf config? pre = some c ∧ endpoints block = ownEndpoints post := by
  obtain ⟨_, d, _, _, hd, _⟩ := (lastOf_eq_some _ _).1 h.last
  obtain ⟨rfl, htriple⟩ := interface?_eq_some hd
  rcases hown with ⟨front, behind, rfl, hfront, hbehind⟩ | ⟨mid, front, behind, rfl, hfront, heps⟩
  · have hwithin := h.within
    rw [lastOf_append, Option.or_eq_none_iff] at hwithin
    refine ⟨pre ++ .config c :: front, behind ++ rest, ?_, htriple, ?_, ?_⟩
    · rw [h.eq]
      simp only [List.append_assoc, List.cons_append]
    · rw [lastOf_append, lastOf_cons, hwithin.2]
      rfl
    · rw [ownEndpoints_append h.ends, hbehind, endpoints_append, hfront]
      rfl
  · refine ⟨pre ++ .config c :: (block ++ (mid ++ .config c :: front)), behind, ?_, htriple, ?_,
      heps.symm⟩
    · rw [h.eq]
      simp only [List.append_assoc, List.cons_append]
    · simp only [lastOf_append, lastOf_cons, hfront]
      rfl

theorem coherentPick_none (h : ¬Configured ds triple) : CoherentPick ds triple none := by
  refine ⟨iff_of_false Bool.false_ne_true h, ?_⟩
  intro c i eps hpicked
  cases hpicked

end

/-- The pick is coherent exactly for the lists that keep the interfaces with the triple apart. -/
theorem pick_coherent_iff (ds : List UsbDescriptor) (triple : UInt8 × UInt8 × UInt8) :
    CoherentPick ds triple (pickInterfaceWithTriple ds triple) ↔ Separated ds triple := by
  constructor
  · intro h
    constructor
    case configured =>
      intro pre c post hds hpre hmatch
      by_contra hpost
      have hsome := h.isSome_iff.2 ((configured_iff hds hpre).2 hpost)
      rw [pick_early hds hpre hmatch] at hsome
      cases hsome
    case own =>
      intro pre c block i rest hfirst
      obtain ⟨pre', post', hds, _, hc, heps⟩ := h.coherent c i _ hfirst.pick
      exact hfirst.occurrence hds hc heps
  · intro h
    rcases exists_first config? ds with hnone | ⟨pre, d, q, c, hds, hpre, hd⟩
    · rw [pick_unconfigured hnone]
      exact coherentPick_none (not_configured hnone)
    obtain rfl := config?_eq_some hd
    have hconfigured : Configured ds triple ↔ _ := configured_iff hds hpre
    by_cases hmatch : lastOf (interface? triple) pre = none
    · by_cases hq : lastOf (interface? triple) q = none
      · have hall : lastOf (interface? triple) ds = none := by
          rw [hds, lastOf_append, lastOf_cons, hq, hmatch]
          rfl
        rw [pick_unmatched hall]
        exact coherentPick_none fun hc => hconfigured.1 hc hq
      · obtain ⟨pre', c', block, i, rest, hfirst⟩ := exists_firstBlock (c := c) hmatch hq
        rw [← hds] at hfirst
        rw [hfirst.pick]
        refine ⟨iff_of_true rfl (hconfigured.2 hq), ?_⟩
        intro c i eps hpicked
        cases hpicked
        exact hfirst.coherent (h.own _ _ _ _ _ hfirst)
    · rw [pick_early hds hpre hmatch]
      exact coherentPick_none fun hc => hconfigured.1 hc (h.configured _ _ _ hds hpre hmatch)

/-- A mouse and a boot keyboard in one configuration. -/
def compositeDescriptors : List UsbDescriptor :=
  [.config ⟨9, 2, 59, 2, 1, 0, 0xa0, 50⟩,
    .interface ⟨9, 4, 0, 0, 1, 3, 1, 2, 0⟩, .unknown 9 0x21, .endpoint ⟨7, 5, 0x81, 3, 4, 10⟩,
    .interface ⟨9, 4, 1, 0, 1, 3, 1, 1, 0⟩, .unknown 9 0x21, .endpoint ⟨7, 5, 0x82, 3, 8, 10⟩]

/-- The keyboard is picked with the endpoint of the mouse. -/
theorem pick_composite :
    pickInterfaceWithTriple compositeDescriptors (3, 1, 1) =
        some (⟨9, 2, 59, 2, 1, 0, 0xa0, 50⟩, ⟨9, 4, 1, 0, 1, 3, 1, 1, 0⟩,
          [⟨7, 5, 0x81, 3, 4, 10⟩, ⟨7, 5, 0x82, 3, 8, 10⟩]) ∧
      ¬CoherentPick compositeDescriptors (3, 1, 1)
        (pickInterfaceWithTriple compositeDescriptors (3, 1, 1)) := by
  refine ⟨rfl, fun h => ?_⟩
  obtain ⟨pre, post, hds, _, _, heps⟩ := h.coherent _ _ _ rfl
  have hnone : ∀ post ∈ compositeDescriptors.tails,
      ownEndpoints post ≠ [⟨7, 5, 0x81, 3, 4, 10⟩, ⟨7, 5, 0x82, 3, 8, 10⟩] := by decide
  have hsuffix : post <:+ compositeDescriptors := by
    rw [hds]
    exact (List.suffix_cons _ _).trans (List.suffix_append _ _)
  exact hnone post ((List.mem_tails _ _).2 hsuffix) heps.symm

end Wasabi
