import Mathlib.Tactic.Lemma
import QueryTree.Json.Reader
/-! Induction over reading. A property of values and of the number of containers around them holds of everything that
is read, if it holds of what is no container and passes from the parts of a container to the container. -/

namespace QueryTree.Json

def isContainer : Json → Bool
  | .array _ | .object _ => true
  | .null | .bool _ | .number _ | .string _ => false

/-- Containers have `good` from their parts, inside fewer than `room` others; a name repeated in an object replaces the
value of its first member. -/
structure Inherited (room : Nat) (good : Nat → Json → Prop) : Prop where
  plain : ∀ {depth v}, depth ≤ room → v.isContainer = false → good depth v
  array : ∀ {depth items}, depth < room → (∀ v ∈ items, good (depth + 1) v) → good depth (.array items)
  object : ∀ {depth} {ms : Members}, depth < room → ms.keys.Nodup → (∀ m ∈ ms, good (depth + 1) m.2) →
    good depth (.object ms)

section

variable (room : Nat) (good : Nat → Json → Prop)

structure GoodItems (depth : Nat) (items : List Json) : Prop where
  fits : depth < room
  items : ∀ v ∈ items, good (depth + 1) v

structure GoodMembers (depth : Nat) (ms : Members) : Prop where
  fits : depth < room
  unique : ms.keys.Nodup
  members : ∀ m ∈ ms, good (depth + 1) m.2

def Enclosing.Good (depth : Nat) : Enclosing → Prop
  | .array items => GoodItems room good depth items
  | .member ms _ => GoodMembers room good depth ms

def GoodStack : List Enclosing → Prop
  | [] => True
  | e :: stack => e.Good room good stack.length ∧ GoodStack stack

def Phase.Good (depth : Nat) : Phase → Prop
  | .value => True
  | .firstItem => GoodItems room good depth []
  | .afterItem items => GoodItems room good depth items
  | .firstName => GoodMembers room good depth []
  | .name ms | .colon ms _ | .afterMember ms => GoodMembers room good depth ms

def Progress.Good : Progress → Prop
  | .reading phase stack => phase.Good room good stack.length ∧ GoodStack room good stack
  | .done v => good 0 v

end

variable {room : Nat} {good : Nat → Json → Prop} {stack : List Enclosing}

lemma goodItems_nil {depth : Nat} (h : depth < room) : GoodItems room good depth [] :=
  ⟨h, List.forall_mem_nil _⟩

lemma goodMembers_nil {depth : Nat} (h : depth < room) : GoodMembers room good depth [] :=
  ⟨h, List.nodup_nil, List.forall_mem_nil _⟩

lemma GoodMembers.insert {depth : Nat} {ms : Members} {v : Json} (h : GoodMembers room good depth ms)
    (hv : good (depth + 1) v) (name : String) : GoodMembers room good depth (ms.insert name v) := by
  refine ⟨h.fits, Entries.nodup_keys_insert h.unique name v, ?_⟩
  intro m hm
  rcases Entries.mem_insert hm with rfl | hm
  · exact hv
  · exact h.members m hm

lemma GoodStack.length_le (hs : GoodStack room good stack) : stack.length ≤ room := by
  cases stack with
  | nil => exact Nat.zero_le room
  | cons e stack =>
    cases e with
    | array | member => exact hs.1.fits

lemma good_deliver {v : Json} (hv : good stack.length v) (hs : GoodStack room good stack) :
    (deliver v stack).Good room good := by
  cases stack with
  | nil => exact hv
  | cons e stack =>
    obtain ⟨he, hs⟩ := hs
    cases e with
    | array items => exact ⟨⟨he.fits, List.forall_mem_cons.2 ⟨hv, he.items⟩⟩, hs⟩
    | member ms name => exact ⟨he.insert hv name, hs⟩

namespace Inherited

variable (h : Inherited room good)

include h

lemma startValue {t : Token} {p : Progress} (hs : GoodStack room good stack)
    (hstart : startValue room stack t = some p) : p.Good room good := by
  rw [Json.startValue.eq_def] at hstart
  split at hstart
  · obtain ⟨hroom, hstart⟩ := Option.ite_none_right_eq_some.1 hstart
    cases hstart
    exact ⟨goodMembers_nil hroom, hs⟩
  · obtain ⟨hroom, hstart⟩ := Option.ite_none_right_eq_some.1 hstart
    cases hstart
    exact ⟨goodItems_nil hroom, hs⟩
  all_goals cases hstart
  all_goals exact good_deliver (h.plain hs.length_le rfl) hs

lemma step {phase : Phase} {t : Token} {p : Progress} (hp : phase.Good room good stack.length)
    (hs : GoodStack room good stack) (hstep : step room phase stack t = some p) : p.Good room good := by
  rw [Json.step.eq_def] at hstep
  split at hstep
  · exact h.startValue hs hstep
  · cases hstep
    exact good_deliver (h.array hp.fits hp.items) hs
  · have hstack : GoodStack room good (.array [] :: stack) := ⟨hp, hs⟩
    exact h.startValue hstack hstep
  · cases hstep
    exact ⟨trivial, hp, hs⟩
  · cases hstep
    exact good_deliver (h.array hp.fits fun v hv => hp.items v (List.mem_reverse.1 hv)) hs
  · cases hstep
    exact good_deliver (h.object hp.fits hp.unique hp.members) hs
  · cases hstep
    exact ⟨hp, hs⟩
  · cases hstep
    exact ⟨hp, hs⟩
  · cases hstep
    exact ⟨trivial, hp, hs⟩
  · cases hstep
    exact ⟨hp, hs⟩
  · cases hstep
    exact good_deliver (h.object hp.fits hp.unique hp.members) hs
  · cases hstep

lemma run {phase : Phase} {ts rest : List Token} {v : Json} (hp : phase.Good room good stack.length)
    (hs : GoodStack room good stack) (hrun : run room phase stack ts = some (v, rest)) : good 0 v := by
  induction ts generalizing phase stack with
  | nil => cases hrun
  | cons t ts ih =>
    rw [Json.run] at hrun
    cases hstep : Json.step room phase stack t with
    | none => simp [hstep] at hrun
    | some p =>
      have hgood := h.step hp hs hstep
      cases p with
      | reading phase stack =>
        simp only [hstep] at hrun
        exact ih hgood.1 hgood.2 hrun
      | done w =>
        simp only [hstep, Option.some.injEq, Prod.mk.injEq] at hrun
        exact hrun.1 ▸ hgood

end Inherited

lemma Inherited.parse? (h : Inherited maxNesting good) {s : String} {v : Json} (hparse : parse? s = some v) :
    good 0 v := by
  rw [Json.parse?] at hparse
  split at hparse
  · next w hread =>
    cases hparse
    have hp : Phase.value.Good maxNesting good ([] : List Enclosing).length := trivial
    exact h.run hp trivial hread
  · cases hparse

end QueryTree.Json
