import QueryTree.Entries
import QueryTree.Number.Binary64
/-!
JSON values. The members of an object are ordered, and the first member of a name counts.
-/

namespace QueryTree

namespace Json

def negativeCount : Nat :=
  0x8000000000000000

/-- A number: a natural of 64 bits, the negative integer -(`k` + 1) of 64 bits, or a binary number. -/
inductive Number where
  | natural (n : UInt64)
  | negative (k : Fin negativeCount)
  | double (x : Binary64)
deriving DecidableEq

end Json

inductive Json where
  | null
  | bool (b : Bool)
  | number (n : Json.Number)
  | string (s : String)
  | array (items : List Json)
  | object (members : List (String × Json))

namespace Json

abbrev Members := Entries Json

def text? : Json → Option String
  | .string s => some s
  | _ => none

def natural? : Json → Option UInt64
  | .number (.natural n) => some n
  | _ => none

def items? : Json → Option (List Json)
  | .array items => some items
  | _ => none

def members? : Json → Option Members
  | .object members => some members
  | _ => none

def member? (v : Json) (name : String) : Option Json :=
  v.members?.bind (Entries.get? · name)

def isTextOrNull : Json → Bool
  | .null | .string _ => true
  | _ => false

/-- Induction on the values that stand in objects; a list has no names by which to reach its items. -/
@[elab_as_elim]
theorem memberInduction {motive : Json → Prop}
    (object : ∀ members : Members, (∀ m ∈ members, motive m.2) → motive (.object members))
    (other : ∀ v : Json, v.members? = none → motive v) (v : Json) : motive v := by
  cases v with
  | object members =>
    refine object members fun m hm => ?_
    have := List.sizeOf_lt_of_mem hm
    exact memberInduction object other m.2
  | null | bool | number | string | array => exact other _ rfl
termination_by sizeOf v
decreasing_by
  obtain ⟨name, w⟩ := m
  simp at this ⊢
  omega

mutual

def decEq : (v w : Json) → Decidable (v = w)
  | .null, w => match w with
    | .null => isTrue rfl
    | .bool _ | .number _ | .string _ | .array _ | .object _ => isFalse nofun
  | .bool a, w => match w with
    | .bool b => decidable_of_iff (a = b) (by simp)
    | .null | .number _ | .string _ | .array _ | .object _ => isFalse nofun
  | .number a, w => match w with
    | .number b => decidable_of_iff (a = b) (by simp)
    | .null | .bool _ | .string _ | .array _ | .object _ => isFalse nofun
  | .string a, w => match w with
    | .string b => decidable_of_iff (a = b) (by simp)
    | .null | .bool _ | .number _ | .array _ | .object _ => isFalse nofun
  | .array as, w => match w with
    | .array bs =>
      have := decEqItems as bs
      decidable_of_iff (as = bs) (by simp)
    | .null | .bool _ | .number _ | .string _ | .object _ => isFalse nofun
  | .object as, w => match w with
    | .object bs =>
      have := decEqMembers as bs
      decidable_of_iff (as = bs) (by simp)
    | .null | .bool _ | .number _ | .string _ | .array _ => isFalse nofun

def decEqItems : (as bs : List Json) → Decidable (as = bs)
  | [], [] => isTrue rfl
  | [], _ :: _ | _ :: _, [] => isFalse nofun
  | a :: as, b :: bs =>
    have := decEq a b
    have := decEqItems as bs
    decidable_of_iff (a = b ∧ as = bs) (by simp)

def decEqMembers : (as bs : List (String × Json)) → Decidable (as = bs)
  | [], [] => isTrue rfl
  | [], _ :: _ | _ :: _, [] => isFalse nofun
  | (k, a) :: as, (l, b) :: bs =>
    have := decEq a b
    have := decEqMembers as bs
    decidable_of_iff (k = l ∧ a = b ∧ as = bs) (by simp [and_assoc])

end

instance : DecidableEq Json := decEq

end Json

end QueryTree
