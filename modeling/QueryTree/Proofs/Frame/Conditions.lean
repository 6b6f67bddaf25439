import Mathlib.Data.List.Induction
import QueryTree.Proofs.Frame.Calls
import QueryTree.Proofs.Frame.ConditionTexts
/-! Conditions appended to a clause. The text of the clause is put before them as it stands, so an AND takes in only
what follows the last OR of the clause. -/

namespace QueryTree.Frame

inductive ConditionClause where
  | filter
  | having

namespace ConditionClause

def text (k : ConditionClause) (b : Block) : Option String :=
  match k with
  | filter => b.filter
  | having => b.having

def set (k : ConditionClause) (s : Option String) (b : Block) : Block :=
  match k with
  | filter => { b with filter := s }
  | having => { b with having := s }

inductive Reads : Option String → Option Condition → Prop
  | absent : Reads none none
  | empty : Reads (some "") none
  | text {s : String} {c : Condition} (read : Condition.read? s = some c) : Reads (some s) (some c)

inductive Appends : ConditionClause → Call → Connective × Operand → Prop
  | filter {s : String} {a : Operand} (read : Condition.read? s = some ⟨a, []⟩) : Appends filter (.filter s) (.and, a)
  | query {s : String} {a : Operand} (op : Connective) (read : Condition.read? s = some ⟨a, []⟩) :
    Appends filter (.query s .append op) (op, a)
  | having {s : String} {a : Operand} (op : Connective) (read : Condition.read? s = some ⟨a, []⟩) :
    Appends having (.having s .append op) (op, a)

def extend (old : Option Condition) (n : Connective × Operand) : Condition :=
  match old with
  | none => ⟨n.2, []⟩
  | some c => c.extend n

def extendAll (old : Option Condition) (new : List (Connective × Operand)) : Option Condition :=
  new.foldl (fun c n => some (extend c n)) old

lemma extendAll_concat (old : Option Condition) (new : List (Connective × Operand)) (n : Connective × Operand) :
    extendAll old (new ++ [n]) = some (extend (extendAll old new) n) := by
  rw [extendAll, List.foldl_concat]
  rfl

lemma reads_combine {text : Option String} {old : Option Condition} (h : Reads text old) {s : String} {a : Operand}
    (hs : Condition.read? s = some ⟨a, []⟩) (op : Connective) :
    Reads (some (combine text s .append op)) (some (extend old (op, a))) := by
  cases h with
  | absent => exact .text hs
  | empty => exact .text hs
  | @text t c ht =>
    have hfull : t.isEmpty = false := by
      rw [String.isEmpty_eq_false_iff]
      rintro rfl
      have hempty : Condition.read? "" = none := by decide +kernel
      cases hempty.symm.trans ht
    rw [combine, if_neg (by simp [hfull])]
    exact .text (Condition.read?_append ht hs op)

variable {f : Frame} {d : Document} {k : ConditionClause}

lemma mapBlock_text (k : ConditionClause) (d : Document) : d.mapBlock (k.set (k.text d.block)) = d := by
  cases k <;> cases d <;> rfl

lemma mapBlock_mapBlock (k : ConditionClause) (s t : Option String) (d : Document) :
    (d.mapBlock (k.set s)).mapBlock (k.set t) = d.mapBlock (k.set t) := by
  cases k <;> cases d <;> rfl

lemma text_mapBlock (k : ConditionClause) (s : Option String) (d : Document) :
    k.text (d.mapBlock (k.set s)).block = s := by
  cases k <;> cases d <;> rfl

lemma Appends.run {call : Call} {n : Connective × Operand} (h : Appends k call n) (hd : f.document = some d)
    (hunion : d.isUnion = false) {old : Option Condition} (hold : Reads (k.text d.block) old) :
    ∃ s, call.run f = .ok { f with document := some (d.mapBlock (k.set s)) } ∧ Reads s (some (extend old n)) := by
  cases h with
  | @filter s a hs =>
    refine ⟨_, ?_, reads_combine hold hs .and⟩
    rw [Call.run, Frame.filter, Frame.query, editBlock_of_not_union hd hunion]
    cases d <;> rfl
  | @query s a op hs =>
    refine ⟨_, ?_, reads_combine hold hs op⟩
    rw [Call.run, Frame.query, editBlock_of_not_union hd hunion]
    cases d <;> rfl
  | @having s a op hs =>
    refine ⟨_, ?_, reads_combine hold hs op⟩
    rw [Call.run, Frame.having, editBlock_of_not_union hd hunion]
    cases d <;> rfl

lemma exists_runAll {calls : List Call} {new : List (Connective × Operand)} (h : List.Forall₂ (Appends k) calls new)
    (hd : f.document = some d) (hunion : d.isUnion = false) {old : Option Condition}
    (hold : Reads (k.text d.block) old) : ∃ s,
      f.runAll calls = .ok { f with document := some (d.mapBlock (k.set s)) } ∧ Reads s (extendAll old new) := by
  induction h generalizing f d old with
  | nil =>
    refine ⟨k.text d.block, ?_, hold⟩
    rw [mapBlock_text, ← hd]
    rfl
  | @cons call n calls new hcall _ ih =>
    obtain ⟨s, hrun, hs⟩ := hcall.run hd hunion hold
    obtain ⟨t, hruns, ht⟩ := ih (f := { f with document := some (d.mapBlock (k.set s)) }) rfl
      (by rw [Document.isUnion_mapBlock, hunion]) (by rw [text_mapBlock]; exact hs)
    refine ⟨t, runAll_cons_eq_ok_iff.2 ⟨_, hrun, ?_⟩, ht⟩
    rw [hruns, mapBlock_mapBlock]

def value (holds : Operand → Bool) (c : Option Condition) : Option Bool :=
  c.map fun c => c.value holds

def connect (op : Connective) (a b : Bool) : Bool :=
  match op with
  | .and => a && b
  | .or => a || b

/-- The truth of a clause after each operand was connected with all that was there. -/
def leftToRight (holds : Operand → Bool) (old : Option Bool) (new : List (Connective × Operand)) : Option Bool :=
  new.foldl (fun v n => some (v.elim (holds n.2) fun v => connect n.1 v (holds n.2))) old

lemma leftToRight_concat (holds : Operand → Bool) (old : Option Bool) (new : List (Connective × Operand))
    (n : Connective × Operand) : leftToRight holds old (new ++ [n]) =
      some ((leftToRight holds old new).elim (holds n.2) fun v => connect n.1 v (holds n.2)) := by
  rw [leftToRight, List.foldl_concat]
  rfl

/-- Each AND that was appended takes in all alternatives of the clause before it. -/
def AndsReachAll (old : Option Condition) (new : List (Connective × Operand)) : Prop :=
  ∀ before a c, before ++ [(.and, a)] <+: new → extendAll old before = some c → c.LeavesNoneOut a

lemma value_extend_eq_iff {c : Option Condition} {n : Connective × Operand} :
    (∀ holds, (extend c n).value holds = (value holds c).elim (holds n.2) fun v => connect n.1 v (holds n.2)) ↔
      ∀ c', c = some c' → n.1 = .and → c'.LeavesNoneOut n.2 := by
  obtain ⟨op, a⟩ := n
  cases c with
  | none =>
    simp [extend, value, Condition.value, Condition.alternatives, Condition.alternativesFrom]
  | some c =>
    cases op with
    | and => simpa [extend, value, connect] using Condition.value_extend_and_iff
    | or => simpa [extend, value, connect] using fun holds => c.value_extend_or holds a

lemma values_eq_iff {old : Option Condition} {new : List (Connective × Operand)} :
    (∀ before, before <+: new → ∀ holds,
      value holds (extendAll old before) = leftToRight holds (value holds old) before) ↔ AndsReachAll old new := by
  constructor
  · intro h before a c hbefore hc
    have heq : ∀ holds, (extend (extendAll old before) (.and, a)).value holds =
        (value holds (extendAll old before)).elim (holds a) fun v => connect .and v (holds a) := by
      intro holds
      have hafter := h _ hbefore holds
      rw [extendAll_concat, leftToRight_concat, ← h before ((List.prefix_append _ _).trans hbefore)] at hafter
      exact Option.some.inj hafter
    exact value_extend_eq_iff.1 heq c hc rfl
  · intro h before
    induction before using List.reverseRecOn with
    | nil => exact fun _ _ => rfl
    | append_singleton before n ih =>
      intro hbefore holds
      -- up to the last call text and combination agree, and the last call adds `n` to both
      have hreach : ∀ c, extendAll old before = some c → n.1 = .and → c.LeavesNoneOut n.2 := by
        obtain ⟨op, a⟩ := n
        rintro c hc rfl
        exact h before a c hbefore hc
      rw [extendAll_concat, leftToRight_concat, ← ih ((List.prefix_append _ _).trans hbefore)]
      exact congrArg some (value_extend_eq_iff.2 hreach holds)

/-- Calls that append operands to a clause change only its text, which is read as the old condition with the operands
behind it. It has the value of connecting left to right after each call exactly if each AND reaches all alternatives
before it. One more AND always implies what was there before it, and its own operand only under that condition. -/
theorem appended_conditions (hd : f.document = some d) (hunion : d.isUnion = false) (k : ConditionClause)
    {old : Option Condition} (hold : Reads (k.text d.block) old) {calls : List Call}
    {new : List (Connective × Operand)} (hcalls : List.Forall₂ (Appends k) calls new) :
    (∃ s, f.runAll calls = .ok { f with document := some (d.mapBlock (k.set s)) } ∧ Reads s (extendAll old new)) ∧
    ((∀ before, before <+: new → ∀ holds,
      value holds (extendAll old before) = leftToRight holds (value holds old) before) ↔ AndsReachAll old new) ∧
    ∀ c a, extendAll old new = some c →
      (∀ holds, (c.extend (.and, a)).value holds = true → c.value holds = true) ∧
      ((∀ holds, (c.extend (.and, a)).value holds = true → holds a = true) ↔ c.LeavesNoneOut a) ∧
      ((∀ n ∈ c.rest, n.1 = .and) → c.LeavesNoneOut a) := by
  refine ⟨exists_runAll hcalls hd hunion hold, values_eq_iff, ?_⟩
  rintro c a -
  exact ⟨fun _ => Condition.value_of_extend_and, Condition.holds_of_value_iff,
    fun hand => Condition.leavesNoneOut_of_forall_and hand a⟩

def ordersDocument : Document :=
  .table { fields := .ofList [("year", .ofType .dimension)] } { table := "orders" }

def europe : Operand := ["region", "=", "'EU'"]

def large : Operand := ["amount", ">", "100"]

def recent : Operand := ["year", "=", "2024"]

def europeanOrLarge : List Call :=
  [.filter "region = 'EU'", .query "amount > 100" .append .or, .filter "year = 2024"]

theorem appended_conditions_europeanOrLarge :
    (∃ s, runAll { document := some ordersDocument } europeanOrLarge =
        .ok { document := some (ordersDocument.mapBlock (ConditionClause.filter.set s)) } ∧
      Reads s (some ⟨europe, [(.or, large), (.and, recent)]⟩)) ∧
    ¬ AndsReachAll none [(.and, europe), (.or, large), (.and, recent)] := by
  have hcalls : List.Forall₂ (Appends .filter) europeanOrLarge [(.and, europe), (.or, large), (.and, recent)] :=
    .cons (.filter (by decide +kernel)) (.cons (.query .or (by decide +kernel))
      (.cons (.filter (by decide +kernel)) .nil))
  obtain ⟨hrun, hvalues, -⟩ :=
    appended_conditions (f := { document := some ordersDocument }) rfl rfl .filter .absent hcalls
  refine ⟨hrun, fun hreach => ?_⟩
  have hvalue := hvalues.2 hreach _ List.prefix_rfl fun a => a = europe
  exact absurd hvalue (by decide +kernel)

theorem appended_condition_leaves_alternative : ∃ g s c holds,
    runAll { document := some ordersDocument } europeanOrLarge = .ok g ∧
      (g.document.bind fun d => d.block.filter) = some s ∧
      s = "region = 'EU' or amount > 100 and year = 2024" ∧ Condition.read? s = some c ∧
      c.value holds = true ∧ holds recent = false ∧
      leftToRight holds none [(.and, europe), (.or, large), (.and, recent)] = some false :=
  ⟨_, _, ⟨europe, [(.or, large), (.and, recent)]⟩, fun a => a = europe, rfl, rfl, rfl, by decide +kernel,
    by decide +kernel, by decide +kernel, by decide +kernel⟩

end ConditionClause

end QueryTree.Frame
