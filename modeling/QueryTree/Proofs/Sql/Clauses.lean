import Mathlib.Logic.Function.Basic
import Mathlib.Tactic.Lemma
import QueryTree.Sql.Token
/-! Where lists and clauses end. In a stream of tokens, what follows a list or a clause never looks like more of it,
so that equal streams have equal lists and clauses, and equal rests. -/

namespace QueryTree.Sql

def Ends (ts : List Token) : Prop :=
  ∀ t ∈ ts.head?, t = .space ∨ t = .closeParen

def keyword? : List Token → Option Token
  | .space :: t :: _ => some t
  | _ => none

structure Resumes (keywords ts : List Token) : Prop where
  ends : Ends ts
  keyword : ∀ k, keyword? ts = some k → k ∈ keywords

structure IsItem (f : String → Token) : Prop where
  injective : Function.Injective f
  ne_comma : ∀ s, f s ≠ .comma
  ne_space : ∀ s, f s ≠ .space
  ne_closeParen : ∀ s, f s ≠ .closeParen

lemma isItem_raw : IsItem .raw :=
  ⟨fun _ _ => Token.raw.inj, nofun, nofun, nofun⟩

lemma isItem_identifier : IsItem .identifier :=
  ⟨fun _ _ => Token.identifier.inj, nofun, nofun, nofun⟩

variable {r s : List Token}

section

variable {p : Token → Prop} (hspace : p .space)

include hspace

lemma forall_mem_commaSeparated (hcomma : p .comma) {ts : List Token} (h : ∀ t ∈ ts, p t) :
    ∀ t ∈ commaSeparated ts, p t := by
  cases ts with
  | nil => exact h
  | cons t ts =>
    obtain ⟨ht, hts⟩ := List.forall_mem_cons.1 h
    refine List.forall_mem_cons.2 ⟨ht, List.forall_mem_flatMap.2 fun u hu => ?_⟩
    simp [hcomma, hspace, hts u hu]

variable {keyword : Token} (hkeyword : p keyword)

include hkeyword

lemma forall_mem_listClause (hcomma : p .comma) {items : List Token} (h : ∀ t ∈ items, p t) :
    ∀ t ∈ listClause keyword items, p t := by
  rw [listClause]
  split
  · exact List.forall_mem_nil _
  · simp only [List.forall_mem_cons]
    exact ⟨hspace, hkeyword, hspace, forall_mem_commaSeparated hspace hcomma h⟩

lemma forall_mem_optionalClause {α : Type} {f : α → Token} (hf : ∀ a, p (f a)) (o : Option α) :
    ∀ t ∈ optionalClause keyword (o.map f), p t := by
  cases o with
  | none => exact List.forall_mem_nil _
  | some a => simp [optionalClause, clause, hspace, hkeyword, hf a]

end

lemma ends_space (r : List Token) : Ends (.space :: r) := by
  rintro t ⟨⟩
  exact .inl rfl

lemma Ends.false_of_cons {t : Token} (h : Ends (t :: r)) (hspace : t ≠ .space) (hclose : t ≠ .closeParen) : False := by
  rcases h t rfl with rfl | rfl
  · exact hspace rfl
  · exact hclose rfl

section

variable {f : String → Token} (hf : IsItem f)

include hf

lemma separated_append_inj {xs ys : List String} (hr : Ends r) (hs : Ends s)
    (h : (xs.flatMap fun a => [.comma, .space, f a]) ++ r = (ys.flatMap fun a => [.comma, .space, f a]) ++ s) :
    xs = ys ∧ r = s := by
  induction xs generalizing ys with
  | nil =>
    cases ys with
    | nil => exact ⟨rfl, h⟩
    | cons y ys =>
      obtain rfl : r = _ := h
      exact (hr.false_of_cons nofun nofun).elim
  | cons x xs ih =>
    cases ys with
    | nil =>
      obtain rfl : _ = s := h
      exact (hs.false_of_cons nofun nofun).elim
    | cons y ys =>
      simp only [List.flatMap_cons, List.cons_append, List.nil_append, List.cons.injEq, true_and] at h
      obtain ⟨rfl, rfl⟩ := ih h.2
      exact ⟨by rw [hf.injective h.1], rfl⟩

lemma commaSeparated_append_inj {xs ys : List String} (hr : Ends r) (hs : Ends s)
    (h : commaSeparated (xs.map f) ++ r = commaSeparated (ys.map f) ++ s) : xs = ys ∧ r = s := by
  cases xs with
  | nil =>
    cases ys with
    | nil => exact ⟨rfl, h⟩
    | cons y ys =>
      obtain rfl : r = _ := h
      exact (hr.false_of_cons (hf.ne_space y) (hf.ne_closeParen y)).elim
  | cons x xs =>
    cases ys with
    | nil =>
      obtain rfl : _ = s := h
      exact (hs.false_of_cons (hf.ne_space x) (hf.ne_closeParen x)).elim
    | cons y ys =>
      simp only [List.map_cons, commaSeparated, List.flatMap_map, List.cons_append, List.cons.injEq] at h
      obtain ⟨rfl, rfl⟩ := separated_append_inj hf hr hs h.2
      exact ⟨by rw [hf.injective h.1], rfl⟩

end

section

variable {keywords : List Token} {keyword : Token}

lemma resumes_listClause (items : List Token) (h : Resumes keywords r) :
    Resumes (keyword :: keywords) (listClause keyword items ++ r) := by
  cases items with
  | nil => exact ⟨h.ends, fun k hk => List.mem_cons_of_mem _ (h.keyword k hk)⟩
  | cons =>
    refine ⟨ends_space _, ?_⟩
    rintro k ⟨⟩
    exact List.mem_cons_self

lemma resumes_optionalClause (operand : Option Token) (h : Resumes keywords r) :
    Resumes (keyword :: keywords) (optionalClause keyword operand ++ r) := by
  cases operand with
  | none => exact ⟨h.ends, fun k hk => List.mem_cons_of_mem _ (h.keyword k hk)⟩
  | some =>
    refine ⟨ends_space _, ?_⟩
    rintro k ⟨⟩
    exact List.mem_cons_self

variable (hk : keyword ∉ keywords) (hr : Resumes keywords r) (hs : Resumes keywords s)

include hk hr hs

lemma listClause_append_inj {f : String → Token} (hf : IsItem f) {xs ys : List String}
    (h : listClause keyword (xs.map f) ++ r = listClause keyword (ys.map f) ++ s) : xs = ys ∧ r = s := by
  cases xs with
  | nil =>
    cases ys with
    | nil => exact ⟨rfl, h⟩
    | cons y ys =>
      obtain rfl : r = _ := h
      exact absurd (hr.keyword _ rfl) hk
  | cons x xs =>
    cases ys with
    | nil =>
      obtain rfl : _ = s := h
      exact absurd (hs.keyword _ rfl) hk
    | cons y ys =>
      have hlists : commaSeparated ((x :: xs).map f) ++ r = commaSeparated ((y :: ys).map f) ++ s := by
        simpa [listClause] using h
      exact commaSeparated_append_inj hf hr.ends hs.ends hlists

lemma optionalClause_append_inj {α : Type} {f : α → Token} (hf : Function.Injective f) {o p : Option α}
    (h : optionalClause keyword (o.map f) ++ r = optionalClause keyword (p.map f) ++ s) : o = p ∧ r = s := by
  cases o with
  | none =>
    cases p with
    | none => exact ⟨rfl, h⟩
    | some y =>
      obtain rfl : r = _ := h
      exact absurd (hr.keyword _ rfl) hk
  | some x =>
    cases p with
    | none =>
      obtain rfl : _ = s := h
      exact absurd (hs.keyword _ rfl) hk
    | some y =>
      simp only [Option.map_some, optionalClause, clause, List.cons_append, List.nil_append, List.cons.injEq,
        true_and] at h
      exact ⟨by rw [hf h.1], h.2⟩

end

end QueryTree.Sql
