import QueryTree.Proofs.Document.RoundTrip
import QueryTree.Proofs.Field.WellFormed
import QueryTree.Proofs.Sql.Node
import QueryTree.Sql.Squash
/-! Rendering canonical forms. A canonical document is rendered like the document itself, but for conditions that are
the empty text: each of these leaves its keyword in the rendering, which is more than layout can hide. -/

namespace QueryTree

namespace Sql

def ink (ts : List Token) : Nat :=
  (squashChars (text ts).toList).length

lemma ink_append (ts us : List Token) : ink (ts ++ us) = ink ts + ink us := by
  simp [ink, text, String.toList_join, squashChars_append]

structure Fades (ts us : List Token) (p : Prop) : Prop where
  le : ink us ≤ ink ts
  keeps : ink us = ink ts → p
  eq : p → us = ts

section

variable {ts us ts' us' : List Token} {p q : Prop}

lemma Fades.refl (ts : List Token) (h : p) : Fades ts ts p :=
  ⟨Nat.le_refl _, fun _ => h, fun _ => rfl⟩

lemma Fades.congr (h : Fades ts us p) (hpq : p ↔ q) : Fades ts us q :=
  ⟨h.le, fun hink => hpq.1 (h.keeps hink), fun hq => h.eq (hpq.2 hq)⟩

lemma Fades.append (h : Fades ts us p) (h' : Fades ts' us' q) : Fades (ts ++ ts') (us ++ us') (p ∧ q) := by
  have hle := h.le
  have hle' := h'.le
  refine ⟨?_, ?_, ?_⟩
  · rw [ink_append, ink_append]
    exact Nat.add_le_add hle hle'
  · rw [ink_append, ink_append]
    intro hink
    exact ⟨h.keeps (by omega), h'.keeps (by omega)⟩
  · rintro ⟨hp, hq⟩
    rw [h.eq hp, h'.eq hq]

lemma Fades.append_left (h : Fades ts us p) (more : List Token) : Fades (more ++ ts) (more ++ us) p :=
  ((Fades.refl more trivial).append h).congr (iff_of_eq (true_and p))

lemma Fades.append_right (h : Fades ts us p) (more : List Token) : Fades (ts ++ more) (us ++ more) p :=
  (h.append (Fades.refl more trivial)).congr (iff_of_eq (and_true p))

lemma bind_nonempty?_of_ne {o : Option String} (h : o ≠ some "") : o.bind nonempty? = o := by
  cases o with
  | none => rfl
  | some s =>
    have hs : s ≠ "" := fun he => h (congrArg some he)
    simp [nonempty?, hs]

lemma fades_optionalClause {keyword : Token} (h : 0 < ink [keyword]) (o : Option String) :
    Fades (optionalClause keyword (o.map .raw)) (optionalClause keyword ((o.bind nonempty?).map .raw))
      (o ≠ some "") := by
  by_cases ho : o = some ""
  · subst ho
    have hclause : ink (optionalClause keyword (some (.raw ""))) =
        ink [.space] + (ink [keyword] + ink [.space, .raw ""]) := by
      rw [← ink_append, ← ink_append]
      rfl
    have hnone : ink (optionalClause keyword none) = 0 := rfl
    refine ⟨Nat.zero_le _, ?_, fun h => absurd rfl h⟩
    intro hink
    change ink (optionalClause keyword none) = ink (optionalClause keyword (some (.raw ""))) at hink
    omega
  · rw [bind_nonempty?_of_ne ho]
    exact .refl _ ho

end

end Sql

namespace Field

lemma nonemptyOr_bind_nonempty? (o : Option String) (fallback : String) :
    nonemptyOr (o.bind nonempty?) fallback = nonemptyOr o fallback := by
  cases o with
  | none => rfl
  | some s => by_cases hs : s = "" <;> simp [nonemptyOr, nonempty?, hs]

lemma WellFormed.outputName_canonical {f : Field} (h : f.WellFormed) (key : String) :
    f.canonical.outputName key = f.outputName key := by
  have hname : f.canonical.asName = f.asName.bind nonempty? := by
    cases hs : f.asName with
    | none => simp [canonical, hs]
    | some s => simp [canonical, hs, Alias.normalize_of_not_blank (h.unblank s hs)]
  rw [outputName, hname, nonemptyOr_bind_nonempty?, outputName]

lemma source_canonical (f : Field) (key : String) : f.canonical.source key = f.source key :=
  nonemptyOr_bind_nonempty? ..

lemma castType_canonical (f : Field) (types : CastTypes) : f.canonical.castType types = f.castType types :=
  nonemptyOr_bind_nonempty? ..

end Field

namespace Sql.Columns

lemma ofField_canonical (types : CastTypes) (key : String) {f : Field} (h : f.WellFormed) :
    ofField types key f.canonical = ofField types key f := by
  have hexpression : expression f.canonical key = expression f key := by
    simp only [expression, f.source_canonical]
    rfl
  simp only [ofField, h.outputName_canonical, f.castType_canonical, hexpression]
  rfl

lemma ofEntries_canonical (types : CastTypes) {es : Entries Field} (h : ∀ e ∈ es, e.2.WellFormed) :
    ofEntries types (es.mapValues Field.canonical) = ofEntries types es := by
  induction es with
  | nil => rfl
  | cons e es ih =>
    obtain ⟨key, f⟩ := e
    obtain ⟨hf, hfields⟩ := List.forall_mem_cons.1 h
    have hcons : Entries.mapValues Field.canonical ((key, f) :: es) =
        (key, f.canonical) :: Entries.mapValues Field.canonical es := rfl
    rw [hcons, ofEntries, ofEntries, ofField_canonical types key hf, ih hfields]

lemma ofFields_canonical (types : CastTypes) {fs : Fields} (h : ∀ e ∈ fs.entries, e.2.WellFormed) :
    ofFields types fs.canonical = ofFields types fs :=
  ofEntries_canonical types h

end Sql.Columns

namespace Document

open Sql
open Check (subqueryKey childKey)

def HasEmptyCondition (d : Document) : Prop :=
  d.isUnion = false ∧ (d.block.filter = some "" ∨ d.block.having = some "")

structure NearCanonical (d : Document) : Prop where
  fields : ∀ e ∈ d.fields.entries, e.2.WellFormed
  source : d.CanonicalSource

lemma shown_canonical {b : Block} (h : ∀ e ∈ b.fields.entries, e.2.WellFormed) : Shown.ofBlock b.canonical =
    { Shown.ofBlock b with filter := b.filter.bind nonempty?, having := b.having.bind nonempty? } := by
  simp only [Shown.ofBlock, Block.canonical, Columns.ofFields_canonical {} h]

lemma endTokens_canonical {b : Block} (h : ∀ e ∈ b.fields.entries, e.2.WellFormed) :
    endTokens b.canonical = endTokens b := by
  simp only [endTokens, Block.canonical, Columns.ofFields_canonical {} h]

lemma fades_clauseTokens (n : Shown) : Fades (clauseTokens n)
    (clauseTokens { n with filter := n.filter.bind nonempty?, having := n.having.bind nonempty? })
    (n.filter ≠ some "" ∧ n.having ≠ some "") := by
  have hwhere : 0 < ink [.where] := by decide
  have hhaving : 0 < ink [.having] := by decide
  exact (fades_optionalClause hwhere n.filter).append
    (((fades_optionalClause hhaving n.having).append_right _).append_left _)

variable {d : Document}

def KeepsConditions (d : Document) : Prop :=
  d.EveryNode fun e => ¬ e.HasEmptyCondition

lemma fades_wrapped (h : Fades d.tokens d.canonical.tokens d.KeepsConditions) (name : String) :
    Fades (wrapped d.tokens name) (wrapped d.canonical.tokens name) d.KeepsConditions :=
  (h.append_left [.openParen]).append_right [.closeParen, .space, .identifier name]

lemma fades_joinedTokens {joined : List (JoinLink × Document)} (hlinks : ∀ j ∈ joined, j.1.canonical = j.1)
    (h : ∀ j ∈ joined, Fades j.2.tokens j.2.canonical.tokens j.2.KeepsConditions) (n : Nat) :
    Fades (joinedTokens n joined) (joinedTokens n (canonicalJoined joined)) (∀ j ∈ joined, j.2.KeepsConditions) := by
  induction joined generalizing n with
  | nil => exact .refl _ (List.forall_mem_nil _)
  | cons j joined ih =>
    obtain ⟨link, d⟩ := j
    obtain ⟨hlink, hlinks⟩ := List.forall_mem_cons.1 hlinks
    obtain ⟨hd, hjoined⟩ := List.forall_mem_cons.1 h
    have hsame : link.canonical = link := hlink
    rw [joinedTokens, canonicalJoined, joinedTokens, hsame]
    have hquery := ((fades_wrapped hd (childKey n)).append_left [.space, .join link.type, .space]).append_right
      (optionalClause .on (link.on.map .raw))
    refine (hquery.append (ih hlinks hjoined (n + 1))).congr ?_
    rw [List.forall_mem_cons]

lemma fades_memberTokens {members : List (UnionType × Document)}
    (h : ∀ m ∈ members, Fades m.2.tokens m.2.canonical.tokens m.2.KeepsConditions) :
    Fades (memberTokens members) (memberTokens (canonicalMembers members)) (∀ m ∈ members, m.2.KeepsConditions) := by
  induction members with
  | nil => exact .refl _ (List.forall_mem_nil _)
  | cons m members ih =>
    obtain ⟨type, d⟩ := m
    obtain ⟨hd, hmembers⟩ := List.forall_mem_cons.1 h
    rw [memberTokens, canonicalMembers, memberTokens]
    refine ((hd.append (ih hmembers)).append_left [.space, .union type, .space]).congr ?_
    rw [List.forall_mem_cons]

lemma fades_sourceTokens (hd : d.CanonicalSource)
    (h : ∀ c ∈ d.children, Fades c.tokens c.canonical.tokens c.KeepsConditions) (hunion : d.isUnion = false) :
    Fades d.sourceTokens d.canonical.sourceTokens (∀ c ∈ d.children, c.KeepsConditions) := by
  cases d with
  | union => cases hunion
  | table b t =>
    have hsame : t.canonical = t := hd
    rw [canonical, sourceTokens, sourceTokens, hsame]
    exact .refl _ (List.forall_mem_nil _)
  | subquery b inner =>
    rw [canonical, sourceTokens, sourceTokens]
    exact (fades_wrapped (h inner List.mem_cons_self) _).congr List.forall_mem_singleton.symm
  | join b left joined =>
    obtain ⟨hleft, hjoined⟩ := List.forall_mem_cons.1 h
    rw [canonical, sourceTokens, sourceTokens]
    refine ((fades_wrapped hleft _).append (fades_joinedTokens hd (List.forall_mem_map.1 hjoined) 2)).congr ?_
    rw [children, List.forall_mem_cons, List.forall_mem_map]

lemma isUnion_canonical (d : Document) : d.canonical.isUnion = d.isUnion := by
  cases d <;> rfl

lemma fades_canonical (h : d.EveryNode NearCanonical) : Fades d.tokens d.canonical.tokens d.KeepsConditions := by
  induction h with
  | @node d hnear _ ih =>
    rw [KeepsConditions, everyNode_iff]
    cases hunion : d.isUnion with
    | false =>
      have hhead : headTokens (.ofBlock d.canonical.block) = headTokens (.ofBlock d.block) := by
        rw [block_canonical, shown_canonical hnear.fields]
        rfl
      have hclauses := fades_clauseTokens (.ofBlock d.block)
      rw [tokens_eq hunion, tokens_eq (by rw [isUnion_canonical, hunion]), hhead, block_canonical,
        shown_canonical hnear.fields]
      refine (((fades_sourceTokens hnear.source ih hunion).append hclauses).append_left _).congr ?_
      rw [and_comm, HasEmptyCondition]
      simp [hunion, Shown.ofBlock, KeepsConditions]
    | true =>
      cases d with
      | table | subquery | join => cases hunion
      | union b first members =>
        obtain ⟨hfirst, hmembers⟩ := List.forall_mem_cons.1 ih
        have hend : endTokens b.canonical = endTokens b := endTokens_canonical hnear.fields
        rw [tokens, canonical, tokens, hend]
        refine ((hfirst.append (fades_memberTokens (List.forall_mem_map.1 hmembers))).append_right _).congr ?_
        rw [children, List.forall_mem_cons, List.forall_mem_map]
        simp [HasEmptyCondition, isUnion, kind, KeepsConditions]

end Document

end QueryTree
