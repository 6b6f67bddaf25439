import Mathlib.Data.Finset.Lattice.Lemmas
import Mathlib.Data.Multiset.Bind
import QueryTree.Proofs.Sql.Unions
/-! The rows of unions. Every query at a leaf has an arbitrary bag of rows. A tree of unions and the chain that it is
rendered as have the same rows, whatever the leaves have, exactly when they drop duplicates among the same queries. -/

namespace QueryTree

open Sql

def UnionType.combine {Row : Type} [DecidableEq Row] : UnionType → Multiset Row → Multiset Row → Multiset Row
  | .all, a, b => a + b
  | .distinct, a, b => (a + b).dedup

namespace Document

section

variable {Row : Type} [DecidableEq Row] (given : Document → Multiset Row) (d : Document)

def rows : Multiset Row :=
  foldUnions given UnionType.combine d

def chainRows : Multiset Row :=
  d.chain.fold given UnionType.combine

end

/-- The queries of a union that have all their rows in it, and those that are pooled, a pool having each row once. -/
@[ext]
structure Pooling where
  loose : Multiset Document
  pools : Multiset (Finset Document)

namespace Pooling

def single (d : Document) : Pooling :=
  ⟨{d}, 0⟩

def queries (p : Pooling) : Finset Document :=
  (p.loose + p.pools.bind Finset.val).toFinset

def combine : UnionType → Pooling → Pooling → Pooling
  | .all, p, q => ⟨p.loose + q.loose, p.pools + q.pools⟩
  | .distinct, p, q => ⟨0, {p.queries ∪ q.queries}⟩

def rows {Row : Type} [DecidableEq Row] (given : Document → Multiset Row) (p : Pooling) : Multiset Row :=
  p.loose.bind given + p.pools.bind fun g => (g.val.bind given).dedup

lemma mem_queries {p : Pooling} {d : Document} : d ∈ p.queries ↔ d ∈ p.loose ∨ ∃ g ∈ p.pools, d ∈ g := by
  simp [queries]

lemma queries_single (d : Document) : (single d).queries = {d} := by
  ext e
  simp [mem_queries, single]

lemma queries_combine (type : UnionType) (p q : Pooling) : (combine type p q).queries = p.queries ∪ q.queries := by
  ext d
  cases type with
  | all =>
    simp only [combine, mem_queries, Multiset.mem_add, Finset.mem_union, or_and_right, exists_or]
    exact or_or_or_comm
  | distinct => simp [combine, mem_queries]

section

variable {Row : Type} [DecidableEq Row] {given : Document → Multiset Row}

lemma rows_single (d : Document) : (single d).rows given = given d := by
  simp [rows, single]

lemma mem_rows {p : Pooling} {r : Row} : r ∈ p.rows given ↔ ∃ d ∈ p.queries, r ∈ given d := by
  simp only [rows, Multiset.mem_add, Multiset.mem_bind, Multiset.mem_dedup, Finset.mem_val, mem_queries, or_and_right,
    exists_or]
  refine or_congr_right ?_
  constructor
  · rintro ⟨g, hg, d, hd, hr⟩
    exact ⟨d, ⟨g, hg, hd⟩, hr⟩
  · rintro ⟨d, ⟨g, hg, hd⟩, hr⟩
    exact ⟨g, hg, d, hd, hr⟩

lemma rows_combine (type : UnionType) (p q : Pooling) :
    (combine type p q).rows given = type.combine (p.rows given) (q.rows given) := by
  cases type with
  | all =>
    simp only [combine, rows, UnionType.combine, Multiset.add_bind]
    exact add_add_add_comm ..
  | distinct =>
    have hpool : (combine .distinct p q).rows given = ((p.queries ∪ q.queries).val.bind given).dedup := by
      simp [combine, rows]
    rw [hpool, UnionType.combine, Multiset.dedup_ext]
    intro r
    simp only [Multiset.mem_bind, Finset.mem_val, Finset.mem_union, Multiset.mem_add, mem_rows, or_and_right, exists_or]

end

end Pooling

def pooling (d : Document) : Pooling :=
  foldUnions .single Pooling.combine d

def chainPooling (d : Document) : Pooling :=
  d.chain.fold .single Pooling.combine

section

variable {Row : Type} [DecidableEq Row] (given : Document → Multiset Row) (d : Document)

lemma rows_pooling : d.pooling.rows given = d.rows given := by
  rw [pooling, foldUnions_hom fun type p q => Pooling.rows_combine type p q]
  simp only [Pooling.rows_single]
  rfl

lemma rows_chainPooling : d.chainPooling.rows given = d.chainRows given := by
  rw [chainPooling, Chain.fold_hom fun type p q => Pooling.rows_combine type p q]
  simp only [Pooling.rows_single]
  rfl

end

namespace Pooling

def units (weight : Document → Nat) (d : Document) : Multiset Unit :=
  .replicate (weight d) ()

lemma card_dedup_unit (s : Multiset Unit) : s.dedup.card = if s = 0 then 0 else 1 := by
  split
  · next h => rw [h, Multiset.dedup_zero, Multiset.card_zero]
  · next h =>
    obtain ⟨u, hu⟩ := Multiset.exists_mem_of_ne_zero h
    have hsingleton : s.dedup = {u} := by
      refine (Multiset.Nodup.ext s.nodup_dedup (Multiset.nodup_singleton u)).2 fun v => ?_
      simp [Subsingleton.elim v u, hu]
    rw [hsingleton, Multiset.card_singleton]

lemma card_pool_units (weight : Document → Nat) (g : Finset Document) :
    (g.val.bind (units weight)).dedup.card = if ∃ d ∈ g, weight d ≠ 0 then 1 else 0 := by
  have hzero : g.val.bind (units weight) = 0 ↔ ¬ ∃ d ∈ g, weight d ≠ 0 := by
    simp [Multiset.eq_zero_iff_forall_notMem, units, Multiset.mem_replicate]
  rw [card_dedup_unit]
  simp only [hzero, ite_not]

lemma card_rows_units (weight : Document → Nat) (p : Pooling) : (p.rows (units weight)).card =
    (p.loose.map weight).sum + p.pools.countP fun g => ∃ d ∈ g, weight d ≠ 0 := by
  have hloose : (p.loose.bind (units weight)).card = (p.loose.map weight).sum := by
    simp [units, Function.comp_def]
  have hpools : (p.pools.bind fun g => (g.val.bind (units weight)).dedup).card =
      p.pools.countP fun g => ∃ d ∈ g, weight d ≠ 0 := by
    induction p.pools using Multiset.induction with
    | empty => rfl
    | cons g gs ih =>
      rw [Multiset.cons_bind, Multiset.card_add, card_pool_units, ih, Multiset.countP_cons, Nat.add_comm]
  rw [rows, Multiset.card_add, hloose, hpools]

/-- Each query alone in turn, with one row and with two, tells where it is loose and how many pools it is in. -/
lemma count_eq_of_rows_eq {p q : Pooling} (h : ∀ given : Document → Multiset Unit, p.rows given = q.rows given)
    (d : Document) : p.loose.count d = q.loose.count d ∧ p.pools.countP (d ∈ ·) = q.pools.countP (d ∈ ·) := by
  let weight (n : Nat) (e : Document) : Nat := if e = d then n + 1 else 0
  have hcard : ∀ (n : Nat) (p : Pooling),
      (p.rows (units (weight n))).card = (n + 1) * p.loose.count d + p.pools.countP (d ∈ ·) := by
    intro n p
    have hsum : (p.loose.map (weight n)).sum = (n + 1) * p.loose.count d := by
      induction p.loose using Multiset.induction with
      | empty => rfl
      | cons e es ih =>
        rw [Multiset.map_cons, Multiset.sum_cons, ih, Multiset.count_cons, Nat.mul_add, Nat.add_comm]
        simp [weight, eq_comm]
    have hpool : ∀ g : Finset Document, (∃ e ∈ g, weight n e ≠ 0) ↔ d ∈ g := by
      simp [weight]
    simp only [card_rows_units, hsum, hpool]
  have hone := hcard 0 p
  have htwo := hcard 1 p
  rw [h, hcard] at hone htwo
  omega

lemma card_pools_eq_of_rows_eq {p q : Pooling} (h : ∀ given : Document → Multiset Unit, p.rows given = q.rows given)
    (hloose : p.loose = q.loose) (hp : ∀ g ∈ p.pools, g.Nonempty) (hq : ∀ g ∈ q.pools, g.Nonempty) :
    p.pools.card = q.pools.card := by
  have hcard : ∀ p : Pooling, (∀ g ∈ p.pools, g.Nonempty) →
      (p.rows (units fun _ => 1)).card = p.loose.card + p.pools.card := by
    intro p hp
    have hpools : p.pools.countP (fun g => ∃ d ∈ g, 1 ≠ 0) = p.pools.card :=
      Multiset.countP_eq_card.2 fun g hg => (hp g hg).imp fun d hd => ⟨hd, Nat.one_ne_zero⟩
    rw [card_rows_units, hpools]
    simp
  have hrows := congrArg Multiset.card (h (units fun _ => 1))
  rw [hcard p hp, hcard q hq, hloose] at hrows
  exact Nat.add_left_cancel hrows

lemma eq_of_rows_eq {p q : Pooling} (h : ∀ given : Document → Multiset Unit, p.rows given = q.rows given)
    (hp : ∀ g ∈ p.pools, g.Nonempty) (hq : ∀ g ∈ q.pools, g.Nonempty) (hone : p.pools.card ≤ 1) : p = q := by
  have hloose : p.loose = q.loose := Multiset.ext.2 fun d => (count_eq_of_rows_eq h d).1
  have hcard := card_pools_eq_of_rows_eq h hloose hp hq
  refine Pooling.ext hloose ?_
  rcases Nat.le_one_iff_eq_zero_or_eq_one.1 hone with hzero | hone
  · have hzero' : q.pools.card = 0 := hcard.symm.trans hzero
    rw [Multiset.card_eq_zero.1 hzero, Multiset.card_eq_zero.1 hzero']
  · obtain ⟨g, hg⟩ := Multiset.card_eq_one.1 hone
    obtain ⟨g', hg'⟩ := Multiset.card_eq_one.1 (hcard.symm.trans hone)
    rw [hg, hg']
    congr 1
    ext d
    have hd := (count_eq_of_rows_eq h d).2
    rw [hg, hg', ← Multiset.cons_zero, ← Multiset.cons_zero, Multiset.countP_cons, Multiset.countP_cons] at hd
    by_cases hmem : d ∈ g <;> by_cases hmem' : d ∈ g' <;> simp_all

end Pooling

structure Pooling.Proper (p : Pooling) : Prop where
  queries : p.queries.Nonempty
  pools : ∀ g ∈ p.pools, g.Nonempty

lemma Pooling.proper_single (d : Document) : (Pooling.single d).Proper := by
  refine ⟨?_, nofun⟩
  rw [queries_single]
  exact Finset.singleton_nonempty d

lemma Pooling.Proper.combine {p q : Pooling} (hp : p.Proper) (hq : q.Proper) (type : UnionType) :
    (Pooling.combine type p q).Proper := by
  have hqueries : (p.queries ∪ q.queries).Nonempty := hp.queries.mono Finset.subset_union_left
  refine ⟨by rwa [queries_combine], ?_⟩
  cases type with
  | all =>
    intro g hg
    rcases Multiset.mem_add.1 hg with hg | hg
    · exact hp.pools g hg
    · exact hq.pools g hg
  | distinct =>
    intro g hg
    obtain rfl := Multiset.mem_singleton.1 hg
    exact hqueries

lemma proper_pooling (d : Document) : d.pooling.Proper := by
  induction d using unionInduction with
  | leaf d h =>
    rw [pooling, foldUnions_leaf h]
    exact Pooling.proper_single d
  | union b first members ihfirst ihmembers =>
    rw [pooling, foldUnions_union]
    exact List.foldlRecOn members _ ihfirst fun p hp m hm => hp.combine (ihmembers m hm) m.1

lemma proper_chainPooling (d : Document) : d.chainPooling.Proper ∧ d.chainPooling.pools.card ≤ 1 := by
  refine List.foldlRecOn (motive := fun p : Pooling => p.Proper ∧ p.pools.card ≤ 1) d.chain.rest _
    ⟨Pooling.proper_single _, Nat.zero_le 1⟩ ?_
  rintro p ⟨hp, hone⟩ m -
  refine ⟨hp.combine (Pooling.proper_single m.2) m.1, ?_⟩
  cases m.1 with
  | all => simpa [Pooling.combine, Pooling.single] using hone
  | distinct => exact Nat.le_refl 1

/-- Nested unions are rendered without parentheses. What is read from the tokens is the chain of the queries at the
leaves, and for all bags of rows that these may have, the chain has the rows of the tree exactly when both drop
duplicates among the same queries. -/
theorem chainRows_eq_iff {d : Document} (h : d.Unsorted) :
    readUnions d.tokens = d.chain.map (fun e => significant e.tokens) ∧
      ((∀ (Row : Type) [DecidableEq Row] (given : Document → Multiset Row), d.chainRows given = d.rows given) ↔
        d.chainPooling = d.pooling) := by
  refine ⟨readUnions_tokens h, ?_, ?_⟩
  · intro hrows
    obtain ⟨hchain, hone⟩ := proper_chainPooling d
    refine Pooling.eq_of_rows_eq (fun given => ?_) hchain.pools d.proper_pooling.pools hone
    rw [rows_chainPooling, rows_pooling, hrows]
  · intro hpooling Row _ given
    rw [← rows_chainPooling, ← rows_pooling, hpooling]

def selectX (table : String) : Document :=
  .table { fields := .ofList [("x", { type := .dimension })] } { table }

def uniteX (first : Document) (members : List (UnionType × Document)) : Document :=
  .union { fields := .ofList [("x", { type := .dimension })] } first members

lemma unsorted_uniteX {first : Document} {members : List (UnionType × Document)} (hfirst : first.Unsorted)
    (hmembers : ∀ m ∈ members, m.2.Unsorted) : (uniteX first members).Unsorted :=
  .union (by decide) rfl hfirst hmembers

lemma unsorted_selectX (table : String) : (selectX table).Unsorted :=
  .leaf rfl

theorem chainRows_eq_nestedUnions :
    let d := uniteX (uniteX (selectX "a") [(.all, selectX "b")])
      [(.distinct, uniteX (selectX "c") [(.all, selectX "d"), (.distinct, selectX "e")]), (.all, selectX "a")]
    d.Unsorted ∧
      ∀ (Row : Type) [DecidableEq Row] (given : Document → Multiset Row), d.chainRows given = d.rows given := by
  intro d
  have hfirst : (uniteX (selectX "a") [(.all, selectX "b")]).Unsorted := by
    apply unsorted_uniteX <;> simp [unsorted_selectX]
  have hmember : (uniteX (selectX "c") [(.all, selectX "d"), (.distinct, selectX "e")]).Unsorted := by
    apply unsorted_uniteX <;> simp [unsorted_selectX]
  have hd : d.Unsorted := by
    apply unsorted_uniteX hfirst
    simp [hmember, unsorted_selectX]
  have hpooling : d.chainPooling = d.pooling := Pooling.ext (by decide +kernel) (by decide +kernel)
  exact ⟨hd, (chainRows_eq_iff hd).2.2 hpooling⟩

def allOfDistinct : Document :=
  uniteX (selectX "a") [(.all, uniteX (selectX "b") [(.distinct, selectX "c")])]

/-- With one row, the same for all three queries, the tree has it twice and the chain once. -/
theorem chainRows_allOfDistinct : allOfDistinct.Unsorted ∧
    allOfDistinct.sql = "SELECT x FROM a UNION ALL SELECT x FROM b UNION SELECT x FROM c" ∧
    allOfDistinct.rows (fun _ => {()}) = {(), ()} ∧ allOfDistinct.chainRows (fun _ => {()}) = {()} := by
  refine ⟨?_, ?_, ?_, ?_⟩
  · have hmember : (uniteX (selectX "b") [(.distinct, selectX "c")]).Unsorted := by
      apply unsorted_uniteX <;> simp [unsorted_selectX]
    apply unsorted_uniteX (unsorted_selectX "a")
    simp [hmember]
  · decide +kernel
  · decide +kernel
  · decide +kernel

def Pooling.extend (p : Pooling) (rest : List (UnionType × Document)) : Pooling :=
  rest.foldl (fun p m => Pooling.combine m.1 p (.single m.2)) p

namespace Pooling

lemma extend_append (p : Pooling) (rest more : List (UnionType × Document)) :
    p.extend (rest ++ more) = (p.extend rest).extend more :=
  List.foldl_append

lemma queries_extend (p : Pooling) (rest : List (UnionType × Document)) :
    (p.extend rest).queries = p.queries ∪ (rest.map Prod.snd).toFinset := by
  induction rest generalizing p with
  | nil => simp [extend]
  | cons m rest ih =>
    have hcons : p.extend (m :: rest) = (combine m.1 p (single m.2)).extend rest := rfl
    rw [hcons, ih, queries_combine, queries_single, List.map_cons, List.toFinset_cons, Finset.insert_eq,
      Finset.union_assoc]

lemma extend_all {rest : List (UnionType × Document)} (h : ∀ m ∈ rest, m.1 = .all) (p : Pooling) :
    p.extend rest = combine .all p ⟨(rest.map Prod.snd : List Document), 0⟩ := by
  induction rest generalizing p with
  | nil => simp [extend, combine]
  | cons m rest ih =>
    obtain ⟨hm, hrest⟩ := List.forall_mem_cons.1 h
    have hcons : p.extend (m :: rest) = (combine m.1 p (single m.2)).extend rest := rfl
    rw [hcons, ih hrest, hm]
    simp [combine, single, add_assoc]

lemma extend_concat_distinct (p : Pooling) (rest : List (UnionType × Document)) (d : Document) :
    p.extend (rest ++ [(.distinct, d)]) = ⟨0, {(p.extend (rest ++ [(.distinct, d)])).queries}⟩ := by
  have hlast : p.extend (rest ++ [(.distinct, d)]) = combine .distinct (p.extend rest) (single d) := by
    rw [extend_append]
    rfl
  rw [hlast, queries_combine]
  rfl

end Pooling

def KeepsAll (d : Document) : Prop :=
  ∀ m ∈ d.chain.rest, m.1 = .all

/-- Trees of unions that need no parentheses: none of their unions drops duplicates within a member after its own last
operator that drops them, and the member at that operator does not end with an operator that keeps all rows. -/
inductive Flattens : Document → Prop
  | leaf {d : Document} (notUnion : d.isUnion = false) : Flattens d
  | all {b : Block} {first : Document} {members : List (UnionType × Document)} (flattensFirst : Flattens first)
      (keepsAll : ∀ m ∈ members, m.1 = .all ∧ m.2.KeepsAll) : Flattens (union b first members)
  | distinct {b : Block} {first d : Document} {before after : List (UnionType × Document)}
      (last : ∀ m ∈ d.chain.rest.getLast?, m.1 = .distinct) (keepsAll : ∀ m ∈ after, m.1 = .all ∧ m.2.KeepsAll) :
      Flattens (union b first (before ++ (.distinct, d) :: after))

def memberChains (members : List (UnionType × Document)) : List (UnionType × Document) :=
  members.flatMap fun m => (m.1, m.2.chain.first) :: m.2.chain.rest

lemma memberChains_cons (m : UnionType × Document) (members : List (UnionType × Document)) :
    memberChains (m :: members) = (m.1, m.2.chain.first) :: m.2.chain.rest ++ memberChains members :=
  List.flatMap_cons

lemma memberChains_append (before after : List (UnionType × Document)) :
    memberChains (before ++ after) = memberChains before ++ memberChains after :=
  List.flatMap_append

lemma chainPooling_union (b : Block) (first : Document) (members : List (UnionType × Document)) :
    (union b first members).chainPooling = first.chainPooling.extend (memberChains members) := by
  rw [chainPooling, chain_union]
  exact List.foldl_append

lemma queries_extend_chain (p : Pooling) (type : UnionType) (d : Document) :
    (p.extend ((type, d.chain.first) :: d.chain.rest)).queries = p.queries ∪ d.chainPooling.queries := by
  have hchain : d.chainPooling = (Pooling.single d.chain.first).extend d.chain.rest := rfl
  rw [hchain, Pooling.queries_extend, Pooling.queries_extend, Pooling.queries_single, List.map_cons,
    List.toFinset_cons, Finset.insert_eq]

lemma queries_foldl_pooling {members : List (UnionType × Document)}
    (h : ∀ m ∈ members, m.2.pooling.queries = m.2.chainPooling.queries) {p q : Pooling} (hpq : p.queries = q.queries) :
    (members.foldl (fun p m => Pooling.combine m.1 p m.2.pooling) p).queries =
      (q.extend (memberChains members)).queries := by
  induction members generalizing p q with
  | nil => exact hpq
  | cons m members ih =>
    obtain ⟨hm, hmembers⟩ := List.forall_mem_cons.1 h
    rw [List.foldl_cons, memberChains_cons, Pooling.extend_append]
    apply ih hmembers
    rw [Pooling.queries_combine, queries_extend_chain, hpq, hm]

lemma queries_pooling (d : Document) : d.pooling.queries = d.chainPooling.queries := by
  induction d using unionInduction with
  | leaf d h => rw [pooling, chainPooling, foldUnions_leaf h, chain_leaf h]; rfl
  | union b first members ihfirst ihmembers =>
    rw [chainPooling_union, pooling, foldUnions_union]
    exact queries_foldl_pooling ihmembers ihfirst

lemma foldl_pooling_all {members : List (UnionType × Document)}
    (h : ∀ m ∈ members, m.1 = .all ∧ m.2.KeepsAll ∧ m.2.pooling = m.2.chainPooling) (p : Pooling) :
    members.foldl (fun p m => Pooling.combine m.1 p m.2.pooling) p = p.extend (memberChains members) := by
  induction members generalizing p with
  | nil => rfl
  | cons m members ih =>
    obtain ⟨⟨htype, hall, hm⟩, hmembers⟩ := List.forall_mem_cons.1 h
    have hchain : m.2.chainPooling = (Pooling.single m.2.chain.first).extend m.2.chain.rest := rfl
    have hmember : ∀ n ∈ (m.1, m.2.chain.first) :: m.2.chain.rest, n.1 = .all := List.forall_mem_cons.2 ⟨htype, hall⟩
    rw [List.foldl_cons, ih hmembers, memberChains_cons, Pooling.extend_append, Pooling.extend_all hmember, htype, hm,
      hchain, Pooling.extend_all hall]
    simp [Pooling.combine, Pooling.single]

lemma keepsAll_union {b : Block} {first : Document} {members : List (UnionType × Document)} :
    (union b first members).KeepsAll ↔ first.KeepsAll ∧ ∀ m ∈ members, m.1 = .all ∧ m.2.KeepsAll := by
  simp only [KeepsAll, chain_union, List.forall_mem_append, List.forall_mem_flatMap, List.forall_mem_cons]

lemma KeepsAll.pooling_eq {d : Document} (h : d.KeepsAll) : d.pooling = d.chainPooling := by
  induction d using unionInduction with
  | leaf d hd => rw [pooling, chainPooling, foldUnions_leaf hd, chain_leaf hd]; rfl
  | union b first members ihfirst ihmembers =>
    obtain ⟨hfirst, hmembers⟩ := keepsAll_union.1 h
    rw [chainPooling_union, pooling, foldUnions_union, ← ihfirst hfirst]
    exact foldl_pooling_all (fun m hm => ⟨(hmembers m hm).1, (hmembers m hm).2, ihmembers m hm (hmembers m hm).2⟩) _

theorem Flattens.chainPooling_eq {d : Document} (h : d.Flattens) : d.chainPooling = d.pooling := by
  have hafter : ∀ {members : List (UnionType × Document)}, (∀ m ∈ members, m.1 = .all ∧ m.2.KeepsAll) →
      ∀ m ∈ members, m.1 = .all ∧ m.2.KeepsAll ∧ m.2.pooling = m.2.chainPooling :=
    fun h m hm => ⟨(h m hm).1, (h m hm).2, (h m hm).2.pooling_eq⟩
  induction h with
  | @leaf d hd => rw [pooling, chainPooling, foldUnions_leaf hd, chain_leaf hd]; rfl
  | @all b first members _ hmembers ih =>
    rw [chainPooling_union, pooling, foldUnions_union, ih]
    exact (foldl_pooling_all (hafter hmembers) _).symm
  | @distinct b first d before after hlast hmembers =>
    -- up to the member, both pool all queries, and these are the same
    have hpool : ∃ rest e, (UnionType.distinct, d.chain.first) :: d.chain.rest = rest ++ [(.distinct, e)] := by
      rcases List.eq_nil_or_concat d.chain.rest with hnil | ⟨rest, ⟨type, e⟩, hconcat⟩
      · exact ⟨[], d.chain.first, by rw [hnil]; rfl⟩
      · obtain rfl : type = .distinct := hlast (type, e) (by simp [hconcat])
        exact ⟨(.distinct, d.chain.first) :: rest, e, by rw [hconcat, List.concat_eq_append, List.cons_append]⟩
    obtain ⟨rest, e, hpool⟩ := hpool
    have hqueries := queries_foldl_pooling (fun m (_ : m ∈ before) => m.2.queries_pooling) first.queries_pooling
    rw [chainPooling_union, pooling, foldUnions_union, List.foldl_append, List.foldl_cons, memberChains_append,
      memberChains_cons, Pooling.extend_append, Pooling.extend_append, hpool, Pooling.extend_concat_distinct, ← hpool,
      queries_extend_chain, ← hqueries, ← queries_pooling]
    exact (foldl_pooling_all (hafter hmembers) _).symm

end Document

end QueryTree
