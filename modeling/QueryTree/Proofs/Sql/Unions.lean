import Mathlib.Tactic.Lemma
import QueryTree.Proofs.Sql.Node
/-! Rendered unions. A union of unions is rendered as one chain of the queries that it unites in the end, and what is
read between the union operators outside parentheses is the tokens of these queries. -/

namespace QueryTree

namespace Sql

@[ext]
structure Chain (α : Type) where
  first : α
  rest : List (UnionType × α)

namespace Chain

variable {α β : Type}

def single (a : α) : Chain α :=
  ⟨a, []⟩

def append (type : UnionType) (c e : Chain α) : Chain α :=
  ⟨c.first, c.rest ++ (type, e.first) :: e.rest⟩

def map (f : α → β) (c : Chain α) : Chain β :=
  ⟨f c.first, c.rest.map fun m => (m.1, f m.2)⟩

def fold (leaf : α → β) (op : UnionType → β → β → β) (c : Chain α) : β :=
  c.rest.foldl (fun acc m => op m.1 acc (leaf m.2)) (leaf c.first)

lemma fold_hom {γ : Type} {leaf : α → β} {op : UnionType → β → β → β} {f : β → γ} {op' : UnionType → γ → γ → γ}
    (hf : ∀ type a b, f (op type a b) = op' type (f a) (f b)) (c : Chain α) :
    f (c.fold leaf op) = c.fold (fun a => f (leaf a)) op' :=
  (List.foldl_hom f fun acc m => (hf m.1 acc (leaf m.2)).symm).symm

end Chain

def significant (ts : List Token) : List Token :=
  ts.filter (· ≠ .space)

lemma significant_append (ts us : List Token) : significant (ts ++ us) = significant ts ++ significant us :=
  List.filter_append ..

def Chain.prepend (ts : List Token) (c : Chain (List Token)) : Chain (List Token) :=
  { c with first := ts ++ c.first }

/-- The operands of tokens that stand in `depth` parentheses, cut where a union operator stands in none. -/
def splitUnions : Nat → List Token → Chain (List Token)
  | _, [] => .single []
  | 0, .union type :: ts => .append type (.single []) (splitUnions 0 ts)
  | depth, .openParen :: ts => (splitUnions (depth + 1) ts).prepend [.openParen]
  | depth, .closeParen :: ts => (splitUnions (depth - 1) ts).prepend [.closeParen]
  | depth, t :: ts => (splitUnions depth ts).prepend [t]

def readUnions (ts : List Token) : Chain (List Token) :=
  splitUnions 0 (significant ts)

def Token.IsPlain : Token → Prop
  | .openParen | .closeParen | .union _ => False
  | _ => True

lemma splitUnions_plain {t : Token} (h : t.IsPlain) (depth : Nat) (ts : List Token) :
    splitUnions depth (t :: ts) = (splitUnions depth ts).prepend [t] := by
  rw [splitUnions]
  · rintro rfl
    exact h
  · rintro rfl
    exact h
  · rintro type - rfl
    exact h

def Uncut (depth : Nat) (ts : List Token) : Prop :=
  ∀ r, splitUnions depth (significant ts ++ r) = (splitUnions depth r).prepend (significant ts)

section

variable {depth : Nat} {t : Token} {ts us : List Token}

lemma uncut_nil : Uncut depth [] :=
  fun _ => rfl

lemma uncut_singleton (h : t.IsPlain) : Uncut depth [t] := by
  intro r
  by_cases hspace : t = .space
  · rw [hspace]
    rfl
  · have hsignificant : significant [t] = [t] := by simp [significant, hspace]
    rw [hsignificant, List.singleton_append, splitUnions_plain h]

lemma Uncut.append (ht : Uncut depth ts) (hu : Uncut depth us) : Uncut depth (ts ++ us) := by
  intro r
  rw [significant_append, List.append_assoc, ht, hu]
  simp [Chain.prepend]

lemma Uncut.cons (hu : Uncut depth us) (h : t.IsPlain) : Uncut depth (t :: us) :=
  (uncut_singleton h).append hu

lemma uncut_parentheses (h : Uncut (depth + 1) ts) : Uncut depth (.openParen :: ts ++ [.closeParen]) := by
  intro r
  have hsignificant : significant (.openParen :: ts ++ [.closeParen]) =
      .openParen :: significant ts ++ [.closeParen] := by
    simp [significant]
  have hclose : splitUnions (depth + 1) (.closeParen :: r) = (splitUnions depth r).prepend [.closeParen] := by
    rw [splitUnions, Nat.add_sub_cancel]
  rw [hsignificant, List.cons_append, List.cons_append, List.append_assoc, splitUnions, h, List.singleton_append,
    hclose]
  simp [Chain.prepend]

lemma uncut_union (type : UnionType) : Uncut (depth + 1) [.union type] :=
  fun _ => rfl

lemma uncut_commaSeparated {f : String → Token} (hf : ∀ s, (f s).IsPlain) (xs : List String) :
    Uncut depth (commaSeparated (xs.map f)) := by
  cases xs with
  | nil => exact uncut_nil
  | cons x xs =>
    refine Uncut.cons ?_ (hf x)
    induction xs with
    | nil => exact uncut_nil
    | cons y ys ih =>
      exact .cons (.cons (.cons ih (hf y)) trivial) trivial

lemma uncut_listClause (h : t.IsPlain) {f : String → Token} (hf : ∀ s, (f s).IsPlain) (xs : List String) :
    Uncut depth (listClause t (xs.map f)) := by
  unfold listClause
  split
  · exact uncut_nil
  · exact .cons (.cons (.cons (uncut_commaSeparated hf xs) trivial) h) trivial

lemma uncut_optionalClause (h : t.IsPlain) {α : Type} {f : α → Token} (hf : ∀ a, (f a).IsPlain) (o : Option α) :
    Uncut depth (optionalClause t (o.map f)) := by
  cases o with
  | none => exact uncut_nil
  | some a => exact .cons (.cons (.cons (uncut_singleton (hf a)) trivial) h) trivial

end

end Sql

namespace Document

open Sql

section

variable {α β : Type}

mutual

def foldUnions (leaf : Document → α) (op : UnionType → α → α → α) : Document → α
  | table b t => leaf (table b t)
  | subquery b inner => leaf (subquery b inner)
  | join b left joined => leaf (join b left joined)
  | union _ first members => foldMembers leaf op (foldUnions leaf op first) members

def foldMembers (leaf : Document → α) (op : UnionType → α → α → α) (acc : α) : List (UnionType × Document) → α
  | [] => acc
  | (type, d) :: rest => foldMembers leaf op (op type acc (foldUnions leaf op d)) rest

end

lemma foldUnions_leaf {leaf : Document → α} {op : UnionType → α → α → α} {d : Document} (h : d.isUnion = false) :
    foldUnions leaf op d = leaf d := by
  cases d with
  | union => cases h
  | table | subquery | join => rw [foldUnions]

lemma foldUnions_union (leaf : Document → α) (op : UnionType → α → α → α) (b : Block) (first : Document)
    (members : List (UnionType × Document)) : foldUnions leaf op (union b first members) =
      members.foldl (fun acc m => op m.1 acc (foldUnions leaf op m.2)) (foldUnions leaf op first) := by
  have hmembers : ∀ acc, foldMembers leaf op acc members =
      members.foldl (fun acc m => op m.1 acc (foldUnions leaf op m.2)) acc := by
    intro acc
    induction members generalizing acc with
    | nil => rw [foldMembers, List.foldl_nil]
    | cons m members ih => rw [foldMembers, ih, List.foldl_cons]
  rw [foldUnions, hmembers]

@[elab_as_elim]
theorem unionInduction {motive : Document → Prop} (leaf : ∀ d : Document, d.isUnion = false → motive d)
    (union : ∀ b first members, motive first → (∀ m ∈ members, motive m.2) → motive (.union b first members))
    (d : Document) : motive d := by
  induction d using childInduction with
  | node d ih =>
    cases d with
    | union b first members =>
      obtain ⟨hfirst, hmembers⟩ := List.forall_mem_cons.1 ih
      exact union b first members hfirst (List.forall_mem_map.1 hmembers)
    | table | subquery | join => exact leaf _ rfl

lemma foldUnions_hom {leaf : Document → α} {op : UnionType → α → α → α} {f : α → β} {op' : UnionType → β → β → β}
    (hf : ∀ type a b, f (op type a b) = op' type (f a) (f b)) (d : Document) :
    f (foldUnions leaf op d) = foldUnions (fun d => f (leaf d)) op' d := by
  induction d using unionInduction with
  | leaf d h => rw [foldUnions_leaf h, foldUnions_leaf h]
  | union b first members ihfirst ihmembers =>
    rw [foldUnions_union, foldUnions_union, ← ihfirst]
    generalize foldUnions leaf op first = acc
    induction members generalizing acc with
    | nil => rfl
    | cons m members ih =>
      obtain ⟨hm, hmembers⟩ := List.forall_mem_cons.1 ihmembers
      rw [List.foldl_cons, List.foldl_cons, ih hmembers, hf, hm]

end

def chain (d : Document) : Chain Document :=
  foldUnions .single .append d

lemma foldl_append_eq {α : Type} (c : Chain α) (es : List (UnionType × Chain α)) :
    es.foldl (fun c e => Chain.append e.1 c e.2) c =
      ⟨c.first, c.rest ++ es.flatMap fun e => (e.1, e.2.first) :: e.2.rest⟩ := by
  induction es generalizing c with
  | nil => simp
  | cons e es ih =>
    rw [List.foldl_cons, ih]
    simp [Chain.append]

lemma chain_leaf {d : Document} (h : d.isUnion = false) : d.chain = .single d :=
  foldUnions_leaf h

lemma chain_union (b : Block) (first : Document) (members : List (UnionType × Document)) :
    (union b first members).chain =
      ⟨first.chain.first, first.chain.rest ++ members.flatMap fun m => (m.1, m.2.chain.first) :: m.2.chain.rest⟩ := by
  have h := foldl_append_eq first.chain (members.map fun m => (m.1, m.2.chain))
  rw [List.foldl_map, List.flatMap_map] at h
  rw [chain, foldUnions_union]
  exact h

inductive Unsorted : Document → Prop
  | leaf {d : Document} (notUnion : d.isUnion = false) : Unsorted d
  | union {b : Block} {first : Document} {members : List (UnionType × Document)}
      (order : (Columns.ofFields {} b.fields).order = []) (limit : b.limit = none) (unsortedFirst : Unsorted first)
      (unsortedMembers : ∀ m ∈ members, Unsorted m.2) : Unsorted (union b first members)

section

variable {depth : Nat}

lemma uncut_headTokens (n : Shown) : Uncut depth (headTokens n) := by
  have hdistinct : Uncut depth (if n.distinct then [.space, .distinct] else []) := by
    split
    · exact .cons (uncut_singleton trivial) trivial
    · exact uncut_nil
  have hfrom : Uncut depth [.space, .from, .space] := .cons (.cons (uncut_singleton trivial) trivial) trivial
  have hnames : Uncut depth (commaSeparated (n.names.map .raw)) := uncut_commaSeparated (fun _ => by trivial) _
  exact .append (.append (.cons hdistinct trivial) (.cons hnames trivial)) hfrom

lemma uncut_clauseTokens (n : Shown) : Uncut depth (clauseTokens n) := by
  refine .append ?_ (.append ?_ (.append ?_ (.append ?_ ?_)))
  · exact uncut_optionalClause (by trivial) (fun _ => by trivial) _
  · exact uncut_listClause (by trivial) (fun _ => by trivial) _
  · exact uncut_optionalClause (by trivial) (fun _ => by trivial) _
  · exact uncut_listClause (by trivial) (fun _ => by trivial) _
  · exact uncut_optionalClause (by trivial) (fun _ => by trivial) _

lemma uncut_wrapped {query : List Token} (h : Uncut (depth + 1) query) (name : String) :
    Uncut depth (wrapped query name) := by
  have hname : Uncut depth [.space, .identifier name] := .cons (uncut_singleton trivial) trivial
  have hwrapped : wrapped query name = (.openParen :: query ++ [.closeParen]) ++ [.space, .identifier name] := by
    simp [wrapped]
  rw [hwrapped]
  exact (uncut_parentheses h).append hname

lemma uncut_joinedTokens {joined : List (JoinLink × Document)} (h : ∀ j ∈ joined, Uncut (depth + 1) j.2.tokens)
    (n : Nat) : Uncut depth (joinedTokens n joined) := by
  induction joined generalizing n with
  | nil => exact uncut_nil
  | cons j joined ih =>
    obtain ⟨link, d⟩ := j
    obtain ⟨hd, hjoined⟩ := List.forall_mem_cons.1 h
    rw [joinedTokens, linkTokens]
    refine .append (.append (.append ?_ ?_) ?_) (ih hjoined (n + 1))
    · exact .cons (.cons (uncut_singleton trivial) trivial) trivial
    · exact uncut_wrapped hd _
    · exact uncut_optionalClause (by trivial) (fun _ => by trivial) _

lemma uncut_of_not_union {d : Document} (hd : d.isUnion = false) (h : ∀ c ∈ d.children, Uncut (depth + 1) c.tokens) :
    Uncut depth d.tokens := by
  rw [tokens_eq hd]
  refine (uncut_headTokens _).append (.append ?_ (uncut_clauseTokens _))
  cases d with
  | union => cases hd
  | table b t => exact uncut_singleton trivial
  | subquery b inner => exact uncut_wrapped (h inner List.mem_cons_self) _
  | join b left joined =>
    obtain ⟨hleft, hjoined⟩ := List.forall_mem_cons.1 h
    have hqueries : ∀ j ∈ joined, Uncut (depth + 1) j.2.tokens :=
      fun j hj => hjoined j.2 (List.mem_map.2 ⟨j, hj, rfl⟩)
    exact (uncut_wrapped hleft _).append (uncut_joinedTokens hqueries 2)

lemma uncut_endTokens (b : Block) : Uncut depth (endTokens b) := by
  refine .append ?_ ?_
  · exact uncut_listClause (by trivial) (fun _ => by trivial) _
  · exact uncut_optionalClause (by trivial) (fun _ => by trivial) _

lemma uncut_succ (d : Document) : Uncut (depth + 1) d.tokens := by
  induction d using childInduction generalizing depth with
  | node d ih =>
    cases d with
    | table | subquery | join => exact uncut_of_not_union rfl fun c hc => ih c hc
    | union b first members =>
      obtain ⟨hfirst, hmembers⟩ := List.forall_mem_cons.1 ih
      rw [tokens]
      refine .append (.append hfirst ?_) (uncut_endTokens b)
      clear ih
      induction members with
      | nil => exact uncut_nil
      | cons m members ihmembers =>
        obtain ⟨type, d⟩ := m
        obtain ⟨hd, hrest⟩ := List.forall_mem_cons.1 hmembers
        rw [memberTokens]
        have hoperator : Uncut (depth + 1) [.space, .union type, .space] :=
          .cons (.append (uncut_union type) (uncut_singleton trivial)) trivial
        exact hoperator.append (.append hd (ihmembers hrest))

lemma uncut_leaf {d : Document} (h : d.isUnion = false) : Uncut 0 d.tokens :=
  uncut_of_not_union h fun c _ => c.uncut_succ

end

lemma endTokens_eq_nil {b : Block} (order : (Columns.ofFields {} b.fields).order = []) (limit : b.limit = none) :
    endTokens b = [] := by
  rw [endTokens, order, limit]
  rfl

def ReadsChain (d : Document) : Prop :=
  ∀ r, (splitUnions 0 r).first = [] → splitUnions 0 (significant d.tokens ++ r) =
    ⟨significant d.chain.first.tokens,
      d.chain.rest.map (fun m => (m.1, significant m.2.tokens)) ++ (splitUnions 0 r).rest⟩

lemma splitUnions_memberTokens {members : List (UnionType × Document)} (h : ∀ m ∈ members, m.2.ReadsChain)
    {r : List Token} (hr : (splitUnions 0 r).first = []) :
    splitUnions 0 (significant (memberTokens members) ++ r) =
      ⟨[], (members.flatMap fun m => (m.1, m.2.chain.first) :: m.2.chain.rest).map
        (fun m => (m.1, significant m.2.tokens)) ++ (splitUnions 0 r).rest⟩ := by
  induction members with
  | nil => exact Chain.ext hr rfl
  | cons m members ih =>
    obtain ⟨type, d⟩ := m
    obtain ⟨hd, hmembers⟩ := List.forall_mem_cons.1 h
    have hoperator : significant (memberTokens ((type, d) :: members)) =
        .union type :: (significant d.tokens ++ significant (memberTokens members)) := by
      rw [memberTokens, ← significant_append]
      rfl
    have hrest := ih hmembers
    rw [hoperator, List.cons_append, List.append_assoc, splitUnions, hd _ (congrArg Chain.first hrest), hrest]
    simp [Chain.append, Chain.single]

lemma Unsorted.readsChain {d : Document} (h : d.Unsorted) : d.ReadsChain := by
  induction h with
  | @leaf d hd =>
    intro r hr
    rw [uncut_leaf hd, chain_leaf hd, Chain.prepend, hr, List.append_nil]
    rfl
  | @union b first members order limit _ _ ihfirst ihmembers =>
    intro r hr
    have hmembers := splitUnions_memberTokens ihmembers hr
    rw [tokens, endTokens_eq_nil order limit, List.append_nil, significant_append, List.append_assoc,
      ihfirst _ (congrArg Chain.first hmembers), hmembers, chain_union]
    simp

lemma readUnions_tokens {d : Document} (h : d.Unsorted) :
    readUnions d.tokens = d.chain.map fun e => significant e.tokens := by
  have hread := h.readsChain [] rfl
  rw [List.append_nil] at hread
  exact hread.trans (Chain.ext rfl (List.append_nil _))

end Document

end QueryTree
