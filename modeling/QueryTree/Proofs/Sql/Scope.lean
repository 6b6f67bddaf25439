import QueryTree.Frame.Compose
import QueryTree.Frame.Edit
import QueryTree.Proofs.Sql.SetOperations
import QueryTree.Proofs.Sql.Template
/-! Which query an ORDER BY or a LIMIT belongs to. A query in parentheses keeps its own; a member of a union stands
bare, so that what it ends with stands where the operators of the union stand. -/

namespace QueryTree

namespace Sql

def Token.isEnd : Token → Bool
  | orderBy | limit => true
  | _ => false

def endsAt (depth : Nat) (ts : List Token) : List Token :=
  (tokensAt depth depth ts).filter Token.isEnd

def Interior (ts : List Token) : Prop :=
  ∀ t ∈ ts, t.isParen = false ∧ t.isEnd = false

structure Endless (ts : List Token) : Prop where
  closed : Closed ts
  ends : ∀ depth, endsAt depth ts = []

section

variable {ts us : List Token}

lemma Closed.endsAt_append (h : Closed ts) (depth : Nat) (us : List Token) :
    endsAt depth (ts ++ us) = endsAt depth ts ++ endsAt depth us := by
  rw [endsAt, h.tokensAt_append, List.filter_append, endsAt, endsAt]

lemma endsAt_eq_filter (h : ∀ t ∈ ts, t.isParen = false) (depth : Nat) :
    endsAt depth ts = ts.filter Token.isEnd := by
  rw [endsAt, tokensAt_eq_self h]

lemma Interior.endless (h : Interior ts) : Endless ts := by
  have hparen : ∀ t ∈ ts, t.isParen = false := fun t ht => (h t ht).1
  refine ⟨closed_of_forall hparen, fun depth => ?_⟩
  rw [endsAt_eq_filter hparen, List.filter_eq_nil_iff]
  exact fun t ht => by simp [(h t ht).2]

lemma interior_commaSeparated (h : Interior ts) : Interior (commaSeparated ts) :=
  forall_mem_commaSeparated (p := fun t => t.isParen = false ∧ t.isEnd = false) (by decide) (by decide) h

lemma interior_listClause {keyword : Token} (hk : keyword.isParen = false ∧ keyword.isEnd = false) (h : Interior ts) :
    Interior (listClause keyword ts) :=
  forall_mem_listClause (p := fun t => t.isParen = false ∧ t.isEnd = false) (by decide) hk (by decide) h

lemma interior_optionalClause {keyword : Token} (hk : keyword.isParen = false ∧ keyword.isEnd = false)
    (o : Option String) : Interior (optionalClause keyword (o.map .raw)) :=
  forall_mem_optionalClause (p := fun t => t.isParen = false ∧ t.isEnd = false) (by decide) hk (fun _ => ⟨rfl, rfl⟩) o

lemma Endless.append (h : Endless ts) (h' : Endless us) : Endless (ts ++ us) :=
  ⟨h.closed.append h'.closed, fun depth => by rw [h.closed.endsAt_append, h.ends, h'.ends, List.append_nil]⟩

lemma endless_wrapped (h : Closed ts) (name : String) : Endless (Document.wrapped ts name) := by
  have hname : Interior [.space, .identifier name] := by simp [Interior, Token.isParen, Token.isEnd]
  refine ⟨fun depth => ?_, fun depth => ?_⟩
  · rw [Document.wrapped, List.cons_append, depthAfter, depthAfter_append, h]
    rfl
  · rw [endsAt, Document.wrapped, tokensAt_parenthesized h]
    exact hname.endless.ends depth

end

end Sql

namespace Document

open Sql
open Check (subqueryKey childKey)

variable {depth : Nat}

lemma endless_joinedTokens (n : Nat) (joined : List (JoinLink × Document)) : Endless (joinedTokens n joined) := by
  induction joined generalizing n with
  | nil => exact ⟨closed_nil, fun _ => rfl⟩
  | cons j joined ih =>
    obtain ⟨link, d⟩ := j
    have hjoin : Interior [.space, .join link.type, .space] := by simp [Interior, Token.isParen, Token.isEnd]
    have hon : Interior (optionalClause .on (link.on.map .raw)) := interior_optionalClause (by decide) _
    exact ((hjoin.endless.append (endless_wrapped d.closed_tokens _)).append hon.endless).append (ih (n + 1))

lemma endless_sourceTokens (d : Document) : Endless d.sourceTokens := by
  cases d with
  | table b t =>
    have htable : Interior (tableTokens t) := by simp [Interior, tableTokens, Token.isParen, Token.isEnd]
    exact htable.endless
  | subquery b inner => exact endless_wrapped inner.closed_tokens _
  | join b left joined => exact (endless_wrapped left.closed_tokens _).append (endless_joinedTokens 2 joined)
  | union => exact ⟨closed_nil, fun _ => rfl⟩

lemma endless_bodyTokens {source : List Token} (h : Endless source) (b : Block) : Endless (bodyTokens b source) := by
  have hselect (distinct : Bool) (c : Columns) : Interior (selectTokens distinct c) := by
    have hnames : Interior (commaSeparated (c.names.map .raw)) :=
      interior_commaSeparated (List.forall_mem_map.2 fun _ _ => ⟨rfl, rfl⟩)
    have hdistinct : Interior (.select :: if distinct then [.space, .distinct] else []) := by
      cases distinct <;> simp [Interior, Token.isParen, Token.isEnd]
    exact List.forall_mem_append.2 ⟨hdistinct, List.forall_mem_cons.2 ⟨⟨rfl, rfl⟩, hnames⟩⟩
  have hfrom : Interior [.space, .from, .space] := by simp [Interior, Token.isParen, Token.isEnd]
  have hgroup (xs : List String) : Interior (listClause .groupBy (xs.map .identifier)) :=
    interior_listClause (by decide) (List.forall_mem_map.2 fun _ _ => ⟨rfl, rfl⟩)
  have hconditions (c : Columns) : Interior (conditionTokens b c) := by
    refine List.forall_mem_append.2 ⟨List.forall_mem_append.2 ⟨?_, hgroup _⟩, ?_⟩
    · exact interior_optionalClause (by decide) _
    · exact interior_optionalClause (by decide) _
  exact (((hselect _ _).endless.append hfrom.endless).append h).append (hconditions _).endless

lemma endsAt_tokens_of_select {d : Document} (h : d.isUnion = false) :
    endsAt depth d.tokens = endsAt depth (endTokens d.block) := by
  have hbody : d.tokens = bodyTokens d.block d.sourceTokens ++ endTokens d.block := by
    cases d with
    | union => cases h
    | table | subquery | join => rw [tokens, sourceTokens, block]
  have hendless := endless_bodyTokens d.endless_sourceTokens d.block
  rw [hbody, hendless.closed.endsAt_append, hendless.ends, List.nil_append]

lemma endsAt_endTokens (b : Block) : endsAt depth (endTokens b) =
    (if (Columns.ofFields {} b.fields).order = [] then [] else [.orderBy]) ++ b.limit.toList.map fun _ => .limit := by
  have horder (xs : List String) :
      endsAt depth (listClause .orderBy (xs.map .raw)) = if xs = [] then [] else [.orderBy] := by
    cases xs with
    | nil => rfl
    | cons x xs =>
      have hnames : Interior (commaSeparated ((x :: xs).map .raw)) :=
        interior_commaSeparated (List.forall_mem_map.2 fun _ _ => ⟨rfl, rfl⟩)
      have hkeyword : Closed [.space, .orderBy, .space] := closed_of_forall (by simp [Token.isParen])
      have hclause : listClause .orderBy ((x :: xs).map .raw) =
          [.space, .orderBy, .space] ++ commaSeparated ((x :: xs).map .raw) := rfl
      rw [hclause, hkeyword.endsAt_append, hnames.endless.ends, endsAt_eq_filter (by simp [Token.isParen])]
      rfl
  have hlimit (o : Option UInt64) :
      endsAt depth (optionalClause .limit (o.map .natural)) = o.toList.map fun _ => .limit := by
    cases o with
    | none => rfl
    | some n =>
      rw [endsAt_eq_filter (by simp [optionalClause, clause, Token.isParen])]
      rfl
  have hclosed (xs : List String) : Closed (listClause .orderBy (xs.map .raw)) :=
    closed_of_forall (forall_mem_listClause (p := fun t => t.isParen = false) rfl rfl rfl
      (List.forall_mem_map.2 fun _ _ => rfl))
  rw [endTokens, (hclosed _).endsAt_append, horder, hlimit]

lemma endsAt_fill {ss : List Slot} (hown : Interior (owned ss)) :
    endsAt depth (fill ss) = (read ss).flatMap fun c => endsAt depth c.tokens := by
  induction ss with
  | nil => rfl
  | cons s ss ih =>
    cases s with
    | own t =>
      have ht : Interior [t] := List.forall_mem_singleton.2 (hown t List.mem_cons_self)
      rw [fill_own, ← List.singleton_append, ht.endless.closed.endsAt_append, ht.endless.ends, List.nil_append,
        read_own]
      exact ih fun u hu => hown u (List.mem_cons_of_mem _ hu)
    | query d => rw [fill_query, d.closed_tokens.endsAt_append, ih hown, read_query, List.flatMap_cons]

lemma owned_sublist_tokensAt {ss : List Slot} (hown : Interior (owned ss)) :
    (owned ss).Sublist (tokensAt depth depth (fill ss)) := by
  induction ss with
  | nil => exact .refl _
  | cons s ss ih =>
    cases s with
    | own t =>
      obtain ⟨ht, hss⟩ := List.forall_mem_cons.1 hown
      rw [fill_own, owned_own, tokensAt_cons ht.1]
      exact (ih hss).cons_cons t
    | query d =>
      rw [fill_query, owned_query, d.closed_tokens.tokensAt_append]
      exact (ih hown).trans (List.sublist_append_right ..)

section

variable {u : Document} (h : u.isUnion = true)

include h

lemma tokens_eq_of_union : u.tokens = fill u.sourceSlots ++ endTokens u.block := by
  rw [← fill_template, template, opening, closing, if_pos h, if_pos h, fill_append, fill_append, fill_map_own,
    fill_map_own, List.nil_append]

lemma interior_owned_of_union : Interior (owned u.sourceSlots) := by
  cases u with
  | table | subquery | join => cases h
  | union b first members =>
    rw [sourceSlots, owned_query]
    induction members with
    | nil => exact List.forall_mem_nil _
    | cons m members ih =>
      have hoperator : Interior [.space, .union m.1, .space] := by simp [Interior, Token.isParen, Token.isEnd]
      rw [List.flatMap_cons, owned_append]
      exact List.forall_mem_append.2 ⟨hoperator, ih h⟩

lemma operators_sublist_owned_of_union : u.ownSkeleton.Sublist (owned u.sourceSlots) := by
  cases u with
  | table | subquery | join => cases h
  | union b first members =>
    rw [ownSkeleton, ← skeleton_owned_memberSlots]
    exact List.filter_sublist

lemma closed_source_of_union : Closed (fill u.sourceSlots) :=
  closed_fill (interior_owned_of_union h).endless.closed

lemma endsAt_source_of_union :
    endsAt depth (fill u.sourceSlots) = u.children.flatMap fun c => endsAt depth c.tokens := by
  rw [endsAt_fill (interior_owned_of_union h), read_sourceSlots]

lemma endsAt_tokens_of_union : endsAt depth u.tokens =
    (u.children.flatMap fun c => endsAt depth c.tokens) ++ endsAt depth (endTokens u.block) := by
  rw [tokens_eq_of_union h, (closed_source_of_union h).endsAt_append, endsAt_source_of_union h]

end

/-- The order and the limit of a union, as they stand at the depth of its operators. -/
structure EndsInside (depth : Nat) (u : Document) : Prop where
  operators : u.ownSkeleton.Sublist (tokensAt depth depth u.tokens)
  members : endsAt depth (fill u.sourceSlots) = []
  own : endsAt depth u.tokens = endsAt depth (endTokens u.block)
  once : ∀ t, (endsAt depth u.tokens).count t ≤ 1
  last : u.tokens = fill u.sourceSlots ++ endTokens u.block

def Unended (d : Document) : Prop :=
  d.columns.order = [] ∧ d.block.limit = none

lemma endsAt_endTokens_eq_nil_iff {d : Document} : endsAt depth (endTokens d.block) = [] ↔ d.Unended := by
  have horder : ((if d.columns.order = [] then [] else [Token.orderBy]) = []) ↔ d.columns.order = [] := by
    split <;> simp_all
  rw [endsAt_endTokens, List.append_eq_nil_iff, List.map_eq_nil_iff, Option.toList_eq_nil_iff]
  exact and_congr_left' horder

lemma count_endsAt_endTokens_le (b : Block) (t : Token) : (endsAt depth (endTokens b)).count t ≤ 1 := by
  have hnodup : (endsAt depth (endTokens b)).Nodup := by
    rw [endsAt_endTokens]
    split <;> cases b.limit <;> simp
  exact List.nodup_iff_count_le_one.1 hnodup t

lemma endsAt_tokens_eq_nil {d : Document} (h : d.EveryNode fun u => u.isUnion = true → ∀ m ∈ u.children, m.Unended)
    (hd : d.Unended) : endsAt depth d.tokens = [] := by
  induction d using childInduction with
  | node d ih =>
    obtain ⟨hroot, hchildren⟩ := everyNode_iff.1 h
    cases hunion : d.isUnion with
    | false => rw [endsAt_tokens_of_select hunion, endsAt_endTokens_eq_nil_iff.2 hd]
    | true =>
      rw [endsAt_tokens_of_union hunion, endsAt_endTokens_eq_nil_iff.2 hd, List.append_nil, List.flatMap_eq_nil_iff]
      exact fun m hm => ih m hm (hchildren m hm) (hroot hunion m hm)

lemma endsInside_iff {u : Document} (h : u.isUnion = true) :
    u.EndsInside depth ↔ ∀ m ∈ u.children, endsAt depth m.tokens = [] := by
  rw [← List.flatMap_eq_nil_iff, ← endsAt_source_of_union h]
  refine ⟨EndsInside.members, fun hmembers => ?_⟩
  have hown : endsAt depth u.tokens = endsAt depth (endTokens u.block) := by
    rw [tokens_eq_of_union h, (closed_source_of_union h).endsAt_append, hmembers, List.nil_append]
  have hoperators : u.ownSkeleton.Sublist (tokensAt depth depth u.tokens) := by
    rw [tokens_eq_of_union h, (closed_source_of_union h).tokensAt_append]
    have hsource : u.ownSkeleton.Sublist (tokensAt depth depth (fill u.sourceSlots)) :=
      (operators_sublist_owned_of_union h).trans (owned_sublist_tokensAt (interior_owned_of_union h))
    exact hsource.trans (List.sublist_append_left ..)
  exact ⟨hoperators, hmembers, hown, fun t => hown ▸ count_endsAt_endTokens_le u.block t, tokens_eq_of_union h⟩

lemma unended_of_endsAt_tokens {d : Document} (h : endsAt depth d.tokens = []) : d.Unended := by
  rw [← @endsAt_endTokens_eq_nil_iff depth]
  cases hunion : d.isUnion with
  | false => rwa [endsAt_tokens_of_select hunion] at h
  | true =>
    rw [endsAt_tokens_of_union hunion] at h
    exact (List.append_eq_nil_iff.1 h).2

/-- Order and limit stay inside the queries that they belong to exactly if no member of a union has any. -/
theorem ends_inside_unions_iff (d : Document) :
    (d.EveryNode fun u => u.isUnion = true → u.tokens <:+: d.tokens ∧ ∀ depth, u.EndsInside depth) ↔
      d.EveryNode fun u => u.isUnion = true → ∀ m ∈ u.children, m.columns.order = [] ∧ m.block.limit = none := by
  constructor
  · intro h
    refine h.mono fun u hu hunion m hm => ?_
    exact unended_of_endsAt_tokens ((endsInside_iff hunion).1 ((hu hunion).2 0) m hm)
  · intro h
    rw [everyNode_iff_forall_mem_nodes]
    intro u hu hunion
    refine ⟨infix_tokens_of_mem_nodes hu, fun depth => (endsInside_iff hunion).2 fun m hm => ?_⟩
    obtain ⟨hroot, hchildren⟩ := everyNode_iff.1 (everyNode_iff_forall_mem_nodes.1 h.everyNode u hu)
    exact endsAt_tokens_eq_nil (hchildren m hm) (hroot hunion m hm)

def limitedFirst : Document :=
  uniteX ((selectX "a").mapBlock fun b => { b with limit := some 5 }) [(.all, selectX "b")]

/-- The limit of the first member stands before the operator, in no parentheses. -/
theorem not_endsInside_limitedFirst :
    let a : Frame := { document := some (selectX "a") }
    let b : Frame := { document := some (selectX "b") }
    ∃ f, Frame.union [a.limit 5, b] [.all] = .ok f ∧ f.document = some limitedFirst ∧
      limitedFirst.sql = "SELECT x FROM a LIMIT 5 UNION ALL SELECT x FROM b" ∧ ¬ limitedFirst.EndsInside 0 := by
  refine ⟨_, rfl, rfl, by decide +kernel, fun h => ?_⟩
  exact absurd h.members (by decide +kernel)

end Document

end QueryTree
