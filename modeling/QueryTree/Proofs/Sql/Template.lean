import Mathlib.Data.List.Perm.Basic
import QueryTree.Proofs.Sql.Depth
import QueryTree.Proofs.Sql.Node
/-! Templates of nodes. A node is rendered as tokens of its own with a place for each query that it reads from, in
order. So the tokens of a document are those of its nodes, each node once, with their parentheses in pairs. -/

namespace QueryTree.Document

open Sql
open Check (subqueryKey childKey)

inductive Slot where
  | own (t : Token)
  | query (d : Document)

namespace Slot

def tokens : Slot → List Token
  | own t => [t]
  | query d => d.tokens

def own? : Slot → Option Token
  | own t => some t
  | query _ => none

def query? : Slot → Option Document
  | own _ => none
  | query d => some d

end Slot

def fill (ss : List Slot) : List Token :=
  ss.flatMap Slot.tokens

def owned (ss : List Slot) : List Token :=
  ss.filterMap Slot.own?

def read (ss : List Slot) : List Document :=
  ss.filterMap Slot.query?

def wrappedSlots (d : Document) (name : String) : List Slot :=
  .own .openParen :: .query d :: [Token.closeParen, .space, .identifier name].map .own

def linkSlots (link : JoinLink) (d : Document) (name : String) : List Slot :=
  [Token.space, .join link.type, .space].map .own ++ wrappedSlots d name ++
    (optionalClause .on (link.on.map .raw)).map .own

def joinedSlots (n : Nat) : List (JoinLink × Document) → List Slot
  | [] => []
  | (link, d) :: rest => linkSlots link d (childKey n) ++ joinedSlots (n + 1) rest

def memberSlots (m : UnionType × Document) : List Slot :=
  [Token.space, .union m.1, .space].map .own ++ [.query m.2]

def opening (d : Document) : List Token :=
  if d.isUnion then [] else headTokens (.ofBlock d.block)

def sourceSlots : Document → List Slot
  | table _ t => (tableTokens t).map .own
  | subquery _ inner => wrappedSlots inner subqueryKey
  | join _ left joined => wrappedSlots left (childKey 1) ++ joinedSlots 2 joined
  | union _ first members => .query first :: members.flatMap memberSlots

def closing (d : Document) : List Token :=
  if d.isUnion then endTokens d.block else clauseTokens (.ofBlock d.block)

def template (d : Document) : List Slot :=
  d.opening.map .own ++ d.sourceSlots ++ d.closing.map .own

section

variable (t : Token) (d : Document) (ss ss' : List Slot) (ts : List Token)

@[simp] lemma fill_own : fill (.own t :: ss) = t :: fill ss := rfl

@[simp] lemma fill_query : fill (.query d :: ss) = d.tokens ++ fill ss := rfl

@[simp] lemma owned_own : owned (.own t :: ss) = t :: owned ss := rfl

@[simp] lemma owned_query : owned (.query d :: ss) = owned ss := rfl

@[simp] lemma read_own : read (.own t :: ss) = read ss := rfl

@[simp] lemma read_query : read (.query d :: ss) = d :: read ss := rfl

@[simp] lemma fill_append : fill (ss ++ ss') = fill ss ++ fill ss' :=
  List.flatMap_append

@[simp] lemma fill_map_own : fill (ts.map .own) = ts := by
  rw [fill, List.flatMap_map]
  exact List.flatMap_singleton' ts

@[simp] lemma owned_append : owned (ss ++ ss') = owned ss ++ owned ss' :=
  List.filterMap_append

@[simp] lemma owned_map_own : owned (ts.map .own) = ts := by
  rw [owned, List.filterMap_map]
  exact List.filterMap_some

@[simp] lemma read_append : read (ss ++ ss') = read ss ++ read ss' :=
  List.filterMap_append

@[simp] lemma read_map_own : read (ts.map .own) = [] := by
  rw [read, List.filterMap_map]
  exact List.filterMap_eq_nil_iff.2 fun _ _ => rfl

end

@[simp] lemma fill_wrappedSlots (d : Document) (name : String) : fill (wrappedSlots d name) = wrapped d.tokens name :=
  rfl

@[simp] lemma read_wrappedSlots (d : Document) (name : String) : read (wrappedSlots d name) = [d] :=
  rfl

lemma fill_joinedSlots (n : Nat) (joined : List (JoinLink × Document)) :
    fill (joinedSlots n joined) = joinedTokens n joined := by
  induction joined generalizing n with
  | nil => rfl
  | cons j joined ih =>
    obtain ⟨link, d⟩ := j
    rw [joinedSlots, fill_append, ih, linkSlots, fill_append, fill_append, fill_map_own, fill_map_own,
      fill_wrappedSlots]
    rfl

lemma read_joinedSlots (n : Nat) (joined : List (JoinLink × Document)) :
    read (joinedSlots n joined) = joined.map Prod.snd := by
  induction joined generalizing n with
  | nil => rfl
  | cons j joined ih =>
    obtain ⟨link, d⟩ := j
    rw [joinedSlots, read_append, ih, linkSlots, read_append, read_append, read_map_own, read_map_own,
      read_wrappedSlots]
    rfl

lemma fill_memberSlots (members : List (UnionType × Document)) :
    fill (members.flatMap memberSlots) = memberTokens members := by
  induction members with
  | nil => rfl
  | cons m members ih =>
    obtain ⟨type, d⟩ := m
    rw [List.flatMap_cons, fill_append, ih, memberSlots, fill_append, fill_map_own, memberTokens]
    exact congrArg (_ :: _ :: _ :: · ++ _) (List.append_nil d.tokens)

lemma read_memberSlots (members : List (UnionType × Document)) :
    read (members.flatMap memberSlots) = members.map Prod.snd := by
  induction members with
  | nil => rfl
  | cons m members ih =>
    rw [List.flatMap_cons, read_append, ih]
    rfl

lemma fill_template (d : Document) : fill d.template = d.tokens := by
  cases hunion : d.isUnion with
  | false =>
    have hsource : fill d.sourceSlots = d.sourceTokens := by
      cases d with
      | union => cases hunion
      | table b t => exact fill_map_own _
      | subquery => rfl
      | join b left joined => rw [sourceSlots, fill_append, fill_joinedSlots]; rfl
    rw [template, opening, closing, hunion, fill_append, fill_append, hsource, fill_map_own, fill_map_own,
      tokens_eq hunion, List.append_assoc]
    rfl
  | true =>
    cases d with
    | table | subquery | join => cases hunion
    | union b first members =>
      have hmembers := fill_memberSlots members
      rw [template, opening, closing, hunion, fill_append, fill_append, fill_map_own, fill_map_own, sourceSlots, tokens,
        ← hmembers]
      rfl

lemma read_sourceSlots (d : Document) : read d.sourceSlots = d.children := by
  cases d with
  | table b t => exact read_map_own _
  | subquery => rfl
  | join b left joined => rw [sourceSlots, read_append, read_joinedSlots]; rfl
  | union b first members =>
    have hmembers := read_memberSlots members
    rw [children, ← hmembers]
    rfl

lemma read_template (d : Document) : read d.template = d.children := by
  rw [template, read_append, read_append, read_map_own, read_map_own, read_sourceSlots, List.nil_append,
    List.append_nil]

def ownTokens (d : Document) : List Token :=
  owned d.template

section

variable {ss : List Slot}

lemma fill_perm (ss : List Slot) : (fill ss).Perm (owned ss ++ (read ss).flatMap tokens) := by
  induction ss with
  | nil => exact .nil
  | cons s ss ih =>
    cases s with
    | own t => exact ih.cons t
    | query d =>
      rw [fill_query, owned_query, read_query, List.flatMap_cons]
      exact (ih.append_left _).trans (List.perm_append_comm_assoc ..)

lemma fill_eq_owned (h : read ss = []) : fill ss = owned ss := by
  induction ss with
  | nil => rfl
  | cons s ss ih =>
    cases s with
    | own t => rw [fill_own, owned_own, ih h]
    | query d => cases h

lemma infix_fill_of_mem {c : Document} (h : c ∈ read ss) : c.tokens <:+: fill ss := by
  induction ss with
  | nil => cases h
  | cons s ss ih =>
    cases s with
    | own t => exact List.infix_cons (ih h)
    | query d =>
      rcases List.mem_cons.1 h with rfl | h
      · exact (List.prefix_append ..).isInfix
      · exact (ih h).trans (List.suffix_append ..).isInfix

lemma filterMap_fill {β : Type} {f : Token → Option β} (h : (owned ss).filterMap f = []) :
    (fill ss).filterMap f = (read ss).flatMap fun c => c.tokens.filterMap f := by
  induction ss with
  | nil => rfl
  | cons s ss ih =>
    cases s with
    | own t =>
      rw [List.filterMap_eq_nil_iff, owned_own, List.forall_mem_cons, ← List.filterMap_eq_nil_iff] at h
      rw [fill_own, List.filterMap_cons_none h.1, ih h.2, read_own]
    | query d => rw [fill_query, List.filterMap_append, ih h, read_query, List.flatMap_cons]

lemma depthAfter_fill (h : ∀ c ∈ read ss, Closed c.tokens) (depth : Nat) :
    depthAfter depth (fill ss) = depthAfter depth (owned ss) := by
  induction ss generalizing depth with
  | nil => rfl
  | cons s ss ih =>
    cases s with
    | own t =>
      rw [fill_own, owned_own, depthAfter_cons_eq_bind, depthAfter_cons_eq_bind depth t (owned ss), funext (ih h)]
    | query d =>
      obtain ⟨hd, hss⟩ := List.forall_mem_cons.1 h
      rw [fill_query, owned_query, depthAfter_append, hd, Option.bind_some, ih hss]

end

lemma tokens_perm (d : Document) : d.tokens.Perm (d.nodes.flatMap ownTokens) := by
  induction d using childInduction with
  | node d ih =>
    have hchildren : (d.children.flatMap tokens).Perm (d.children.flatMap fun c => c.nodes.flatMap ownTokens) :=
      .flatMap_left _ ih
    have hnode := fill_perm d.template
    rw [fill_template, read_template] at hnode
    rw [nodes_eq, List.flatMap_append, List.flatMap_assoc, List.flatMap_singleton]
    exact (hnode.trans (hchildren.append_left _)).trans List.perm_append_comm

lemma infix_tokens_of_mem_nodes {d e : Document} (h : e ∈ d.nodes) : e.tokens <:+: d.tokens := by
  induction d using childInduction with
  | node d ih =>
    rw [nodes_eq, List.mem_append, List.mem_flatMap, List.mem_singleton] at h
    rcases h with ⟨c, hc, he⟩ | rfl
    · have hchild : c.tokens <:+: fill d.template := infix_fill_of_mem (by rwa [read_template])
      rw [fill_template] at hchild
      exact (ih c hc he).trans hchild
    · exact List.infix_rfl

def ownSkeleton : Document → List Token
  | table _ t => [.select, .qualified t.schema t.table]
  | subquery .. => [.select, .openParen, .closeParen]
  | join _ _ joined =>
    [.select, .openParen, .closeParen] ++ joined.flatMap fun j => [.join j.1.type, .openParen, .closeParen]
  | union _ _ members => members.map fun m => .union m.1

lemma skeleton_opening (d : Document) : skeleton d.opening = if d.isUnion then [] else [.select] := by
  have hhead (n : Shown) : skeleton (headTokens n) = [.select] := by
    have hnames : Filling (.space :: commaSeparated (n.names.map .raw)) :=
      List.forall_mem_cons.2 ⟨rfl, filling_commaSeparated (filling_map (fun _ => rfl) _)⟩
    rw [headTokens, skeleton_append, skeleton_append, hnames.skeleton_eq]
    split <;> rfl
  rw [opening]
  split
  · rfl
  · exact hhead _

lemma filling_closing (d : Document) : Filling d.closing := by
  have horder (xs : List String) : Filling (listClause .orderBy (xs.map .raw)) :=
    filling_listClause rfl (filling_map (fun _ => rfl) _)
  have hgroup (xs : List String) : Filling (listClause .groupBy (xs.map .identifier)) :=
    filling_listClause rfl (filling_map (fun _ => rfl) _)
  have hlimit (n : Option UInt64) : Filling (optionalClause .limit (n.map .natural)) :=
    filling_optionalClause rfl (fun _ => rfl) _
  rw [closing]
  split
  · exact List.forall_mem_append.2 ⟨horder _, hlimit _⟩
  · simp only [Filling, clauseTokens, List.forall_mem_append]
    exact ⟨filling_optionalClause rfl (fun _ => rfl) _, hgroup _, filling_optionalClause rfl (fun _ => rfl) _,
      horder _, hlimit _⟩

lemma skeleton_owned_joinedSlots (n : Nat) (joined : List (JoinLink × Document)) :
    skeleton (owned (joinedSlots n joined)) = joined.flatMap fun j => [.join j.1.type, .openParen, .closeParen] := by
  induction joined generalizing n with
  | nil => rfl
  | cons j joined ih =>
    obtain ⟨link, d⟩ := j
    have hon : Filling (optionalClause .on (link.on.map .raw)) := filling_optionalClause rfl (fun _ => rfl) _
    rw [joinedSlots, owned_append, skeleton_append, ih, linkSlots, owned_append, skeleton_append, owned_map_own,
      hon.skeleton_eq]
    rfl

lemma skeleton_owned_memberSlots (members : List (UnionType × Document)) :
    skeleton (owned (members.flatMap memberSlots)) = members.map fun m => .union m.1 := by
  induction members with
  | nil => rfl
  | cons m members ih =>
    rw [List.flatMap_cons, owned_append, skeleton_append, ih]
    rfl

lemma skeleton_ownTokens (d : Document) : skeleton d.ownTokens = d.ownSkeleton := by
  rw [ownTokens, template, owned_append, owned_append, owned_map_own, owned_map_own, skeleton_append, skeleton_append,
    d.filling_closing.skeleton_eq, List.append_nil, skeleton_opening]
  cases d with
  | table | subquery => rfl
  | join b left joined =>
    rw [sourceSlots, owned_append, skeleton_append, skeleton_owned_joinedSlots]
    rfl
  | union b first members => exact skeleton_owned_memberSlots members

lemma closed_ownSkeleton (d : Document) : Closed d.ownSkeleton := by
  cases d with
  | table | subquery => exact fun _ => rfl
  | join b left joined =>
    have hhead : Closed [.select, .openParen, .closeParen] := fun _ => rfl
    exact hhead.append (.flatMap (fun _ _ => rfl) joined)
  | union b first members =>
    rw [ownSkeleton, List.map_eq_flatMap]
    exact .flatMap (fun _ _ => rfl) members

lemma closed_tokens (d : Document) : Closed d.tokens := by
  induction d using childInduction with
  | node d ih =>
    have hown : Closed d.ownTokens := closed_of_skeleton (by rw [skeleton_ownTokens]; exact d.closed_ownSkeleton)
    intro depth
    rw [← fill_template, depthAfter_fill (by rwa [read_template])]
    exact hown depth

lemma tables_ownTokens (d : Document) : d.ownTokens.filterMap Token.table? = d.table?.toList := by
  rw [← filterMap_table?_skeleton, skeleton_ownTokens]
  cases d with
  | table | subquery => rfl
  | join b left joined =>
    have hlinks :
        (joined.flatMap fun j => [Token.join j.1.type, .openParen, .closeParen]).filterMap Token.table? = [] := by
      rw [List.filterMap_flatMap]
      exact List.flatMap_eq_nil_iff.2 fun _ _ => rfl
    exact hlinks
  | union b first members =>
    rw [ownSkeleton, List.filterMap_map]
    exact List.filterMap_eq_nil_iff.2 fun _ _ => rfl

lemma closed_fill {ss : List Slot} (h : Closed (owned ss)) : Closed (fill ss) := by
  intro depth
  rw [depthAfter_fill fun c _ => c.closed_tokens, h]

lemma tables_tokens (d : Document) : d.tokens.filterMap Token.table? = d.nodes.filterMap table? := by
  induction d using childInduction with
  | node d ih =>
    have hown := d.tables_ownTokens
    cases d with
    | table b t =>
      have hread : read (table b t).template = [] := read_template _
      rwa [ownTokens, ← fill_eq_owned hread, fill_template] at hown
    | subquery | join | union =>
      rw [← fill_template, filterMap_fill hown, read_template, nodes_eq, List.filterMap_append, List.filterMap_flatMap,
        List.flatMap_congr ih]
      exact (List.append_nil _).symm

lemma countP_tokens_eq_length {α : Type} {p : Token → Bool} {q : Document → Bool} {f : Document → List α}
    (hp : ∀ t, p t = true → t.isStructural = true)
    (h : ∀ e, e.ownSkeleton.countP p = if q e then (f e).length else 0) (d : Document) :
    d.tokens.countP p = ((d.nodes.filter q).flatMap f).length := by
  rw [d.tokens_perm.countP_eq]
  induction d.nodes with
  | nil => rfl
  | cons e es ih =>
    rw [List.flatMap_cons, List.countP_append, ih, ← countP_skeleton hp, skeleton_ownTokens, h, List.filter_cons]
    split
    · rw [List.flatMap_cons, List.length_append]
    · exact Nat.zero_add _

lemma countP_flatMap_of_forall {α : Type} {p : Token → Bool} {n : Nat} {f : α → List Token}
    (h : ∀ a, (f a).countP p = n) (as : List α) : (as.flatMap f).countP p = as.length * n := by
  have hcounts : as.map (List.countP p ∘ f) = List.replicate as.length n :=
    List.map_eq_replicate_iff.2 fun a _ => h a
  rw [List.countP_flatMap, hcounts, List.sum_replicate_nat]

section

variable {p : Token → Bool} (b : Block) (d : Document)

lemma countP_ownSkeleton_join {n : Nat} (h : ∀ type, [Token.join type, .openParen, .closeParen].countP p = n)
    (joined : List (JoinLink × Document)) : (join b d joined).ownSkeleton.countP p =
      [Token.select, .openParen, .closeParen].countP p + (join b d joined).children.tail.length * n := by
  have hlinks := countP_flatMap_of_forall (fun j : JoinLink × Document => h j.1.type) joined
  rw [ownSkeleton, List.countP_append, hlinks, children, List.tail_cons, List.length_map]

lemma countP_ownSkeleton_union {n : Nat} (h : ∀ type, [Token.union type].countP p = n)
    (members : List (UnionType × Document)) :
    (union b d members).ownSkeleton.countP p = (union b d members).children.tail.length * n := by
  have hoperators := countP_flatMap_of_forall (fun m : UnionType × Document => h m.1) members
  rw [ownSkeleton, List.map_eq_flatMap, hoperators, children, List.tail_cons, List.length_map]

end

lemma count_select_ownSkeleton (d : Document) :
    d.ownSkeleton.countP (· == .select) = if d.kind ≠ .union then 1 else 0 := by
  cases d with
  | table | subquery => rfl
  | join b left joined => rw [countP_ownSkeleton_join (n := 0) b left fun _ => rfl]; rfl
  | union b first members => rw [countP_ownSkeleton_union (n := 0) b first fun _ => rfl]; rfl

lemma countP_isUnion_ownSkeleton (d : Document) :
    d.ownSkeleton.countP Token.isUnion = if d.kind = .union then d.children.tail.length else 0 := by
  cases d with
  | table | subquery => rfl
  | join b left joined => rw [countP_ownSkeleton_join (n := 0) b left fun _ => rfl]; rfl
  | union b first members => rw [countP_ownSkeleton_union (n := 1) b first fun _ => rfl, Nat.mul_one]; rfl

lemma countP_isJoin_ownSkeleton (d : Document) :
    d.ownSkeleton.countP Token.isJoin = if d.kind = .join then d.children.tail.length else 0 := by
  cases d with
  | table | subquery => rfl
  | join b left joined =>
    rw [countP_ownSkeleton_join (n := 1) b left fun _ => rfl, Nat.mul_one]
    exact Nat.zero_add _
  | union b first members => rw [countP_ownSkeleton_union (n := 0) b first fun _ => rfl]; rfl

lemma count_openParen_ownSkeleton (d : Document) : d.ownSkeleton.countP (· == .openParen) =
    if d.kind = .subquery ∨ d.kind = .join then d.children.length else 0 := by
  cases d with
  | table | subquery => rfl
  | join b left joined =>
    rw [countP_ownSkeleton_join (n := 1) b left fun _ => rfl, Nat.mul_one]
    exact Nat.add_comm ..
  | union b first members => rw [countP_ownSkeleton_union (n := 0) b first fun _ => rfl]; rfl

/-- Every node is rendered once and in its place, with what it reads from in parentheses unless it is a union. -/
theorem nodes_rendered_once (d : Document) :
    d.nodes.length = d.nodeCount ∧ d.tokens.Perm (d.nodes.flatMap ownTokens) ∧ Paired d.tokens ∧
      d.tokens.filterMap Token.table? = d.nodes.filterMap table? ∧
      d.tokens.count .select = (d.nodes.filter fun e => e.kind ≠ .union).length ∧
      d.tokens.countP Token.isUnion = ((d.nodes.filter fun e => e.kind = .union).flatMap (·.children.tail)).length ∧
      d.tokens.countP Token.isJoin = ((d.nodes.filter fun e => e.kind = .join).flatMap (·.children.tail)).length ∧
      d.tokens.count .openParen =
        ((d.nodes.filter fun e => e.kind = .subquery ∨ e.kind = .join).flatMap children).length := by
  have hbeq {a : Token} (ha : a.isStructural = true) (t : Token) (ht : (t == a) = true) : t.isStructural = true := by
    rwa [beq_iff_eq.1 ht]
  have hunion (t : Token) (ht : t.isUnion = true) : t.isStructural = true := by
    cases t with
    | union => rfl
    | _ => cases ht
  have hjoin (t : Token) (ht : t.isJoin = true) : t.isStructural = true := by
    cases t with
    | join => rfl
    | _ => cases ht
  have hselect : d.tokens.count .select = ((d.nodes.filter fun e => e.kind ≠ .union).flatMap fun e => [e]).length :=
    countP_tokens_eq_length (hbeq rfl) (by simpa using count_select_ownSkeleton) d
  refine ⟨d.length_nodes, d.tokens_perm, d.closed_tokens.paired, d.tables_tokens, ?_, ?_, ?_, ?_⟩
  · rw [hselect, List.flatMap_singleton']
  · exact countP_tokens_eq_length hunion (by simpa using countP_isUnion_ownSkeleton) d
  · exact countP_tokens_eq_length hjoin (by simpa using countP_isJoin_ownSkeleton) d
  · exact countP_tokens_eq_length (hbeq rfl) (by simpa using count_openParen_ownSkeleton) d

end QueryTree.Document
