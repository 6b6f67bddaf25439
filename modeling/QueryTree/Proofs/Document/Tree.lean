import Mathlib.Data.List.Nodup
import Std.Data.String.ToNat
import QueryTree.Document.Json
/-! Documents as trees: induction over the children of a node, properties of every node, the list of all nodes, and
the stored form of a node as its children under their keys, followed by its block. -/

namespace QueryTree

open Json (Members)
open Check (Source childKey subqueryKey)

namespace Check

lemma childKey_injective : Function.Injective childKey := by
  intro m n h
  exact Nat.repr_injective ((String.append_right_inj subqueryKey).1 h)

lemma childKey_ne_select (n : Nat) : childKey n ≠ "select" := by
  intro h
  have hl := congrArg String.toList h
  simp [childKey, subqueryKey] at hl

lemma chainKeys_eq (n : Nat) : ((List.range n).map fun i => childKey (i + 1)) = (List.range' 1 n).map childKey := by
  rw [List.range'_eq_map_range, List.map_map]
  exact List.map_congr_left fun i _ => by rw [Function.comp, Nat.add_comm]

namespace Source

def kind : Source → SourceKind
  | table => .table
  | subquery => .subquery
  | join _ => .join
  | union _ => .union

lemma childKeys_join (n : Nat) : (join (n + 1)).childKeys = childKey 1 :: (List.range' 2 n).map childKey := by
  rw [childKeys, chainKeys_eq, List.range'_succ, List.map_cons]

lemma childKeys_union (n : Nat) : (union (n + 1)).childKeys = childKey 1 :: (List.range' 2 n).map childKey :=
  childKeys_join n

lemma nodup_childKeys (s : Source) : s.childKeys.Nodup := by
  cases s with
  | table => exact .nil
  | subquery => exact List.nodup_singleton _
  | join n | union n =>
    rw [childKeys, chainKeys_eq]
    exact (List.nodup_range' ..).map childKey_injective

lemma select_not_mem_childKeys (s : Source) : "select" ∉ s.childKeys := by
  cases s with
  | table => exact List.not_mem_nil
  | subquery => simp [childKeys, subqueryKey]
  | join n | union n =>
    rw [childKeys, List.mem_map]
    rintro ⟨i, -, h⟩
    exact childKey_ne_select _ h

end Source

end Check

namespace Document

lemma sizeOf_lt_of_mem_children {c d : Document} (h : c ∈ d.children) : sizeOf c < sizeOf d := by
  have hpair : ∀ {α : Type} [SizeOf α] {es : List (α × Document)}, c ∈ es.map Prod.snd → sizeOf c < sizeOf es := by
    intro α _ es hc
    obtain ⟨⟨a, c'⟩, hm, rfl⟩ := List.mem_map.1 hc
    have hlt := List.sizeOf_lt_of_mem hm
    rw [Prod.mk.sizeOf_spec] at hlt
    change sizeOf c' < sizeOf es
    omega
  cases d with
  | table => cases h
  | subquery b inner =>
    obtain rfl := List.mem_singleton.1 h
    rw [subquery.sizeOf_spec]
    omega
  | join b first rest =>
    rw [join.sizeOf_spec]
    rcases List.mem_cons.1 h with rfl | h
    · omega
    · have hrest := hpair h
      omega
  | union b first rest =>
    rw [union.sizeOf_spec]
    rcases List.mem_cons.1 h with rfl | h
    · omega
    · have hrest := hpair h
      omega

@[elab_as_elim]
theorem childInduction {motive : Document → Prop} (node : ∀ d : Document, (∀ c ∈ d.children, motive c) → motive d)
    (d : Document) : motive d :=
  node d fun c hc =>
    have := sizeOf_lt_of_mem_children hc
    childInduction node c
termination_by sizeOf d

inductive EveryNode (p : Document → Prop) : Document → Prop
  | node {d : Document} (root : p d) (children : ∀ c ∈ d.children, EveryNode p c) : EveryNode p d

lemma everyNode_iff {p : Document → Prop} {d : Document} :
    d.EveryNode p ↔ p d ∧ ∀ c ∈ d.children, c.EveryNode p :=
  ⟨fun ⟨hd, hc⟩ => ⟨hd, hc⟩, fun ⟨hd, hc⟩ => ⟨hd, hc⟩⟩

lemma EveryNode.root {p : Document → Prop} {d : Document} (h : d.EveryNode p) : p d :=
  (everyNode_iff.1 h).1

lemma EveryNode.mono {p q : Document → Prop} {d : Document} (h : d.EveryNode p) (hpq : ∀ e, p e → q e) :
    d.EveryNode q := by
  induction h with
  | node hd _ ih => exact .node (hpq _ hd) ih

lemma EveryNode.everyNode {p : Document → Prop} {d : Document} (h : d.EveryNode p) :
    d.EveryNode fun e => e.EveryNode p := by
  induction h with
  | node hd hc ih => exact .node (.node hd hc) ih

lemma everyNode_and_iff {p q : Document → Prop} {d : Document} :
    d.EveryNode (fun e => p e ∧ q e) ↔ d.EveryNode p ∧ d.EveryNode q := by
  constructor
  · exact fun h => ⟨h.mono fun _ h => h.1, h.mono fun _ h => h.2⟩
  · rintro ⟨hp, hq⟩
    induction hp with
    | node hd _ ih =>
      obtain ⟨hd', hc'⟩ := everyNode_iff.1 hq
      exact .node ⟨hd, hd'⟩ fun c hc => ih c hc (hc' c hc)

mutual

/-- The nodes of a tree, each after those that it reads from. -/
def nodes : Document → List Document
  | table b source => [table b source]
  | subquery b inner => nodes inner ++ [subquery b inner]
  | join b left joined => nodes left ++ joinedNodes joined ++ [join b left joined]
  | union b first members => nodes first ++ memberNodes members ++ [union b first members]

def joinedNodes : List (JoinLink × Document) → List Document
  | [] => []
  | (_, d) :: rest => nodes d ++ joinedNodes rest

def memberNodes : List (UnionType × Document) → List Document
  | [] => []
  | (_, d) :: rest => nodes d ++ memberNodes rest

end

lemma joinedNodes_eq (joined : List (JoinLink × Document)) :
    joinedNodes joined = (joined.map Prod.snd).flatMap nodes := by
  induction joined with
  | nil => rfl
  | cons j joined ih => rw [joinedNodes, ih]; rfl

lemma memberNodes_eq (members : List (UnionType × Document)) :
    memberNodes members = (members.map Prod.snd).flatMap nodes := by
  induction members with
  | nil => rfl
  | cons m members ih => rw [memberNodes, ih]; rfl

lemma nodes_eq (d : Document) : d.nodes = d.children.flatMap nodes ++ [d] := by
  cases d with
  | table => rfl
  | subquery => simp [nodes, children]
  | join => rw [nodes, joinedNodes_eq]; rfl
  | union => rw [nodes, memberNodes_eq]; rfl

lemma everyNode_iff_forall_mem_nodes {p : Document → Prop} {d : Document} : d.EveryNode p ↔ ∀ e ∈ d.nodes, p e := by
  induction d using childInduction with
  | node d ih =>
    rw [everyNode_iff, nodes_eq, List.forall_mem_append, List.forall_mem_flatMap, List.forall_mem_singleton, and_comm]
    exact and_congr_left' (forall₂_congr ih)

mutual

lemma length_nodes : (d : Document) → d.nodes.length = d.nodeCount
  | table .. => rfl
  | subquery _ inner => by rw [nodes, List.length_append, length_nodes inner, nodeCount, Nat.add_comm]; rfl
  | join _ left joined => by
    rw [nodes, List.length_append, List.length_append, length_nodes left, length_joinedNodes joined, nodeCount,
      List.length_singleton]
    omega
  | union _ first members => by
    rw [nodes, List.length_append, List.length_append, length_nodes first, length_memberNodes members, nodeCount,
      List.length_singleton]
    omega

lemma length_joinedNodes : (joined : List (JoinLink × Document)) → (joinedNodes joined).length = joinedNodeCount joined
  | [] => rfl
  | (_, d) :: rest => by rw [joinedNodes, List.length_append, length_nodes d, length_joinedNodes rest, joinedNodeCount]

lemma length_memberNodes : (members : List (UnionType × Document)) →
    (memberNodes members).length = memberNodeCount members
  | [] => rfl
  | (_, d) :: rest => by rw [memberNodes, List.length_append, length_nodes d, length_memberNodes rest, memberNodeCount]

end

def source (d : Document) : Source :=
  match d.kind with
  | .table => .table
  | .subquery => .subquery
  | .join => .join d.children.length
  | .union => .union d.children.length

@[simp] lemma source_table (b : Block) (t : TableRef) : (table b t).source = .table := rfl

@[simp] lemma source_subquery (b : Block) (inner : Document) : (subquery b inner).source = .subquery := rfl

@[simp] lemma source_join (b : Block) (left : Document) (joined : List (JoinLink × Document)) :
    (join b left joined).source = .join (joined.length + 1) := by
  simp [source, kind, children]

@[simp] lemma source_union (b : Block) (first : Document) (members : List (UnionType × Document)) :
    (union b first members).source = .union (members.length + 1) := by
  simp [source, kind, children]

def sourceMembers : Document → Members
  | table _ t => tableMembers t
  | subquery .. => []
  | join _ _ joined => [joinMember (joined.map Prod.fst)]
  | union _ _ members => [unionMember (members.map Prod.fst)]

lemma length_childKeys (d : Document) : d.source.childKeys.length = d.children.length := by
  cases d <;> simp [source, kind, children, Source.childKeys]

lemma exists_childKey {d c : Document} (h : c ∈ d.children) : ∃ key, (key, c) ∈ d.source.childKeys.zip d.children := by
  have hsnd : (d.source.childKeys.zip d.children).map Prod.snd = d.children := by
    exact List.map_snd_zip (Nat.le_of_eq d.length_childKeys.symm)
  rw [← hsnd] at h
  obtain ⟨⟨key, c⟩, hm, rfl⟩ := List.mem_map.1 h
  exact ⟨key, hm⟩

lemma exists_child {d : Document} {key : String} (h : key ∈ d.source.childKeys) :
    ∃ c, (key, c) ∈ d.source.childKeys.zip d.children := by
  have hfst : (d.source.childKeys.zip d.children).map Prod.fst = d.source.childKeys := by
    exact List.map_fst_zip (Nat.le_of_eq d.length_childKeys)
  rw [← hfst] at h
  obtain ⟨⟨key, c⟩, hm, rfl⟩ := List.mem_map.1 h
  exact ⟨c, hm⟩

lemma joinedMembers_eq (n : Nat) (joined : List (JoinLink × Document)) :
    joinedMembers n joined =
      ((List.range' n joined.length).map childKey).zip ((joined.map Prod.snd).map toJson) := by
  induction joined generalizing n with
  | nil => rfl
  | cons j joined ih =>
    obtain ⟨l, d⟩ := j
    rw [joinedMembers, ih]
    rfl

lemma unitedMembers_eq (n : Nat) (members : List (UnionType × Document)) :
    unitedMembers n members =
      ((List.range' n members.length).map childKey).zip ((members.map Prod.snd).map toJson) := by
  induction members generalizing n with
  | nil => rfl
  | cons m members ih =>
    obtain ⟨t, d⟩ := m
    rw [unitedMembers, ih]
    rfl

def ownMembers (d : Document) : Members :=
  blockMembers d.block d.sourceMembers

def nodeMembers (d : Document) : Members :=
  d.source.childKeys.zip (d.children.map toJson) ++ [("select", .object d.ownMembers)]

lemma toJson_eq (d : Document) : d.toJson = .object d.nodeMembers := by
  unfold nodeMembers
  cases d with
  | table b t => rfl
  | subquery b inner => rfl
  | join b left joined =>
    rw [toJson, joinedMembers_eq, source_join, Source.childKeys_join]
    rfl
  | union b first members =>
    rw [toJson, unitedMembers_eq, source_union, Source.childKeys_union]
    rfl

lemma keys_nodeMembers (d : Document) : d.nodeMembers.keys = d.source.childKeys ++ ["select"] := by
  have hlength : d.source.childKeys.length ≤ (d.children.map toJson).length := by
    simp [length_childKeys]
  rw [nodeMembers, Entries.keys, List.map_append, List.map_fst_zip hlength]
  rfl

lemma nodup_keys_nodeMembers (d : Document) : d.nodeMembers.keys.Nodup := by
  rw [keys_nodeMembers, List.nodup_append]
  refine ⟨d.source.nodup_childKeys, List.nodup_singleton _, ?_⟩
  intro key hk other ho he
  rw [List.mem_singleton] at ho
  exact d.source.select_not_mem_childKeys (ho ▸ he ▸ hk)

lemma get?_nodeMembers_select (d : Document) : d.nodeMembers.get? "select" = some (.object d.ownMembers) :=
  Entries.get?_eq_some_of_mem d.nodup_keys_nodeMembers (List.mem_append_right _ List.mem_cons_self)

lemma get?_nodeMembers_child {d c : Document} {key : String} (h : (key, c) ∈ d.source.childKeys.zip d.children) :
    d.nodeMembers.get? key = some c.toJson := by
  apply Entries.get?_eq_some_of_mem d.nodup_keys_nodeMembers
  apply List.mem_append_left
  rw [List.zip_map_right]
  exact List.mem_map.2 ⟨_, h, rfl⟩

end Document

end QueryTree
