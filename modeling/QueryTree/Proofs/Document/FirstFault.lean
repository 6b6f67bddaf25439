import QueryTree.Proofs.Document.Aliases
import QueryTree.Proofs.Document.Conversion
/-! Where the faults of nodes lie. The path of such a fault leads from the root to a node that violates what the fault
says, by a chain of keys along which the walk found everything in order. -/

namespace QueryTree.Check

open Json (Members)
open Grammar

inductive Violates (node : Members) : Fault → Prop
  | missingFields {path : String} {block : Members} (select : node.get? "select" = some (.object block))
      (fields : "fields" ∉ block.keys) : Violates node (.missingFields path)
  | missingSource {path : String} {block : Members} (select : node.get? "select" = some (.object block))
      (isBlock : IsBlock block) (union : "union" ∉ block.keys) (join : "join" ∉ block.keys)
      (table : block.get? "table" = none ∨ block.get? "table" = some (.string ""))
      (subquery : subqueryKey ∉ node.keys) : Violates node (.missingSource path)
  | missingSubquery {path key : String} {before : List String} (takes : Takes node before key)
      (absent : key ∉ node.keys) : Violates node (.missingSubquery path key)
  | invalidJoin {path reason : String} {block : Members} (select : node.get? "select" = some (.object block))
      (isBlock : IsBlock block) (union : "union" ∉ block.keys) (join : "join" ∈ block.keys)
      (unread : ∀ source, ¬ ReadsFrom block source) : Violates node (.invalidJoin path reason)
  | invalidUnion {path reason : String} {block : Members} (select : node.get? "select" = some (.object block))
      (isBlock : IsBlock block) (union : "union" ∈ block.keys) (unread : ∀ source, ¬ ReadsFrom block source) :
      Violates node (.invalidUnion path reason)

section

variable {block : Members} {path : String} {hasSubquery : Bool} {e : Fault}

lemma not_readsFrom_of_sourceOf (h : sourceOf block path hasSubquery = .error e)
    (hnamed : "union" ∈ block.keys ∨ "join" ∈ block.keys) (source : Source) : ¬ ReadsFrom block source := by
  intro hreads
  have hok : sourceOf block path hasSubquery = .ok source := by
    refine sourceOf_eq_ok_iff.2 ⟨hreads, ?_⟩
    rintro rfl
    cases hreads with
    | subquery hu hj =>
      rcases hnamed with hnamed | hnamed
      · exact absurd hnamed (Entries.get?_eq_none_iff.1 hu)
      · exact absurd hnamed (Entries.get?_eq_none_iff.1 hj)
  rw [h] at hok
  cases hok

lemma exists_of_sourceOf_error (h : sourceOf block path hasSubquery = .error e) :
    ("union" ∈ block.keys ∧ ∃ reason, e = .invalidUnion path reason) ∨
      "union" ∉ block.keys ∧
        (("join" ∈ block.keys ∧ ∃ reason, e = .invalidJoin path reason) ∨
          e.IsUnplaced ∨
          "join" ∉ block.keys ∧ (block.get? "table" = none ∨ block.get? "table" = some (.string "")) ∧
            hasSubquery = false ∧ e = .missingSource path) := by
  rw [← Entries.get?_eq_none_iff, ← Entries.get?_eq_none_iff]
  cases hu : block.get? "union" with
  | some union =>
    simp only [sourceOf, hu] at h
    obtain ⟨reason, -, rfl⟩ := mapError_eq_error_iff.1 h
    exact .inl ⟨Entries.mem_keys_of_get? hu, reason, rfl⟩
  | none =>
    refine .inr ⟨rfl, ?_⟩
    cases hj : block.get? "join" with
    | some join =>
      simp only [sourceOf, hu, hj] at h
      obtain ⟨reason, -, rfl⟩ := mapError_eq_error_iff.1 h
      exact .inl ⟨Entries.mem_keys_of_get? hj, reason, rfl⟩
    | none =>
      rw [sourceOf_of_table hu hj] at h
      refine .inr ?_
      split at h
      · next t ht =>
        split at h
        · cases h
        · next hempty =>
          split at h
          · cases h
          · next hsub =>
            cases h
            rw [ht, Decidable.not_not.1 hempty]
            exact .inr ⟨rfl, .inr rfl, by simpa using hsub, rfl⟩
      · cases h
        exact .inl rfl
      · next ht =>
        split at h
        · cases h
        · next hsub =>
          cases h
          exact .inr ⟨rfl, .inl ht, by simpa using hsub, rfl⟩

end

lemma violates_of_sourceOf {node block : Members} {path p : String} {e : Fault}
    (hselect : node.get? "select" = some (.object block)) (hblock : IsBlock block)
    (h : sourceOf block path (node.contains subqueryKey) = .error e) (hp : e.nodePath? = some p) :
    p = path ∧ Violates node e := by
  rcases exists_of_sourceOf_error h with ⟨hu, reason, rfl⟩ | ⟨hu, ⟨hj, reason, rfl⟩ | he | ⟨hj, ht, hsub, rfl⟩⟩
  · exact ⟨(Option.some.inj hp).symm, .invalidUnion hselect hblock hu (not_readsFrom_of_sourceOf h (.inl hu))⟩
  · exact ⟨(Option.some.inj hp).symm, .invalidJoin hselect hblock hu hj (not_readsFrom_of_sourceOf h (.inr hj))⟩
  · cases he.symm.trans hp
  · have hsq : subqueryKey ∉ node.keys := by
      rw [← Entries.contains_iff, hsub]
      exact Bool.false_ne_true
    exact ⟨(Option.some.inj hp).symm, .missingSource hselect hblock hu hj ht hsq⟩

lemma exists_of_checkMembers_placed {node : Members} {path p : String} {e : Fault}
    (h : (checkMembers node (memberCheckers node) path).fault = some e) (hp : e.nodePath? = some p) :
    p = path ∧ Violates node e ∨
      ∃ before key v, Takes node before key ∧ node.get? key = some v ∧
        (checkNode v (path ++ "." ++ key)).fault = some e := by
  rcases exists_of_checkMembers_fault h with rfl | ⟨block, hselect, hfault⟩ | ⟨before, key, htakes, hkey⟩
  · cases hp
  · refine .inl ?_
    rcases hfault with hfault | ⟨hblock, hsource⟩
    · rcases exists_of_checkBlock_fault hfault with ⟨hfields, rfl⟩ | he
      · exact ⟨(Option.some.inj hp).symm, .missingFields hselect (Entries.get?_eq_none_iff.1 hfields)⟩
      · cases he.symm.trans hp
    · exact violates_of_sourceOf hselect hblock hsource hp
  · rcases hkey with ⟨hnone, rfl⟩ | ⟨v, hv, hfault⟩
    · exact .inl ⟨(Option.some.inj hp).symm, .missingSubquery htakes (Entries.get?_eq_none_iff.1 hnone)⟩
    · exact .inr ⟨before, key, v, htakes, hv, hfault⟩

lemma exists_of_checkNode_placed {v : Json} {path p : String} {e : Fault} (h : (checkNode v path).fault = some e)
    (hp : e.nodePath? = some p) :
    ∃ keys node, p = ".".intercalate (path :: keys) ∧ Visited v keys ∧ v.at? keys = some (.object node) ∧
      Violates node e := by
  induction v using Json.memberInduction generalizing path with
  | other v hv =>
    cases v with
    | object => cases hv
    | _ =>
      cases h
      cases hp
  | object node ih =>
    rcases exists_of_checkMembers_placed h hp with ⟨rfl, hviolates⟩ | ⟨before, key, v, htakes, hv, hfault⟩
    · exact ⟨[], node, String.intercalate_singleton.symm, .root _, rfl, hviolates⟩
    · obtain ⟨keys, node', hpath, hvisited, hat, hviolates⟩ := ih (key, v) (Entries.mem_of_get? hv) hfault
      refine ⟨key :: keys, node', ?_, .child htakes hv hvisited, ?_, hviolates⟩
      · rw [hpath, String.intercalate_cons_append, String.intercalate_cons_cons]
      · rw [Json.at?_object_cons, hv]
        exact hat

/-- A fault with the path of a node lies at the first node that violates a check: the path leads to it, all nodes above
it have a block and a source in order, and all queries that come before it or before one above it are in order. -/
theorem fault_at_first_node {v : Json} {e : Fault} {path : String} (hw : isWrapped v = true)
    (he : (check v).fault = some e) (hp : e.nodePath? = some path) :
    ∃ keys node, path = ".".intercalate ("select" :: keys) ∧ Visited v keys ∧ v.at? keys = some (.object node) ∧
      Violates node e := by
  obtain ⟨node, rfl, hm⟩ := isWrapped_iff.1 hw
  rw [check_of_mem hm] at he
  exact exists_of_checkNode_placed he hp

def joinedWithoutSource : Json :=
  let fields : String × Json := ("fields", .object [("x", .object [("type", .string "dim")])])
  let join : Json := .object [("join_type", .array [.string "cross"]), ("on", .array [.string "0"])]
  .object
    [("select", .object [fields, ("join", join)]),
      ("sq1", .object [("select", .object [fields, ("table", .string "t")])]),
      ("sq2", .object [("select", .object [fields]), ("sq", .object [("select", .object [fields])])])]

theorem fault_at_first_node_joinedWithoutSource :
    isWrapped joinedWithoutSource = true ∧
      (check joinedWithoutSource).fault = some (.missingSource "select.sq2.sq") ∧
      ∃ keys node, "select.sq2.sq" = ".".intercalate ("select" :: keys) ∧ Visited joinedWithoutSource keys ∧
        joinedWithoutSource.at? keys = some (.object node) ∧ Violates node (.missingSource "select.sq2.sq") := by
  have hw : isWrapped joinedWithoutSource = true := by decide +kernel
  have hfault : (check joinedWithoutSource).fault = some (.missingSource "select.sq2.sq") := by decide +kernel
  exact ⟨hw, hfault, fault_at_first_node hw hfault rfl⟩

end QueryTree.Check
