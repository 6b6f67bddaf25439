import QueryTree.ColumnSheet
import QueryTree.Proofs.Document.FlatForm
import QueryTree.Proofs.Document.RoundTrip
/-! Documents made of column sheets. They are tables, and what is stored for one is read back as it is. -/

namespace QueryTree.ColumnSheet

open Json (Members)

lemma written_of_cell? (s : String) (v : Json) (h : cell? s = some v) : v.Written := by
  unfold cell? at h
  obtain ⟨-, h⟩ := Option.ite_none_left_eq_some.1 h
  cases h
  exact .string _

lemma written_attributes (r : Row) : (Json.object r.attributes).Written := by
  have hkeys : r.attributes.keys.Sublist ["type", "as", "group_by", "expression", "select", "custom_type"] :=
    Entries.keys_present_sublist _
  refine .object (hkeys.nodup (by decide)) (Entries.forall_mem_present ?_)
  simp only [List.forall_mem_cons]
  exact ⟨written_of_cell? r.type, written_of_cell? r.asName, written_of_cell? r.groupBy,
    written_of_cell? r.expression, written_of_cell? r.select, written_of_cell? r.customType, List.forall_mem_nil _⟩

lemma written_fieldsFrom {n : Nat} {rows : List Row} {fields fields' : Members}
    (h : fieldsFrom n fields rows = .ok fields') (hfields : (Json.object fields).Written) :
    (Json.object fields').Written := by
  induction rows generalizing n fields with
  | nil =>
    cases h
    exact hfields
  | cons r rows ih =>
    simp only [fieldsFrom] at h
    split at h
    · cases h
    · exact ih h (hfields.insert (written_attributes r) _)

lemma keys_blockMembers (first : Row) (fields : Members) :
    (blockMembers first fields).keys.Sublist ["fields", "table", "schema"] := by
  have hkeys : (blockMembers first fields).keys =
      "fields" :: "table" :: Entries.keys (Entries.present [("schema", cell? first.schema)]) := by
    simp [blockMembers, Entries.keys]
  have hschema := Entries.keys_present_sublist [("schema", cell? first.schema)]
  rw [hkeys]
  exact (hschema.cons_cons "table").cons_cons "fields"

lemma written_blockMembers {rows : List Row} {fields' : Members} (h : fields rows = .ok fields') (first : Row) :
    (Json.object (blockMembers first fields')).Written := by
  have hfields : (Json.object fields').Written := written_fieldsFrom h (.object List.nodup_nil (List.forall_mem_nil _))
  have hschema : ∀ e ∈ [("schema", cell? first.schema)], ∀ v, e.2 = some v → v.Written := by
    simp only [List.forall_mem_singleton]
    exact written_of_cell? first.schema
  refine .object ((keys_blockMembers first fields').nodup (by decide)) (List.forall_mem_append.2 ⟨?_, ?_⟩)
  · exact List.forall_mem_cons.2 ⟨hfields, List.forall_mem_singleton.2 (.string _)⟩
  · exact Entries.forall_mem_present hschema

variable {rows : List Row} {d : Document}

lemma exists_of_document (h : document rows = .ok d) :
    ∃ first members, fields rows = .ok members ∧ (Document.underSelect (blockMembers first members)).Written ∧
      Document.ofJson (Document.underSelect (blockMembers first members)) = .ok d := by
  cases rows with
  | nil => cases h
  | cons first rows =>
    obtain ⟨members, hmembers, h⟩ := bind_eq_ok_iff.1 h
    refine ⟨first, members, hmembers, ?_, mapError_eq_ok_iff.1 h⟩
    exact .object (List.nodup_singleton _) (List.forall_mem_singleton.2 (written_blockMembers hmembers first))

lemma ofJson_toJson_of_document (h : document rows = .ok d) : Document.ofJson d.toJson = .ok d := by
  obtain ⟨first, members, -, hwritten, hd⟩ := exists_of_document h
  have hu := hwritten.hasUniqueNames
  exact Document.ofJson_toJson_iff.2
    ⟨Document.everyNode_storable_of_ofJson hu hd, (Document.canonical_of_ofJson hu hd).symm⟩

lemma exists_table_of_document (h : document rows = .ok d) :
    ∃ first members t, fields rows = .ok members ∧ Grammar.IsBlock (blockMembers first members) ∧
      d = .table (Block.stored (blockMembers first members)) t := by
  obtain ⟨first, members, hmembers, hwritten, hd⟩ := exists_of_document h
  obtain ⟨hpass, hstores⟩ := (Document.ofJson_eq_ok_iff hwritten.hasUniqueNames).1 hd
  obtain ⟨hblock, hreads⟩ := Document.isDocument_underSelect_iff.1 (Check.isDocument_of_passes hpass)
  obtain ⟨t, -, rfl⟩ := (Document.storesDocument_underSelect_iff hreads).1 hstores
  exact ⟨first, members, t, hmembers, hblock, rfl⟩

lemma kind_of_document (h : document rows = .ok d) : d.kind = .table := by
  obtain ⟨first, members, t, -, -, rfl⟩ := exists_table_of_document h
  rfl

lemma plain_of_document (h : document rows = .ok d) : d.toJson.Plain 126 := by
  refine ⟨d.hasUniqueNames_toJson, d.written_toJson.isIntegral, ?_⟩
  have hkind := kind_of_document h
  cases d with
  | table b t => exact Nat.le_trans (Document.nesting_toJson_table b t) (by decide)
  | _ => cases hkind

end QueryTree.ColumnSheet
