import Mathlib.Data.List.Forall2
import QueryTree.Proofs.ColumnSheet
import QueryTree.Proofs.Entries
import QueryTree.Proofs.Text.Padding
/-! The fields of column sheets. Rows are put into the fields one after another under their names, so a later row takes
the place of an earlier one of its name: every row has a field of its own exactly if no two names are the same. -/

namespace QueryTree

open Json (Members)
open Grammar

lemma Fields.entries_stored {ms : Members} (h : ms.keys.Nodup) :
    (Fields.stored ms).entries = ms.mapValues fun v => Field.stored (v.members?.getD []) := by
  rw [Fields.stored, Fields.ofList_eq (by rwa [Entries.keys_mapValues])]

namespace ColumnSheet

def Row.name (r : Row) : String :=
  Text.trim r.column

def cellText? (s : String) : Option String :=
  nonempty? (Text.trim s)

structure Row.Describes (r : Row) (f : Field) : Prop where
  type : f.type.name = Text.trim r.type
  asName : f.asName = (cellText? r.asName).map Alias.normalize
  groupBy : f.groupBy.map .ok = (cellText? r.groupBy).map GroupBy.parse
  expression : f.expression = cellText? r.expression
  orderBy : f.orderBy = none
  visibility : (Text.trim r.select = "" ∧ f.visibility = .visible) ∨ (Text.trim r.select = "0" ∧ f.visibility = .hidden)
  customType : f.customType = cellText? r.customType

lemma cellText?_eq_some_iff {s t : String} : cellText? s = some t ↔ Text.trim s = t ∧ t ≠ "" := by
  rw [cellText?, nonempty?]
  split
  · next h =>
    rw [String.isEmpty_iff] at h
    simp [h, eq_comm]
  · next h =>
    rw [String.isEmpty_iff] at h
    rw [Option.some.injEq]
    exact ⟨fun ht => ⟨ht, ht ▸ h⟩, And.left⟩

lemma cellText?_eq_none_iff {s : String} : cellText? s = none ↔ Text.trim s = "" := by
  simp [cellText?, nonempty?]

lemma cell?_eq_map (s : String) : cell? s = (cellText? s).map .string := by
  rw [cell?, cellText?, nonempty?]
  split <;> rfl

lemma get?_attributes (r : Row) (name : String) : r.attributes.get? name =
    (Entries.get? [("type", cell? r.type), ("as", cell? r.asName), ("group_by", cell? r.groupBy),
      ("expression", cell? r.expression), ("select", cell? r.select), ("custom_type", cell? r.customType)] name).join := by
  rw [Row.attributes, Entries.get?_present]
  simp [Entries.keys]

lemma text?_of_get? {ms : Members} {name s : String} (h : ms.get? name = cell? s) :
    Document.text? ms name = cellText? s := by
  rw [Document.text?, h, cell?_eq_map]
  cases hs : cellText? s with
  | none => rfl
  | some t =>
    have ht : t.isEmpty = false := by simpa using (cellText?_eq_some_iff.1 hs).2
    simp [ht]

lemma cell?_eq_none_iff {s : String} : cell? s = none ↔ cellText? s = none := by
  rw [cell?_eq_map, Option.map_eq_none_iff]

lemma cellText?_of_cell? {s t : String} (h : cell? s = some (.string t)) : cellText? s = some t := by
  rw [cell?_eq_map, Option.map_eq_some_iff] at h
  obtain ⟨u, hu, ⟨⟩⟩ := h
  exact hu

lemma trim_of_cell? {s t : String} (h : cell? s = some (.string t)) : Text.trim s = t :=
  (cellText?_eq_some_iff.1 (cellText?_of_cell? h)).1

lemma cell?_ne_empty (s : String) : cell? s ≠ some (.string "") :=
  fun h => (cellText?_eq_some_iff.1 (cellText?_of_cell? h)).2 rfl

lemma describes_stored {r : Row} {ms : Members} (hms : ms = r.attributes) (h : IsAttributes ms) :
    r.Describes (Field.stored ms) := by
  have htype : ms.get? "type" = cell? r.type := by simp [hms, get?_attributes, Entries.get?_cons]
  have hname : ms.get? "as" = cell? r.asName := by simp [hms, get?_attributes, Entries.get?_cons]
  have hgroup : ms.get? "group_by" = cell? r.groupBy := by simp [hms, get?_attributes, Entries.get?_cons]
  have hexpression : ms.get? "expression" = cell? r.expression := by
    simp [hms, get?_attributes, Entries.get?_cons]
  have hselect : ms.get? "select" = cell? r.select := by simp [hms, get?_attributes, Entries.get?_cons]
  have hcustom : ms.get? "custom_type" = cell? r.customType := by simp [hms, get?_attributes, Entries.get?_cons]
  have horder : ms.get? "order_by" = none := by simp [hms, get?_attributes, Entries.get?_cons]
  constructor
  case type =>
    rcases h.type with ht | ht <;> rw [trim_of_cell? (htype.symm.trans ht)] <;> simp only [Field.stored, ht] <;> rfl
  case asName =>
    simp only [Field.stored, hname, cell?_eq_map]
    cases hs : cellText? r.asName with
    | none => rfl
    | some s =>
      obtain ⟨hs, hne⟩ := cellText?_eq_some_iff.1 hs
      have htrim : Text.trim s ≠ "" := by rwa [← hs, Text.trim_trim, hs]
      simp [Json.text?, nonempty?, Alias.normalize_ne_empty htrim]
  case groupBy =>
    simp only [Field.stored, text?_of_get? hgroup]
    rcases h.grouping with hg | hg | ⟨s, g, hg, hs, -⟩
    · rw [cell?_eq_none_iff.1 (hgroup.symm.trans hg)]
      rfl
    · exact absurd (hgroup.symm.trans hg) (cell?_ne_empty _)
    · have hparse : GroupBy.parse s = .ok g := readKeyword_eq_ok_iff.2 hs
      simp [cellText?_of_cell? (hgroup.symm.trans hg), hs, hparse]
  case expression => simp only [Field.stored, text?_of_get? hexpression]
  case orderBy => simp only [Field.stored, Document.text?, horder, Option.bind_none]
  case visibility =>
    simp only [Field.stored]
    rcases h.selection with hs | hs | hs | hs
    · rw [hs]
      exact .inl ⟨cellText?_eq_none_iff.1 (cell?_eq_none_iff.1 (hselect.symm.trans hs)), rfl⟩
    · exact absurd (hselect.symm.trans hs) (cell?_ne_empty _)
    · rw [hs]
      exact .inr ⟨trim_of_cell? (hselect.symm.trans hs), rfl⟩
    · rw [hselect, cell?_eq_map, Option.map_eq_some_iff] at hs
      obtain ⟨s, -, ⟨⟩⟩ := hs
  case customType => simp only [Field.stored, text?_of_get? hcustom]

lemma Row.describes_of_isFieldObject {r : Row} {v : Json} (hv : v = .object r.attributes) (h : IsFieldObject v) :
    r.Describes (Field.stored (v.members?.getD [])) := by
  obtain ⟨attributes, rfl, hattributes⟩ := h
  exact describes_stored (Json.object.inj hv) hattributes

variable {rows : List Row}

lemma fieldsFrom_eq_ok_iff {n : Nat} {fields fields' : Members} : fieldsFrom n fields rows = .ok fields' ↔
    (∀ r ∈ rows, r.name ≠ "") ∧ fields.putAll (rows.map fun r => (r.name, .object r.attributes)) = fields' := by
  induction rows generalizing n fields with
  | nil => simp [fieldsFrom, Entries.putAll]
  | cons r rows ih =>
    rw [fieldsFrom, List.forall_mem_cons]
    split
    · next hblank =>
      rw [String.isEmpty_iff] at hblank
      simp [Row.name, hblank]
    · next hnamed =>
      rw [String.isEmpty_iff] at hnamed
      have hname : r.name ≠ "" := hnamed
      rw [ih, and_assoc, and_iff_right hname]
      rfl

def puts (rows : List Row) : Members :=
  rows.map fun r => (r.name, .object r.attributes)

lemma keys_puts (rows : List Row) : (puts rows).keys = rows.map Row.name := by
  rw [puts, Entries.keys, List.map_map]
  rfl

lemma fields_eq_ok_iff {members : Members} : fields rows = .ok members ↔
    (∀ r ∈ rows, r.name ≠ "") ∧ Entries.putAll [] (puts rows) = members :=
  fieldsFrom_eq_ok_iff

variable {d : Document}

lemma exists_members_of_document (h : document rows = .ok d) : ∃ members : Members,
    members = Entries.putAll [] (puts rows) ∧ (∀ m ∈ members, IsFieldObject m.2) ∧
      d.fields.entries = members.mapValues fun v => Field.stored (v.members?.getD []) := by
  obtain ⟨first, members, t, hmembers, hblock, rfl⟩ := exists_table_of_document h
  obtain ⟨-, rfl⟩ := fields_eq_ok_iff.1 hmembers
  obtain ⟨stored, hstored, hattributes⟩ := hblock.fields
  cases hstored
  have hnil : (Entries.keys ([] : Members)).Nodup := List.nodup_nil
  exact ⟨_, rfl, hattributes, Fields.entries_stored (Entries.nodup_keys_putAll hnil (puts rows))⟩

lemma keys_fields_of_document (h : document rows = .ok d) : d.fields.keys = (rows.map Row.name).eraseDups := by
  obtain ⟨members, rfl, -, hentries⟩ := exists_members_of_document h
  have hnil : (Entries.keys ([] : Members)).Nodup := List.nodup_nil
  rw [Fields.keys, hentries, Entries.keys_mapValues, Entries.keys_putAll hnil, keys_puts]
  rfl

lemma get?_puts_of_last {before after : List Row} {r : Row} (hlast : ∀ s ∈ after, s.name ≠ r.name) :
    Entries.get? (Entries.putAll [] (puts (before ++ r :: after))) r.name = some (.object r.attributes) := by
  have hafter : Entries.get? (puts after).reverse r.name = none := by
    rw [Entries.get?_eq_none_iff, Entries.keys, List.map_reverse, List.mem_reverse]
    intro hmem
    rw [← Entries.keys, keys_puts, List.mem_map] at hmem
    obtain ⟨s, hs, hname⟩ := hmem
    exact hlast s hs hname
  have hputs : (puts (before ++ r :: after)).reverse =
      (puts after).reverse ++ (r.name, .object r.attributes) :: (puts before).reverse := by
    simp [puts]
  rw [Entries.get?_putAll, hputs, Entries.get?_append, hafter, Option.none_or, Entries.get?_cons, if_pos rfl,
    Option.some_or]

lemma exists_field_of_last (h : document rows = .ok d) {before after : List Row} {r : Row}
    (hrows : rows = before ++ r :: after) (hlast : ∀ s ∈ after, s.name ≠ r.name) :
    ∃ f, d.fields.get? r.name = some f ∧ r.Describes f := by
  obtain ⟨members, hputs, hattributes, hentries⟩ := exists_members_of_document h
  have hget : Entries.get? members r.name = some (.object r.attributes) := by
    rw [hputs, hrows]
    exact get?_puts_of_last hlast
  have hfield : Entries.get? (members.mapValues fun v => Field.stored (v.members?.getD [])) r.name =
      some (Field.stored ((Json.object r.attributes).members?.getD [])) := by
    have hmap := Entries.get?_map (fun _ v => Field.stored (Json.members? v |>.getD [])) members r.name
    rwa [hget, Option.map_some] at hmap
  rw [Fields.get?, hentries]
  exact ⟨_, hfield, r.describes_of_isFieldObject rfl (hattributes _ (Entries.mem_of_get? hget))⟩

def Row.Fills (r : Row) (e : String × Field) : Prop :=
  e.1 = r.name ∧ r.Describes e.2

lemma fills_of_nodup (h : document rows = .ok d) (hnames : (rows.map Row.name).Nodup) :
    List.Forall₂ Row.Fills rows d.fields.entries := by
  obtain ⟨members, hputs, hattributes, hentries⟩ := exists_members_of_document h
  have hall : members = puts rows := by
    rw [hputs]
    exact @Entries.putAll_eq_append _ [] (puts rows) (by rwa [List.nil_append, keys_puts])
  rw [hentries, hall, Entries.mapValues, puts, List.map_map, List.forall₂_map_right_iff, List.forall₂_same]
  intro r hr
  have hmem : (r.name, .object r.attributes) ∈ members := by
    rw [hall]
    exact List.mem_map.2 ⟨r, hr, rfl⟩
  exact ⟨rfl, r.describes_of_isFieldObject rfl (hattributes _ hmem)⟩

lemma names_of_fills {es : Entries Field} (h : List.Forall₂ Row.Fills rows es) : es.keys = rows.map Row.name := by
  induction h with
  | nil => rfl
  | cons hrow _ ih => rw [Entries.keys_cons, List.map_cons, hrow.1, ih]

/-- A sheet that makes a document has a field for each name among its rows, in the order in which the names come first,
and the last row of a name says what its field is. So every row has its own field exactly if the names are distinct. -/
theorem rows_fill_fields_iff (h : document rows = .ok d) :
    d.fields.keys = (rows.map Row.name).eraseDups ∧
      (∀ before r after, rows = before ++ r :: after → (∀ s ∈ after, s.name ≠ r.name) →
        ∃ f, d.fields.get? r.name = some f ∧ r.Describes f) ∧
      (List.Forall₂ Row.Fills rows d.fields.entries ↔ (rows.map Row.name).Nodup) := by
  refine ⟨keys_fields_of_document h, fun _ _ _ => exists_field_of_last h, ?_, fills_of_nodup h⟩
  intro hfills
  rw [← names_of_fills hfills]
  exact d.fields.nodup

def salesRows : List Row :=
  [{ column := " region", asName := "Sales  Region ", type := "dim", groupBy := "Group\n", table := "sales" },
    { column := "amount\t", type := " num", groupBy := "SUM", expression := " price * n", customType := "INT " },
    { column := "year", type := "dim", select := " 0 " }]

def salesFields : Fields := .ofList
  [("region", { type := .dimension, asName := some "Sales_Region", groupBy := some .group }),
    ("amount", {
      type := .numeric
      groupBy := some (.aggregate .sum)
      expression := some "price * n"
      customType := some "INT" }),
    ("year", { type := .dimension, visibility := .hidden })]

theorem rows_fill_fields_iff_salesRows :
    ∃ d, document salesRows = .ok d ∧ d.fields = salesFields ∧ List.Forall₂ Row.Fills salesRows d.fields.entries := by
  have hdocument : document salesRows = .ok (.table { fields := salesFields } { table := "sales" }) := by
    decide +kernel
  exact ⟨_, hdocument, rfl, (rows_fill_fields_iff hdocument).2.2.2 (by decide +kernel)⟩

def rowsSharingName : List Row :=
  [{ column := "x", type := "dim", table := "t" }, { column := " x ", type := "num" }]

/-- The first row is lost, although its name comes first. -/
theorem row_lost_sharingName :
    ∃ d, document rowsSharingName = .ok d ∧ d.fields.entries = [("x", { type := .numeric })] ∧
      ¬ List.Forall₂ Row.Fills rowsSharingName d.fields.entries := by
  have hdocument : document rowsSharingName = .ok
      (.table { fields := .ofList [("x", { type := .numeric })] } { table := "t" }) := by decide +kernel
  refine ⟨_, hdocument, rfl, fun hfills => ?_⟩
  have hlength : 2 = 1 := hfills.length_eq
  exact absurd hlength (by decide)

end ColumnSheet

end QueryTree
