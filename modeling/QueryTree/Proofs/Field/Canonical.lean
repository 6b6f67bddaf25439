import QueryTree.Proofs.Entries
import QueryTree.Proofs.Field.Stored
/-! Canonical fields. Writing a field and reading it back normalizes its alias and drops empty texts, and does
nothing to a field that was read before. -/

namespace QueryTree

open Json (Members)
open Grammar

lemma bind_nonempty?_idem (s? : Option String) : (s?.bind nonempty?).bind nonempty? = s?.bind nonempty? := by
  cases s? with
  | none => rfl
  | some s => by_cases hs : s = "" <;> simp [nonempty?, hs]

lemma text?_eq_bind_nonempty? (ms : Members) (name : String) :
    Document.text? ms name = ((ms.get? name).bind Json.text?).bind nonempty? := by
  unfold Document.text?
  cases ms.get? name with
  | none => rfl
  | some v => cases v <;> rfl

namespace Field

open Document (text? isAbsent)

def canonical (f : Field) : Field :=
  { f with
    asName := f.asName.bind fun s => nonempty? (Alias.normalize s)
    expression := f.expression.bind nonempty?
    customType := f.customType.bind nonempty? }

def AggregatesNumbers (f : Field) : Prop :=
  ∀ a, f.groupBy = some (.aggregate a) → f.type = .numeric

@[simp] lemma canonical_type (f : Field) : f.canonical.type = f.type := rfl

@[simp] lemma canonical_stored (attributes : Members) : (stored attributes).canonical = stored attributes := by
  ext1
  case asName =>
    simp only [canonical, stored]
    cases (attributes.get? "as").bind Json.text? with
    | none => rfl
    | some s => by_cases hs : Alias.normalize s = "" <;> simp [nonempty?, hs]
  case expression =>
    simp only [canonical, stored, text?_eq_bind_nonempty?, bind_nonempty?_idem]
  case customType =>
    simp only [canonical, stored, text?_eq_bind_nonempty?, bind_nonempty?_idem]
  all_goals rfl

lemma aggregatesNumbers_stored {attributes : Members} (h : IsAttributes attributes) :
    (stored attributes).AggregatesNumbers := by
  intro a ha
  have hnum : attributes.get? "type" = some (.string "num") → (stored attributes).type = .numeric := by
    intro ht
    simp only [stored, ht]
    rfl
  rcases h.grouping with hg | hg | ⟨s, g, hg, hs, rfl | ht⟩
  · simp [stored, text?, hg] at ha
  · simp [stored, text?, hg] at ha
  · by_cases he : s = "" <;> simp [stored, text?, hg, hs, he] at ha
  · exact hnum ht

def slots (f : Field) : List (String × Option Json) :=
  [("type", some (.string f.type.name)), ("as", f.asName.map .string),
    ("group_by", f.groupBy.map fun g => .string g.name), ("expression", f.expression.map .string),
    ("order_by", f.orderBy.map fun o => .string o.name),
    ("select", if f.isVisible then none else some (.number (.natural 0))),
    ("custom_type", f.customType.map .string)]

lemma nodup_keys_slots (f : Field) : (Entries.keys f.slots).Nodup := by
  have : Entries.keys f.slots = Attribute.all.map Attribute.name := rfl
  rw [this]
  decide

lemma nodup_keys_members (f : Field) : f.members.keys.Nodup :=
  (Entries.keys_present_sublist f.slots).nodup f.nodup_keys_slots

lemma get?_members (f : Field) (name : String) : f.members.get? name = (Entries.get? f.slots name).join :=
  Entries.get?_present f.nodup_keys_slots name

@[simp] lemma get?_members_type (f : Field) : f.members.get? "type" = some (.string f.type.name) := by
  simp [get?_members, slots, Entries.get?_cons]

@[simp] lemma get?_members_as (f : Field) : f.members.get? "as" = f.asName.map .string := by
  simp [get?_members, slots, Entries.get?_cons]

@[simp] lemma get?_members_groupBy (f : Field) : f.members.get? "group_by" = f.groupBy.map fun g => .string g.name := by
  simp [get?_members, slots, Entries.get?_cons]

@[simp] lemma get?_members_expression (f : Field) : f.members.get? "expression" = f.expression.map .string := by
  simp [get?_members, slots, Entries.get?_cons]

@[simp] lemma get?_members_orderBy (f : Field) : f.members.get? "order_by" = f.orderBy.map fun o => .string o.name := by
  simp [get?_members, slots, Entries.get?_cons]

@[simp] lemma get?_members_select (f : Field) :
    f.members.get? "select" = if f.isVisible then none else some (.number (.natural 0)) := by
  simp [get?_members, slots, Entries.get?_cons]

@[simp] lemma get?_members_customType (f : Field) : f.members.get? "custom_type" = f.customType.map .string := by
  simp [get?_members, slots, Entries.get?_cons]

lemma isOptionalText_map (s? : Option String) : IsOptionalText (s?.map .string) := by
  cases s? with
  | none => exact .inl rfl
  | some s => exact .inr (.inr ⟨s, rfl⟩)

lemma known_members (f : Field) : ∀ name ∈ f.members.keys, name ∈ attributeNames := by
  intro name hname
  have hslot := (Entries.keys_present_sublist f.slots).subset hname
  have hall : Attribute.all.map Attribute.name ⊆ attributeNames := by decide
  exact hall hslot

lemma isAttributes_members_iff {f : Field} : IsAttributes f.members ↔ f.AggregatesNumbers := by
  constructor
  · intro h a ha
    have hg := h.grouping
    have hne : a.name ≠ "" := by cases a <;> decide
    simp only [get?_members_groupBy, ha, Option.map_some, GroupBy.name, get?_members_type] at hg
    rcases hg with hg | hg | ⟨s, g, hs, hg, hk⟩
    · cases hg
    · simp [hne] at hg
    · cases hs
      have hname : GroupBy.ofText? a.name = some (.aggregate a) := GroupBy.ofText?_name (.aggregate a)
      cases hg.symm.trans hname
      cases ht : f.type with
      | numeric => rfl
      | dimension => simp [ht, FieldType.name] at hk
  · intro h
    refine ⟨f.known_members, ?_, ?_, ?_, ?_, ?_⟩
    · cases ht : f.type <;> simp [ht, FieldType.name]
    · simp [isOptionalText_map]
    · rw [get?_members_groupBy, get?_members_type]
      cases hg : f.groupBy with
      | none => exact .inl rfl
      | some g =>
        refine .inr (.inr ⟨g.name, g, rfl, GroupBy.ofText?_name g, ?_⟩)
        cases g with
        | group => exact .inl rfl
        | aggregate a => exact .inr (by rw [h a hg]; rfl)
    · rw [get?_members_orderBy]
      cases f.orderBy with
      | none => exact .inl rfl
      | some o => exact .inr (.inr ⟨o.name, o, rfl, SortOrder.ofText?_name o⟩)
    · rw [get?_members_select]
      cases f.isVisible <;> simp

lemma text?_members_of_get? {f : Field} {name : String} {s? : Option String}
    (h : f.members.get? name = s?.map .string) : text? f.members name = s?.bind nonempty? := by
  rw [text?_eq_bind_nonempty?, h]
  cases s? <;> rfl

lemma nonempty?_groupBy_name (g : GroupBy) : nonempty? g.name = some g.name := by
  rcases g with _ | a
  · rfl
  · cases a <;> rfl

lemma nonempty?_sortOrder_name (o : SortOrder) : nonempty? o.name = some o.name := by
  cases o <;> rfl

lemma stored_members (f : Field) : stored f.members = f.canonical := by
  ext1
  case type =>
    simp [stored, Draft.fieldType?, FieldType.ofName?_name]
  case asName =>
    simp only [stored, canonical, get?_members_as]
    cases f.asName <;> rfl
  case groupBy =>
    have h : f.members.get? "group_by" = (f.groupBy.map GroupBy.name).map .string := by
      rw [get?_members_groupBy, Option.map_map]
      rfl
    simp only [stored, canonical, text?_members_of_get? h]
    cases f.groupBy <;> simp [nonempty?_groupBy_name, GroupBy.ofText?_name]
  case expression =>
    exact text?_members_of_get? f.get?_members_expression
  case orderBy =>
    have h : f.members.get? "order_by" = (f.orderBy.map SortOrder.name).map .string := by
      rw [get?_members_orderBy, Option.map_map]
      rfl
    simp only [stored, canonical, text?_members_of_get? h]
    cases f.orderBy <;> simp [nonempty?_sortOrder_name, SortOrder.ofText?_name]
  case visibility =>
    cases hv : f.visibility <;> simp [stored, canonical, isVisible, isAbsent, hv]
  case customType =>
    exact text?_members_of_get? f.get?_members_customType

end Field

namespace Fields

lemma entries_foldl_insert {α : Type} (as : List α) (key : α → String) (value : α → Field) (fs : Fields) :
    (as.foldl (fun fs a => fs.insert (key a) (value a)) fs).entries =
      fs.entries.putAll (as.map fun a => (key a, value a)) := by
  induction as generalizing fs with
  | nil => rfl
  | cons a as ih =>
    rw [List.foldl_cons, ih]
    rfl

lemma entries_ofList (es : List (String × Field)) : (ofList es).entries = Entries.putAll [] es := by
  have hfold := entries_foldl_insert es Prod.fst Prod.snd empty
  rwa [List.map_id'] at hfold

lemma ofList_eq {es : Entries Field} (h : es.keys.Nodup) : ofList es = ⟨es, h⟩ := by
  have hentries : (ofList es).entries = es := (entries_ofList es).trans (@Entries.putAll_eq_append _ [] es h)
  cases hfs : ofList es with
  | mk entries nodup =>
    obtain rfl : entries = es := by rw [← hentries, hfs]
    rfl

lemma mem_ofList {es : List (String × Field)} {e : String × Field} (h : e ∈ (ofList es).entries) : e ∈ es := by
  rw [entries_ofList] at h
  exact (Entries.mem_putAll h).resolve_left List.not_mem_nil

def canonical (fs : Fields) : Fields :=
  ⟨fs.entries.mapValues Field.canonical, by rw [Entries.keys_mapValues]; exact fs.nodup⟩

lemma mem_stored {ms : Members} {e : String × Field} (h : e ∈ (stored ms).entries) :
    ∃ m ∈ ms, e.2 = Field.stored (m.2.members?.getD []) := by
  obtain ⟨m, hm, rfl⟩ := List.mem_map.1 (mem_ofList h)
  exact ⟨m, hm, rfl⟩

@[simp] lemma canonical_stored (ms : Members) : (stored ms).canonical = stored ms := by
  have hself : (stored ms).entries.mapValues Field.canonical = (stored ms).entries := by
    apply Entries.mapValues_eq_self
    intro e he
    obtain ⟨m, -, h⟩ := mem_stored he
    rw [h, Field.canonical_stored]
  simp only [canonical, hself]

lemma stored_mapValues_toJson (fs : Fields) : stored (fs.entries.mapValues Field.toJson) = fs.canonical := by
  have hvalue : ∀ f : Field, Field.stored (f.toJson.members?.getD []) = f.canonical := Field.stored_members
  rw [stored, Entries.mapValues_mapValues]
  simp only [hvalue]
  exact ofList_eq fs.canonical.nodup

end Fields

end QueryTree
