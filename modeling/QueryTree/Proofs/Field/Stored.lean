import QueryTree.Proofs.Document.Acceptance
import QueryTree.Proofs.Field.Alias
import QueryTree.Document.Json
/-! Stored fields. Attributes that pass the check stand for one field, whatever their order, and reading them
yields it. -/

namespace QueryTree

open Json (Members)
open Grammar

def nonempty? (s : String) : Option String :=
  if s.isEmpty then none else some s

namespace Field

open Draft
open Document (text? isAbsent)

def stored (attributes : Members) : Field where
  type := ((attributes.get? "type").bind fieldType?).getD .dimension
  asName := ((attributes.get? "as").bind Json.text?).bind fun s => nonempty? (Alias.normalize s)
  groupBy := (text? attributes "group_by").bind GroupBy.ofText?
  expression := text? attributes "expression"
  orderBy := (text? attributes "order_by").bind SortOrder.ofText?
  visibility := if (attributes.get? "select").all isAbsent then .visible else .hidden
  customType := text? attributes "custom_type"

def put (f : Field) (v : Json) : Attribute → Field
  | .type => { f with type := (fieldType? v).getD .dimension }
  | .asName => { f with asName := v.text? }
  | .groupBy => { f with groupBy := v.text?.bind GroupBy.ofText? }
  | .expression => { f with expression := v.text? }
  | .orderBy => { f with orderBy := v.text?.bind SortOrder.ofText? }
  | .select => { f with visibility := .hidden }
  | .customType => { f with customType := v.text? }

def putNamed (f : Field) (m : String × Json) : Field :=
  ((Attribute.ofName? m.1).map (put f m.2)).getD f

lemma name_of_ofName? {name : String} {a : Attribute} (h : Attribute.ofName? name = some a) : a.name = name := by
  simpa using List.find?_some h

lemma part_putAll {β : Type} (part : Field → β) (a : Attribute) (value : Json → β)
    (hself : ∀ f v, part (put f v a) = value v) (hother : ∀ f v b, b ≠ a → part (put f v b) = part f)
    {ms : Members} (hms : ms.keys.Nodup) (f : Field) :
    part (ms.foldl putNamed f) = ((ms.get? a.name).map value).getD (part f) := by
  induction ms generalizing f with
  | nil => rfl
  | cons m ms ih =>
    obtain ⟨name, v⟩ := m
    have ⟨hn, hms⟩ := List.nodup_cons.1 hms
    rw [List.foldl_cons, ih hms, Entries.get?_cons]
    by_cases h : name = a.name
    · subst h
      have : Entries.get? ms a.name = none := Entries.get?_eq_none_iff.2 hn
      simp [this, putNamed, Attribute.ofName?_name, hself]
    · rw [if_neg h]
      congr 1
      cases hb : Attribute.ofName? name with
      | none => simp [putNamed, hb]
      | some b =>
        have hne : b ≠ a := fun e => h (e ▸ (name_of_ofName? hb).symm)
        simp [putNamed, hb, hother _ _ _ hne]

def Readable (m : String × Json) : Prop :=
  ∃ a, Attribute.ofName? m.1 = some a ∧ ∀ f, assign f m.2 a = .ok (put f m.2 a)

lemma foldlM_setNamed {ms : Members} (hms : ms.keys.Nodup) (hr : ∀ m ∈ ms, Readable m) (d : Draft)
    (hd : ∀ a ∈ d.seen, a.name ∉ ms.keys) :
    ∃ seen, ms.foldlM (fun d m => Draft.setNamed d m.1 m.2) d = .ok ⟨seen, ms.foldl putNamed d.field⟩ ∧
      ∀ a : Attribute, a ∈ seen ↔ a ∈ d.seen ∨ a.name ∈ ms.keys := by
  induction ms generalizing d with
  | nil => exact ⟨d.seen, rfl, by simp⟩
  | cons m ms ih =>
    obtain ⟨name, v⟩ := m
    have ⟨hn, hms⟩ := List.nodup_cons.1 hms
    have ⟨⟨a, ha, hv⟩, hr⟩ := List.forall_mem_cons.1 hr
    have hname := name_of_ofName? ha
    have hfresh : a ∉ d.seen := fun h => hd a h (by simp [hname])
    have hset : Draft.setNamed d name v = .ok ⟨a :: d.seen, put d.field v a⟩ := by
      simp only [Draft.setNamed, Draft.set, ha, if_neg hfresh]
      rw [hv d.field]
      rfl
    have hput : putNamed d.field (name, v) = put d.field v a := by
      simp [putNamed, ha]
    obtain ⟨seen, hs, hmem⟩ := ih hms hr ⟨a :: d.seen, put d.field v a⟩ (by
      intro b hb hk
      rcases List.mem_cons.1 hb with rfl | hb
      · exact hn (hname ▸ hk)
      · exact hd b hb (List.mem_cons_of_mem _ hk))
    refine ⟨seen, ?_, ?_⟩
    · rw [List.foldlM_cons, hset, ok_bind, hs, List.foldl_cons, hput]
    · intro b
      have hb : b = a ↔ b.name = name := by
        constructor
        · rintro rfl
          exact hname
        · intro h
          have := Attribute.ofName?_name b
          rw [h, ha] at this
          exact (Option.some.inj this).symm
      rw [hmem b, List.mem_cons, Entries.keys_cons, List.mem_cons, hb]
      grind

lemma ofMembers_eq_ok {ms : Members} (hms : ms.keys.Nodup) (hr : ∀ m ∈ ms, Readable m) (ht : "type" ∈ ms.keys) :
    ofMembers ms = .ok (ms.foldl putNamed (.ofType .dimension)) := by
  obtain ⟨seen, hs, hmem⟩ := foldlM_setNamed hms hr {} nofun
  have : Attribute.type ∈ seen := (hmem .type).2 (.inr ht)
  rw [ofMembers, hs, ok_bind, Draft.finish, if_pos this]

def kept (attributes : Members) : Members :=
  (Check.normalizeAlias attributes).filter fun a => !isAbsent a.2

lemma keys_normalizeAlias (attributes : Members) : (Check.normalizeAlias attributes).keys = attributes.keys :=
  Entries.keys_modify ..

lemma nodup_keys_kept {attributes : Members} (h : attributes.keys.Nodup) : (kept attributes).keys.Nodup := by
  rw [← keys_normalizeAlias] at h
  exact (List.filter_sublist.map Prod.fst).nodup h

lemma get?_kept {attributes : Members} (h : attributes.keys.Nodup) (name : String) :
    (kept attributes).get? name =
      (if "as" = name then (attributes.get? name).map Check.normalizeAliasValue else attributes.get? name).filter
        (!isAbsent ·) := by
  rw [← keys_normalizeAlias] at h
  rw [kept, Entries.get?_filter h, Check.normalizeAlias, Entries.get?_modify]

lemma text?_eq_bind (attributes : Members) (name : String) :
    text? attributes name = ((attributes.get? name).filter (!isAbsent ·)).bind Json.text? := by
  unfold text?
  cases attributes.get? name with
  | none => rfl
  | some v =>
    cases v with
    | string s => by_cases hs : s = "" <;> simp [isAbsent, hs, Json.text?, Option.filter]
    | _ => simp [isAbsent, Json.text?, Option.filter]

lemma attribute_of_mem_kept {attributes : Members} (hn : attributes.keys.Nodup) (h : IsAttributes attributes)
    {name : String} {v : Json} (hm : (name, v) ∈ kept attributes) : ∃ a, Attribute.ofName? name = some a ∧
      (if "as" = a.name then (attributes.get? a.name).map Check.normalizeAliasValue else attributes.get? a.name) =
        some v ∧ (!isAbsent v) = true := by
  have hv := Entries.get?_eq_some_of_mem (nodup_keys_kept hn) hm
  rw [get?_kept hn, Option.filter_eq_some_iff] at hv
  have hk : name ∈ attributes.keys := by
    rw [← keys_normalizeAlias]
    exact List.mem_map.2 ⟨_, (List.mem_filter.1 hm).1, rfl⟩
  cases hname : Attribute.ofName? name with
  | none => exact absurd (h.known name hk) (Check.ofName?_isNone_iff.1 (by simp [hname]))
  | some a =>
    obtain rfl := name_of_ofName? hname
    exact ⟨a, rfl, hv⟩

lemma readable_of_isAttributes {attributes : Members} (hn : attributes.keys.Nodup) (h : IsAttributes attributes) :
    ∀ m ∈ kept attributes, Readable m := by
  rintro ⟨name, v⟩ hm
  obtain ⟨a, hname, hv, ha⟩ := attribute_of_mem_kept hn h hm
  refine ⟨a, hname, fun f => ?_⟩
  have htext : ∀ name ∈ ["as", "expression", "custom_type"],
      ∀ w, attributes.get? name = some w → w = .null ∨ ∃ s, w = .string s := by
    intro name hname w hw
    simpa [IsOptionalText, hw] using h.texts name hname
  cases a with
  | type =>
    simp only [Attribute.name, String.reduceEq, if_false] at hv
    rcases h.type with ht | ht <;> cases hv.symm.trans ht <;> rfl
  | asName =>
    simp only [Attribute.name, if_true, Option.map_eq_some_iff] at hv
    obtain ⟨w, hw, rfl⟩ := hv
    rcases htext "as" (by simp) w hw with rfl | ⟨s, rfl⟩
    · simp [Check.normalizeAliasValue, isAbsent] at ha
    · rfl
  | groupBy =>
    simp only [Attribute.name, String.reduceEq, if_false] at hv
    rcases h.grouping with hg | hg | ⟨s, g, hg, hs, -⟩ <;> rw [hv] at hg <;> cases hg
    · simp [isAbsent] at ha
    · have hp : GroupBy.parse s = .ok g := readKeyword_eq_ok_iff.2 hs
      simp [assign, put, optionalKeyword, optionalText, Json.text?, hp, hs, mapError_ok, Except.map]
  | expression =>
    simp only [Attribute.name, String.reduceEq, if_false] at hv
    rcases htext "expression" (by simp) v hv with rfl | ⟨s, rfl⟩
    · simp [isAbsent] at ha
    · rfl
  | orderBy =>
    simp only [Attribute.name, String.reduceEq, if_false] at hv
    rcases h.ordering with ho | ho | ⟨s, o, ho, hs⟩ <;> rw [hv] at ho <;> cases ho
    · simp [isAbsent] at ha
    · have hp : SortOrder.parse s = .ok o := readKeyword_eq_ok_iff.2 hs
      simp [assign, put, optionalKeyword, optionalText, Json.text?, hp, hs, mapError_ok, Except.map]
  | select =>
    simp only [Attribute.name, String.reduceEq, if_false] at hv
    rcases h.selection with hs | hs | hs | hs <;> rw [hv] at hs <;> cases hs
    · simp [isAbsent] at ha
    · rfl
    · rfl
  | customType =>
    simp only [Attribute.name, String.reduceEq, if_false] at hv
    rcases htext "custom_type" (by simp) v hv with rfl | ⟨s, rfl⟩
    · simp [isAbsent] at ha
    · rfl

lemma part_text {β : Type} (attributes : Members) (name : String) (read : String → Option β) :
    ((((attributes.get? name).filter (!isAbsent ·)).map fun v => v.text?.bind read).getD none) =
      (text? attributes name).bind read := by
  rw [text?_eq_bind]
  cases (attributes.get? name).filter (!isAbsent ·) <;> rfl

lemma part_kept {β : Type} (part : Field → β) (a : Attribute) (value : Json → β)
    (hself : ∀ f v, part (put f v a) = value v) (hother : ∀ f v b, b ≠ a → part (put f v b) = part f)
    {attributes : Members} (hn : attributes.keys.Nodup) :
    part ((kept attributes).foldl putNamed (.ofType .dimension)) =
      (((if "as" = a.name then (attributes.get? a.name).map Check.normalizeAliasValue else attributes.get? a.name).filter
        (!isAbsent ·)).map value).getD (part (.ofType .dimension)) := by
  rw [part_putAll part a value hself hother (nodup_keys_kept hn), get?_kept hn]

lemma putAll_kept {attributes : Members} (hn : attributes.keys.Nodup) (h : IsAttributes attributes) :
    (kept attributes).foldl putNamed (.ofType .dimension) = stored attributes := by
  ext1
  · rw [part_kept (·.type) .type _ (fun _ _ => rfl) (fun f v b hb => by cases b <;> trivial) hn]
    rcases h.type with ht | ht <;> simp [stored, Attribute.name, ht, isAbsent, Option.filter] <;> rfl
  · rw [part_kept (·.asName) .asName _ (fun _ _ => rfl) (fun f v b hb => by cases b <;> trivial) hn]
    simp only [Attribute.name, if_true, stored]
    cases attributes.get? "as" with
    | none => rfl
    | some v =>
      cases v with
      | string s =>
        by_cases hs : Alias.normalize s = "" <;>
          simp [Check.normalizeAliasValue, isAbsent, Option.filter, Json.text?, nonempty?, ofType, hs]
      | _ => simp [Check.normalizeAliasValue, isAbsent, Option.filter, Json.text?, ofType]
  · rw [part_kept (·.groupBy) .groupBy _ (fun _ _ => rfl) (fun f v b hb => by cases b <;> trivial) hn]
    exact part_text attributes "group_by" GroupBy.ofText?
  · rw [part_kept (·.expression) .expression _ (fun _ _ => rfl) (fun f v b hb => by cases b <;> trivial) hn]
    simpa using! part_text attributes "expression" some
  · rw [part_kept (·.orderBy) .orderBy _ (fun _ _ => rfl) (fun f v b hb => by cases b <;> trivial) hn]
    exact part_text attributes "order_by" SortOrder.ofText?
  · rw [part_kept (·.visibility) .select (fun _ => .hidden) (fun _ _ => rfl) (fun f v b hb => by cases b <;> trivial) hn]
    simp only [Attribute.name, String.reduceEq, if_false, stored]
    cases attributes.get? "select" with
    | none => rfl
    | some v => by_cases hv : isAbsent v = true <;> simp [Option.filter, hv, ofType]
  · rw [part_kept (·.customType) .customType _ (fun _ _ => rfl) (fun f v b hb => by cases b <;> trivial) hn]
    simpa using! part_text attributes "custom_type" some

lemma readField_normalizeAlias {attributes : Members} (hn : attributes.keys.Nodup) (h : IsAttributes attributes)
    (path name : String) :
    Document.readField path name (.object (Check.normalizeAlias attributes)) = .ok (stored attributes) := by
  have ht : "type" ∈ (kept attributes).keys := by
    rw [← Entries.isSome_get?_iff, get?_kept hn]
    rcases h.type with ht | ht <;> simp [ht, isAbsent, Option.filter]
  have hread := ofMembers_eq_ok (nodup_keys_kept hn) (readable_of_isAttributes hn h) ht
  rw [putAll_kept hn h] at hread
  simp only [Document.readField]
  rw [mapError_eq_ok_iff]
  exact hread

end Field

def Fields.stored (ms : Members) : Fields :=
  .ofList (ms.mapValues fun v => Field.stored (v.members?.getD []))

end QueryTree
