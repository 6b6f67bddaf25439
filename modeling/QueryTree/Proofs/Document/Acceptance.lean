import QueryTree.Proofs.Document.Grammar
import QueryTree.Proofs.Outcome
/-! The check of a stored document accepts exactly the grammar. -/

namespace QueryTree.Check

open Json (Members)
open Grammar

lemma isTextOrNull_iff {v : Json} : v.isTextOrNull = true ↔ v = .null ∨ ∃ s, v = .string s := by
  cases v <;> simp [Json.isTextOrNull]

lemma fieldType_eq_some_iff {s : String} {t : FieldType} : FieldType.ofName? s = some t ↔ s = t.name := by
  constructor
  · intro h
    unfold FieldType.ofName? at h
    split at h <;> cases h <;> rfl
  · rintro rfl
    exact FieldType.ofName?_name t

lemma ofName?_isNone_iff {name : String} : (Attribute.ofName? name).isNone = true ↔ name ∉ attributeNames := by
  have hnames : ∀ s, s ∈ attributeNames ↔ ∃ a ∈ Attribute.all, a.name = s := by
    simp only [attributeNames, Attribute.all, List.mem_cons, exists_eq_or_imp, Attribute.name]
    grind
  rw [Attribute.ofName?, Option.isNone_iff_eq_none, List.find?_eq_none, hnames]
  simp

lemma checkKnown_iff {name : String} {attributes : Members} :
    checkKnown name attributes = .ok () ↔ ∀ a ∈ attributes.keys, a ∈ attributeNames := by
  unfold checkKnown
  split
  · next a h =>
    have hm := List.mem_of_find?_eq_some h
    have hp : a ∉ attributeNames := ofName?_isNone_iff.1 (by simpa using List.find?_some h)
    exact ⟨nofun, fun hall => absurd (hall a hm) hp⟩
  · next h =>
    simp only [List.find?_eq_none, ofName?_isNone_iff, Decidable.not_not] at h
    exact ⟨fun _ => h, fun _ => rfl⟩

lemma checkType_iff {name : String} {attributes : Members} {t : FieldType} :
    checkType name attributes = .ok t ↔ attributes.get? "type" = some (.string t.name) := by
  unfold checkType
  cases attributes.get? "type" with
  | none => simp
  | some v =>
    cases v with
    | string s =>
      simp only [Json.text?, Option.bind_some]
      cases h : FieldType.ofName? s with
      | none =>
        have : s ≠ t.name := fun e => by simp [e, FieldType.ofName?_name] at h
        simp [this]
      | some u =>
        obtain rfl := fieldType_eq_some_iff.1 h
        cases t <;> cases u <;> simp [FieldType.name]
    | _ => simp [Json.text?]

lemma checkText_iff {name attr : String} {attributes : Members} :
    checkText name attributes attr = .ok () ↔ IsOptionalText (attributes.get? attr) := by
  unfold checkText IsOptionalText
  cases attributes.get? attr with
  | none => simp
  | some v => by_cases h : v.isTextOrNull = true <;> simp [h] <;> simpa [isTextOrNull_iff] using h

lemma checkAggregable_iff {name : String} {t : FieldType} {a : Aggregation} :
    checkAggregable name t a = .ok () ↔ t = .numeric := by
  cases t <;> simp [checkAggregable]

lemma checkAllAggregable_iff {a : Aggregation} {fields : List (String × FieldType)} :
    checkAllAggregable a fields = .ok () ↔ ∀ f ∈ fields, f.2 = .numeric := by
  induction fields with
  | nil => simp [checkAllAggregable]
  | cons f fields ih =>
    obtain ⟨name, type⟩ := f
    rw [List.forall_mem_cons, ← ih, ← @checkAggregable_iff name type a, checkAllAggregable]
    cases checkAggregable name type a <;> simp

lemma checkGroupBy_iff {name : String} {t : FieldType} {attributes : Members} :
    checkGroupBy name t attributes = .ok () ↔ attributes.get? "group_by" = none ∨
      attributes.get? "group_by" = some (.string "") ∨
      ∃ s g, attributes.get? "group_by" = some (.string s) ∧ GroupBy.ofText? s = some g ∧
        (g = .group ∨ t = .numeric) := by
  unfold checkGroupBy
  cases attributes.get? "group_by" with
  | none => simp
  | some v =>
    cases v with
    | string s =>
      by_cases hs : s = ""
      · simp [Json.text?, hs]
      · simp only [Json.text?, String.isEmpty_iff, hs, if_false]
        cases hg : GroupBy.ofText? s with
        | none => simp [hs, hg]
        | some g => cases g <;> simp [hs, hg, checkAggregable_iff]
    | _ => simp [Json.text?]

lemma checkOrderBy_iff {name : String} {attributes : Members} :
    checkOrderBy name attributes = .ok () ↔ attributes.get? "order_by" = none ∨
      attributes.get? "order_by" = some (.string "") ∨
      ∃ s o, attributes.get? "order_by" = some (.string s) ∧ SortOrder.ofText? s = some o := by
  unfold checkOrderBy
  cases attributes.get? "order_by" with
  | none => simp
  | some v =>
    cases v with
    | string s =>
      by_cases hs : s = ""
      · simp [isOrder, Json.text?, hs]
      · cases ho : SortOrder.ofText? s <;> simp [isOrder, Json.text?, hs, ho]
    | _ => simp [isOrder, Json.text?]

lemma isVisibility_iff {v : Json} :
    isVisibility v = true ↔ v = .string "" ∨ v = .string "0" ∨ v = .number (.natural 0) := by
  cases v with
  | number n => cases n <;> simp [isVisibility]
  | _ => simp [isVisibility]

lemma checkSelect_iff {name : String} {attributes : Members} :
    checkSelect name attributes = .ok () ↔ attributes.get? "select" = none ∨
      attributes.get? "select" = some (.string "") ∨ attributes.get? "select" = some (.string "0") ∨
      attributes.get? "select" = some (.number (.natural 0)) := by
  unfold checkSelect
  cases attributes.get? "select" with
  | none => simp
  | some v => by_cases h : isVisibility v = true <;> simp [h] <;> simpa [isVisibility_iff] using h

lemma checkAttributes_iff {name : String} {attributes : Members} :
    checkAttributes name attributes = .ok () ↔ IsAttributes attributes := by
  rw [checkAttributes, unit_bind_eq_ok_iff, bind_eq_ok_iff]
  simp only [unit_bind_eq_ok_iff, checkKnown_iff, checkType_iff, checkText_iff, checkGroupBy_iff,
    checkOrderBy_iff, checkSelect_iff]
  constructor
  · rintro ⟨hk, t, ht, h1, h2, h3, hg, ho, hs⟩
    have hnum : t = .numeric → attributes.get? "type" = some (.string "num") := by
      rintro rfl
      exact ht
    refine ⟨hk, ?_, by simp [h1, h2, h3], ?_, ho, hs⟩
    · cases t
      · exact .inl ht
      · exact .inr ht
    · rcases hg with hg | hg | ⟨s, g, hs, hg, h⟩
      · exact .inl hg
      · exact .inr (.inl hg)
      · exact .inr (.inr ⟨s, g, hs, hg, h.imp_right hnum⟩)
  · rintro ⟨hk, ht, htexts, hg, ho, hs⟩
    obtain ⟨t, ht⟩ : ∃ t : FieldType, attributes.get? "type" = some (.string t.name) := by
      rcases ht with ht | ht
      · exact ⟨.dimension, ht⟩
      · exact ⟨.numeric, ht⟩
    have hnum : attributes.get? "type" = some (.string "num") → t = .numeric := by
      rw [ht]
      cases t <;> simp [FieldType.name]
    refine ⟨hk, t, ht, htexts _ (by simp), htexts _ (by simp), htexts _ (by simp), ?_, ho, hs⟩
    rcases hg with hg | hg | ⟨s, g, hs, hg, h⟩
    · exact .inl hg
    · exact .inr (.inl hg)
    · exact .inr (.inr ⟨s, g, hs, hg, h.imp_right hnum⟩)

lemma checkField_iff {name : String} {v : Json} : (checkField name v).fault = none ↔ IsFieldObject v := by
  cases v with
  | object attributes =>
    have : (checkField name (.object attributes)).fault = none ↔ checkAttributes name attributes = .ok () := by
      unfold checkField
      cases h : checkAttributes name attributes <;> simp [h]
    rw [this, checkAttributes_iff, IsFieldObject]
    simp
  | _ => simp [checkField, IsFieldObject]

lemma checkFields_iff {fields : Members} : (checkFields fields).fault = none ↔ ∀ m ∈ fields, IsFieldObject m.2 := by
  induction fields with
  | nil => simp [checkFields]
  | cons m fields ih =>
    obtain ⟨name, v⟩ := m
    rw [List.forall_mem_cons, ← ih, ← @checkField_iff name, checkFields]
    cases h : (checkField name v).fault <;> simp

lemma checkClause_iff {block : Members} {clause : String} :
    checkClause block clause = .ok () ↔ IsOptionalText (block.get? clause) := by
  unfold checkClause IsOptionalText
  cases block.get? clause with
  | none => simp
  | some v => by_cases h : v.isTextOrNull = true <;> simp [h] <;> simpa [isTextOrNull_iff] using h

lemma isDistinctFlag_iff {v : Json} : isDistinctFlag v = true ↔ IsDistinct v := by
  cases v with
  | number n => cases n <;> simp [isDistinctFlag, IsDistinct]
  | _ => simp [isDistinctFlag, IsDistinct]

lemma checkDistinct_iff {block : Members} :
    checkDistinct block = .ok () ↔ ∀ v, block.get? "distinct" = some v → IsDistinct v := by
  unfold checkDistinct
  cases block.get? "distinct" with
  | none => simp
  | some v => by_cases h : isDistinctFlag v = true <;> simp [h] <;> simpa [isDistinctFlag_iff] using h

lemma naturalOfDigits?_isSome_iff {cs : List Char} :
    (Text.naturalOfDigits? cs).isSome = true ↔
      cs ≠ [] ∧ (∀ c ∈ cs, c.isDigit) ∧ Nat.ofDigitChars 10 cs 0 < UInt64.size := by
  have hv : Text.digitsValue 0 cs = Nat.ofDigitChars 10 cs 0 := rfl
  unfold Text.naturalOfDigits?
  rw [hv]
  by_cases he : cs = []
  · simp [he]
  · by_cases hd : cs.all Char.isDigit = true
    · by_cases hn : Nat.ofDigitChars 10 cs 0 < UInt64.size
      · simp [he, hd, hn]
        simpa using hd
      · simp [he, hd, hn]
    · have hall : ¬ ∀ c ∈ cs, c.isDigit = true := by rwa [← List.all_eq_true]
      simp [he, hd, hall]

lemma natural?_isSome_iff {s : String} : (Text.natural? s).isSome = true ↔ IsNumeral s := by
  unfold Text.natural? IsNumeral
  split
  · next cs hs =>
    rw [naturalOfDigits?_isSome_iff]
    constructor
    · intro h
      exact ⟨cs, .inr hs, h⟩
    · rintro ⟨digits, h | h, hd⟩
      · -- the plus sign is no digit
        have hm : '+' ∈ digits := by simp [← h, hs]
        exact absurd (hd.2.1 _ hm) (by decide)
      · rw [hs, List.cons.injEq] at h
        exact h.2 ▸ hd
  · next hs =>
    rw [naturalOfDigits?_isSome_iff]
    constructor
    · intro h
      exact ⟨_, .inl rfl, h⟩
    · rintro ⟨digits, h | h, hd⟩
      · exact h ▸ hd
      · exact absurd h (hs digits)

lemma limit?_isSome_iff {v : Json} : (limit? v).isSome = true ↔ IsLimit v := by
  cases v with
  | string s =>
    by_cases h : Text.isBlankText s = true
    · have hb : ∀ c ∈ s.toList, Text.isBlank c = true := List.all_eq_true.1 h
      simp [limit?, IsLimit, h]
      exact .inl hb
    · have hb : ¬ ∀ c ∈ s.toList, Text.isBlank c = true := fun hb => h (List.all_eq_true.2 hb)
      simp [limit?, IsLimit, h, hb, natural?_isSome_iff]
  | number n => cases n <;> simp [limit?, IsLimit]
  | _ => simp [limit?, IsLimit]

lemma checkLimit_iff {block : Members} :
    checkLimit block = .ok () ↔ ∀ v, block.get? "limit" = some v → IsLimit v := by
  unfold checkLimit
  cases block.get? "limit" with
  | none => simp
  | some v => by_cases h : (limit? v).isSome = true <;> simp [h] <;> simpa [limit?_isSome_iff] using h

lemma checkEntries_iff {block : Members} :
    checkEntries block = .ok () ↔ (∀ name ∈ ["where", "having", "schema"], IsOptionalText (block.get? name)) ∧
      (∀ v, block.get? "distinct" = some v → IsDistinct v) ∧ ∀ v, block.get? "limit" = some v → IsLimit v := by
  simp [checkEntries, unit_bind_eq_ok_iff, checkClause_iff, checkDistinct_iff, checkLimit_iff, and_assoc]

lemma checkEntries_insert_fields (block : Members) (v : Json) :
    checkEntries (block.insert "fields" v) = checkEntries block := by
  simp [checkEntries, checkClause, checkDistinct, checkLimit, Entries.get?_insert]

lemma checkBlock_iff {block : Members} {path : String} :
    (checkBlock block path).fault = none ↔ IsBlock block := by
  unfold checkBlock
  split
  · next h => exact ⟨nofun, fun ⟨⟨_, hf, _⟩, _, _, _⟩ => by simp [h] at hf⟩
  · next fields h =>
    rw [Checked.fault_andThen_eq_none_iff, Checked.fault_map, checkFields_iff, Checked.fault_ofExcept_eq_none_iff,
      Checked.value_map, checkEntries_insert_fields]
    constructor
    · rintro ⟨hf, ⟨⟩, he⟩
      obtain ⟨hc, hd, hl⟩ := checkEntries_iff.1 he
      exact ⟨⟨fields, h, hf⟩, hc, hd, hl⟩
    · rintro ⟨⟨fs, hfs, hf⟩, hc, hd, hl⟩
      rw [h] at hfs
      cases hfs
      exact ⟨hf, (), checkEntries_iff.2 ⟨hc, hd, hl⟩⟩
  · next v hv h =>
    refine ⟨nofun, fun ⟨⟨fields, hf, _⟩, _, _, _⟩ => ?_⟩
    rw [h, Option.some.injEq] at hf
    exact absurd hf (hv fields)

lemma textItem_eq_ok_iff {name s : String} {item : Json} : textItem name item = .ok s ↔ item = .string s := by
  cases item <;> simp [textItem, Json.text?]

lemma textItems_eq_ok_iff {name : String} {items : List Json} {types : List String} :
    items.mapM (textItem name) = .ok types ↔ items = types.map .string := by
  induction items generalizing types with
  | nil => cases types <;> simp [pure, Except.pure]
  | cons item items ih =>
    simp only [List.mapM_cons, bind_eq_ok_iff, textItem_eq_ok_iff, ih]
    constructor
    · rintro ⟨t, rfl, rest, rfl, h⟩
      cases h
      rfl
    · intro h
      cases types with
      | nil => cases h
      | cons t types =>
        obtain ⟨rfl, rfl⟩ := List.cons.inj h
        exact ⟨t, rfl, types, rfl, rfl⟩

lemma member?_eq_some_iff {v w : Json} {name : String} :
    v.member? name = some w ↔ ∃ ms, v = .object ms ∧ Entries.get? ms name = some w := by
  cases v <;> simp [Json.member?, Json.members?]

lemma items_member?_eq_some_iff {v : Json} {name : String} {items : List Json} :
    (v.member? name).bind Json.items? = some items ↔ v.member? name = some (.array items) := by
  rw [Option.bind_eq_some_iff]
  constructor
  · rintro ⟨w, hw, hi⟩
    cases w <;> simp_all [Json.items?]
  · exact fun h => ⟨_, h, rfl⟩

lemma textList_eq_ok_iff {v : Json} {name : String} {types : List String} :
    textList v name = .ok types ↔ v.member? name = some (.array (types.map .string)) := by
  rw [← items_member?_eq_some_iff]
  unfold textList
  cases (v.member? name).bind Json.items? with
  | none => simp
  | some items => simpa using textItems_eq_ok_iff

lemma checkKeywords_iff {α : Type} {parse : String → Except UnknownKeyword α} {types : List String} :
    checkKeywords parse types = .ok () ↔ ∀ t ∈ types, ∃ k, parse t = .ok k := by
  induction types with
  | nil => simp [checkKeywords]
  | cons t types ih =>
    rw [List.forall_mem_cons, ← ih, checkKeywords]
    cases parse t <;> simp

lemma checkNonempty_iff {types : List String} {name : String} : checkNonempty types name = .ok () ↔ types ≠ [] := by
  cases types <;> simp [checkNonempty]

lemma conditionList_eq_ok_iff {v : Json} {on : List Json} :
    conditionList v = .ok on ↔ v.member? "on" = some (.array on) := by
  rw [← items_member?_eq_some_iff]
  unfold conditionList
  cases (v.member? "on").bind Json.items? <;> simp

lemma checkSameLength_iff {types : List String} {on : List Json} :
    checkSameLength types on = .ok () ↔ types.length = on.length := by
  by_cases h : types.length = on.length <;> simp [checkSameLength, h]

lemma isCondition_iff {v : Json} : isCondition v = true ↔ IsCondition v := by
  cases v with
  | number n => cases n <;> simp [isCondition, IsCondition]
  | _ => simp [isCondition, IsCondition]

lemma checkConditions_iff {on : List Json} : checkConditions on = .ok () ↔ ∀ c ∈ on, IsCondition c := by
  unfold checkConditions
  split
  · next c h =>
    have hm := List.mem_of_find?_eq_some h
    have hc : ¬ IsCondition c := by simpa [← isCondition_iff] using List.find?_some h
    exact ⟨nofun, fun hall => absurd (hall c hm) hc⟩
  · next h =>
    simp only [List.find?_eq_none, Bool.not_eq_true', Bool.not_eq_false, isCondition_iff] at h
    exact ⟨fun _ => h, fun _ => rfl⟩

lemma checkUnion_iff {v : Json} {n : Nat} :
    checkUnion v = .ok n ↔ ∃ u types, v = .object u ∧ Entries.get? u "union_type" = some (.array (types.map .string)) ∧
      types ≠ [] ∧ (∀ t ∈ types, ∃ k, UnionType.parse t = .ok k) ∧ n = types.length + 1 := by
  rw [checkUnion, bind_eq_ok_iff]
  simp only [unit_bind_eq_ok_iff, textList_eq_ok_iff, checkNonempty_iff, checkKeywords_iff, member?_eq_some_iff]
  constructor
  · rintro ⟨types, ⟨u, rfl, hu⟩, hne, hk, h⟩
    cases h
    exact ⟨u, types, rfl, hu, hne, hk, rfl⟩
  · rintro ⟨u, types, rfl, hu, hne, hk, rfl⟩
    exact ⟨types, ⟨u, rfl, hu⟩, hne, hk, rfl⟩

lemma checkJoin_iff {v : Json} {n : Nat} :
    checkJoin v = .ok n ↔ ∃ j types on, v = .object j ∧
      Entries.get? j "join_type" = some (.array (types.map .string)) ∧ types ≠ [] ∧
      (∀ t ∈ types, ∃ k, JoinType.parse t = .ok k) ∧ Entries.get? j "on" = some (.array on) ∧
      types.length = on.length ∧ (∀ c ∈ on, IsCondition c) ∧ n = types.length + 1 := by
  rw [checkJoin, bind_eq_ok_iff]
  simp only [bind_eq_ok_iff (x := conditionList v), unit_bind_eq_ok_iff, textList_eq_ok_iff, conditionList_eq_ok_iff,
    checkNonempty_iff, checkSameLength_iff, checkKeywords_iff, checkConditions_iff, member?_eq_some_iff]
  constructor
  · rintro ⟨types, ⟨j, rfl, hj⟩, on, ⟨j', hj', hon⟩, hne, hl, hk, hc, h⟩
    cases hj'
    cases h
    exact ⟨j, types, on, rfl, hj, hne, hk, hon, hl, hc, rfl⟩
  · rintro ⟨j, types, on, rfl, hj, hne, hk, hon, hl, hc, rfl⟩
    exact ⟨types, ⟨j, rfl, hj⟩, on, ⟨j, rfl, hon⟩, hne, hl, hk, hc, rfl⟩

lemma sourceOf_of_table {block : Members} {path : String} {hasSubquery : Bool} (hu : block.get? "union" = none)
    (hj : block.get? "join" = none) :
    sourceOf block path hasSubquery = match block.get? "table" with
      | some (.string t) =>
        if t ≠ "" then .ok .table else if hasSubquery then .ok .subquery else .error (.missingSource path)
      | some v => .error (.invalidClause "table" v.compact)
      | none => if hasSubquery then .ok .subquery else .error (.missingSource path) := by
  unfold sourceOf
  rw [hu, hj]
  cases block.get? "table" with
  | none => rfl
  | some v => cases v <;> simp

section

variable {block : Members} {path : String} {hasSubquery : Bool} {source : Source}

lemma sourceOf_eq_ok_iff_of_union {v : Json} (hu : block.get? "union" = some v) :
    sourceOf block path hasSubquery = .ok source ↔
      ReadsFrom block source ∧ (source = .subquery → hasSubquery = true) := by
  have hchecked : sourceOf block path hasSubquery = ((checkUnion v).map .union).mapError (.invalidUnion path) := by
    simp [sourceOf, hu]
  simp only [hchecked, mapError_eq_ok_iff, map_eq_ok_iff, checkUnion_iff]
  constructor
  · rintro ⟨_, ⟨u, types, rfl, hl, hne, hk, rfl⟩, rfl⟩
    exact ⟨.union hu hl hne hk, nofun⟩
  · rintro ⟨h, -⟩
    cases h with
    | @union u types hu' hl hne hk =>
      cases hu.symm.trans hu'
      exact ⟨_, ⟨u, types, rfl, hl, hne, hk, rfl⟩, rfl⟩
    | join hu' | table hu' | subquery hu' => simp [hu] at hu'

lemma sourceOf_eq_ok_iff_of_join {v : Json} (hu : block.get? "union" = none) (hj : block.get? "join" = some v) :
    sourceOf block path hasSubquery = .ok source ↔
      ReadsFrom block source ∧ (source = .subquery → hasSubquery = true) := by
  have hchecked : sourceOf block path hasSubquery = ((checkJoin v).map .join).mapError (.invalidJoin path) := by
    simp [sourceOf, hu, hj]
  simp only [hchecked, mapError_eq_ok_iff, map_eq_ok_iff, checkJoin_iff]
  constructor
  · rintro ⟨_, ⟨j, types, on, rfl, hl, hne, hk, hon, hlen, hc, rfl⟩, rfl⟩
    exact ⟨.join hu hj hl hne hk hon hlen hc, nofun⟩
  · rintro ⟨h, -⟩
    cases h with
    | union hu' => simp [hu] at hu'
    | @join j types on _ hj' hl hne hk hon hlen hc =>
      cases hj.symm.trans hj'
      exact ⟨_, ⟨j, types, on, rfl, hl, hne, hk, hon, hlen, hc, rfl⟩, rfl⟩
    | table _ hj' | subquery _ hj' => simp [hj] at hj'

lemma sourceOf_eq_ok_iff_of_table (hu : block.get? "union" = none) (hj : block.get? "join" = none) :
    sourceOf block path hasSubquery = .ok source ↔
      ReadsFrom block source ∧ (source = .subquery → hasSubquery = true) := by
  rw [sourceOf_of_table hu hj]
  constructor
  · intro h
    split at h
    · next t ht =>
      split at h
      · next hne =>
        cases h
        exact ⟨.table hu hj ht hne, nofun⟩
      · next he =>
        rw [Decidable.not_not.1 he] at ht
        obtain ⟨hs, rfl⟩ := ite_error_eq_ok h
        exact ⟨.subquery hu hj (.inr ht), fun _ => hs⟩
    · cases h
    · next ht =>
      obtain ⟨hs, rfl⟩ := ite_error_eq_ok h
      exact ⟨.subquery hu hj (.inl ht), fun _ => hs⟩
  · rintro ⟨h, hs⟩
    cases h with
    | union hu' => simp [hu] at hu'
    | join _ hj' => simp [hj] at hj'
    | table _ _ ht hne => simp [ht, hne]
    | subquery _ _ ht => rcases ht with ht | ht <;> simp [ht, hs rfl]

lemma sourceOf_eq_ok_iff : sourceOf block path hasSubquery = .ok source ↔
    ReadsFrom block source ∧ (source = .subquery → hasSubquery = true) := by
  cases hu : block.get? "union" with
  | some v => exact sourceOf_eq_ok_iff_of_union hu
  | none =>
    cases hj : block.get? "join" with
    | some v => exact sourceOf_eq_ok_iff_of_join hu hj
    | none => exact sourceOf_eq_ok_iff_of_table hu hj

end

lemma checkBlock_value {block : Members} {path : String} (h : (checkBlock block path).fault = none) :
    ∃ fields, block.get? "fields" = some (.object fields) ∧ (checkFields fields).fault = none ∧
      (checkBlock block path).value = block.insert "fields" (.object (checkFields fields).value) := by
  obtain ⟨⟨fields, hf, hfields⟩, -, -, -⟩ := checkBlock_iff.1 h
  have hc : (checkFields fields).fault = none := checkFields_iff.2 hfields
  refine ⟨fields, hf, hc, ?_⟩
  unfold checkBlock
  rw [hf]
  simp only
  rw [Checked.value_andThen (by simpa using hc), Checked.value_ofExcept, Checked.value_map]

lemma sourceOf_insert_fields (block : Members) (v : Json) (path : String) (hasSubquery : Bool) :
    sourceOf (block.insert "fields" v) path hasSubquery = sourceOf block path hasSubquery := by
  simp [sourceOf, Entries.get?_insert]

lemma sourceOf_checkBlock {block : Members} {path : String} (h : (checkBlock block path).fault = none)
    (hasSubquery : Bool) :
    sourceOf (checkBlock block path).value path hasSubquery = sourceOf block path hasSubquery := by
  obtain ⟨fields, -, -, hv⟩ := checkBlock_value h
  rw [hv, sourceOf_insert_fields]

lemma checkChildren_iff {checks : Entries Checker} {path : String} {keys : List String} {node : Members} :
    (checkChildren checks path keys node).fault = none ↔
      ∀ key ∈ keys, ∃ check, checks.get? key = some check ∧ (check (path ++ "." ++ key)).fault = none := by
  induction keys generalizing node with
  | nil => simp [checkChildren]
  | cons key keys ih =>
    rw [List.forall_mem_cons, checkChildren]
    cases checks.get? key with
    | none => simp
    | some check => simp [Checked.fault_andThen_eq_none_iff, ih]

lemma checkMembers_of_not_select {node : Members} {checks : Entries Checker} {path : String}
    (h : ∀ block, node.get? "select" ≠ some (.object block)) :
    checkMembers node checks path = .failed node (.notAnObject (path ++ ".select")) := by
  unfold checkMembers
  split
  · next block hselect => exact absurd hselect (h block)
  · rfl

lemma checkMembers_of_select {node block : Members} {checks : Entries Checker} {path : String}
    (h : node.get? "select" = some (.object block)) :
    checkMembers node checks path =
      match (checkBlock block path).fault, sourceOf block path (node.contains subqueryKey) with
      | some e, _ | none, .error e => .failed (node.insert "select" (.object (checkBlock block path).value)) e
      | none, .ok source =>
        checkChildren checks path source.childKeys (node.insert "select" (.object (checkBlock block path).value)) := by
  have hsq : Entries.contains (Entries.insert node "select" (.object (checkBlock block path).value)) subqueryKey =
      node.contains subqueryKey := by
    simp [Entries.contains, Entries.get?_insert, subqueryKey]
  unfold checkMembers
  simp only [h, hsq]
  cases hb : (checkBlock block path).fault with
  | some e => rfl
  | none =>
    simp only [sourceOf_checkBlock hb]
    cases sourceOf block path (node.contains subqueryKey) <;> rfl

lemma checkMembers_iff {node : Members} {checks : Entries Checker} {path : String} :
    (checkMembers node checks path).fault = none ↔
      ∃ block source, node.get? "select" = some (.object block) ∧ (checkBlock block path).fault = none ∧
        sourceOf block path (node.contains subqueryKey) = .ok source ∧
        ∀ key ∈ source.childKeys, ∃ check, checks.get? key = some check ∧
          (check (path ++ "." ++ key)).fault = none := by
  by_cases hselect : ∃ block, node.get? "select" = some (.object block)
  · obtain ⟨block, hselect⟩ := hselect
    rw [checkMembers_of_select hselect]
    simp only [hselect, Option.some.injEq, Json.object.injEq]
    cases hb : (checkBlock block path).fault with
    | some e => exact ⟨nofun, by rintro ⟨_, _, rfl, hb', _⟩; simp [hb] at hb'⟩
    | none =>
      cases hs : sourceOf block path (node.contains subqueryKey) with
      | error e => exact ⟨nofun, by rintro ⟨_, _, rfl, _, hs', _⟩; simp [hs] at hs'⟩
      | ok source =>
        simp only [checkChildren_iff]
        constructor
        · exact fun hc => ⟨block, source, rfl, hb, hs, hc⟩
        · rintro ⟨_, source', rfl, -, hs', hc⟩
          cases hs.symm.trans hs'
          exact hc
  · rw [checkMembers_of_not_select (not_exists.1 hselect)]
    exact ⟨nofun, by rintro ⟨block, _, hb, _⟩; exact absurd ⟨block, hb⟩ hselect⟩

lemma exists_of_get?_memberCheckers {node : Members} {key : String} {check : Checker}
    (h : Entries.get? (memberCheckers node) key = some check) : ∃ v, node.get? key = some v ∧ checkNode v = check := by
  rwa [get?_memberCheckers, Option.map_eq_some_iff] at h

lemma checkNode_iff {v : Json} {path : String} : (checkNode v path).fault = none ↔ IsNode v := by
  induction v using Json.memberInduction generalizing path with
  | other v hv =>
    cases v with
    | object => cases hv
    | _ => exact ⟨nofun, nofun⟩
  | object node ih =>
    have hchild : ∀ key path, (∃ check, Entries.get? (memberCheckers node) key = some check ∧
        (check path).fault = none) ↔ ∃ v, node.get? key = some v ∧ IsNode v := by
      intro key path
      rw [get?_memberCheckers]
      cases hv : node.get? key with
      | none => simp
      | some v => simpa using ih _ (Entries.mem_of_get? hv)
    rw [checkNode, Checked.fault_map, checkMembers_iff]
    simp only [hchild, checkBlock_iff, sourceOf_eq_ok_iff, Entries.contains_iff]
    constructor
    · rintro ⟨block, source, hselect, hb, ⟨hs, -⟩, hc⟩
      refine .node hselect hb hs ?_ ?_
      · intro key hk
        obtain ⟨v, hv, -⟩ := hc key hk
        exact Entries.mem_keys_of_get? hv
      · intro key hk v hv
        obtain ⟨w, hw, hn⟩ := hc key hk
        cases hv.symm.trans hw
        exact hn
    · rintro ⟨hselect, hb, hs, hp, hc⟩
      refine ⟨_, _, hselect, hb, ⟨hs, ?_⟩, ?_⟩
      · rintro rfl
        exact hp _ (by simp [Source.childKeys])
      · intro key hk
        obtain ⟨v, hv⟩ := Entries.exists_get?_of_mem_keys (hp key hk)
        exact ⟨v, hv, hc key hk v hv⟩

lemma isWrapped_iff {v : Json} : isWrapped v = true ↔ ∃ ms : Members, v = .object ms ∧ "select" ∈ ms.keys := by
  cases v <;> simp [isWrapped, Json.member?, Json.members?, ← Entries.isSome_get?_iff]

lemma value_checkFlat (block : Members) : (checkFlat block).value = (checkBlock block rootPath).value := by
  rw [checkFlat]
  cases hb : (checkBlock block rootPath).fault with
  | some e => simp only [Checked.andThen, hb]
  | none =>
    rw [Checked.value_andThen hb]
    split <;> rfl

lemma checkFlat_iff {block : Members} :
    (checkFlat block).fault = none ↔ IsBlock block ∧ "union" ∉ block.keys ∧ "join" ∉ block.keys ∧
      ∃ t, block.get? "table" = some (.string t) ∧ t ≠ "" := by
  rw [checkFlat, Checked.fault_andThen_eq_none_iff, checkBlock_iff, and_congr_right_iff]
  intro hb
  rw [sourceOf_checkBlock (checkBlock_iff.2 hb), ← Entries.get?_eq_none_iff, ← Entries.get?_eq_none_iff]
  constructor
  · intro h
    split at h
    · next hs =>
      obtain ⟨hs, -⟩ := sourceOf_eq_ok_iff.1 hs
      cases hs with
      | table hu hj ht hne => exact ⟨hu, hj, _, ht, hne⟩
    all_goals cases h
  · rintro ⟨hu, hj, t, ht, hne⟩
    have hs : sourceOf block rootPath false = .ok .table := sourceOf_eq_ok_iff.2 ⟨.table hu hj ht hne, nofun⟩
    simp [hs]

lemma check_of_mem {node : Members} (h : "select" ∈ node.keys) :
    check (.object node) = checkNode (.object node) "select" := by
  rw [check, if_pos (isWrapped_iff.2 ⟨node, rfl, h⟩)]

lemma check_of_not_mem {block : Members} (h : "select" ∉ block.keys) :
    check (.object block) = (checkFlat block).map .object := by
  have hw : ¬ isWrapped (.object block) := by
    rw [isWrapped_iff]
    rintro ⟨_, hb, hm⟩
    cases hb
    exact h hm
  rw [check, if_neg hw]

lemma isDocument_of_passes {v : Json} (h : (check v).fault = none) : IsDocument v := by
  cases v with
  | object members =>
    by_cases hm : "select" ∈ Entries.keys members
    · rw [check_of_mem hm, checkNode_iff] at h
      exact .wrapped hm h
    · rw [check_of_not_mem hm, Checked.fault_map, checkFlat_iff] at h
      obtain ⟨hb, hu, hj, t, ht, hne⟩ := h
      exact .flat hm hb hu hj ht hne
  | _ => cases h

lemma passes_of_isDocument {v : Json} (h : IsDocument v) : (check v).fault = none := by
  cases h with
  | wrapped hm hn =>
    rw [check_of_mem hm, checkNode_iff]
    exact hn
  | flat hm hb hu hj ht hne =>
    rw [check_of_not_mem hm, Checked.fault_map, checkFlat_iff]
    exact ⟨hb, hu, hj, _, ht, hne⟩

end QueryTree.Check
