import QueryTree.Proofs.Document.Stored
import QueryTree.Proofs.Field.Canonical
/-! Canonical documents. The stored form of a document stands for its canonical form, which normalizes every
field, drops empty texts and drops conditions that stand for none; documents that were read are canonical. -/

namespace QueryTree

open Json (Members)
open Check (Source subqueryKey childKey)
open Grammar

def Block.canonical (b : Block) : Block :=
  { b with
    fields := b.fields.canonical
    filter := b.filter.bind nonempty?
    having := b.having.bind nonempty? }

def TableRef.canonical (t : TableRef) : TableRef :=
  { t with schema := t.schema.bind nonempty? }

def JoinLink.canonical (l : JoinLink) : JoinLink :=
  { l with on := l.on.bind fun s => Document.condition? (.string s) }

namespace Document

mutual

def canonical : Document → Document
  | table b t => table b.canonical t.canonical
  | subquery b inner => subquery b.canonical (canonical inner)
  | join b left joined => join b.canonical (canonical left) (canonicalJoined joined)
  | union b first members => union b.canonical (canonical first) (canonicalMembers members)

def canonicalJoined : List (JoinLink × Document) → List (JoinLink × Document)
  | [] => []
  | (l, d) :: rest => (l.canonical, canonical d) :: canonicalJoined rest

def canonicalMembers : List (UnionType × Document) → List (UnionType × Document)
  | [] => []
  | (t, d) :: rest => (t, canonical d) :: canonicalMembers rest

end

lemma canonicalJoined_eq (joined : List (JoinLink × Document)) :
    canonicalJoined joined = joined.map fun j => (j.1.canonical, j.2.canonical) := by
  induction joined with
  | nil => rfl
  | cons j joined ih =>
    obtain ⟨l, d⟩ := j
    rw [canonicalJoined, ih, List.map_cons]

lemma canonicalMembers_eq (members : List (UnionType × Document)) :
    canonicalMembers members = members.map fun m => (m.1, m.2.canonical) := by
  induction members with
  | nil => rfl
  | cons m members ih =>
    obtain ⟨t, d⟩ := m
    rw [canonicalMembers, ih, List.map_cons]

@[simp] lemma block_canonical (d : Document) : d.canonical.block = d.block.canonical := by
  cases d <;> rw [canonical] <;> rfl

@[simp] lemma children_canonical (d : Document) : d.canonical.children = d.children.map canonical := by
  cases d with
  | table | subquery => rfl
  | join b left joined => simp [canonical, children, canonicalJoined_eq]
  | union b first members => simp [canonical, children, canonicalMembers_eq]

lemma everyNode_canonical_eq {d : Document} (h : d.canonical = d) : d.EveryNode fun e => e.canonical = e := by
  induction d using childInduction with
  | node d ih =>
    have hchildren : d.children.map canonical = d.children.map id := by rw [← children_canonical, h, List.map_id]
    exact .node h fun c hc => ih c hc (List.map_inj_left.1 hchildren c hc)

@[simp] lemma source_canonical (d : Document) : d.canonical.source = d.source := by
  cases d with
  | table | subquery => rfl
  | join b left joined => simp [canonical, canonicalJoined_eq]
  | union b first members => simp [canonical, canonicalMembers_eq]

def clauseSlots (b : Block) : List (String × Option Json) :=
  [("where", b.filter.map .string), ("having", b.having.map .string),
    ("distinct", if b.distinct then some (.number (.natural 1)) else none),
    ("limit", b.limit.map fun n => .string (Text.naturalText n))]

lemma nodup_keys_clauseSlots (b : Block) : (Entries.keys (clauseSlots b)).Nodup := by
  have : Entries.keys (clauseSlots b) = ["where", "having", "distinct", "limit"] := rfl
  rw [this]
  decide

def sourceNames : List String :=
  ["schema", "table", "join", "union"]

lemma keys_sourceMembers (d : Document) : d.sourceMembers.keys.Sublist sourceNames := by
  cases d with
  | table b t =>
    have hnames : ["schema", "table"].Sublist sourceNames := by decide
    exact (Entries.keys_present_sublist _).trans hnames
  | subquery => exact List.nil_sublist _
  | join =>
    have hname : "join" ∈ sourceNames := by decide
    exact List.singleton_sublist.2 hname
  | union =>
    have hname : "union" ∈ sourceNames := by decide
    exact List.singleton_sublist.2 hname

lemma nodup_keys_ownMembers (d : Document) : d.ownMembers.keys.Nodup := by
  have hkeys : d.ownMembers.keys.Sublist ("fields" :: sourceNames ++ Entries.keys (clauseSlots d.block)) := by
    have : d.ownMembers.keys =
        "fields" :: d.sourceMembers.keys ++ Entries.keys (Entries.present (clauseSlots d.block)) := by
      simp [ownMembers, blockMembers, clauseSlots, Entries.keys]
    rw [this]
    exact ((keys_sourceMembers d).cons_cons _).append (Entries.keys_present_sublist _)
  refine hkeys.nodup ?_
  change ("fields" :: sourceNames ++ ["where", "having", "distinct", "limit"]).Nodup
  decide

lemma get?_ownMembers (d : Document) (name : String) :
    d.ownMembers.get? name = if "fields" = name then some d.fields.toJson
      else (d.sourceMembers.get? name).or (Entries.get? (clauseSlots d.block) name).join := by
  rw [← Entries.get?_present (nodup_keys_clauseSlots d.block), ← Entries.get?_append]
  rfl

@[simp] lemma get?_ownMembers_fields (d : Document) : d.ownMembers.get? "fields" = some d.fields.toJson := by
  rw [get?_ownMembers, if_pos rfl]

lemma get?_ownMembers_clause (d : Document) {name : String} (h : name ∈ Entries.keys (clauseSlots d.block)) :
    d.ownMembers.get? name = (Entries.get? (clauseSlots d.block) name).join := by
  have hdisjoint : ∀ name ∈ ["where", "having", "distinct", "limit"], name ∉ sourceNames ∧ "fields" ≠ name := by
    decide
  have hs := hdisjoint name h
  have hnone : d.sourceMembers.get? name = none :=
    Entries.get?_eq_none_iff.2 fun hm => hs.1 ((keys_sourceMembers d).subset hm)
  rw [get?_ownMembers, if_neg hs.2, hnone, Option.none_or]

lemma get?_ownMembers_source (d : Document) {name : String} (h : name ∈ sourceNames) :
    d.ownMembers.get? name = d.sourceMembers.get? name := by
  have hdisjoint : ∀ name ∈ sourceNames, name ∉ ["where", "having", "distinct", "limit"] ∧ "fields" ≠ name := by
    decide
  have hs := hdisjoint name h
  have hnone : Entries.get? (clauseSlots d.block) name = none := Entries.get?_eq_none_iff.2 hs.1
  rw [get?_ownMembers, if_neg hs.2, hnone, Option.join_none, Option.or_none]

@[simp] lemma get?_ownMembers_where (d : Document) : d.ownMembers.get? "where" = d.block.filter.map .string := by
  rw [get?_ownMembers_clause d (by simp [clauseSlots])]
  simp [clauseSlots, Entries.get?_cons]

@[simp] lemma get?_ownMembers_having (d : Document) : d.ownMembers.get? "having" = d.block.having.map .string := by
  rw [get?_ownMembers_clause d (by simp [clauseSlots])]
  simp [clauseSlots, Entries.get?_cons]

@[simp] lemma get?_ownMembers_distinct (d : Document) :
    d.ownMembers.get? "distinct" = if d.block.distinct then some (.number (.natural 1)) else none := by
  rw [get?_ownMembers_clause d (by simp [clauseSlots])]
  simp [clauseSlots, Entries.get?_cons]

@[simp] lemma get?_ownMembers_limit (d : Document) :
    d.ownMembers.get? "limit" = d.block.limit.map fun n => .string (Text.naturalText n) := by
  rw [get?_ownMembers_clause d (by simp [clauseSlots])]
  simp [clauseSlots, Entries.get?_cons]

lemma get?_tableMembers (t : TableRef) (name : String) :
    (tableMembers t).get? name = if "schema" = name then t.schema.map .string
      else if "table" = name then some (.string t.table) else none := by
  have hn : (Entries.keys [("schema", t.schema.map Json.string), ("table", some (.string t.table))]).Nodup := by
    have hkeys : ["schema", "table"].Nodup := by decide
    exact hkeys
  rw [tableMembers, Entries.get?_present hn, Entries.get?_cons, Entries.get?_cons, Entries.get?_nil]
  split
  · rfl
  · split <;> rfl

lemma get?_ownMembers_union (d : Document) : d.ownMembers.get? "union" =
    match d with
    | union _ _ members => some (unionMember (members.map Prod.fst)).2
    | _ => none := by
  rw [get?_ownMembers_source d (by decide)]
  cases d with
  | table b t => exact get?_tableMembers t "union"
  | subquery | join | union => rfl

lemma get?_ownMembers_join (d : Document) : d.ownMembers.get? "join" =
    match d with
    | join _ _ joined => some (joinMember (joined.map Prod.fst)).2
    | _ => none := by
  rw [get?_ownMembers_source d (by decide)]
  cases d with
  | table b t => exact get?_tableMembers t "join"
  | subquery | join | union => rfl

lemma get?_ownMembers_table (d : Document) : d.ownMembers.get? "table" =
    match d with
    | table _ t => some (.string t.table)
    | _ => none := by
  rw [get?_ownMembers_source d (by decide)]
  cases d with
  | table b t => exact get?_tableMembers t "table"
  | subquery | join | union => rfl

lemma get?_ownMembers_schema (d : Document) :
    d.ownMembers.get? "schema" = (d.table?.bind TableRef.schema).map .string := by
  rw [get?_ownMembers_source d (by decide)]
  cases d with
  | table b t => exact get?_tableMembers t "schema"
  | subquery | join | union => rfl

lemma limit?_naturalText (n : UInt64) : Check.limit? (.string (Text.naturalText n)) = some (some n) := by
  have htrim := Text.trim_of_not_blank (Text.naturalText_not_blank n)
  simp [Check.limit?, Text.isBlankText_naturalText, htrim, Text.natural?_naturalText]

lemma text?_eq_of_get? {ms : Members} {name : String} {s? : Option String} (h : ms.get? name = s?.map .string) :
    text? ms name = s?.bind nonempty? := by
  rw [text?_eq_bind_nonempty?, h]
  cases s? <;> rfl

lemma stored_ownMembers (d : Document) : Block.stored d.ownMembers = d.block.canonical := by
  have hlimit : ((d.block.limit.map fun n => Json.string (Text.naturalText n)).bind Check.limit?).join = d.block.limit := by
    cases d.block.limit <;> simp [limit?_naturalText]
  have hdistinct : ((if d.block.distinct then some (Json.number (.natural 1)) else none).map isDistinct).getD false =
      d.block.distinct := by
    cases d.block.distinct <;> rfl
  simp only [Block.stored, get?_ownMembers_fields, get?_ownMembers_distinct, get?_ownMembers_limit, hlimit, hdistinct,
    text?_eq_of_get? (get?_ownMembers_where d), text?_eq_of_get? (get?_ownMembers_having d)]
  have hfields : Fields.stored (((some d.fields.toJson).bind Json.members?).getD []) = d.fields.canonical :=
    Fields.stored_mapValues_toJson d.fields
  rw [hfields]
  rfl

def AggregatesNumbers (d : Document) : Prop :=
  ∀ e ∈ d.fields.entries, e.2.AggregatesNumbers

lemma isBlock_ownMembers_iff {d : Document} : IsBlock d.ownMembers ↔ d.AggregatesNumbers := by
  have hfields : (∀ m ∈ d.fields.entries.mapValues Field.toJson, IsFieldObject m.2) ↔ d.AggregatesNumbers := by
    have hfield : ∀ f : Field, IsFieldObject f.toJson ↔ f.AggregatesNumbers := by
      intro f
      rw [← Field.isAttributes_members_iff]
      constructor
      · rintro ⟨attributes, he, h⟩
        cases he
        exact h
      · exact fun h => ⟨_, rfl, h⟩
    rw [Entries.mapValues, List.forall_mem_map]
    simp only [hfield]
    rfl
  constructor
  · rintro ⟨⟨fields, hf, h⟩, -, -, -⟩
    rw [get?_ownMembers_fields] at hf
    cases hf
    exact hfields.1 h
  · intro h
    refine ⟨⟨_, get?_ownMembers_fields d, hfields.2 h⟩, ?_, ?_, ?_⟩
    · simp only [List.forall_mem_cons, get?_ownMembers_where, get?_ownMembers_having, get?_ownMembers_schema]
      exact ⟨Field.isOptionalText_map _, Field.isOptionalText_map _, Field.isOptionalText_map _, List.forall_mem_nil _⟩
    · intro v hv
      rw [get?_ownMembers_distinct] at hv
      obtain ⟨-, h⟩ := Option.ite_none_right_eq_some.1 hv
      cases h
      simp [IsDistinct]
    · intro v hv
      rw [get?_ownMembers_limit, Option.map_eq_some_iff] at hv
      obtain ⟨n, -, rfl⟩ := hv
      exact Check.limit?_isSome_iff.1 (by rw [limit?_naturalText]; rfl)

def HasSource : Document → Prop
  | table _ t => t.table ≠ ""
  | subquery .. => True
  | join _ _ joined => joined ≠ []
  | union _ _ members => members ≠ []

lemma parse_joinType_sql (t : JoinType) : JoinType.parse t.sql = .ok t :=
  readKeyword_eq_ok_iff.2 (JoinType.ofText?_sql t)

lemma parse_unionType_sql (t : UnionType) : UnionType.parse t.sql = .ok t :=
  readKeyword_eq_ok_iff.2 (UnionType.ofText?_sql t)

lemma readKeywords_map {α β : Type} {parse : String → Except UnknownKeyword β} (write : α → String) (value : α → β)
    (h : ∀ a, parse (write a) = .ok (value a)) {v : Json} {name : String} {as : List α}
    (hv : (v.member? name).bind Json.items? = some (as.map fun a => .string (write a))) :
    readKeywords parse v name = .ok (as.map value) := by
  rw [readKeywords, hv]
  simp only [List.mapM_map]
  apply mapM_eq_ok_map
  intro a _
  simp [readKeywordItem, Json.text?, h a, mapError_ok]

lemma condition?_conditionText (on : Option String) :
    condition? (.string (conditionText on)) = on.bind fun s => condition? (.string s) := by
  cases on with
  | none => decide
  | some s => rfl

lemma readUnionTypes_unionMember (types : List UnionType) (path : String) :
    readUnionTypes (unionMember types).2 path = .ok types := by
  have h : readKeywords UnionType.parse (unionMember types).2 "union_type" = .ok (types.map id) :=
    readKeywords_map UnionType.sql id parse_unionType_sql rfl
  rw [readUnionTypes, h, List.map_id]
  rfl

lemma readJoinLinks_joinMember (links : List JoinLink) (path : String) :
    readJoinLinks (joinMember links).2 path = .ok (links.map JoinLink.canonical) := by
  have htypes : readKeywords JoinType.parse (joinMember links).2 "join_type" = .ok (links.map JoinLink.type) :=
    readKeywords_map (fun l : JoinLink => l.type.sql) JoinLink.type (fun l => parse_joinType_sql l.type) rfl
  have hon : readConditions (joinMember links).2 path =
      .ok (links.map fun l => l.on.bind fun s => condition? (.string s)) := by
    change Except.ok ((links.map fun l => Json.string (conditionText l.on)).map condition?) = _
    rw [List.map_map]
    simp only [Function.comp_def, condition?_conditionText]
  rw [readJoinLinks, htypes, hon]
  change Except.ok _ = Except.ok _
  rw [List.zipWith_map, List.zipWith_self]
  rfl

lemma storesSource_ownMembers {d : Document} (h : d.HasSource) : StoresSource d.ownMembers d.canonical := by
  have hunion := get?_ownMembers_union d
  have hjoin := get?_ownMembers_join d
  have htable := get?_ownMembers_table d
  cases d with
  | table b t =>
    refine ⟨hunion, hjoin, ?_⟩
    rw [tableRef?_eq_some htable h, text?_eq_of_get? (get?_ownMembers_schema _)]
    rfl
  | subquery b inner =>
    exact ⟨hunion, hjoin, tableRef?_eq_none (.inl htable)⟩
  | join b left joined =>
    refine ⟨hunion, (joinMember (joined.map Prod.fst)).2, hjoin, fun path => ?_⟩
    rw [readJoinLinks_joinMember, canonicalJoined_eq, List.map_map, List.map_map]
    rfl
  | union b first members =>
    refine ⟨(unionMember (members.map Prod.fst)).2, hunion, fun path => ?_⟩
    rw [readUnionTypes_unionMember, canonicalMembers_eq, List.map_map]
    rfl

end Document

end QueryTree
