import QueryTree.Proofs.Document.Canonical
import QueryTree.Proofs.Json.ReadBack
/-! The round trip of documents. A stored document can be read exactly when it is storable, and then yields its
canonical form; documents that were read are storable and canonical. -/

namespace QueryTree

open Json (Members)
open Check (Source)
open Grammar

/-- Values of texts and naturals, in lists of texts and in objects that name each member once. -/
inductive Json.Written : Json → Prop
  | string (s : String) : Written (.string s)
  | natural (n : UInt64) : Written (.number (.natural n))
  | texts {α : Type} (text : α → String) (as : List α) : Written (.array (as.map fun a => .string (text a)))
  | object {ms : Members} (unique : ms.keys.Nodup) (values : ∀ m ∈ ms, Written m.2) : Written (.object ms)

lemma Json.Written.hasUniqueNames {v : Json} (h : v.Written) : v.hasUniqueNames := by
  induction h with
  | string | natural => rfl
  | texts text as =>
    rw [hasUniqueNames_array]
    intro v hv
    obtain ⟨a, -, rfl⟩ := List.mem_map.1 hv
    rfl
  | object unique values ih => exact hasUniqueNames_object.2 ⟨unique, ih⟩

lemma Json.Written.isIntegral {v : Json} (h : v.Written) : v.isIntegral := by
  induction h with
  | string | natural => rfl
  | texts text as =>
    rw [isIntegral_array]
    intro v hv
    obtain ⟨a, -, rfl⟩ := List.mem_map.1 hv
    rfl
  | object unique values ih => exact isIntegral_object.2 ih

lemma Json.Written.insert {ms : Members} {v : Json} (h : (Json.object ms).Written) (hv : v.Written) (name : String) :
    (Json.object (ms.insert name v)).Written := by
  cases h with
  | object hms hvalues =>
    refine .object (Entries.nodup_keys_insert hms name v) fun m hm => ?_
    rcases Entries.mem_insert hm with rfl | hm
    · exact hv
    · exact hvalues m hm

section

variable {p : Json → Prop} (text : ∀ s, p (.string s)) (natural : ∀ n, p (.number (.natural n)))

include text

lemma forall_map_string {α : Type} (f : α → String) (a? : Option α) :
    ∀ v, (a?.map fun a => Json.string (f a)) = some v → p v := by
  intro v h
  obtain ⟨a, -, rfl⟩ := Option.map_eq_some_iff.1 h
  exact text _

lemma Document.forall_tableMembers (t : TableRef) : ∀ m ∈ tableMembers t, p m.2 := by
  apply Entries.forall_mem_present
  simp only [List.forall_mem_cons]
  exact ⟨forall_map_string text id t.schema, forall_map_string text id (some t.table), List.forall_mem_nil _⟩

include natural

lemma Field.forall_members (f : Field) : ∀ m ∈ f.members, p m.2 := by
  have hslots : ∀ e ∈ f.slots, ∀ v, e.2 = some v → p v := by
    simp only [slots, List.forall_mem_cons]
    refine ⟨forall_map_string text id (some f.type.name), forall_map_string text id f.asName,
      forall_map_string text _ f.groupBy, forall_map_string text id f.expression,
      forall_map_string text _ f.orderBy, ?_, forall_map_string text id f.customType, List.forall_mem_nil _⟩
    intro v h
    obtain ⟨-, h⟩ := Option.ite_none_left_eq_some.1 h
    cases h
    exact natural 0
  exact Entries.forall_mem_present hslots

lemma Document.forall_clauses (b : Block) : ∀ m ∈ Entries.present (clauseSlots b), p m.2 := by
  apply Entries.forall_mem_present
  simp only [clauseSlots, List.forall_mem_cons]
  refine ⟨forall_map_string text id b.filter, forall_map_string text id b.having, ?_,
    forall_map_string text _ b.limit, List.forall_mem_nil _⟩
  intro v h
  obtain ⟨-, h⟩ := Option.ite_none_right_eq_some.1 h
  cases h
  exact natural 1

end

lemma Field.written_toJson (f : Field) : f.toJson.Written :=
  .object f.nodup_keys_members (f.forall_members .string .natural)

lemma Fields.written_toJson (fs : Fields) : fs.toJson.Written := by
  refine .object ?_ ?_
  · rw [Entries.keys_mapValues]
    exact fs.nodup
  · rintro m hm
    obtain ⟨e, -, rfl⟩ := List.mem_map.1 hm
    exact e.2.written_toJson

namespace Document

lemma sourceMembers_written (d : Document) : ∀ m ∈ d.sourceMembers, m.2.Written := by
  cases d with
  | table b t => exact forall_tableMembers .string t
  | subquery => exact List.forall_mem_nil _
  | join b left joined =>
    have hn : ["join_type", "on"].Nodup := by decide
    refine List.forall_mem_singleton.2 (.object hn ?_)
    exact List.forall_mem_cons.2 ⟨.texts _ _, List.forall_mem_singleton.2 (.texts _ _)⟩
  | union b first members =>
    refine List.forall_mem_singleton.2 (.object (List.nodup_singleton _) ?_)
    exact List.forall_mem_singleton.2 (.texts _ _)

lemma ownMembers_written (d : Document) : ∀ m ∈ d.ownMembers, m.2.Written := by
  intro m hm
  rcases List.mem_append.1 hm with hm | hm
  · rcases List.mem_cons.1 hm with rfl | hm
    · exact d.fields.written_toJson
    · exact sourceMembers_written d m hm
  · exact forall_clauses .string .natural d.block m hm

lemma written_toJson (d : Document) : d.toJson.Written := by
  induction d using childInduction with
  | node d ih =>
    rw [toJson_eq]
    refine .object d.nodup_keys_nodeMembers ?_
    intro m hm
    rcases List.mem_append.1 hm with hm | hm
    · obtain ⟨c, hc, hv⟩ := List.mem_map.1 (List.of_mem_zip hm).2
      exact hv ▸ ih c hc
    · obtain rfl := List.mem_singleton.1 hm
      exact .object d.nodup_keys_ownMembers d.ownMembers_written

lemma hasUniqueNames_toJson (d : Document) : d.toJson.hasUniqueNames :=
  d.written_toJson.hasUniqueNames

lemma nesting_toJson_table (b : Block) (t : TableRef) : (table b t).toJson.nesting ≤ 4 := by
  let IsFlat (v : Json) : Prop := v.nesting ≤ 0
  have htext : ∀ s, IsFlat (.string s) := fun _ => Nat.le_refl 0
  have hnatural : ∀ n, IsFlat (.number (.natural n)) := fun _ => Nat.le_refl 0
  have hfields : b.fields.toJson.nesting ≤ 2 := by
    refine Json.nesting_object_le_iff.2 fun m hm => ?_
    obtain ⟨e, -, rfl⟩ := List.mem_map.1 hm
    exact Json.nesting_object_le_iff.2 (e.2.forall_members (p := IsFlat) htext hnatural)
  refine Json.nesting_object_le_iff.2 (List.forall_mem_singleton.2 (Json.nesting_object_le_iff.2 fun m hm => ?_))
  rcases List.mem_append.1 hm with hm | hm
  · rcases List.mem_cons.1 hm with rfl | hm
    · exact hfields
    · exact Nat.le_trans (forall_tableMembers (p := IsFlat) htext t m hm) (Nat.zero_le 2)
  · exact Nat.le_trans (forall_clauses (p := IsFlat) htext hnatural b m hm) (Nat.zero_le 2)

structure Storable (d : Document) : Prop where
  aggregates : d.AggregatesNumbers
  hasSource : d.HasSource

lemma stores_toJson {d : Document} (h : d.EveryNode HasSource) : Stores d.toJson d.canonical := by
  induction h with
  | @node d hd hchildren ih =>
    rw [toJson_eq]
    refine .node d.get?_nodeMembers_select ?_ (storesSource_ownMembers hd) ?_ ?_
    · rw [block_canonical, stored_ownMembers]
    · intro key hk
      rw [source_canonical] at hk
      rw [keys_nodeMembers]
      exact List.mem_append_left _ hk
    · intro key v c hm hv
      rw [source_canonical, children_canonical, List.zip_map_right] at hm
      obtain ⟨⟨_, c⟩, hc, he⟩ := List.mem_map.1 hm
      cases he
      rw [id, get?_nodeMembers_child hc] at hv
      cases hv
      exact ih c (List.of_mem_zip hc).2

lemma readsFrom_ownMembers {d : Document} (h : d.HasSource) : ReadsFrom d.ownMembers d.source := by
  have hunion := get?_ownMembers_union d
  have hjoin := get?_ownMembers_join d
  have htable := get?_ownMembers_table d
  cases d with
  | table b t => exact .table hunion hjoin htable h
  | subquery b inner => exact .subquery hunion hjoin (.inl htable)
  | join b left joined =>
    let types := joined.map fun j => j.1.type.sql
    let on := joined.map fun j => Json.string (conditionText j.1.on)
    let entries : Members := [("join_type", .array (types.map .string)), ("on", .array on)]
    have hentries : (join b left joined).ownMembers.get? "join" = some (.object entries) := by
      rw [hjoin]
      simp [joinMember, entries, types, on]
    have htypes : types ≠ [] := by simpa [types] using! h
    have hlength : types.length = on.length := by simp [types, on]
    have hsource : (join b left joined).source = .join (types.length + 1) := by simp [types]
    rw [hsource]
    refine .join hunion hentries rfl htypes ?_ rfl hlength ?_
    · intro t ht
      obtain ⟨j, -, rfl⟩ := List.mem_map.1 ht
      exact ⟨_, parse_joinType_sql j.1.type⟩
    · intro c hc
      obtain ⟨j, -, rfl⟩ := List.mem_map.1 hc
      exact .inl ⟨_, rfl⟩
  | union b first members =>
    let types := members.map fun m => m.1.sql
    let entries : Members := [("union_type", .array (types.map .string))]
    have hentries : (union b first members).ownMembers.get? "union" = some (.object entries) := by
      rw [hunion]
      simp [unionMember, entries, types]
    have htypes : types ≠ [] := by simpa [types] using! h
    have hsource : (union b first members).source = .union (types.length + 1) := by simp [types]
    rw [hsource]
    refine .union hentries rfl htypes ?_
    intro t ht
    obtain ⟨m, -, rfl⟩ := List.mem_map.1 ht
    exact ⟨_, parse_unionType_sql m.1⟩

lemma hasSource_of_readsFrom {d : Document} {source : Source} (h : ReadsFrom d.ownMembers source)
    (hp : ∀ key ∈ source.childKeys, key ∈ d.nodeMembers.keys) : d.HasSource := by
  have hunion := get?_ownMembers_union d
  have hjoin := get?_ownMembers_join d
  have htable := get?_ownMembers_table d
  cases d with
  | table b t =>
    cases h with
    | union hu => cases hunion.symm.trans hu
    | join _ hj => cases hjoin.symm.trans hj
    | table _ _ ht hne =>
      cases htable.symm.trans ht
      exact hne
    | subquery =>
      -- the stored node of a table has no child to read from
      have hm := hp "sq" List.mem_cons_self
      have hnames : "sq" ∉ ["select"] := by decide
      rw [keys_nodeMembers] at hm
      exact absurd hm hnames
  | subquery => trivial
  | join b left joined =>
    rintro rfl
    cases h with
    | union hu => cases hunion.symm.trans hu
    | join _ hj hl hne =>
      cases hjoin.symm.trans hj
      simp [Entries.get?_cons] at hl
      exact hne hl
    | table _ hj | subquery _ hj => cases hjoin.symm.trans hj
  | union b first members =>
    rintro rfl
    cases h with
    | union hu hl hne =>
      cases hunion.symm.trans hu
      simp [Entries.get?_cons] at hl
      exact hne hl
    | join hu | table hu | subquery hu => cases hunion.symm.trans hu

lemma isNode_toJson_iff {d : Document} : IsNode d.toJson ↔ d.EveryNode Storable := by
  constructor
  · induction d using childInduction with
    | node d ih =>
      intro h
      rw [toJson_eq] at h
      cases h with
      | @node _ block source hselect hblock hsource hpresent hchildren =>
        rw [get?_nodeMembers_select] at hselect
        cases hselect
        have hd := hasSource_of_readsFrom hsource hpresent
        have hs : d.source = source := by
          rw [← source_canonical]
          exact (storesSource_ownMembers hd).source_eq hsource
        refine .node ⟨isBlock_ownMembers_iff.1 hblock, hd⟩ ?_
        intro c hc
        obtain ⟨key, hm⟩ := exists_childKey hc
        apply ih c hc
        exact hchildren key (hs ▸ (List.of_mem_zip hm).1) _ (get?_nodeMembers_child hm)
  · intro h
    induction h with
    | @node d hd hchildren ih =>
      rw [toJson_eq]
      refine .node d.get?_nodeMembers_select (isBlock_ownMembers_iff.2 hd.aggregates) (readsFrom_ownMembers hd.hasSource)
        ?_ ?_
      · intro key hk
        rw [keys_nodeMembers]
        exact List.mem_append_left _ hk
      · intro key hk v hv
        obtain ⟨c, hm⟩ := exists_child hk
        rw [get?_nodeMembers_child hm] at hv
        cases hv
        exact ih c (List.of_mem_zip hm).2

lemma ofJson_toJson_iff {d e : Document} : ofJson d.toJson = .ok e ↔ d.EveryNode Storable ∧ e = d.canonical := by
  have hm : "select" ∈ d.nodeMembers.keys := Entries.mem_keys_of_get? d.get?_nodeMembers_select
  have hcheck : (Check.check d.toJson).fault = none ↔ d.EveryNode Storable := by
    rw [toJson_eq, Check.check_of_mem hm, Check.checkNode_iff, ← toJson_eq]
    exact isNode_toJson_iff
  have hread : d.EveryNode Storable → ofJson d.toJson = .ok d.canonical := by
    intro h
    have hs := stores_toJson (h.mono fun _ hd => hd.hasSource)
    refine (ofJson_eq_ok_iff d.hasUniqueNames_toJson).2 ⟨hcheck.2 h, ?_⟩
    rw [toJson_eq] at hs ⊢
    exact .wrapped hm hs
  constructor
  · intro h
    have hd := hcheck.1 ((ofJson_eq_ok_iff d.hasUniqueNames_toJson).1 h).1
    cases h.symm.trans (hread hd)
    exact ⟨hd, rfl⟩
  · rintro ⟨hd, rfl⟩
    exact hread hd

def CanonicalSource : Document → Prop
  | table _ t => t.canonical = t
  | subquery .. | union .. => True
  | join _ _ joined => ∀ j ∈ joined, j.1.canonical = j.1

lemma canonical_eq_self {d : Document} (hb : d.block.canonical = d.block) (hs : d.CanonicalSource)
    (hc : ∀ c ∈ d.children, c.canonical = c) : d.canonical = d := by
  cases d with
  | table b t => exact congrArg₂ table hb hs
  | subquery b inner => exact congrArg₂ subquery hb (hc inner List.mem_cons_self)
  | join b left joined =>
    obtain ⟨hleft, hchildren⟩ := List.forall_mem_cons.1 hc
    have hjoined : canonicalJoined joined = joined := by
      rw [canonicalJoined_eq]
      refine (List.map_congr_left fun j hj => ?_).trans (List.map_id joined)
      rw [hs j hj, hchildren j.2 (List.mem_map.2 ⟨j, hj, rfl⟩)]
      rfl
    rw [canonical, hleft, hjoined]
    exact congrArg (join · left joined) hb
  | union b first members =>
    obtain ⟨hfirst, hchildren⟩ := List.forall_mem_cons.1 hc
    have hmembers : canonicalMembers members = members := by
      rw [canonicalMembers_eq]
      refine (List.map_congr_left fun m hm => ?_).trans (List.map_id members)
      rw [hchildren m.2 (List.mem_map.2 ⟨m, hm, rfl⟩)]
      rfl
    rw [canonical, hfirst, hmembers]
    exact congrArg (union · first members) hb

lemma canonical_blockStored (block : Members) : (Block.stored block).canonical = Block.stored block := by
  have htext : ∀ name, (text? block name).bind nonempty? = text? block name := by
    intro name
    rw [text?_eq_bind_nonempty?, bind_nonempty?_idem]
  simp only [Block.canonical, Block.stored, Fields.canonical_stored, htext]

lemma condition?_idem (v : Json) : ((condition? v).bind fun s => condition? (.string s)) = condition? v := by
  cases v with
  | string s =>
    by_cases h : (Text.isBlankText s || Text.trim s == "0") = true
    · simp only [condition?, if_pos h, Option.bind_none]
    · simp only [condition?, if_neg h, Option.bind_some]
  | _ => rfl

lemma canonical_of_readJoinLinks {v : Json} {path : String} {links : List JoinLink}
    (h : readJoinLinks v path = .ok links) : ∀ l ∈ links, l.canonical = l := by
  obtain ⟨types, -, h⟩ := bind_eq_ok_iff.1 h
  obtain ⟨on, hon, h⟩ := bind_eq_ok_iff.1 h
  cases h
  unfold readConditions at hon
  split at hon
  · next conditions _ =>
    cases hon
    intro l hl
    rw [List.zipWith_map_right] at hl
    obtain ⟨i, hi, rfl⟩ := List.mem_iff_getElem.1 hl
    rw [List.getElem_zipWith, JoinLink.canonical]
    rw [condition?_idem]
  · cases hon

lemma StoresSource.canonicalSource {block : Members} {d : Document} (h : StoresSource block d) : d.CanonicalSource := by
  cases d with
  | table b t =>
    obtain ⟨-, -, ht⟩ := h
    obtain ⟨name, -, rfl⟩ := Option.map_eq_some_iff.1 ht
    simp only [CanonicalSource, TableRef.canonical, text?_eq_bind_nonempty?, bind_nonempty?_idem]
  | subquery | union => trivial
  | join b left joined =>
    obtain ⟨-, v, -, hread⟩ := h
    intro j hj
    exact canonical_of_readJoinLinks (hread "") j.1 (List.mem_map.2 ⟨j, hj, rfl⟩)

lemma exists_childValue {node : Members} {d c : Document} (h : ∀ key ∈ d.source.childKeys, key ∈ node.keys)
    (hc : c ∈ d.children) : ∃ key v, (key, c) ∈ d.source.childKeys.zip d.children ∧ node.get? key = some v := by
  obtain ⟨key, hm⟩ := exists_childKey hc
  obtain ⟨v, hv⟩ := Entries.exists_get?_of_mem_keys (h key (List.of_mem_zip hm).1)
  exact ⟨key, v, hm, hv⟩

lemma Stores.canonical_eq {v : Json} {d : Document} (h : Stores v d) : d.canonical = d := by
  induction h with
  | @node node block d _ hown hsource hpresent _ ih =>
    refine canonical_eq_self ?_ hsource.canonicalSource ?_
    · rw [hown, canonical_blockStored]
    · intro c hc
      obtain ⟨key, v, hm, hv⟩ := exists_childValue hpresent hc
      exact ih key v c hm hv

lemma forall_fields_of_isBlock {p : Field → Prop} (hp : ∀ attributes, IsAttributes attributes → p (Field.stored attributes))
    {block : Members} (h : IsBlock block) : ∀ e ∈ (Block.stored block).fields.entries, p e.2 := by
  intro e he
  obtain ⟨fields, hf, hfields⟩ := h.fields
  have hstored : (Block.stored block).fields = Fields.stored fields := by
    simp [Block.stored, hf, Json.members?]
  rw [hstored] at he
  obtain ⟨m, hm, hvalue⟩ := Fields.mem_stored he
  obtain ⟨attributes, hobject, hattributes⟩ := hfields m hm
  rw [hvalue, hobject]
  exact hp attributes hattributes

lemma one_lt_of_readsFrom_join {block : Members} {n : Nat} (h : ReadsFrom block (.join n)) : 1 < n := by
  cases h with
  | join _ _ _ hne => exact Nat.lt_add_of_pos_left (List.length_pos_iff.2 hne)

lemma one_lt_of_readsFrom_union {block : Members} {n : Nat} (h : ReadsFrom block (.union n)) : 1 < n := by
  cases h with
  | union _ _ hne => exact Nat.lt_add_of_pos_left (List.length_pos_iff.2 hne)

lemma StoresSource.hasSource {block : Members} {source : Source} {d : Document} (h : StoresSource block d)
    (hs : ReadsFrom block source) : d.HasSource := by
  obtain rfl := h.source_eq hs
  cases d with
  | table b t =>
    obtain ⟨-, -, ht⟩ := h
    obtain ⟨name, hname, rfl⟩ := Option.map_eq_some_iff.1 ht
    rintro rfl
    simp [text?_eq_bind_nonempty?, nonempty?, Option.bind_eq_some_iff] at hname
  | subquery => trivial
  | join b left joined =>
    rintro rfl
    exact absurd (one_lt_of_readsFrom_join hs) (Nat.lt_irrefl 1)
  | union b first members =>
    rintro rfl
    exact absurd (one_lt_of_readsFrom_union hs) (Nat.lt_irrefl 1)

lemma Stores.everyNode {p : Field → Prop} (hp : ∀ attributes, IsAttributes attributes → p (Field.stored attributes))
    {v : Json} {d : Document} (h : Stores v d) (hv : IsNode v) :
    d.EveryNode fun d => (∀ e ∈ d.fields.entries, p e.2) ∧ d.HasSource := by
  induction h with
  | @node node block d hselect hown hsource hpresent _ ih =>
    cases hv with
    | node hselect' hblock hreads hpresent' hchildren =>
      cases hselect.symm.trans hselect'
      refine .node ⟨?_, hsource.hasSource hreads⟩ ?_
      · intro e he
        rw [fields, hown] at he
        exact forall_fields_of_isBlock hp hblock e he
      · intro c hc
        obtain ⟨key, v, hm, hv⟩ := exists_childValue hpresent hc
        have hkey := hsource.source_eq hreads ▸ (List.of_mem_zip hm).1
        exact ih key v c hm hv (hchildren key hkey v hv)

lemma StoresDocument.exists_node {v : Json} {d : Document} (h : StoresDocument v d)
    (hv : (Check.check v).fault = none) : ∃ w, Stores w d ∧ IsNode w := by
  cases h with
  | wrapped hm hs =>
    rw [Check.check_of_mem hm, Check.checkNode_iff] at hv
    exact ⟨_, hs, hv⟩
  | @flat block t hm ht =>
    rw [Check.check_of_not_mem hm, Checked.fault_map, Check.checkFlat_iff] at hv
    obtain ⟨hblock, hu, hj, name, hname, hne⟩ := hv
    have hunion := Entries.get?_eq_none_iff.2 hu
    have hjoin := Entries.get?_eq_none_iff.2 hj
    refine ⟨.object [("select", .object block)], .node rfl rfl ⟨hunion, hjoin, ht⟩ nofun nofun, ?_⟩
    exact .node rfl hblock (.table hunion hjoin hname hne) nofun nofun

lemma canonical_of_ofJson {v : Json} (hu : v.hasUniqueNames) {d : Document} (h : ofJson v = .ok d) :
    d.canonical = d := by
  obtain ⟨hv, hs⟩ := (ofJson_eq_ok_iff hu).1 h
  obtain ⟨w, hw, -⟩ := hs.exists_node hv
  exact hw.canonical_eq

lemma everyNode_of_ofJson {p : Field → Prop} (hp : ∀ attributes, IsAttributes attributes → p (Field.stored attributes))
    {v : Json} (hu : v.hasUniqueNames) {d : Document} (h : ofJson v = .ok d) :
    d.EveryNode fun d => (∀ e ∈ d.fields.entries, p e.2) ∧ d.HasSource := by
  obtain ⟨hv, hs⟩ := (ofJson_eq_ok_iff hu).1 h
  obtain ⟨w, hw, hn⟩ := hs.exists_node hv
  exact hw.everyNode hp hn

lemma everyNode_storable_of_ofJson {v : Json} (hu : v.hasUniqueNames) {d : Document} (h : ofJson v = .ok d) :
    d.EveryNode Storable :=
  (everyNode_of_ofJson (fun _ => Field.aggregatesNumbers_stored) hu h).mono fun _ hd => ⟨hd.1, hd.2⟩

/-- A document that was read from a value, in whatever spelling, is read again from what is stored for it. Names in
objects must be unique, as they are in every value read from a text. -/
theorem ofJson_toJson {v : Json} (hu : v.hasUniqueNames) {d : Document} (h : ofJson v = .ok d) :
    ofJson d.toJson = .ok d := by
  have hnodes := everyNode_of_ofJson (fun _ => Field.aggregatesNumbers_stored) hu h
  rw [ofJson_toJson_iff, canonical_of_ofJson hu h]
  exact ⟨hnodes.mono fun _ hd => ⟨hd.1, hd.2⟩, rfl⟩

def looseJoin : Json :=
  .object
    [("sq2", .object
      [("select", .object
          [("union", .object [("union_type", .array [.string " Union  ALL"])]), ("where", .null),
            ("fields", .object [("x", .object [("type", .string "num")])])]),
        ("sq1", .object
          [("sq", .object [("select", .object
              [("table", .string "u"), ("schema", .string ""),
                ("fields", .object [("x", .object [("as", .string ""), ("type", .string "num")])])])]),
            ("select", .object
              [("fields", .object [("x", .object [("type", .string "num"), ("select", .string "0")])])])]),
        ("sq2", .object [("select", .object
          [("table", .string "v"), ("fields", .object [("x", .object [("type", .string "num")])])])])]),
      ("sq1", .object [("select", .object
        [("table", .string "t"), ("limit", .string " +007 "),
          ("fields", .object [("x", .object [("type", .string "num")])])])]),
      ("select", .object
        [("join", .object [("on", .array [.number (.natural 0)]), ("join_type", .array [.string "left"])]),
          ("distinct", .bool true),
          ("fields", .object [("sq1.x", .object
            [("group_by", .string "SUM"), ("as", .string " to  tal "), ("type", .string "num")])])])]

def looseJoinDocument : Document :=
  let fields := Fields.ofList [("x", { type := .numeric })]
  .join
    { fields := .ofList
        [("sq1.x", { type := .numeric, asName := some "to_tal", groupBy := some (.aggregate .sum) })],
      distinct := true }
    (.table { fields, limit := some 7 } { table := "t" })
    [(⟨.left, none⟩, .union { fields }
      (.subquery { fields := .ofList [("x", { type := .numeric, visibility := .hidden })] }
        (.table { fields } { table := "u" }))
      [(.all, .table { fields } { table := "v" })])]

theorem ofJson_toJson_looseJoin : looseJoin.hasUniqueNames = true ∧ ofJson looseJoin = .ok looseJoinDocument ∧
    ofJson looseJoinDocument.toJson = .ok looseJoinDocument := by
  have hu : looseJoin.hasUniqueNames = true := by decide +kernel
  have h : ofJson looseJoin = .ok looseJoinDocument := by decide +kernel
  exact ⟨hu, h, ofJson_toJson hu h⟩

end Document

end QueryTree
