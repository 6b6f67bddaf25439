import QueryTree.Proofs.Document.Stored
import QueryTree.Proofs.Document.Walk
/-! Values that are alike to a document: wherever it looks, both hold the same. What else they hold, and in which order
their objects name it, does not matter. -/

namespace QueryTree

open Json (Members)
open Check (Source)

namespace Entries

def AgreeOn {α : Type} (names : List String) (es fs : Entries α) : Prop :=
  ∀ name ∈ names, fs.get? name = es.get? name

instance {α : Type} [DecidableEq α] (names : List String) (es fs : Entries α) : Decidable (AgreeOn names es fs) :=
  inferInstanceAs (Decidable (∀ name ∈ names, fs.get? name = es.get? name))

end Entries

section

variable {attributes attributes' : Members} (h : ∀ name, attributes'.get? name = attributes.get? name)

include h

lemma Grammar.IsAttributes.congr (ha : IsAttributes attributes) : IsAttributes attributes' := by
  refine ⟨?_, ?_, ?_, ?_, ?_, ?_⟩
  · intro name hname
    apply ha.known
    rwa [← Entries.isSome_get?_iff, ← h, Entries.isSome_get?_iff]
  · simpa only [h] using ha.type
  · simpa only [h] using ha.texts
  · simpa only [h] using ha.grouping
  · simpa only [h] using ha.ordering
  · simpa only [h] using ha.selection

lemma Field.stored_congr : Field.stored attributes' = Field.stored attributes := by
  simp only [Field.stored, Document.text?, h]

end

namespace Grammar

def AlikeFields (fields fields' : Members) : Prop :=
  List.Forall₂ (fun m m' => m.1 = m'.1 ∧ ∃ attributes attributes' : Members, m.2 = .object attributes ∧
    m'.2 = .object attributes' ∧ ∀ name, attributes'.get? name = attributes.get? name) fields fields'

variable {fields fields' : Members}

lemma alikeFields_refl (h : ∀ m ∈ fields, IsFieldObject m.2) : AlikeFields fields fields := by
  apply List.forall₂_same.2
  intro m hm
  obtain ⟨attributes, hattributes, -⟩ := h m hm
  exact ⟨rfl, attributes, attributes, hattributes, hattributes, fun _ => rfl⟩

lemma AlikeFields.isFieldObject (h : AlikeFields fields fields') (hf : ∀ m ∈ fields, IsFieldObject m.2) :
    ∀ m ∈ fields', IsFieldObject m.2 := by
  induction h with
  | nil => exact List.forall_mem_nil _
  | cons hm _ ih =>
    obtain ⟨-, attributes, attributes', hattributes, hattributes', hget⟩ := hm
    obtain ⟨⟨_, he, ha⟩, hrest⟩ := List.forall_mem_cons.1 hf
    cases hattributes.symm.trans he
    exact List.forall_mem_cons.2 ⟨⟨attributes', hattributes', ha.congr hget⟩, ih hrest⟩

lemma AlikeFields.stored (h : AlikeFields fields fields') : Fields.stored fields' = Fields.stored fields := by
  apply congrArg Fields.ofList
  induction h with
  | nil => rfl
  | @cons m m' rest rest' hm _ ih =>
    obtain ⟨hname, attributes, attributes', hattributes, hattributes', hget⟩ := hm
    have hfield : Field.stored (m'.2.members?.getD []) = Field.stored (m.2.members?.getD []) := by
      rw [hattributes, hattributes']
      exact Field.stored_congr hget
    change (m'.1, Field.stored (m'.2.members?.getD [])) :: _ = (m.1, Field.stored (m.2.members?.getD [])) :: _
    rw [hname, hfield]
    exact congrArg _ ih

def AlikeEntries (names : List String) (entry entry' : Option Json) : Prop :=
  entry = none ∧ entry' = none ∨
    ∃ ms ms' : Members, entry = some (.object ms) ∧ entry' = some (.object ms') ∧ ms.AgreeOn names ms'

/-- Of a join and a table only the first that counts has to be alike. -/
structure AlikeBlocks (block block' : Members) : Prop where
  fields : ∃ fields fields' : Members, block.get? "fields" = some (.object fields) ∧
    block'.get? "fields" = some (.object fields') ∧ AlikeFields fields fields'
  clauses : block.AgreeOn ["where", "having", "schema", "distinct", "limit"] block'
  union : AlikeEntries ["union_type"] (block.get? "union") (block'.get? "union")
  join : block.get? "union" = none → AlikeEntries ["join_type", "on"] (block.get? "join") (block'.get? "join")
  table : block.get? "union" = none → block.get? "join" = none → block'.get? "table" = block.get? "table"

variable {names : List String} {entry entry' : Option Json}

lemma AlikeEntries.eq_none (h : AlikeEntries names entry entry') (hn : entry = none) : entry' = none := by
  rcases h with ⟨-, h⟩ | ⟨ms, -, h, -⟩
  · exact h
  · cases hn.symm.trans h

lemma AlikeEntries.exists_object (h : AlikeEntries names entry entry') {ms : Members} (hms : entry = some (.object ms)) :
    ∃ ms' : Members, entry' = some (.object ms') ∧ ms.AgreeOn names ms' := by
  rcases h with ⟨h, -⟩ | ⟨ms₀, ms', h, h', hagree⟩
  · cases hms.symm.trans h
  · cases hms.symm.trans h
    exact ⟨ms', h', hagree⟩

variable {block block' : Members} {source : Source}

lemma AlikeBlocks.isBlock (h : AlikeBlocks block block') (hb : IsBlock block) : IsBlock block' := by
  obtain ⟨fields, fields', hfields, hfields', halike⟩ := h.fields
  refine ⟨⟨fields', hfields', ?_⟩, ?_, ?_, ?_⟩
  · obtain ⟨_, he, hall⟩ := hb.fields
    cases hfields.symm.trans he
    exact halike.isFieldObject hall
  · intro name hname
    rw [h.clauses name (List.mem_append_left ["distinct", "limit"] hname)]
    exact hb.clauses name hname
  · rw [h.clauses "distinct" (by simp)]
    exact hb.distinct
  · rw [h.clauses "limit" (by simp)]
    exact hb.limit

lemma AlikeBlocks.stored (h : AlikeBlocks block block') : Block.stored block' = Block.stored block := by
  obtain ⟨fields, fields', hfields, hfields', halike⟩ := h.fields
  have hstored : Fields.stored (((block'.get? "fields").bind Json.members?).getD []) =
      Fields.stored (((block.get? "fields").bind Json.members?).getD []) := by
    rw [hfields, hfields']
    exact halike.stored
  rw [Block.stored, Block.stored, hstored, Document.text?, Document.text?, h.clauses "where" (by simp),
    h.clauses "having" (by simp), h.clauses "distinct" (by simp), h.clauses "limit" (by simp)]
  rfl

lemma AlikeBlocks.readsFrom (h : AlikeBlocks block block') (hs : ReadsFrom block source) : ReadsFrom block' source := by
  cases hs with
  | union hunion hlist hne hknown =>
    obtain ⟨us, hus, hagree⟩ := h.union.exists_object hunion
    exact .union hus ((hagree _ (by simp)).trans hlist) hne hknown
  | join hunion hjoin hlist hne hknown hon hlength hcondition =>
    obtain ⟨js, hjs, hagree⟩ := (h.join hunion).exists_object hjoin
    exact .join (h.union.eq_none hunion) hjs ((hagree _ (by simp)).trans hlist) hne hknown
      ((hagree _ (by simp)).trans hon) hlength hcondition
  | table hunion hjoin htable hne =>
    exact .table (h.union.eq_none hunion) ((h.join hunion).eq_none hjoin) ((h.table hunion hjoin).trans htable) hne
  | subquery hunion hjoin htable =>
    refine .subquery (h.union.eq_none hunion) ((h.join hunion).eq_none hjoin) ?_
    rwa [h.table hunion hjoin]

inductive IsPlain : Json → Prop
  | null : IsPlain .null
  | bool (b : Bool) : IsPlain (.bool b)
  | natural (n : UInt64) : IsPlain (.number (.natural n))
  | string (s : String) : IsPlain (.string s)
  | array {items : List Json} (all : ∀ v ∈ items, IsPlain v) : IsPlain (.array items)

def PlainEntry (entry : Option Json) : Prop :=
  ∀ v, entry = some v → IsPlain v

lemma plainEntry_none : PlainEntry none :=
  nofun

lemma plainEntry_some {v : Json} (h : IsPlain v) : PlainEntry (some v) := by
  rintro _ ⟨⟩
  exact h

lemma IsOptionalText.plain {entry : Option Json} (h : IsOptionalText entry) : PlainEntry entry := by
  rcases h with rfl | rfl | ⟨s, rfl⟩
  · exact plainEntry_none
  · exact plainEntry_some .null
  · exact plainEntry_some (.string s)

lemma IsDistinct.plain {v : Json} (h : IsDistinct v) : IsPlain v := by
  rcases h with rfl | rfl | rfl | rfl | rfl
  · exact .null
  · exact .string _
  · exact .string _
  · exact .natural 1
  · exact .bool true

lemma IsLimit.plain {v : Json} (h : IsLimit v) : IsPlain v := by
  rcases h with rfl | ⟨s, rfl, -⟩ | ⟨n, rfl⟩
  · exact .null
  · exact .string s
  · exact .natural n

lemma IsCondition.plain {v : Json} (h : IsCondition v) : IsPlain v := by
  rcases h with ⟨s, rfl⟩ | rfl
  · exact .string s
  · exact .natural 0

lemma isPlain_texts (types : List String) : IsPlain (.array (types.map .string)) := by
  refine .array fun v hv => ?_
  obtain ⟨s, -, rfl⟩ := List.mem_map.1 hv
  exact .string s

lemma IsAttributes.plain {attributes : Members} (h : IsAttributes attributes) (name : String) :
    PlainEntry (attributes.get? name) := by
  by_cases hname : name ∈ attributes.keys
  · have hknown := h.known name hname
    simp only [attributeNames, List.mem_cons, List.not_mem_nil, or_false] at hknown
    rcases hknown with rfl | rfl | rfl | rfl | rfl | rfl | rfl
    · rcases h.type with ht | ht <;> exact ht ▸ plainEntry_some (.string _)
    · exact (h.texts "as" (by simp)).plain
    · rcases h.grouping with hg | hg | ⟨s, g, hg, -⟩
      · exact hg ▸ plainEntry_none
      · exact hg ▸ plainEntry_some (.string "")
      · exact hg ▸ plainEntry_some (.string s)
    · exact (h.texts "expression" (by simp)).plain
    · rcases h.selection with hs | hs | hs | hs
      · exact hs ▸ plainEntry_none
      · exact hs ▸ plainEntry_some (.string "")
      · exact hs ▸ plainEntry_some (.string "0")
      · exact hs ▸ plainEntry_some (.natural 0)
    · exact (h.texts "custom_type" (by simp)).plain
    · rcases h.ordering with ho | ho | ⟨s, o, ho, -⟩
      · exact ho ▸ plainEntry_none
      · exact ho ▸ plainEntry_some (.string "")
      · exact ho ▸ plainEntry_some (.string s)
  · rw [Entries.get?_eq_none_iff.2 hname]
    exact plainEntry_none

def KeepsPlain (ms ms' : Members) : Prop :=
  ∀ name, PlainEntry (ms.get? name) → ms'.get? name = ms.get? name

def KeepsObjects (ms ms' : Members) : Prop :=
  ∀ name us, ms.get? name = some (.object us) → ∃ us' : Members, ms'.get? name = some (.object us') ∧ KeepsPlain us us'

lemma alikeFields_of_keepsObjects {fields fields' : Members} (hn : fields.keys.Nodup)
    (hf : ∀ m ∈ fields, IsFieldObject m.2) (hkeys : fields.keys = fields'.keys) (h : KeepsObjects fields fields') :
    AlikeFields fields fields' := by
  induction fields generalizing fields' with
  | nil =>
    cases fields' with
    | nil => exact .nil
    | cons => cases hkeys
  | cons m fields ih =>
    cases fields' with
    | nil => cases hkeys
    | cons m' fields' =>
      obtain ⟨name, v⟩ := m
      obtain ⟨name', v'⟩ := m'
      obtain ⟨⟨attributes, rfl, ha⟩, hrest⟩ := List.forall_mem_cons.1 hf
      obtain ⟨rfl, hrestKeys⟩ : name = name' ∧ Entries.keys fields = Entries.keys fields' := List.cons.inj hkeys
      obtain ⟨hname, hn⟩ := List.nodup_cons.1 hn
      have hhead : ∃ us' : Members, some v' = some (Json.object us') ∧ KeepsPlain attributes us' := by
        simpa only [Entries.get?_cons, if_true] using h name attributes (by simp only [Entries.get?_cons, if_true])
      obtain ⟨attributes', ⟨⟩, hplain⟩ := hhead
      refine .cons ⟨rfl, attributes, attributes', rfl, rfl, fun a => hplain a (ha.plain a)⟩ ?_
      refine ih hn hrest hrestKeys fun other us hus => ?_
      -- the names are told apart, so the rest is looked up behind the first field
      have hne : name ≠ other := fun e => hname (e ▸ Entries.mem_keys_of_get? hus)
      simpa only [Entries.get?_cons, if_neg hne] using h other us (by rwa [Entries.get?_cons, if_neg hne])

lemma KeepsPlain.agreeOn {ms ms' : Members} (h : KeepsPlain ms ms') {names : List String}
    (hplain : ∀ name ∈ names, PlainEntry (ms.get? name)) : ms.AgreeOn names ms' :=
  fun name hname => h name (hplain name hname)

lemma AlikeEntries.of_none {name : String} (h : KeepsPlain block block') (hn : block.get? name = none) :
    AlikeEntries names (block.get? name) (block'.get? name) :=
  .inl ⟨hn, (h name (hn ▸ plainEntry_none)).trans hn⟩

lemma AlikeEntries.of_object {name : String} {us : Members} (h : KeepsObjects block block')
    (hus : block.get? name = some (.object us)) (hplain : ∀ n ∈ names, PlainEntry (us.get? n)) :
    AlikeEntries names (block.get? name) (block'.get? name) := by
  obtain ⟨us', hus', hkeeps⟩ := h name us hus
  exact .inr ⟨us, us', hus, hus', hkeeps.agreeOn hplain⟩

lemma alikeBlocks_of_keeps (hu : (Json.object block).hasUniqueNames) (hb : IsBlock block) (hs : ReadsFrom block source)
    (hplain : KeepsPlain block block') (hobjects : KeepsObjects block block')
    (hfields : ∀ fields fields' : Members, block.get? "fields" = some (.object fields) →
      block'.get? "fields" = some (.object fields') → fields.keys = fields'.keys ∧ KeepsObjects fields fields') :
    AlikeBlocks block block' := by
  refine ⟨?_, ?_, ?_, ?_, ?_⟩
  · obtain ⟨fields, hget, hall⟩ := hb.fields
    obtain ⟨fields', hget', -⟩ := hobjects "fields" fields hget
    obtain ⟨hkeys, hobjects'⟩ := hfields fields fields' hget hget'
    have hnodup := (Json.hasUniqueNames_object.1 (Json.hasUniqueNames_of_get? hu hget)).1
    exact ⟨fields, fields', hget, hget', alikeFields_of_keepsObjects hnodup hall hkeys hobjects'⟩
  · refine hplain.agreeOn fun name hname => ?_
    rw [show ["where", "having", "schema", "distinct", "limit"] = ["where", "having", "schema"] ++ ["distinct", "limit"]
      from rfl, List.mem_append, List.mem_pair] at hname
    rcases hname with hname | rfl | rfl
    · exact (hb.clauses name hname).plain
    · exact fun v hv => (hb.distinct v hv).plain
    · exact fun v hv => (hb.limit v hv).plain
  · cases hs with
    | union hunion hlist =>
      refine .of_object hobjects hunion fun name hname => ?_
      rw [List.mem_singleton.1 hname, hlist]
      exact plainEntry_some (isPlain_texts _)
    | join hunion | table hunion | subquery hunion => exact .of_none hplain hunion
  · intro hnone
    cases hs with
    | union hunion => cases hnone.symm.trans hunion
    | join _ hjoin hlist _ _ hon _ hcondition =>
      refine .of_object hobjects hjoin fun name hname => ?_
      rcases List.mem_pair.1 hname with rfl | rfl
      · exact hlist ▸ plainEntry_some (isPlain_texts _)
      · exact hon ▸ plainEntry_some (.array fun c hc => (hcondition c hc).plain)
    | table _ hjoin | subquery _ hjoin => exact .of_none hplain hjoin
  · intro hunion hjoin
    apply hplain
    cases hs with
    | union hunion' => cases hunion.symm.trans hunion'
    | join _ hjoin' => cases hjoin.symm.trans hjoin'
    | table _ _ htable => exact htable ▸ plainEntry_some (.string _)
    | subquery _ _ htable =>
      rcases htable with htable | htable
      · exact htable ▸ plainEntry_none
      · exact htable ▸ plainEntry_some (.string "")

end Grammar

open Grammar

namespace Document

variable {block block' : Members} {d : Document}

lemma tableRef?_congr (hschema : block'.get? "schema" = block.get? "schema")
    (htable : block'.get? "table" = block.get? "table") : tableRef? block' = tableRef? block := by
  simp only [tableRef?, text?, hschema, htable]

lemma storesSource_of_alike {source : Source} (h : AlikeBlocks block block') (hs : ReadsFrom block source)
    (hd : StoresSource block d) : StoresSource block' d := by
  have hschema : block'.get? "schema" = block.get? "schema" := h.clauses "schema" (by simp)
  cases d with
  | table b t | subquery b inner =>
    obtain ⟨hunion, hjoin, htable⟩ := hd
    refine ⟨h.union.eq_none hunion, (h.join hunion).eq_none hjoin, ?_⟩
    rw [tableRef?_congr hschema (h.table hunion hjoin), htable]
  | join b left joined =>
    obtain ⟨hunion, v, hjoin, hlinks⟩ := hd
    cases hs with
    | join _ hjoin' =>
      cases hjoin.symm.trans hjoin'
      obtain ⟨js, hjs, hagree⟩ := (h.join hunion).exists_object hjoin
      refine ⟨h.union.eq_none hunion, _, hjs, fun path => ?_⟩
      rw [← hlinks path]
      simp only [readJoinLinks, readKeywords, readConditions, Json.member?, Json.members?, Option.bind_some,
        hagree "join_type" (by simp), hagree "on" (by simp)]
    | union hunion' => cases hunion.symm.trans hunion'
    | table _ hjoin' | subquery _ hjoin' => cases hjoin.symm.trans hjoin'
  | union b first members =>
    obtain ⟨v, hunion, htypes⟩ := hd
    cases hs with
    | union hunion' =>
      cases hunion.symm.trans hunion'
      obtain ⟨us, hus, hagree⟩ := h.union.exists_object hunion
      refine ⟨_, hus, fun path => ?_⟩
      rw [← htypes path]
      simp only [readUnionTypes, readKeywords, Json.member?, Json.members?, Option.bind_some,
        hagree "union_type" (by simp)]
    | join hunion' | table hunion' | subquery hunion' => cases hunion.symm.trans hunion'

inductive AlikeNodes : Json → Json → Prop
  | node {node node' block block' : Members} {source : Source} (select : node.get? "select" = some (.object block))
      (select' : node'.get? "select" = some (.object block')) (blocks : AlikeBlocks block block')
      (reads : ReadsFrom block source) (present : ∀ key ∈ source.childKeys, key ∈ node.keys → key ∈ node'.keys)
      (children : ∀ key ∈ source.childKeys, ∀ v w, node.get? key = some v → node'.get? key = some w → AlikeNodes v w) :
      AlikeNodes (.object node) (.object node')

variable {v w : Json}

lemma AlikeNodes.isNode (h : AlikeNodes v w) (hv : IsNode v) : IsNode w := by
  induction h with
  | @node node node' block block' source hselect hselect' hblocks hreads hpresent hchildren ih =>
    cases hv with
    | @node _ _ source' hselected hblock hreads' hkeys hnodes =>
      cases hselect.symm.trans hselected
      obtain rfl := hreads.unique hreads'
      refine .node hselect' (hblocks.isBlock hblock) (hblocks.readsFrom hreads) ?_ ?_
      · exact fun key hk => hpresent key hk (hkeys key hk)
      · intro key hk w hw
        obtain ⟨v, hv⟩ := Entries.exists_get?_of_mem_keys (hkeys key hk)
        exact ih key hk v w hv hw (hnodes key hk v hv)

lemma AlikeNodes.stores (h : AlikeNodes v w) (hd : Stores v d) : Stores w d := by
  induction h generalizing d with
  | @node node node' block block' source hselect hselect' hblocks hreads hpresent hchildren ih =>
    cases hd with
    | node hselected hown hsource hkeys hstored =>
      cases hselect.symm.trans hselected
      obtain rfl := hsource.source_eq hreads
      refine .node hselect' (hown.trans hblocks.stored.symm) (storesSource_of_alike hblocks hreads hsource) ?_ ?_
      · exact fun key hk => hpresent key hk (hkeys key hk)
      · intro key w c hm hw
        have hk : key ∈ d.source.childKeys := (List.of_mem_zip hm).1
        obtain ⟨v, hv⟩ := Entries.exists_get?_of_mem_keys (hkeys key hk)
        exact ih key hk v w hv hw (hstored key v c hm hv)

lemma AlikeNodes.select_mem {node node' : Members} (h : AlikeNodes (.object node) (.object node')) :
    "select" ∈ node.keys ∧ "select" ∈ node'.keys := by
  cases h with
  | node hselect hselect' => exact ⟨Entries.mem_keys_of_get? hselect, Entries.mem_keys_of_get? hselect'⟩

inductive AlikeDocuments : Json → Json → Prop
  | wrapped {node node' : Members} (nodes : AlikeNodes (.object node) (.object node')) :
      AlikeDocuments (.object node) (.object node')
  | flat {block block' : Members} (select : "select" ∉ block.keys) (select' : "select" ∉ block'.keys)
      (blocks : AlikeBlocks block block') : AlikeDocuments (.object block) (.object block')

lemma AlikeDocuments.isDocument (h : AlikeDocuments v w) (hv : IsDocument v) : IsDocument w := by
  cases h with
  | wrapped h =>
    cases hv with
    | wrapped _ hv => exact .wrapped h.select_mem.2 (h.isNode hv)
    | flat hnot => exact absurd h.select_mem.1 hnot
  | flat hnot hnot' hblocks =>
    cases hv with
    | wrapped hmem => exact absurd hmem hnot
    | flat _ hblock hunion hjoin htable hne =>
      rw [← Entries.get?_eq_none_iff] at hunion hjoin
      refine .flat hnot' (hblocks.isBlock hblock) ?_ ?_ ((hblocks.table hunion hjoin).trans htable) hne
      · exact Entries.get?_eq_none_iff.1 (hblocks.union.eq_none hunion)
      · exact Entries.get?_eq_none_iff.1 ((hblocks.join hunion).eq_none hjoin)

lemma AlikeDocuments.stores (h : AlikeDocuments v w) (hv : IsDocument v) (hd : StoresDocument v d) :
    StoresDocument w d := by
  cases h with
  | wrapped h =>
    cases hd with
    | wrapped _ hd => exact .wrapped h.select_mem.2 (h.stores hd)
    | flat hnot => exact absurd h.select_mem.1 hnot
  | flat hnot hnot' hblocks =>
    cases hd with
    | wrapped hmem => exact absurd hmem hnot
    | flat _ htable =>
      cases hv with
      | wrapped hmem => exact absurd hmem hnot
      | flat _ _ hunion hjoin =>
        rw [← Entries.get?_eq_none_iff] at hunion hjoin
        rw [← hblocks.stored]
        refine .flat hnot' ?_
        rwa [tableRef?_congr (hblocks.clauses "schema" (by simp)) (hblocks.table hunion hjoin)]

lemma isDocument_of_ofJson (hu : v.hasUniqueNames) (hd : ofJson v = .ok d) : IsDocument v :=
  Check.isDocument_of_passes ((ofJson_eq_ok_iff hu).1 hd).1

theorem ofJson_of_alike (hv : v.hasUniqueNames) (hw : w.hasUniqueNames) (h : AlikeDocuments v w)
    (hd : ofJson v = .ok d) : ofJson w = .ok d := by
  have hdocument : IsDocument v := isDocument_of_ofJson hv hd
  have hstores : StoresDocument v d := ((ofJson_eq_ok_iff hv).1 hd).2
  exact (ofJson_eq_ok_iff hw).2 ⟨Check.passes_of_isDocument (h.isDocument hdocument), h.stores hdocument hstores⟩

end Document

end QueryTree
