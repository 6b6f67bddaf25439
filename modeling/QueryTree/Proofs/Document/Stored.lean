import QueryTree.Proofs.Document.Tree
import QueryTree.Proofs.Field.Stored
import QueryTree.Proofs.Json.UniqueNames
/-! What stored documents stand for. A relation says which document a JSON value stores; a value in the grammar
stores one, and reading a value that passed the check yields it. -/

namespace QueryTree

open Json (Members)
open Check (Source subqueryKey childKey checkNode memberCheckers)
open Grammar

def Block.stored (block : Members) : Block where
  fields := Fields.stored (((block.get? "fields").bind Json.members?).getD [])
  filter := Document.text? block "where"
  having := Document.text? block "having"
  distinct := ((block.get? "distinct").map Document.isDistinct).getD false
  limit := ((block.get? "limit").bind Check.limit?).join

namespace Check

lemma checkField_value {name : String} {attributes : Members} (h : IsAttributes attributes) :
    (checkField name (.object attributes)).value = .object (normalizeAlias attributes) := by
  simp only [checkField, checkAttributes_iff.2 h, Checked.value_ok]

lemma checkFields_value {fields : Members} (h : ∀ m ∈ fields, IsFieldObject m.2) :
    (checkFields fields).value = fields.map fun m => (m.1, (checkField m.1 m.2).value) := by
  induction fields with
  | nil => rfl
  | cons m fields ih =>
    obtain ⟨name, v⟩ := m
    have ⟨hv, hfields⟩ := List.forall_mem_cons.1 h
    have hf : (checkField name v).fault = none := checkField_iff.2 hv
    simp only [checkFields, hf, Checked.value_map, ih hfields, List.map_cons]

end Check

namespace Document

lemma readFields_checkFields {fields : Members} (h : ∀ m ∈ fields, IsFieldObject m.2)
    (hu : ∀ m ∈ fields, m.2.hasUniqueNames) (path : String) :
    readFields path (Check.checkFields fields).value = .ok (Fields.stored fields) := by
  have hread : ∀ m ∈ fields, readField path m.1 (Check.checkField m.1 m.2).value =
      .ok (Field.stored (m.2.members?.getD [])) := by
    rintro ⟨name, v⟩ hm
    obtain ⟨attributes, rfl, ha⟩ := h _ hm
    have hn := (Json.hasUniqueNames_object.1 (hu _ hm)).1
    rw [Check.checkField_value ha]
    exact Field.readField_normalizeAlias hn ha path name
  rw [readFields, Check.checkFields_value h, List.mapM_map, mapM_eq_ok_map, ok_bind]
  · rfl
  · intro m hm
    simp only [Function.comp]
    rw [hread m hm]
    rfl

lemma text?_insert_fields (block : Members) (v : Json) {name : String} (h : name ≠ "fields") :
    text? (block.insert "fields" v) name = text? block name := by
  simp [text?, Entries.get?_insert, h.symm]

lemma readBlock_checkBlock {block : Members} {path : String} (h : (Check.checkBlock block path).fault = none)
    (hu : (Json.object block).hasUniqueNames) (path' : String) :
    readBlock (Check.checkBlock block path).value path' = .ok (Block.stored block) := by
  obtain ⟨fields, hf, hc, hv⟩ := Check.checkBlock_value h
  have hunique := (Json.hasUniqueNames_object.1 (Json.hasUniqueNames_of_get? hu hf)).2
  have hfields : readBlockFields (Check.checkBlock block path).value path' = .ok (Fields.stored fields) := by
    rw [readBlockFields, hv, Entries.get?_insert, if_pos rfl]
    exact readFields_checkFields (Check.checkFields_iff.1 hc) hunique path'
  have hlimit : readLimit (Check.checkBlock block path).value = .ok ((block.get? "limit").bind Check.limit?).join := by
    have hl := (Check.checkBlock_iff.1 h).limit
    simp only [readLimit, hv, Entries.get?_insert, String.reduceEq, if_false]
    cases hg : block.get? "limit" with
    | none => rfl
    | some v =>
      obtain ⟨n, hn⟩ := Option.isSome_iff_exists.1 (Check.limit?_isSome_iff.2 (hl v hg))
      simp [hn]
  rw [readBlock, hfields, ok_bind, hlimit, ok_bind, hv]
  simp only [text?_insert_fields _ _ (by decide : "where" ≠ "fields"),
    text?_insert_fields _ _ (by decide : "having" ≠ "fields"), Entries.get?_insert, String.reduceEq, if_false]
  simp [Block.stored, hf, Json.members?, pure, Except.pure]

def StoresSource (block : Members) : Document → Prop
  | .table _ t => block.get? "union" = none ∧ block.get? "join" = none ∧ tableRef? block = some t
  | .subquery .. => block.get? "union" = none ∧ block.get? "join" = none ∧ tableRef? block = none
  | .join _ _ joined => block.get? "union" = none ∧ ∃ v, block.get? "join" = some v ∧
      ∀ path, readJoinLinks v path = .ok (joined.map Prod.fst)
  | .union _ _ members => ∃ v, block.get? "union" = some v ∧
      ∀ path, readUnionTypes v path = .ok (members.map Prod.fst)

/-- A value stores a document as a node: its block under `select`, its children under their keys. -/
inductive Stores : Json → Document → Prop
  | node {node block : Members} {d : Document} (select : node.get? "select" = some (.object block))
      (own : d.block = Block.stored block) (source : StoresSource block d)
      (present : ∀ key ∈ d.source.childKeys, key ∈ node.keys)
      (children : ∀ key v c, (key, c) ∈ d.source.childKeys.zip d.children → node.get? key = some v → Stores v c) :
      Stores (.object node) d

lemma readChain_eq_ok {α : Type} {readers : Entries Reader} {path : String} {n : Nat} {es : List (α × Document)}
    (h : ∀ key c, (key, c) ∈ ((List.range' n es.length).map childKey).zip (es.map Prod.snd) →
      readChild readers path key = .ok c) :
    readChain readers path n (es.map Prod.fst) = .ok es := by
  induction es generalizing n with
  | nil => rfl
  | cons e es ih =>
    obtain ⟨a, d⟩ := e
    have hd : readChild readers path (childKey n) = .ok d := h _ _ List.mem_cons_self
    have hes := ih fun key c hm => h key c (List.mem_cons_of_mem _ hm)
    rw [List.map_cons, readChain, hd, ok_bind, hes]
    rfl

lemma readSource_eq_ok {block : Members} {readers : Entries Reader} {path : String} {d : Document}
    (hs : StoresSource block d) (hb : readBlock block path = .ok d.block)
    (hc : ∀ key c, (key, c) ∈ d.source.childKeys.zip d.children → readChild readers path key = .ok c) :
    readSource block readers path = .ok d := by
  cases d with
  | table b t =>
    obtain ⟨hu, hj, ht⟩ := hs
    simp only [readSource, hu, hj, ht]
    rw [hb]
    rfl
  | subquery b inner =>
    obtain ⟨hu, hj, ht⟩ := hs
    have hinner : readChild readers path subqueryKey = .ok inner := hc _ _ List.mem_cons_self
    simp only [readSource, hu, hj, ht]
    rw [hinner, ok_bind, hb]
    rfl
  | join b left joined =>
    obtain ⟨hu, v, hj, hl⟩ := hs
    rw [source_join, Source.childKeys_join] at hc
    have hleft : readChild readers path (childKey 1) = .ok left := hc _ _ List.mem_cons_self
    have hjoined : readChain readers path 2 (joined.map Prod.fst) = .ok joined :=
      readChain_eq_ok fun key c hm => hc key c (List.mem_cons_of_mem _ hm)
    simp only [readSource, hu, hj]
    rw [hl path, ok_bind, hleft, ok_bind, hjoined, ok_bind, hb]
    rfl
  | union b first members =>
    obtain ⟨v, hu, ht⟩ := hs
    rw [source_union, Source.childKeys_union] at hc
    have hfirst : readChild readers path (childKey 1) = .ok first := hc _ _ List.mem_cons_self
    have hmembers : readChain readers path 2 (members.map Prod.fst) = .ok members :=
      readChain_eq_ok fun key c hm => hc key c (List.mem_cons_of_mem _ hm)
    simp only [readSource, hu]
    rw [ht path, ok_bind, hfirst, ok_bind, hmembers, ok_bind, hb]
    rfl

lemma tableRef?_eq_none {block : Members}
    (h : block.get? "table" = none ∨ block.get? "table" = some (.string "")) : tableRef? block = none := by
  rcases h with h | h <;> simp [tableRef?, text?, h]

lemma tableRef?_eq_some {block : Members} {t : String} (h : block.get? "table" = some (.string t)) (hne : t ≠ "") :
    tableRef? block = some { schema := text? block "schema", table := t } := by
  simp [tableRef?, text?, h, hne]

lemma readKeywords_eq {α : Type} {parse : String → Except UnknownKeyword α} {ms : Members} {name : String}
    {items : List Json} (h : ms.get? name = some (.array items)) :
    readKeywords parse (.object ms) name = items.mapM (readKeywordItem parse name) := by
  simp [readKeywords, Json.member?, Json.members?, h, Json.items?]

lemma exists_readKeywords {α : Type} {parse : String → Except UnknownKeyword α} {ms : Members} {name : String}
    {types : List String} (h : ms.get? name = some (.array (types.map .string)))
    (hk : ∀ t ∈ types, ∃ k, parse t = .ok k) :
    ∃ ks, readKeywords parse (.object ms) name = .ok ks ∧ ks.length = types.length := by
  rw [readKeywords_eq h]
  obtain ⟨ks, hks⟩ : ∃ ks, (types.map Json.string).mapM (readKeywordItem parse name) = .ok ks := by
    apply exists_mapM_eq_ok
    intro item hi
    obtain ⟨t, ht, rfl⟩ := List.mem_map.1 hi
    obtain ⟨k, hk⟩ := hk t ht
    exact ⟨k, by simp [readKeywordItem, Json.text?, hk, mapError_ok]⟩
  exact ⟨ks, hks, by simpa using length_of_mapM_eq_ok hks⟩

lemma exists_readUnionTypes {block : Members} {n : Nat} (h : ReadsFrom block (.union n)) :
    ∃ v types, block.get? "union" = some v ∧ types.length + 1 = n ∧ ∀ path, readUnionTypes v path = .ok types := by
  cases h with
  | union hu hl _ hk =>
    obtain ⟨ks, hks, hlen⟩ := exists_readKeywords hl hk
    exact ⟨_, ks, hu, by rw [hlen], fun path => by rw [readUnionTypes, hks]; rfl⟩

lemma exists_readJoinLinks {block : Members} {n : Nat} (h : ReadsFrom block (.join n)) :
    ∃ v links, block.get? "union" = none ∧ block.get? "join" = some v ∧ links.length + 1 = n ∧
      ∀ path, readJoinLinks v path = .ok links := by
  cases h with
  | @join j types on hu hj hl _ hk hon hlen hc =>
    obtain ⟨ks, hks, hklen⟩ := exists_readKeywords hl hk
    refine ⟨_, ks.zipWith JoinLink.mk (on.map condition?), hu, hj, ?_, ?_⟩
    · simp [hklen, hlen]
    · intro path
      have hread : readConditions (.object j) path = .ok (on.map condition?) := by
        simp [readConditions, Json.member?, Json.members?, hon, Json.items?]
      rw [readJoinLinks, hks, hread]
      rfl

def sourceKind (block : Members) : SourceKind :=
  match block.get? "union", block.get? "join", tableRef? block with
  | some _, _, _ => .union
  | none, some _, _ => .join
  | none, none, some _ => .table
  | none, none, none => .subquery

lemma StoresSource.kind_eq {block : Members} {d : Document} (h : StoresSource block d) : d.kind = sourceKind block := by
  cases d with
  | table b t | subquery b inner =>
    obtain ⟨hu, hj, ht⟩ := h
    simp [sourceKind, hu, hj, ht, kind]
  | join b left joined =>
    obtain ⟨hu, v, hj, -⟩ := h
    simp [sourceKind, hu, hj, kind]
  | union b first members =>
    obtain ⟨v, hu, -⟩ := h
    simp [sourceKind, hu, kind]

lemma kind_of_readsFrom {block : Members} {source : Source} (h : ReadsFrom block source) :
    source.kind = sourceKind block := by
  cases h with
  | union hu => simp [sourceKind, hu, Source.kind]
  | join hu hj => simp [sourceKind, hu, hj, Source.kind]
  | table hu hj ht hne => simp [sourceKind, hu, hj, tableRef?_eq_some ht hne, Source.kind]
  | subquery hu hj ht => simp [sourceKind, hu, hj, tableRef?_eq_none ht, Source.kind]

lemma StoresSource.source_eq {block : Members} {source : Source} {d : Document} (h : StoresSource block d)
    (hs : ReadsFrom block source) : d.source = source := by
  have hk : d.kind = source.kind := h.kind_eq.trans (kind_of_readsFrom hs).symm
  cases source with
  | table =>
    cases d with
    | table => rfl
    | _ => cases hk
  | subquery =>
    cases d with
    | subquery => rfl
    | _ => cases hk
  | join n =>
    cases d with
    | join b left joined =>
      obtain ⟨v, links, -, hj, rfl, hlinks⟩ := exists_readJoinLinks hs
      obtain ⟨-, w, hj', hjoined⟩ := h
      cases hj.symm.trans hj'
      have hl : links = joined.map Prod.fst := Except.ok.inj ((hlinks "").symm.trans (hjoined ""))
      simp [hl]
    | _ => cases hk
  | union n =>
    cases d with
    | union b first members =>
      obtain ⟨v, types, hu, rfl, htypes⟩ := exists_readUnionTypes hs
      obtain ⟨w, hu', hmembers⟩ := h
      cases hu.symm.trans hu'
      have ht : types = members.map Prod.fst := Except.ok.inj ((htypes "").symm.trans (hmembers ""))
      simp [ht]
    | _ => cases hk

lemma exists_storesSource {block : Members} {source : Source} (h : ReadsFrom block source) (b : Block)
    {cs : List Document} (hc : cs.length = source.childKeys.length) :
    ∃ d : Document, d.block = b ∧ d.children = cs ∧ StoresSource block d := by
  cases source with
  | table =>
    cases h with
    | table hu hj ht hne =>
      obtain rfl := List.length_eq_zero_iff.1 hc
      exact ⟨.table b _, rfl, rfl, hu, hj, tableRef?_eq_some ht hne⟩
  | subquery =>
    cases h with
    | subquery hu hj ht =>
      obtain ⟨c, rfl⟩ := List.length_eq_one_iff.1 hc
      exact ⟨.subquery b c, rfl, rfl, hu, hj, tableRef?_eq_none ht⟩
  | join n =>
    obtain ⟨v, links, hu, hj, rfl, hread⟩ := exists_readJoinLinks h
    obtain _ | ⟨c, cs⟩ := cs
    · simp [Source.childKeys] at hc
    · have hlen : links.length = cs.length := by simpa [Source.childKeys] using hc.symm
      refine ⟨.join b c (links.zip cs), rfl, ?_, hu, v, hj, fun path => ?_⟩
      · rw [children, List.map_snd_zip (Nat.le_of_eq hlen.symm)]
      · rw [hread, List.map_fst_zip (Nat.le_of_eq hlen)]
  | union n =>
    obtain ⟨v, types, hu, rfl, hread⟩ := exists_readUnionTypes h
    obtain _ | ⟨c, cs⟩ := cs
    · simp [Source.childKeys] at hc
    · have hlen : types.length = cs.length := by simpa [Source.childKeys] using hc.symm
      refine ⟨.union b c (types.zip cs), rfl, ?_, v, hu, fun path => ?_⟩
      · rw [children, List.map_snd_zip (Nat.le_of_eq hlen.symm)]
      · rw [hread, List.map_fst_zip (Nat.le_of_eq hlen)]

lemma exists_stores {v : Json} (h : IsNode v) : ∃ d, Stores v d := by
  induction h with
  | @node node block source hselect hblock hsource hpresent hchildren ih =>
    have hchild : ∀ key : String, ∃ c : Document, key ∈ source.childKeys → ∀ v, node.get? key = some v → Stores v c := by
      intro key
      by_cases hk : key ∈ source.childKeys
      · obtain ⟨v, hv⟩ := Entries.exists_get?_of_mem_keys (hpresent key hk)
        obtain ⟨c, hc⟩ := ih key hk v hv
        refine ⟨c, fun _ w hw => ?_⟩
        cases hv.symm.trans hw
        exact hc
      · exact ⟨.table ⟨.empty, none, none, false, none⟩ ⟨none, ""⟩, fun h => absurd h hk⟩
    choose child hchild using hchild
    obtain ⟨d, hb, hcs, hs⟩ := exists_storesSource hsource (Block.stored block) (List.length_map child)
    have hd : d.source = source := hs.source_eq hsource
    refine ⟨d, .node hselect hb hs (hd ▸ hpresent) ?_⟩
    intro key v c hm hv
    rw [hd, hcs, ← List.map_prod_left_eq_zip] at hm
    obtain ⟨k, hk, he⟩ := List.mem_map.1 hm
    cases he
    exact hchild key hk v hv

lemma tableRef?_insert_fields (block : Members) (v : Json) :
    tableRef? (block.insert "fields" v) = tableRef? block := by
  rw [tableRef?, tableRef?, text?_insert_fields _ _ (by decide), text?_insert_fields _ _ (by decide)]

lemma storesSource_insert_fields {block : Members} {v : Json} {d : Document} :
    StoresSource (block.insert "fields" v) d ↔ StoresSource block d := by
  have hu : (block.insert "fields" v).get? "union" = block.get? "union" := by simp [Entries.get?_insert]
  have hj : (block.insert "fields" v).get? "join" = block.get? "join" := by simp [Entries.get?_insert]
  cases d <;> simp [StoresSource, hu, hj, tableRef?_insert_fields]

end Document

namespace Check

lemma get?_checkChildren {checks : Entries Checker} {path : String} {keys : List String} {node : Members}
    (h : (checkChildren checks path keys node).fault = none) (key : String) :
    (checkChildren checks path keys node).value.get? key =
      if key ∈ keys then (checks.get? key).map fun check => (check (path ++ "." ++ key)).value else node.get? key := by
  induction keys generalizing node with
  | nil => simp [checkChildren]
  | cons k keys ih =>
    rw [checkChildren] at h ⊢
    cases hk : checks.get? k with
    | none => simp [hk] at h
    | some check =>
      simp only [hk, Checked.fault_andThen_eq_none_iff] at h
      obtain ⟨hc, hks⟩ := h
      simp only
      rw [Checked.value_andThen hc, ih hks, Checked.value_map, Entries.get?_insert]
      by_cases hmem : key ∈ keys
      · simp [hmem]
      · by_cases he : k = key
        · subst he
          simp [hmem, hk]
        · simp [hmem, he, Ne.symm he]

lemma get?_checkMembers {node block : Members} {source : Source} {path : String}
    (h : (checkMembers node (memberCheckers node) path).fault = none)
    (hselect : node.get? "select" = some (.object block))
    (hs : sourceOf block path (node.contains subqueryKey) = .ok source) (key : String) :
    (checkMembers node (memberCheckers node) path).value.get? key =
      if key ∈ source.childKeys then (node.get? key).map fun v => (checkNode v (path ++ "." ++ key)).value
      else if "select" = key then some (.object (checkBlock block path).value) else node.get? key := by
  have hb : (checkBlock block path).fault = none := by
    obtain ⟨b, _, hb, hf, -⟩ := checkMembers_iff.1 h
    cases hselect.symm.trans hb
    exact hf
  have hc : checkMembers node (memberCheckers node) path =
      checkChildren (memberCheckers node) path source.childKeys
        (node.insert "select" (.object (checkBlock block path).value)) := by
    simp only [checkMembers_of_select hselect, hb, hs]
  rw [hc] at h ⊢
  rw [get?_checkChildren h, get?_memberCheckers, Entries.get?_insert, Option.map_map]
  rfl

end Check

namespace Document

lemma readNode_checkNode {v : Json} {d : Document} (h : Stores v d) (hu : v.hasUniqueNames) {path : String}
    (hv : (checkNode v path).fault = none) (path' : String) : readNode (checkNode v path).value path' = .ok d := by
  induction h generalizing path path' with
  | @node node block d hselect hown hsource hpresent hchildren ih =>
    rw [checkNode, Checked.fault_map] at hv
    obtain ⟨_, source, hselect', hb, hs, hc⟩ := Check.checkMembers_iff.1 hv
    cases hselect.symm.trans hselect'
    obtain rfl := hsource.source_eq (Check.sourceOf_eq_ok_iff.1 hs).1
    have hblock := Json.hasUniqueNames_of_get? hu hselect
    have hget := Check.get?_checkMembers hv hselect hs
    rw [checkNode, Checked.value_map, readNode, readMembers, selectBlock, hget,
      if_neg d.source.select_not_mem_childKeys, if_pos rfl, ok_bind]
    obtain ⟨fields, hf, -, hvalue⟩ := Check.checkBlock_value hb
    refine readSource_eq_ok ?_ ?_ ?_
    · rw [hvalue, storesSource_insert_fields]
      exact hsource
    · rw [hown]
      exact readBlock_checkBlock hb hblock path'
    · intro key c hm
      have hkey : key ∈ d.source.childKeys := (List.of_mem_zip hm).1
      obtain ⟨check, hcheck, hfault⟩ := hc key hkey
      obtain ⟨v, hv, rfl⟩ := Check.exists_of_get?_memberCheckers hcheck
      rw [readChild, get?_memberReaders, hget, if_pos hkey, hv]
      exact ih key v c hm hv (Json.hasUniqueNames_of_get? hu hv) hfault _

inductive StoresDocument : Json → Document → Prop
  | wrapped {node : Members} {d : Document} (select : "select" ∈ node.keys) (stores : Stores (.object node) d) :
      StoresDocument (.object node) d
  | flat {block : Members} {t : TableRef} (select : "select" ∉ block.keys) (source : tableRef? block = some t) :
      StoresDocument (.object block) (.table (Block.stored block) t)

lemma exists_storesDocument {v : Json} (h : (Check.check v).fault = none) : ∃ d, StoresDocument v d := by
  cases v with
  | object members =>
    by_cases hm : "select" ∈ Entries.keys members
    · rw [Check.check_of_mem hm] at h
      obtain ⟨d, hd⟩ := exists_stores (Check.checkNode_iff.1 h)
      exact ⟨d, .wrapped hm hd⟩
    · rw [Check.check_of_not_mem hm, Checked.fault_map, Check.checkFlat_iff] at h
      obtain ⟨-, -, -, t, ht, hne⟩ := h
      exact ⟨_, .flat hm (tableRef?_eq_some ht hne)⟩
  | _ => cases h

lemma isWrapped_checkNode {node : Members} {path : String} (h : (checkNode (.object node) path).fault = none) :
    Check.isWrapped (checkNode (.object node) path).value = true := by
  rw [checkNode, Checked.fault_map] at h
  obtain ⟨block, source, hselect, -, hs, -⟩ := Check.checkMembers_iff.1 h
  have hget := Check.get?_checkMembers h hselect hs "select"
  rw [if_neg source.select_not_mem_childKeys, if_pos rfl] at hget
  exact Check.isWrapped_iff.2 ⟨_, rfl, Entries.mem_keys_of_get? hget⟩

lemma isWrapped_checkFlat {block : Members} (h : (Check.checkFlat block).fault = none)
    (hm : "select" ∉ block.keys) : Check.isWrapped (.object (Check.checkFlat block).value) = false := by
  obtain ⟨fields, -, -, hv⟩ := Check.checkBlock_value (Checked.fault_andThen_eq_none_iff.1 h).1
  have hn : block.get? "select" = none := Entries.get?_eq_none_iff.2 hm
  rw [Check.value_checkFlat, hv]
  simp [Check.isWrapped, Json.member?, Json.members?, Entries.get?_insert, hn]

lemma readFlat_checkFlat {block : Members} {t : TableRef} (h : (Check.checkFlat block).fault = none)
    (hu : (Json.object block).hasUniqueNames) (ht : tableRef? block = some t) :
    readFlat (Check.checkFlat block).value = .ok (.table (Block.stored block) t) := by
  have hb := (Checked.fault_andThen_eq_none_iff.1 h).1
  have hread := readBlock_checkBlock hb hu Check.rootPath
  obtain ⟨fields, -, -, hv⟩ := Check.checkBlock_value hb
  rw [Check.value_checkFlat, readFlat, hread, hv, tableRef?_insert_fields, ht]
  rfl

lemma readChecked_check {v : Json} {d : Document} (h : StoresDocument v d) (hu : v.hasUniqueNames)
    (hv : (Check.check v).fault = none) : readChecked (Check.check v).value = .ok d := by
  cases h with
  | wrapped hm hs =>
    rw [Check.check_of_mem hm] at hv ⊢
    rw [readChecked.eq_def, if_pos (isWrapped_checkNode hv)]
    exact readNode_checkNode hs hu hv _
  | @flat block t hm ht =>
    rw [Check.check_of_not_mem hm, Checked.fault_map] at hv
    have hw := isWrapped_checkFlat hv hm
    rw [Check.check_of_not_mem hm, Checked.value_map, readChecked, if_neg (by simp [hw])]
    exact readFlat_checkFlat hv hu ht

lemma ofJson_eq_ok_iff {v : Json} {d : Document} (hu : v.hasUniqueNames) :
    ofJson v = .ok d ↔ (Check.check v).fault = none ∧ StoresDocument v d := by
  have hread : ∀ {e}, (Check.check v).fault = none → StoresDocument v e → ofJson v = .ok e := by
    intro e hv hs
    simp only [ofJson, hv]
    exact readChecked_check hs hu hv
  constructor
  · intro h
    cases hv : (Check.check v).fault with
    | some e => simp [ofJson, hv] at h
    | none =>
      obtain ⟨e, he⟩ := exists_storesDocument hv
      cases h.symm.trans (hread hv he)
      exact ⟨rfl, he⟩
  · rintro ⟨hv, hs⟩
    exact hread hv hs

lemma exists_ofJson {v : Json} (hu : v.hasUniqueNames) (h : (Check.check v).fault = none) : ∃ d, ofJson v = .ok d := by
  obtain ⟨d, hstores⟩ := exists_storesDocument h
  exact ⟨d, (ofJson_eq_ok_iff hu).2 ⟨h, hstores⟩⟩

end Document

end QueryTree
