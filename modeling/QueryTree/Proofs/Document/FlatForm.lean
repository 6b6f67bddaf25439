import QueryTree.Proofs.Document.Alike
/-! Documents without children may stand as their block alone. Whether a block stands alone or under `select`, it can be
read for the same reasons and yields the same document; it then reads from a table, and only its known names count. -/

namespace QueryTree

open Json (Members)
open Check (Source checkBlock checkEntries checkChildren checkMembers memberCheckers sourceOf rootPath)
open Grammar

namespace Document

def blockNames : List String :=
  ["fields", "where", "having", "schema", "distinct", "limit", "union", "join", "table"]

def underSelect (block : Members) : Json :=
  .object [("select", .object block)]

variable {block other : Members} {d : Document}

lemma hasUniqueNames_underSelect (h : (Json.object block).hasUniqueNames) : (underSelect block).hasUniqueNames := by
  rw [underSelect, Json.hasUniqueNames_object]
  exact ⟨List.nodup_singleton _, List.forall_mem_singleton.2 h⟩

lemma isDocument_flat_iff (hselect : "select" ∉ block.keys) :
    IsDocument (.object block) ↔ IsBlock block ∧ ReadsFrom block .table := by
  constructor
  · intro h
    cases h with
    | wrapped hmem => exact absurd hmem hselect
    | flat _ hblock hunion hjoin htable hne =>
      rw [← Entries.get?_eq_none_iff] at hunion hjoin
      exact ⟨hblock, .table hunion hjoin htable hne⟩
  · rintro ⟨hblock, hreads⟩
    cases hreads with
    | table hunion hjoin htable hne =>
      rw [Entries.get?_eq_none_iff] at hunion hjoin
      exact .flat hselect hblock hunion hjoin htable hne

lemma isDocument_underSelect_iff : IsDocument (underSelect block) ↔ IsBlock block ∧ ReadsFrom block .table := by
  constructor
  · intro h
    cases h with
    | flat hmem => exact absurd (List.mem_singleton.2 rfl) hmem
    | wrapped _ hnode =>
      cases hnode with
      | @node _ _ source hselect hblock hreads hpresent =>
        cases hselect
        have hkeys : source.childKeys = [] := by
          refine List.eq_nil_iff_forall_not_mem.2 fun key hk => ?_
          obtain rfl : key = "select" := List.mem_singleton.1 (hpresent key hk)
          exact source.select_not_mem_childKeys hk
        cases source with
        | table => exact ⟨hblock, hreads⟩
        | subquery => cases hkeys
        | join n | union n =>
          cases hreads
          simp [Source.childKeys] at hkeys
  · rintro ⟨hblock, hreads⟩
    exact .wrapped (List.mem_singleton.2 rfl) (.node rfl hblock hreads (List.forall_mem_nil _) (List.forall_mem_nil _))

lemma storesDocument_flat_iff (hselect : "select" ∉ block.keys) :
    StoresDocument (.object block) d ↔ ∃ t, tableRef? block = some t ∧ d = .table (Block.stored block) t := by
  constructor
  · intro h
    cases h with
    | wrapped hmem => exact absurd hmem hselect
    | flat _ htable => exact ⟨_, htable, rfl⟩
  · rintro ⟨t, htable, rfl⟩
    exact .flat hselect htable

lemma storesDocument_underSelect_iff (hreads : ReadsFrom block .table) :
    StoresDocument (underSelect block) d ↔ ∃ t, tableRef? block = some t ∧ d = .table (Block.stored block) t := by
  constructor
  · intro h
    cases h with
    | flat hmem => exact absurd (List.mem_singleton.2 rfl) hmem
    | wrapped _ hstores =>
      cases hstores with
      | node hselect hown hsource =>
        cases hselect
        have hkind : d.source = .table := hsource.source_eq hreads
        cases d with
        | table b t => exact ⟨t, hsource.2.2, by rw [← hown]; rfl⟩
        | subquery | join | union => cases hkind
  · rintro ⟨t, htable, rfl⟩
    cases hreads with
    | table hunion hjoin =>
      refine .wrapped (List.mem_singleton.2 rfl) (.node rfl rfl ⟨hunion, hjoin, htable⟩ (List.forall_mem_nil _) ?_)
      exact fun _ _ _ hm => absurd hm List.not_mem_nil

def blockFault (block : Members) (path : String) (next : Source → Option Fault) : Option Fault :=
  match (checkBlock block path).fault, sourceOf block path false with
  | some e, _ | none, .error e => some e
  | none, .ok source => next source

lemma fault_check_flat (hselect : "select" ∉ block.keys) :
    (Check.check (.object block)).fault =
      blockFault block rootPath fun source => if source = .table then none else some (.missingSource rootPath) := by
  rw [Check.check_of_not_mem hselect, Checked.fault_map, Check.checkFlat, blockFault]
  cases hb : (checkBlock block rootPath).fault with
  | some e => simp only [Checked.andThen, hb]
  | none =>
    simp only [Checked.andThen, hb, Check.sourceOf_checkBlock hb]
    cases sourceOf block rootPath false with
    | error e => rfl
    | ok source => cases source <;> rfl

lemma fault_checkChildren_of_none {checks : Entries Check.Checker} {path : String} {keys : List String}
    {node : Members} (h : ∀ key ∈ keys, checks.get? key = none) :
    (checkChildren checks path keys node).fault = keys.head?.map (.missingSubquery path) := by
  cases keys with
  | nil => rfl
  | cons key keys => rw [Check.checkChildren_cons_of_none (h key List.mem_cons_self)]; rfl

lemma fault_check_underSelect (block : Members) :
    (Check.check (underSelect block)).fault =
      blockFault block "select" fun source => source.childKeys.head?.map (.missingSubquery "select") := by
  have hmem : "select" ∈ Entries.keys [("select", Json.object block)] := List.mem_singleton.2 rfl
  have hget : Entries.get? [("select", Json.object block)] "select" = some (.object block) := rfl
  have hnone (source : Source) : ∀ key ∈ source.childKeys,
      Entries.get? (memberCheckers [("select", .object block)]) key = none := by
    intro key hk
    have hne : "select" ≠ key := by
      rintro rfl
      exact source.select_not_mem_childKeys hk
    rw [Check.get?_memberCheckers, Entries.get?_cons, if_neg hne]
    rfl
  rw [underSelect, Check.check_of_mem hmem, Check.checkNode, Checked.fault_map, Check.checkMembers_of_select hget, blockFault]
  have hsq : Entries.contains [("select", Json.object block)] Check.subqueryKey = false := by
    simp [Entries.contains, Entries.get?_cons, Check.subqueryKey]
  rw [hsq]
  cases (checkBlock block "select").fault with
  | some e => rfl
  | none =>
    cases sourceOf block "select" false with
    | error e => rfl
    | ok source => exact fault_checkChildren_of_none (hnone source)

section

variable (h : block.AgreeOn blockNames other)

include h

lemma fault_checkBlock_congr (path : String) : (checkBlock other path).fault = (checkBlock block path).fault := by
  have hentries : checkEntries other = checkEntries block := by
    simp only [checkEntries, Check.checkClause, Check.checkDistinct, Check.checkLimit, h "where" (by decide),
      h "having" (by decide), h "schema" (by decide), h "distinct" (by decide), h "limit" (by decide)]
  rw [checkBlock, checkBlock, h "fields" (by decide)]
  split
  · rfl
  · next fields _ =>
    cases hf : (Check.checkFields fields).fault with
    | some e => simp only [Checked.andThen, Checked.fault_map, hf]
    | none =>
      simp only [Checked.andThen, Checked.fault_map, hf, Checked.value_map, Check.checkEntries_insert_fields, hentries]
      cases checkEntries block <;> rfl
  · rfl

lemma blockFault_congr (path : String) (next : Source → Option Fault) :
    blockFault other path next = blockFault block path next := by
  have hsource : sourceOf other path false = sourceOf block path false := by
    simp only [sourceOf, h "union" (by decide), h "join" (by decide), h "table" (by decide)]
  rw [blockFault, blockFault, fault_checkBlock_congr h, hsource]

lemma alikeBlocks_of_agreeOn (hb : IsBlock block) (hreads : ReadsFrom block .table) : AlikeBlocks block other := by
  obtain ⟨fields, hfields, hall⟩ := hb.fields
  cases hreads with
  | table hunion hjoin htable =>
    refine ⟨⟨fields, fields, hfields, ?_, alikeFields_refl hall⟩, ?_, .inl ⟨hunion, ?_⟩, ?_, ?_⟩
    · rw [h "fields" (by decide), hfields]
    · exact fun name hname => h name (by revert name; decide)
    · rw [h "union" (by decide), hunion]
    · exact fun _ => .inl ⟨hjoin, by rw [h "join" (by decide), hjoin]⟩
    · exact fun _ _ => h "table" (by decide)

end

lemma ofJson_congr {v w : Json} (hv : v.hasUniqueNames) (hw : w.hasUniqueNames)
    (hfault : (Check.check w).fault = (Check.check v).fault) (halike : IsDocument v → AlikeDocuments v w) :
    ofJson w = ofJson v := by
  cases hcheck : (Check.check v).fault with
  | some e => simp only [ofJson, hfault, hcheck]
  | none =>
    obtain ⟨d, hd⟩ := exists_ofJson hv hcheck
    rw [hd]
    exact ofJson_of_alike hv hw (halike (Check.isDocument_of_passes hcheck)) hd

lemma ofJson_flat_iff_underSelect (hu : (Json.object block).hasUniqueNames) (hselect : "select" ∉ block.keys) :
    ofJson (.object block) = .ok d ↔ ofJson (underSelect block) = .ok d := by
  rw [ofJson_eq_ok_iff hu, ofJson_eq_ok_iff (hasUniqueNames_underSelect hu)]
  constructor
  · rintro ⟨hcheck, hstores⟩
    obtain ⟨hb, hreads⟩ := (isDocument_flat_iff hselect).1 (Check.isDocument_of_passes hcheck)
    rw [storesDocument_flat_iff hselect, ← storesDocument_underSelect_iff hreads] at hstores
    exact ⟨Check.passes_of_isDocument (isDocument_underSelect_iff.2 ⟨hb, hreads⟩), hstores⟩
  · rintro ⟨hcheck, hstores⟩
    obtain ⟨hb, hreads⟩ := isDocument_underSelect_iff.1 (Check.isDocument_of_passes hcheck)
    rw [storesDocument_underSelect_iff hreads, ← storesDocument_flat_iff hselect] at hstores
    exact ⟨Check.passes_of_isDocument ((isDocument_flat_iff hselect).2 ⟨hb, hreads⟩), hstores⟩

lemma not_mem_keys_of_ofJson_flat (hu : (Json.object block).hasUniqueNames) (hselect : "select" ∉ block.keys)
    (hd : ofJson (.object block) = .ok d) : "union" ∉ block.keys ∧ "join" ∉ block.keys := by
  obtain ⟨-, hreads⟩ := (isDocument_flat_iff hselect).1 (isDocument_of_ofJson hu hd)
  cases hreads with
  | table hunion hjoin => exact ⟨Entries.get?_eq_none_iff.1 hunion, Entries.get?_eq_none_iff.1 hjoin⟩

/-- A block alone and the same block under `select` are read alike. A union or a join is refused in both forms, and what
else a block holds besides its known names changes neither the document nor the fault. -/
theorem ofJson_flat_underSelect (hu : (Json.object block).hasUniqueNames) (hselect : "select" ∉ block.keys) :
    (∀ d, ofJson (.object block) = .ok d ↔ ofJson (underSelect block) = .ok d) ∧
      ("union" ∈ block.keys ∨ "join" ∈ block.keys →
        ∀ d, ofJson (.object block) ≠ .ok d ∧ ofJson (underSelect block) ≠ .ok d) ∧
      ∀ other : Members, (Json.object other).hasUniqueNames → "select" ∉ other.keys → block.AgreeOn blockNames other →
        ofJson (.object other) = ofJson (.object block) ∧ ofJson (underSelect other) = ofJson (underSelect block) := by
  refine ⟨fun d => ofJson_flat_iff_underSelect hu hselect, ?_, ?_⟩
  · intro hdeclared d
    have hflat : ofJson (.object block) ≠ .ok d := by
      intro hd
      obtain ⟨hunion, hjoin⟩ := not_mem_keys_of_ofJson_flat hu hselect hd
      exact hdeclared.elim hunion hjoin
    exact ⟨hflat, fun hd => hflat ((ofJson_flat_iff_underSelect hu hselect).2 hd)⟩
  · intro other hother hselect' hagree
    constructor
    · refine ofJson_congr hu hother ?_ fun hdocument => ?_
      · rw [fault_check_flat hselect', fault_check_flat hselect, blockFault_congr hagree]
      · obtain ⟨hb, hreads⟩ := (isDocument_flat_iff hselect).1 hdocument
        exact .flat hselect hselect' (alikeBlocks_of_agreeOn hagree hb hreads)
    · refine ofJson_congr (hasUniqueNames_underSelect hu) (hasUniqueNames_underSelect hother) ?_ fun hdocument => ?_
      · rw [fault_check_underSelect, fault_check_underSelect, blockFault_congr hagree]
      · obtain ⟨hb, hreads⟩ := isDocument_underSelect_iff.1 hdocument
        have halike := alikeBlocks_of_agreeOn hagree hb hreads
        exact .wrapped (.node rfl rfl halike hreads (List.forall_mem_nil _) (List.forall_mem_nil _))

def tableBlock : Members :=
  [("fields", .object [("x", .object [("type", .string "dim")])]), ("table", .string "t")]

def crowdedBlock : Members :=
  ("sq", underSelect tableBlock) :: ("note", .null) :: tableBlock

theorem ofJson_flat_underSelect_crowdedBlock :
    ∃ d, ofJson (.object tableBlock) = .ok d ∧ ofJson (underSelect tableBlock) = .ok d ∧
      ofJson (.object crowdedBlock) = .ok d ∧ ofJson (underSelect crowdedBlock) = .ok d := by
  have hu : (Json.object tableBlock).hasUniqueNames = true := by decide +kernel
  have hother : (Json.object crowdedBlock).hasUniqueNames = true := by decide +kernel
  have hpass : (Check.check (.object tableBlock)).fault = none := by decide +kernel
  obtain ⟨d, hd⟩ := exists_ofJson hu hpass
  obtain ⟨hforms, -, hsame⟩ := ofJson_flat_underSelect hu (by decide)
  obtain ⟨hflat, hwrapped⟩ := hsame crowdedBlock hother (by decide) (by decide +kernel)
  have hd' : ofJson (underSelect tableBlock) = .ok d := (hforms d).1 hd
  exact ⟨d, hd, hd', hflat.trans hd, hwrapped.trans hd'⟩

end Document

end QueryTree
