import QueryTree.Proofs.Frame.FieldEdits
import QueryTree.Proofs.Sql.Resolution
/-! The order of rows. A frame keeps a direction with each field that it is sorted by, and no rank, so that the entries
of ORDER BY stand in field order whatever the order in which the fields were named. -/

namespace QueryTree

open Sql

namespace Document

open Sql.Columns (sortText)

lemma sourceTokens_mapBlock (g : Block → Block) (d : Document) : (d.mapBlock g).sourceTokens = d.sourceTokens := by
  cases d <;> rfl

lemma exists_tokens_mapFields {d : Document} (h : d.isUnion = false) {fs : Fields}
    (hnames : (Columns.ofFields {} fs).names = (Columns.ofFields {} d.fields).names)
    (hdimensions : (Columns.ofFields {} fs).dimensions = (Columns.ofFields {} d.fields).dimensions) :
    ∃ body, d.tokens = body ++ (listClause .orderBy (d.fields.sorted.map fun e => .raw (sortText e)) ++
        optionalClause .limit (d.block.limit.map .natural)) ∧
      (d.mapFields fun _ => fs).tokens = body ++ (listClause .orderBy (fs.sorted.map fun e => .raw (sortText e)) ++
        optionalClause .limit (d.block.limit.map .natural)) := by
  have hunion : (d.mapFields fun _ => fs).isUnion = false := by rw [mapFields, isUnion_mapBlock, h]
  have hfields : (d.mapFields fun _ => fs).fields = fs := by rw [mapFields, fields, block_mapBlock]
  have hgrouped := (Columns.dimensions_ofFields {} fs).symm.trans
    (hdimensions.trans (Columns.dimensions_ofFields {} d.fields))
  have hidentifiers (gs : Fields) : (gs.grouped.map fun e => Token.identifier (e.2.outputName e.1)) =
      (gs.grouped.map fun e => e.2.outputName e.1).map .identifier := by
    rw [List.map_map]
    rfl
  have hhead : headTokens (.ofBlock { d.block with fields := fs }) = headTokens (.ofBlock d.block) := by
    rw [headTokens, headTokens, Shown.ofBlock, Shown.ofBlock, hnames]
    rfl
  refine ⟨headTokens (.ofBlock d.block) ++ (d.sourceTokens ++ (optionalClause .where (d.block.filter.map .raw) ++
    (listClause .groupBy (d.fields.grouped.map fun e => .identifier (e.2.outputName e.1)) ++
      optionalClause .having (d.block.having.map .raw)))), ?_, ?_⟩
  · rw [tokens_eq_lists h]
    simp only [List.append_assoc]
  · rw [tokens_eq_lists hunion, hfields, hidentifiers, hgrouped, ← hidentifiers, mapFields, sourceTokens_mapBlock,
      block_mapBlock, ← hhead]
    simp only [List.append_assoc]

end Document

namespace Frame

section

variable {α : Type} {set : α → Field → Field} {given : List (String × α)} {old new : Fields}

lemma Overwrites.entries_eq (h : Overwrites set given old new) : new.entries = old.entries.map fun e =>
    (e.1, match Entries.get? given.reverse e.1 with
      | some v => set v e.2
      | none => e.2) := by
  refine Entries.eq_of_get? new.nodup ?_ fun key => ?_
  · rw [← Fields.keys, h.keys]
    simp [Fields.keys, Entries.keys]
  · exact (h.fields key).trans (Entries.get?_map (fun key field => match Entries.get? given.reverse key with
      | some v => set v field
      | none => field) old.entries key).symm

lemma Overwrites.list_eq (h : Overwrites set given old new) {β : Type} {l : Columns → List β} (hnil : l {} = [])
    (happend : ∀ a b, l (a.append b) = l a ++ l b) (types : CastTypes)
    (hset : ∀ v key field, l (.ofField types key (set v field)) = l (.ofField types key field)) :
    l (.ofFields types new) = l (.ofFields types old) := by
  rw [Columns.ofFields, Columns.list_ofEntries hnil happend, h.entries_eq, List.flatMap_map, Columns.ofFields,
    Columns.list_ofEntries hnil happend]
  congr 1
  funext e
  dsimp only
  split
  · exact hset _ _ _
  · rfl

end

lemma filter_mem_of_sublist {keys whole : List String} (h : keys.Sublist whole) (hwhole : whole.Nodup) :
    (whole.filter fun key => decide (key ∈ keys)) = keys := by
  induction h with
  | slnil => rfl
  | @cons keys whole key h ih =>
    obtain ⟨hkey, hrest⟩ := List.nodup_cons.1 hwhole
    rw [List.filter_cons_of_neg (by simpa using fun hm => hkey (h.subset hm)), ih hrest]
  | @cons_cons keys whole key h ih =>
    obtain ⟨hkey, hrest⟩ := List.nodup_cons.1 hwhole
    rw [List.filter_cons_of_pos (by simp)]
    refine congrArg _ ((List.filter_congr fun other hother => ?_).trans (ih hrest))
    have hne : other ≠ key := fun he => hkey (he ▸ hother)
    simp [hne]

lemma filter_mem_eq_iff {keys sorted whole : List String} (hsorted : sorted.Sublist whole) (hwhole : whole.Nodup)
    (hkeys : ∀ key ∈ sorted, key ∈ keys) : (keys.filter fun key => decide (key ∈ sorted)) = sorted ↔
      (keys.filter fun key => decide (key ∈ sorted)).Sublist whole := by
  constructor
  · intro h
    rwa [h]
  · intro h
    rw [← filter_mem_of_sublist h hwhole]
    refine (List.filter_congr fun key _ => ?_).trans (filter_mem_of_sublist hsorted hwhole)
    simpa using hkeys key

variable {f : Frame} {d : Document} {keys : List String} {ascending : List Bool}

lemma get?_sorted (fs : Fields) (key : String) :
    Entries.get? fs.sorted key = (fs.get? key).filter fun field => field.isVisible && field.orderBy.isSome := by
  have hsorted : fs.sorted = fs.entries.filter fun e => e.2.isVisible && e.2.orderBy.isSome := by
    rw [Fields.sorted, Fields.visible, List.filter_filter]
    simp only [Bool.and_comm]
  rw [hsorted, Entries.get?_filter fs.nodup]
  rfl

lemma exists_editsFields_orderBy (f : Frame) (hlength : keys.length = ascending.length) :
    ∃ g, f.orderBy keys ascending = .ok g ∧ EditsFields f g .orderBy .allowed
      (Overwrites (fun up field => field.withOrderBy (.ofAscending up)) (keys.zip ascending)) (missing keys) := by
  have hkeys : (keys.zip ascending).map Prod.fst = keys := List.map_fst_zip (Nat.le_of_eq hlength)
  have hedits := f.editsFields_changeFields .orderBy .allowed (fun up field => field.withOrderBy (.ofAscending up))
    (fun _ _ _ => rfl) (keys.zip ascending)
  rw [hkeys, List.zip, List.map_zipWith] at hedits
  exact ⟨_, orderBy_eq_ok_iff.2 ⟨hlength, rfl⟩, hedits⟩

def sortEntries (fs : Fields) : Entries String :=
  fs.sorted.map fun e => (e.1, Columns.sortText (e.1, e.2))

lemma keys_sortEntries_sublist (fs : Fields) : (sortEntries fs).keys.Sublist fs.keys := by
  rw [sortEntries, Entries.keys, List.map_map]
  exact (List.filter_sublist.trans List.filter_sublist).map Prod.fst

section

variable {fs : Fields} {given : List (String × Bool)}
  (h : Overwrites (fun up field => field.withOrderBy (.ofAscending up)) given d.fields fs)
  (hunsorted : ∀ e ∈ d.fields.entries, e.2.orderBy = none)

include h hunsorted

lemma get?_sortEntries (key : String) :
    (sortEntries fs).get? key = ((d.fields.get? key).filter Field.isVisible).bind fun field =>
      (Entries.get? given.reverse key).map fun up => Columns.sortText (key, field.withOrderBy (.ofAscending up)) := by
  have hentry : (sortEntries fs).get? key = (Entries.get? fs.sorted key).map fun field => Columns.sortText (key, field) :=
    Entries.get?_map (fun key field => Columns.sortText (key, field)) fs.sorted key
  rw [hentry, get?_sorted, h.fields]
  cases hfield : d.fields.get? key with
  | none => rfl
  | some field =>
    have horder : field.orderBy = none := hunsorted (key, field) (Entries.mem_of_get? hfield)
    cases Entries.get? given.reverse key with
    | none => simp [horder, Option.filter]
    | some up =>
      have hvisible : (field.withOrderBy (.ofAscending up)).isVisible = field.isVisible := rfl
      have hordered : (field.withOrderBy (.ofAscending up)).orderBy = some (.ofAscending up) := rfl
      cases hv : field.isVisible <;> simp [Option.filter, hvisible, hordered, hv]

lemma mem_keys_of_sortEntries {key : String} (hkey : key ∈ (sortEntries fs).keys) : key ∈ given.map Prod.fst := by
  obtain ⟨s, hs⟩ := Entries.exists_get?_of_mem_keys hkey
  rw [get?_sortEntries h hunsorted] at hs
  obtain ⟨field, -, hs⟩ := Option.bind_eq_some_iff.1 hs
  obtain ⟨up, hup, -⟩ := Option.map_eq_some_iff.1 hs
  exact List.mem_map_of_mem (List.mem_reverse.1 (Entries.mem_of_get? hup))

end

/-- A call that sorts tells each key that names no field, and gives each visible field that it names one entry, with the
direction passed with its key, and a hidden field none. The entries stand in field order, which is the order of the keys
exactly if the keys of visible fields were passed in it. -/
theorem entries_in_field_order (f : Frame) (hlength : keys.length = ascending.length) (hkeys : keys.Nodup) :
    (f.document = none → f.orderBy keys ascending = .ok { f with notices := f.notices ++ [.emptyFrame .orderBy] }) ∧
    ∀ d, f.document = some d → d.isUnion = false → (∀ e ∈ d.fields.entries, e.2.orderBy = none) →
      ∃ e, f.orderBy keys ascending = .ok { f with
          document := some e
          notices := f.notices ++ (keys.filter fun key => decide (key ∉ d.fields.keys)).map (.unknownField .orderBy) } ∧
        ∃ (body : List Token) (sorted : Entries String),
          d.tokens = body ++ optionalClause .limit (d.block.limit.map .natural) ∧
          e.tokens = body ++ (listClause .orderBy (sorted.map fun m => .raw m.2) ++
            optionalClause .limit (d.block.limit.map .natural)) ∧
          (∀ key up, (key, up) ∈ keys.zip ascending → sorted.get? key =
            ((d.fields.get? key).filter Field.isVisible).map fun field =>
              if up then field.outputName key else field.outputName key ++ " DESC") ∧
          (∀ key ∈ sorted.keys, key ∈ keys) ∧ sorted.keys.Nodup ∧ sorted.keys.Sublist d.fields.keys ∧
          ((keys.filter fun key => decide (key ∈ sorted.keys)) = sorted.keys ↔
            (keys.filter fun key => decide (key ∈ sorted.keys)).Sublist d.fields.keys) := by
  obtain ⟨g, hrun, hedits⟩ := exists_editsFields_orderBy f hlength
  refine ⟨fun hnone => ?_, fun d hd hunion hunsorted => ?_⟩
  · rw [hrun, hedits.empty hnone]
  · obtain ⟨fs, hfs, rfl⟩ := hedits.edited d hd fun _ => rfl
    have hnames : (Columns.ofFields {} fs).names = (Columns.ofFields {} d.fields).names :=
      hfs.list_eq (l := Columns.names) rfl (fun _ _ => rfl) {} fun _ _ _ => rfl
    have hdimensions : (Columns.ofFields {} fs).dimensions = (Columns.ofFields {} d.fields).dimensions :=
      hfs.list_eq (l := Columns.dimensions) rfl (fun _ _ => rfl) {} fun _ _ _ => rfl
    obtain ⟨body, hbefore, hafter⟩ := Document.exists_tokens_mapFields hunion hnames hdimensions
    rw [Fields.sorted_eq_nil hunsorted] at hbefore
    have hgiven : (keys.zip ascending).map Prod.fst = keys := List.map_fst_zip (Nat.le_of_eq hlength)
    have hsub : (sortEntries fs).keys.Sublist d.fields.keys := hfs.keys ▸ keys_sortEntries_sublist fs
    have hpassed : ∀ key ∈ (sortEntries fs).keys, key ∈ keys := by
      intro key hkey
      rw [← hgiven]
      exact mem_keys_of_sortEntries hfs hunsorted hkey
    refine ⟨_, hrun, body, sortEntries fs, hbefore, ?_, fun key up hup => ?_, hpassed, hsub.nodup d.fields.nodup, hsub,
      filter_mem_eq_iff hsub d.fields.nodup hpassed⟩
    · rw [hafter, sortEntries, List.map_map]
      rfl
    · have hreverse : (Entries.keys (keys.zip ascending).reverse).Nodup := by
        rw [Entries.keys, List.map_reverse, List.nodup_reverse, hgiven]
        exact hkeys
      rw [get?_sortEntries hfs hunsorted, Entries.get?_eq_some_of_mem hreverse (List.mem_reverse.2 hup)]
      cases (d.fields.get? key).filter Field.isVisible with
      | none => rfl
      | some field => cases up <;> rfl

def largest : Frame where
  document := some (.table
    { fields := .ofList
        [("region", { type := .dimension }), ("note", { type := .dimension, visibility := .hidden }),
          ("amount", { type := .numeric, asName := some "net" })], limit := some 10 }
    { table := "sales" })

theorem entries_in_field_order_largest : ∃ g body sorted,
    largest.orderBy ["amount", "year", "note", "region"] [false, true, true, true] = .ok g ∧
    g.notices = [.unknownField .orderBy "year"] ∧
    g.document.map Document.tokens = some (body ++
      (listClause .orderBy (sorted.map fun m => .raw m.2) ++ optionalClause .limit (some (.natural 10)))) ∧
    Entries.get? sorted "amount" = some "net DESC" ∧ Entries.get? sorted "region" = some "region" ∧
    Entries.get? sorted "note" = none ∧ (Entries.keys sorted).Sublist ["region", "note", "amount"] := by
  have hlength : ["amount", "year", "note", "region"].length = [false, true, true, true].length := rfl
  obtain ⟨-, hsorts⟩ := entries_in_field_order largest hlength (by decide)
  obtain ⟨e, hrun, body, sorted, -, htokens, hget, -, -, hsub, -⟩ := hsorts _ rfl rfl (by decide +kernel)
  refine ⟨_, body, sorted, hrun, ?_, congrArg some htokens, ?_, ?_, ?_, hsub⟩
  · dsimp only
    decide +kernel
  · exact (hget "amount" false (by decide)).trans (by decide +kernel)
  · exact (hget "region" true (by decide)).trans (by decide +kernel)
  · exact (hget "note" true (by decide)).trans (by decide +kernel)

/-- No key is told, but the entries are not in the order of the keys, and one of the keys has none. -/
theorem entries_not_in_key_order_largest :
    ∃ g, largest.orderBy ["amount", "note", "region"] [false, true, true] = .ok g ∧ g.notices = [] ∧
      g.document.map Document.sql =
        some "SELECT region, amount as net FROM sales ORDER BY region, net DESC LIMIT 10" :=
  ⟨_, rfl, by decide +kernel, by decide +kernel⟩

end Frame

end QueryTree
