import QueryTree.Frame.Render
import QueryTree.Proofs.Frame.Calls
import QueryTree.Proofs.Sql.ColumnTexts
import QueryTree.Proofs.Sql.Node
import QueryTree.Sql.Layout
/-! The columns that frames report. The column texts of a frame, the table created for it and the insertion into that
table name the visible fields of the root. A union has the columns of its first member, which edits of its own
fields do not reach. -/

namespace QueryTree

namespace Fields

def names (fs : Fields) : Entries String :=
  fs.entries.map fun e => (e.1, e.2.outputName e.1)

def AllVisible (fs : Fields) : Prop :=
  ∀ e ∈ fs.entries, e.2.isVisible

lemma AllVisible.outputNames_eq {fs : Fields} (h : fs.AllVisible) : fs.outputNames = fs.names.map Prod.snd := by
  rw [outputNames, visible, List.filter_eq_self.2 h, names, List.map_map]
  rfl

lemma names_modify {key : String} {change : Field → Field} {n : String → String}
    (h : ∀ f, (change f).outputName key = n (f.outputName key)) (fs : Fields) :
    (fs.modify key change).names = fs.names.modify key n :=
  Entries.map_modify (g := fun (key : String) (f : Field) => f.outputName key) h fs.entries

lemma names_erase (fs : Fields) (key : String) : (fs.erase key).names = fs.names.erase key :=
  Entries.map_erase (fun (key : String) (f : Field) => f.outputName key) fs.entries key

lemma keys_names (fs : Fields) : fs.names.keys = fs.keys := by
  simp [names, keys, Entries.keys, Function.comp_def]

lemma keys_ofList (es : List (String × Field)) : (ofList es).keys = (es.map Prod.fst).eraseDups := by
  rw [keys, entries_ofList]
  exact @Entries.keys_putAll _ [] List.nodup_nil es

end Fields

namespace Sql.Columns

lemma length_types_ofFields (types : CastTypes) (fs : Fields) :
    (ofFields types fs).types.length = (ofFields types fs).aliases.length := by
  rw [types_ofFields, aliases_ofFields, Fields.outputNames, List.length_map, List.length_map]

end Sql.Columns

namespace Document

open Sql

/-- The columns of the rows of a query. Those of a union are the columns of its first member. -/
def outputColumns : Document → List String
  | table b _ | subquery b _ | join b _ _ => b.fields.outputNames
  | union _ first _ => outputColumns first

lemma outputColumns_of_not_union {d : Document} (h : d.isUnion = false) : d.outputColumns = d.fields.outputNames := by
  cases d with
  | union => cases h
  | table | subquery | join => rfl

def SelectsColumns (d : Document) (columns : List String) : Prop :=
  ∃ (e : Document) (rest : List Token), e.isUnion = false ∧ d.tokens = headTokens (.ofBlock e.block) ++ rest ∧
    columns = e.fields.outputNames

lemma selectsColumns_outputColumns (d : Document) : d.SelectsColumns d.outputColumns := by
  induction d using childInduction with
  | node d ih =>
    cases d with
    | union b first members =>
      obtain ⟨e, rest, he, htokens, hcolumns⟩ := ih first List.mem_cons_self
      refine ⟨e, rest ++ memberTokens members ++ endTokens b, he, ?_, hcolumns⟩
      rw [tokens, htokens]
      simp only [List.append_assoc]
    | table | subquery | join => exact ⟨_, _, rfl, tokens_eq rfl, rfl⟩

end Document

namespace Frame

open Sql (CreateTable Insert)

variable {f g : Frame}

def createdTable (f : Frame) (table : String) (schema : Option String) : Option CreateTable :=
  f.rootColumns.map fun c => (CreateTable.ofColumns table c).withSchema (schema.getD "")

def insertion [Sql.Formatter] (f : Frame) (table : String) (schema : Option String) : Option Insert :=
  f.rootColumns.map fun c => ((Insert.withSchema { table } (schema.getD "")).withColumns c.aliases).withQuery f.sqlText

structure Reports [Sql.Formatter] (f : Frame) (columns : List String) : Prop where
  columnTexts : f.render.columns.map (·.aliases) = some columns
  createTable : ∀ table schema, ∃ t, f.createdTable table schema = some t ∧
    f.createTableSql table schema = .ok t.sql ∧ t.columns.map (·.name) = columns
  insertInto : ∀ table schema, ∃ s, f.insertion table schema = some s ∧
    f.insertIntoSql table schema = .ok s.sql ∧ s.columns = columns

lemma map_name_ofColumns (table : String) (types : CastTypes) (fs : Fields) :
    (CreateTable.ofColumns table (.ofFields types fs)).columns.map (·.name) = fs.outputNames := by
  let c := Sql.Columns.ofFields types fs
  have hlength : c.aliases.length ≤ c.types.length := Nat.le_of_eq (Sql.Columns.length_types_ofFields types fs).symm
  calc
    (c.aliases.zipWith Sql.ColumnDefinition.mk c.types).map (·.name) = (c.aliases.zip c.types).map Prod.fst := by
      rw [List.zip, List.map_zipWith, List.map_zipWith]
    _ = c.aliases := List.map_fst_zip hlength
    _ = fs.outputNames := Sql.Columns.aliases_ofFields types fs

lemma reports_iff [Sql.Formatter] {d : Document} (hd : f.document = some d) {columns : List String} :
    f.Reports columns ↔ d.fields.outputNames = columns := by
  let c := Sql.Columns.ofFields f.settings.types d.fields
  have hroot : f.rootColumns = some c := by
    rw [rootColumns, hd]
    rfl
  have hrender : f.render.columns = some c := hroot
  have haliases : c.aliases = d.fields.outputNames := Sql.Columns.aliases_ofFields ..
  constructor
  · rintro ⟨hcolumns, -, -⟩
    rw [hrender, Option.map_some, haliases] at hcolumns
    exact Option.some.inj hcolumns
  · rintro rfl
    refine ⟨by rw [hrender, Option.map_some, haliases], ?_, ?_⟩
    · intro table schema
      have hcreated : f.createdTable table schema =
          some ((CreateTable.ofColumns table c).withSchema (schema.getD "")) := by
        rw [createdTable, hroot, Option.map_some]
      refine ⟨_, hcreated, ?_, map_name_ofColumns table f.settings.types d.fields⟩
      rw [createTableSql, hrender]
    · intro table schema
      have hinsertion : f.insertion table schema =
          some (((Insert.withSchema { table } (schema.getD "")).withColumns c.aliases).withQuery f.sqlText) := by
        rw [insertion, hroot, Option.map_some]
      refine ⟨_, hinsertion, ?_, haliases⟩
      rw [insertIntoSql, hrender]
      rfl

def Call.editNames (names : Entries String) : Call → Entries String
  | .rename changes =>
    changes.foldl (fun es c => es.modify c.1 fun _ => Field.nonemptyOr (some (Alias.normalize c.2)) c.1) names
  | .remove keys => keys.foldl Entries.erase names
  | _ => names

lemma names_changeFields_alias (changes : List (String × String)) (fs : Fields) :
    (changeFields (changes.map fun c => (c.1, (·.withAlias c.2))) fs).1.names =
      (Call.rename changes).editNames fs.names := by
  simp only [changeFields, Call.editNames, List.foldl_map]
  induction changes generalizing fs with
  | nil => rfl
  | cons c changes ih =>
    rw [List.foldl_cons, List.foldl_cons, ih, Fields.names_modify]
    exact fun f => rfl

lemma names_changeFields {changes : List (String × (Field → Field))}
    (h : ∀ c ∈ changes, ∀ f, (c.2 f).outputName c.1 = f.outputName c.1) (fs : Fields) :
    (changeFields changes fs).1.names = fs.names := by
  simp only [changeFields]
  induction changes generalizing fs with
  | nil => rfl
  | cons c changes ih =>
    obtain ⟨hc, hchanges⟩ := List.forall_mem_cons.1 h
    rw [List.foldl_cons, ih hchanges, Fields.names_modify (n := fun s => s) hc, Entries.modify_id]

lemma names_removeFields (keys : List String) (fs : Fields) :
    (removeFields keys fs).1.names = (Call.remove keys).editNames fs.names := by
  simp only [Call.editNames]
  induction keys generalizing fs with
  | nil => rfl
  | cons key keys ih =>
    rw [removeFields, List.foldl_cons]
    split
    · rw [ih, Fields.names_erase]
    · next hkey =>
      have hnone : key ∉ fs.names.keys := by
        rw [Fields.keys_names]
        exact fun hmem => hkey (Entries.contains_iff.2 hmem)
      rw [Entries.erase_of_not_mem hnone]
      exact ih fs

def Call.EditsUnion (c : Call) (d : Document) (g : Frame) : Prop :=
  ∃ k : Block → Block, g.document = some (d.mapBlock k) ∧ (k d.block).fields.AllVisible ∧
    (k d.block).fields.names = c.editNames d.fields.names

section

variable {c : Call} {d : Document}

lemma document_edit_skipped (hd : f.document = some d) (hunion : d.isUnion = true) (op : Operation)
    (k : Document → Document × List Notice) : (f.edit op .skipped k).document = some d := by
  rw [document_edit, hd]
  simp [hunion]

lemma Call.editsUnion_of_same (hg : g.document = some d) (hvisible : d.fields.AllVisible)
    (hnames : c.editNames d.fields.names = d.fields.names) : c.EditsUnion d g :=
  ⟨fun b => b, by rw [hg, d.mapBlock_id], hvisible, hnames.symm⟩

lemma Call.editsUnion_of_fields (k : Fields → Fields) (hd : f.document = some d)
    (hg : g.document = f.document.map (·.mapFields k)) (hvisible : (k d.fields).AllVisible)
    (hnames : (k d.fields).names = c.editNames d.fields.names) : c.EditsUnion d g :=
  ⟨fun b => { b with fields := k b.fields }, by rw [hg, hd]; rfl, hvisible, hnames⟩

lemma editsUnion_rename (hd : f.document = some d) (hvisible : d.fields.AllVisible)
    (names : List (String × String)) : (Call.rename names).EditsUnion d (f.rename names) := by
  let changes := names.map fun n => (n.1, fun field : Field => field.withAlias n.2)
  refine Call.editsUnion_of_fields (fun fs => (changeFields changes fs).1) hd (document_edit_allowed ..) ?_
    (names_changeFields_alias names d.fields)
  apply forall_changeFields (q := fun e => e.2.isVisible) hvisible
  intro c hc field hfield
  obtain ⟨n, -, rfl⟩ := List.mem_map.1 hc
  exact hfield

lemma editsUnion_remove (hd : f.document = some d) (hvisible : d.fields.AllVisible) (keys : List String) :
    (Call.remove keys).EditsUnion d (f.remove keys) := by
  refine Call.editsUnion_of_fields _ hd (document_editFields_allowed ..) ?_ (names_removeFields keys d.fields)
  exact forall_removeFields (q := fun e => e.2.isVisible) hvisible keys

lemma editsUnion_orderBy (hd : f.document = some d) (hvisible : d.fields.AllVisible) {keys : List String}
    {ascending : List Bool} (h : f.orderBy keys ascending = .ok g) : (Call.orderBy keys ascending).EditsUnion d g := by
  obtain ⟨-, rfl⟩ := orderBy_eq_ok_iff.1 h
  refine Call.editsUnion_of_fields _ hd (document_editFields_allowed ..) ?_ ?_
  · apply forall_changeFields (q := fun e => e.2.isVisible) hvisible
    intro c hc field hfield
    obtain ⟨i, hi, rfl⟩ := List.mem_iff_getElem.1 hc
    rw [List.getElem_zipWith]
    exact hfield
  · apply names_changeFields
    intro c hc field
    obtain ⟨i, hi, rfl⟩ := List.mem_iff_getElem.1 hc
    rw [List.getElem_zipWith]
    rfl

lemma editsUnion_limit (hd : f.document = some d) (hvisible : d.fields.AllVisible) (n : UInt64) :
    (Call.limit n).EditsUnion d (f.limit n) := by
  refine ⟨fun b => { b with limit := some n }, ?_, hvisible, rfl⟩
  rw [limit, editBlock, document_edit_allowed, hd]
  rfl

lemma Call.run_of_union (hd : f.document = some d) (hunion : d.isUnion = true) (hvisible : d.fields.AllVisible)
    (hselect : ∀ keys, c ≠ .select keys) (h : c.run f = .ok g) : c.EditsUnion d g := by
  cases c with
  | rename names =>
    cases h
    exact editsUnion_rename hd hvisible names
  | remove keys =>
    cases h
    exact editsUnion_remove hd hvisible keys
  | orderBy keys ascending => exact editsUnion_orderBy hd hvisible h
  | limit n =>
    cases h
    exact editsUnion_limit hd hvisible n
  | assign type group fields =>
    obtain ⟨-, rfl⟩ := assign_eq_ok_iff.1 h
    exact editsUnion_of_same (document_edit_skipped hd hunion ..) hvisible rfl
  | groupBy keys =>
    obtain ⟨-, rfl⟩ := groupBy_eq_ok_iff.1 h
    exact editsUnion_of_same (document_edit_skipped hd hunion ..) hvisible rfl
  | aggregate a =>
    obtain ⟨-, rfl⟩ := aggregate_eq_ok_iff.1 h
    exact editsUnion_of_same (document_edit_skipped hd hunion ..) hvisible rfl
  | pick keys =>
    cases h
    exact editsUnion_of_same hd hvisible rfl
  | distinct | filter | query | having =>
    cases h
    exact editsUnion_of_same (document_edit_skipped hd hunion ..) hvisible rfl
  | select keys => exact absurd rfl (hselect keys)

end

lemma Call.run_of_not_union {c : Call} {d : Document} (hd : f.document = some d) (hunion : d.isUnion = false)
    (h : c.run f = .ok g) : ∃ e, g.document = some e ∧ e.isUnion = false := by
  rcases c.editsBlock_or_select h with ⟨k, hg⟩ | ⟨keys, -, rfl⟩
  · exact ⟨d.mapBlock (k d), by rw [hg, hd, Option.map_some], by rw [Document.isUnion_mapBlock, hunion]⟩
  · exact ⟨_, by rw [document_select, hd, Option.map_some], rfl⟩

lemma runAll_of_not_union {cs : List Call} {d : Document} (hd : f.document = some d) (hunion : d.isUnion = false)
    (h : f.runAll cs = .ok g) : ∃ e, g.document = some e ∧ e.isUnion = false := by
  induction cs generalizing f d with
  | nil =>
    cases h
    exact ⟨d, hd, hunion⟩
  | cons c cs ih =>
    obtain ⟨f', hc, hcs⟩ := runAll_cons_eq_ok_iff.1 h
    obtain ⟨e, he, hunion⟩ := c.run_of_not_union hd hunion hc
    exact ih he hunion hcs

lemma runAll_of_union_of_select {cs : List Call} {d : Document} (hd : f.document = some d) {keys : List String}
    (hselect : .select keys ∈ cs) (h : f.runAll cs = .ok g) : ∃ e, g.document = some e ∧ e.isUnion = false := by
  induction cs generalizing f d with
  | nil => cases hselect
  | cons c cs ih =>
    obtain ⟨f', hc, hcs⟩ := runAll_cons_eq_ok_iff.1 h
    rcases List.mem_cons.1 hselect with rfl | hselect
    · cases hc
      exact runAll_of_not_union (by rw [document_select, hd, Option.map_some]) rfl hcs
    · rcases c.editsBlock_or_select hc with ⟨k, hf'⟩ | ⟨keys, -, rfl⟩
      · exact ih (by rw [hf', hd, Option.map_some]) hselect hcs
      · exact ih (by rw [document_select, hd, Option.map_some]) hselect hcs

lemma runAll_of_union {cs : List Call} {b : Block} {first : Document} {members : List (UnionType × Document)}
    (hd : f.document = some (.union b first members)) (hvisible : b.fields.AllVisible)
    (hselect : ∀ keys, .select keys ∉ cs) (h : f.runAll cs = .ok g) :
    ∃ b', g.document = some (.union b' first members) ∧ b'.fields.AllVisible ∧
      b'.fields.names = cs.foldl Call.editNames b.fields.names := by
  induction cs generalizing f b with
  | nil =>
    cases h
    exact ⟨b, hd, hvisible, rfl⟩
  | cons c cs ih =>
    obtain ⟨f', hc, hcs⟩ := runAll_cons_eq_ok_iff.1 h
    have hfirst : ∀ keys, c ≠ .select keys := fun keys he => hselect keys (he ▸ List.mem_cons_self)
    have hrest : ∀ keys, .select keys ∉ cs := fun keys hmem => hselect keys (List.mem_cons_of_mem c hmem)
    obtain ⟨k, hf', hkvisible, hknames⟩ := c.run_of_union hd rfl hvisible hfirst hc
    obtain ⟨b', hg, hb', hnames⟩ := ih hf' hkvisible hrest hcs
    have hedited : (k b).fields.names = c.editNames b.fields.names := hknames
    exact ⟨b', hg, hb', by rw [hnames, hedited, List.foldl_cons]⟩

lemma asName_unionFields (fs : Fields) : ∀ e ∈ (unionFields fs).entries, e.2.asName = none ∧ e.2.isVisible := by
  apply Fields.forall_ofList (q := fun e => e.2.asName = none ∧ e.2.isVisible)
  intro e he
  obtain ⟨m, -, rfl⟩ := List.mem_map.1 he
  exact ⟨rfl, rfl⟩

lemma names_unionFields (fs : Fields) : (unionFields fs).names = fs.outputNames.eraseDups.map fun n => (n, n) := by
  have hkeys : (unionFields fs).keys = fs.outputNames.eraseDups := by
    rw [unionFields, Fields.keys_ofList, List.map_map]
    rfl
  rw [← hkeys, Fields.keys, Entries.keys, List.map_map]
  apply List.map_congr_left
  intro e he
  rw [Field.outputName, (asName_unionFields fs e he).1]
  rfl

lemma reports_of_not_union [Sql.Formatter] {d : Document} (hd : f.document = some d) (hunion : d.isUnion = false) :
    f.Reports d.outputColumns :=
  (reports_iff hd).2 (d.outputColumns_of_not_union hunion).symm

/-- What a frame made by a join reports is the columns that its query selects, whatever calls follow. After a union it
is so exactly if a call selects, or if the names of the first member, each once, are edited to the columns of that
member. -/
theorem reports_outputColumns_iff [Sql.Formatter] {fs : List Frame} {cs : List Call} (hrun : f.runAll cs = .ok g) :
    (∀ types on unique, join fs types on unique = .ok f →
      ∃ d, g.document = some d ∧ d.SelectsColumns d.outputColumns ∧ g.Reports d.outputColumns) ∧
    (∀ types, union fs types = .ok f → ∃ first rest d, documents .union fs = .ok (first :: rest) ∧
      g.document = some d ∧ d.SelectsColumns d.outputColumns ∧
      (g.Reports d.outputColumns ↔ (∃ keys, .select keys ∈ cs) ∨
        (cs.foldl Call.editNames (first.fields.outputNames.eraseDups.map fun n => (n, n))).map Prod.snd =
          first.outputColumns)) := by
  constructor
  · intro types on unique hmade
    obtain ⟨-, -, left, rest, -, hf⟩ := document_of_join hmade
    obtain ⟨d, hd, hunion⟩ := runAll_of_not_union hf rfl hrun
    exact ⟨d, hd, d.selectsColumns_outputColumns, reports_of_not_union hd hunion⟩
  · intro types hmade
    obtain ⟨-, first, rest, hfirst, hf⟩ := document_of_union hmade
    by_cases hselect : ∃ keys, Call.select keys ∈ cs
    · obtain ⟨keys, hkeys⟩ := hselect
      obtain ⟨d, hd, hunion⟩ := runAll_of_union_of_select hf hkeys hrun
      refine ⟨first, rest, d, hfirst, hd, d.selectsColumns_outputColumns, ?_⟩
      exact iff_of_true (reports_of_not_union hd hunion) (.inl ⟨keys, hkeys⟩)
    · have hvisible : (unionFields first.fields).AllVisible := fun e he => (asName_unionFields _ e he).2
      obtain ⟨b, hg, hb, hnames⟩ := runAll_of_union hf hvisible (not_exists.1 hselect) hrun
      refine ⟨first, rest, _, hfirst, hg, Document.selectsColumns_outputColumns _, ?_⟩
      rw [reports_iff hg, Document.fields, Document.block, hb.outputNames_eq, hnames, names_unionFields,
        or_iff_right hselect, Document.outputColumns]

def fieldsXY : Fields :=
  .ofList [("x", { type := .dimension }), ("y", { type := .numeric })]

def tableXY (table : String) : Document :=
  .table { fields := fieldsXY } { table }

def unionXY : Frame where
  document := some (.union { fields := fieldsXY } (tableXY "a") [(.all, tableXY "b")])
  settings := .raw

lemma union_tableXY : union [{ document := some (tableXY "a"), settings := .raw },
    { document := some (tableXY "b"), settings := .raw }] [.all] = .ok unionXY := by
  rfl

theorem reports_outputColumns_sortedUnion :
    let cs : List Call := [.orderBy ["x"] [false], .limit 10, .rename [("y", " y ")], .remove ["z"], .distinct]
    ∃ g d, unionXY.runAll cs = .ok g ∧ g.document = some d ∧ g.Reports d.outputColumns := by
  intro cs
  obtain ⟨g, hg⟩ : ∃ g, unionXY.runAll cs = .ok g := ⟨_, rfl⟩
  obtain ⟨first, rest, d, hfirst, hd, -, hreports⟩ := (reports_outputColumns_iff hg).2 [.all] union_tableXY
  obtain ⟨rfl, -⟩ : tableXY "a" = first ∧ [tableXY "b"] = rest := List.cons.inj (Except.ok.inj hfirst)
  refine ⟨g, d, hg, hd, hreports.2 (.inr ?_)⟩
  decide +kernel

/-- A column removed from a union is not named in the insertion, but still selected. -/
theorem insertIntoSql_remove_unionXY : (∃ fs types, union fs types = .ok unionXY) ∧
    ∃ d, (unionXY.remove ["x"]).document = some d ∧ d.outputColumns = ["x", "y"] ∧
      ¬ (unionXY.remove ["x"]).Reports d.outputColumns ∧ (unionXY.remove ["x"]).insertIntoSql "t" none =
        .ok "INSERT INTO t (y) SELECT x, y FROM a UNION ALL SELECT x, y FROM b" := by
  refine ⟨⟨_, _, union_tableXY⟩, _, rfl, by decide +kernel, ?_, by decide +kernel⟩
  rw [reports_iff rfl]
  decide +kernel

end Frame

end QueryTree
