import QueryTree.Proofs.Frame.OutputColumns
/-! What frames answer when they are asked for SQL. The document decides, with its fields in their order, and of the
settings the layout of the text and the types of the columns. What was picked, rendered or noticed before decides
nothing, and asking leaves the document as it is. -/

namespace QueryTree

def Sql.Columns.untyped (c : Sql.Columns) : Sql.Columns :=
  { c with types := [] }

lemma Sql.Columns.untyped_ofFields (types types' : CastTypes) (fs : Fields) :
    (ofFields types fs).untyped = (ofFields types' fs).untyped := by
  simp only [untyped, names_ofFields, aliases_ofFields, dimensions_ofFields, values_ofFields, order_ofFields]

namespace Frame

open Sql (CreateTable)

variable {f g : Frame}

inductive Ask where
  | text
  | columns
  | createTable (table : String) (schema : Option String)
  | insertInto (table : String) (schema : Option String)

inductive Answer where
  | text (sql : String)
  | columns (c : Option Sql.Columns)
  | statement (sql : Except Error String)

def answer [Sql.Formatter] (f : Frame) : Ask → Answer
  | .text => .text f.render.rendered
  | .columns => .columns f.render.columns
  | .createTable table schema => .statement (f.createTableSql table schema)
  | .insertInto table schema => .statement (f.insertIntoSql table schema)

def answerAll [Sql.Formatter] (f : Frame) : List Ask → List Answer × Frame
  | [] => ([], f)
  | a :: as => (f.answer a :: (f.render.answerAll as).1, (f.render.answerAll as).2)

/-- Answers to a question that differ in the types of columns alone. -/
inductive Ask.Alike : Ask → Answer → Answer → Prop
  | same (a : Ask) (x : Answer) : Alike a x x
  | columns {c d : Option Sql.Columns} (untyped : c.map (·.untyped) = d.map (·.untyped)) :
      Alike .columns (.columns c) (.columns d)
  | createTable {table : String} {schema : Option String} {t u : CreateTable} (schemas : t.schema = u.schema)
      (names : t.name = u.name) (columns : t.columns.map (·.name) = u.columns.map (·.name)) :
      Alike (.createTable table schema) (.statement (.ok t.sql)) (.statement (.ok u.sql))

section

variable [Sql.Formatter]

lemma sqlText_of_disabled (h : f.settings.layout.enabled = false) :
    f.sqlText = (f.document.map Document.sql).getD "" := by
  cases hd : f.document <;> simp [sqlText, hd, Sql.layout, h]

lemma answer_congr (htext : f.sqlText = g.sqlText) (hcolumns : f.rootColumns = g.rootColumns) (a : Ask) :
    f.answer a = g.answer a := by
  cases a with
  | text => exact congrArg Answer.text htext
  | columns => exact congrArg Answer.columns hcolumns
  | createTable table schema => simp only [answer, createTableSql, render, hcolumns]
  | insertInto table schema => simp only [answer, insertIntoSql, render, htext, hcolumns]

lemma answer_render (f : Frame) (a : Ask) : f.render.answer a = f.answer a :=
  answer_congr rfl rfl a

lemma alike_answer (hdocument : f.document = g.document) (htext : f.sqlText = g.sqlText) (a : Ask) :
    a.Alike (f.answer a) (g.answer a) := by
  cases hd : f.document with
  | none =>
    -- without columns no statement is made, for the same reason on both sides
    have hcolumns : f.rootColumns = g.rootColumns := by rw [rootColumns, rootColumns, ← hdocument, hd]; rfl
    rw [answer_congr htext hcolumns a]
    exact .same a _
  | some d =>
    have hf : f.rootColumns = some (.ofFields f.settings.types d.fields) := by rw [rootColumns, hd]; rfl
    have hg : g.rootColumns = some (.ofFields g.settings.types d.fields) := by rw [rootColumns, ← hdocument, hd]; rfl
    cases a with
    | text =>
      simp only [answer, render, htext]
      exact .same _ _
    | columns =>
      refine .columns ?_
      simp only [render, hf, hg, Option.map_some, Sql.Columns.untyped_ofFields f.settings.types g.settings.types]
    | createTable table schema =>
      simp only [answer, createTableSql, render, hf, hg]
      refine .createTable rfl rfl ?_
      exact (map_name_ofColumns table _ d.fields).trans (map_name_ofColumns table _ d.fields).symm
    | insertInto table schema =>
      simp only [answer, insertIntoSql, render, hf, hg, htext, Sql.Columns.aliases_ofFields]
      exact .same _ _

lemma answerAll_eq (f : Frame) (asks : List Ask) : (f.answerAll asks).1 = asks.map f.answer ∧
    { (f.answerAll asks).2 with rendered := f.rendered, columns := f.columns } = f := by
  induction asks generalizing f with
  | nil => exact ⟨rfl, rfl⟩
  | cons a asks ih =>
    obtain ⟨hanswers, hframe⟩ := ih f.render
    constructor
    · rw [answerAll, hanswers, List.map_cons, funext f.answer_render]
    · have hleft := congrArg (fun g : Frame => { g with rendered := f.rendered, columns := f.columns }) hframe
      exact hleft

end

def draft (f : Frame) : Option Document × List String :=
  (f.document, f.picked)

lemma picked_edit (f : Frame) (op : Operation) (rule : UnionRule) (k : Document → Document × List Notice) :
    (f.edit op rule k).picked = f.picked := by
  rw [edit]
  split
  · rfl
  · split <;> rfl

lemma draft_edit_congr (h : f.draft = g.draft) (op : Operation) (rule : UnionRule)
    (k : Document → Document × List Notice) : (f.edit op rule k).draft = (g.edit op rule k).draft := by
  obtain ⟨hdocument, hpicked⟩ := Prod.mk.inj h
  rw [draft, draft, document_edit, document_edit, picked_edit, picked_edit, hdocument, hpicked]

lemma pickedTypes_congr (h : f.draft = g.draft) : f.pickedTypes = g.pickedTypes := by
  obtain ⟨hdocument, hpicked⟩ := Prod.mk.inj h
  rw [pickedTypes, pickedTypes, hdocument, hpicked]

lemma draft_select_congr (h : f.draft = g.draft) (keys : List String) : (f.select keys).draft = (g.select keys).draft := by
  have hedit := draft_edit_congr h .select .allowed fun d =>
    (.subquery { fields := (selectFields d.fields keys .empty).1 } d, (selectFields d.fields keys .empty).2)
  have hempty : f.isEmpty = g.isEmpty := congrArg (fun p => p.1.isNone) h
  simp only [select, hempty]
  split
  · exact hedit
  · exact congrArg (fun p => (p.1, [])) hedit

lemma Call.draft_congr (c : Call) (h : f.draft = g.draft) : (c.run f).map draft = (c.run g).map draft := by
  obtain ⟨hdocument, hpicked⟩ := Prod.mk.inj h
  cases c with
  | rename | remove | distinct | limit | filter | query | having => exact congrArg Except.ok (draft_edit_congr h ..)
  | assign type group fields =>
    simp only [Call.run, Frame.assign]
    split
    · rfl
    · exact congrArg Except.ok (draft_edit_congr h ..)
  | groupBy keys =>
    simp only [Call.run, Frame.groupBy, hdocument]
    split
    · rfl
    · exact congrArg Except.ok (draft_edit_congr h ..)
  | pick keys => exact congrArg (fun d => Except.ok (d, keys)) hdocument
  | aggregate a =>
    simp only [Call.run, Frame.aggregate, pickedTypes_congr h, hpicked]
    split
    · rfl
    · exact congrArg Except.ok (draft_edit_congr h ..)
  | orderBy keys ascending =>
    simp only [Call.run, Frame.orderBy]
    split
    · rfl
    · exact congrArg Except.ok (draft_edit_congr h ..)
  | select keys => exact congrArg Except.ok (draft_select_congr h keys)

inductive Step where
  | call (c : Call)
  | ask (a : Ask)
  | settings (s : Settings)
  | takeNotices

def Step.run [Sql.Formatter] (f : Frame) : Step → Except Error Frame
  | .call c => c.run f
  | .ask a => .ok (f.answerAll [a]).2
  | .settings s => .ok (f.withSettings s)
  | .takeNotices => .ok f.takeNotices.2

def Step.call? : Step → Option Call
  | .call c => some c
  | _ => none

def runSteps [Sql.Formatter] (f : Frame) (steps : List Step) : Except Error Frame :=
  steps.foldlM Step.run f

lemma draft_runSteps [Sql.Formatter] (steps : List Step) (h : f.draft = g.draft) :
    (f.runSteps steps).map draft = (g.runAll (steps.filterMap Step.call?)).map draft := by
  induction steps generalizing f g with
  | nil => exact congrArg Except.ok h
  | cons step steps ih =>
    cases step with
    | call c =>
      simp only [runSteps, runAll, Step.call?, List.filterMap_cons, List.foldlM_cons]
      exact map_bind_congr (c.draft_congr h) fun _ _ => ih
    -- what is asked, set or taken is no part of a draft
    | ask | settings | takeNotices => exact ih h

/-- Frames with one document give the same answers once their texts are not laid out, up to the types of columns if
these are set differently. Questions change no answer, and among the steps that led to a frame only its calls matter. -/
theorem answers_follow_document [Sql.Formatter] :
    (∀ f g : Frame, f.document = g.document → f.settings.layout.enabled = false → g.settings.layout.enabled = false →
      (∀ a : Ask, a.Alike (f.answer a) (g.answer a)) ∧
        (f.settings.types = g.settings.types → ∀ a, f.answer a = g.answer a)) ∧
    (∀ (f : Frame) (asks : List Ask), (f.answerAll asks).1 = asks.map f.answer ∧
      { (f.answerAll asks).2 with rendered := f.rendered, columns := f.columns } = f) ∧
    ∀ (f : Frame) (steps : List Step),
      (f.runSteps steps).map draft = (f.runAll (steps.filterMap Step.call?)).map draft := by
  refine ⟨?_, answerAll_eq, fun f steps => draft_runSteps steps rfl⟩
  intro f g hdocument hf hg
  have htext : f.sqlText = g.sqlText := by rw [sqlText_of_disabled hf, sqlText_of_disabled hg, hdocument]
  refine ⟨alike_answer hdocument htext, ?_⟩
  intro htypes
  apply answer_congr htext
  rw [rootColumns, rootColumns, hdocument, htypes]

def rawXY : Frame where
  document := some (tableXY "t")
  settings := .raw

theorem answers_follow_document_realXY :
    let real : Settings := { Settings.raw with types := { numeric := "REAL" } }
    let steps : List Step := [.settings {}, .ask .text, .call (.pick ["x"]), .call (.remove ["z"]), .ask .columns,
      .settings real]
    ∃ g, rawXY.runSteps steps = .ok g ∧ g.notices = [.unknownField .remove "z"] ∧
      (∀ a : Ask, a.Alike (rawXY.answer a) (g.answer a)) ∧
      (∀ a, rawXY.answer a = (g.withSettings .raw).answer a) ∧
      g.answer (.createTable "c" none) = .statement (.ok "CREATE TABLE c (x VARCHAR(500), y REAL)") := by
  intro real steps
  refine ⟨_, rfl, rfl, ?_, ?_, ?_⟩
  · refine (answers_follow_document.1 rawXY _ ?_ ?_ ?_).1 <;> rfl
  · refine (answers_follow_document.1 rawXY _ ?_ ?_ ?_).2 ?_ <;> rfl
  · exact congrArg Answer.statement (by decide +kernel)

end Frame

end QueryTree
