import QueryTree.Proofs.Frame.Reachable
/-! What calls do to documents. A call changes the block of the root, or makes the document the subquery of a new
root; of a union it changes only the output names, the order and the limit. -/

namespace QueryTree

namespace Document

lemma mapBlock_id (d : Document) : d.mapBlock (fun b => b) = d := by
  cases d <;> rfl

lemma isUnion_mapBlock (g : Block → Block) (d : Document) : (d.mapBlock g).isUnion = d.isUnion := by
  rw [isUnion, kind_mapBlock, isUnion]

end Document

namespace Frame

variable {f g : Frame}

def EditsBlock (f g : Frame) : Prop :=
  ∃ k : Document → Block → Block, g.document = f.document.map fun d => d.mapBlock (k d)

lemma editsBlock_edit (f : Frame) (op : Operation) (rule : UnionRule) (k : Document → Block → Block)
    (ns : Document → List Notice) : f.EditsBlock (f.edit op rule fun d => (d.mapBlock (k d), ns d)) := by
  refine ⟨fun d b => if d.isUnion && decide (rule = .skipped) then b else k d b, ?_⟩
  rw [document_edit]
  congr 1
  funext d
  by_cases hskipped : (d.isUnion && decide (rule = .skipped)) = true
  · simp only [if_pos hskipped, Document.mapBlock_id]
  · simp only [if_neg hskipped]

lemma editsBlock_editFields (f : Frame) (op : Operation) (rule : UnionRule) (k : Fields → Fields × List String) :
    f.EditsBlock (f.editFields op rule k) :=
  f.editsBlock_edit op rule _ _

lemma document_edit_allowed (f : Frame) (op : Operation) (k : Document → Document × List Notice) :
    (f.edit op .allowed k).document = f.document.map fun d => (k d).1 := by
  rw [document_edit]
  simp

lemma document_editFields_allowed (f : Frame) (op : Operation) (k : Fields → Fields × List String) :
    (f.editFields op .allowed k).document = f.document.map fun d => d.mapFields fun fs => (k fs).1 := by
  rw [editFields, document_edit_allowed]
  congr 1
  funext d
  cases d <;> rfl

lemma editBlock_of_not_union {d : Document} (hd : f.document = some d) (hunion : d.isUnion = false) (op : Operation)
    (rule : UnionRule) (k : Block → Block) : f.editBlock op rule k = { f with document := some (d.mapBlock k) } := by
  simp [editBlock, edit, hd, hunion, notify]

lemma document_select (f : Frame) (keys : List String) : (f.select keys).document =
    f.document.map fun d => .subquery { fields := (selectFields d.fields keys .empty).1 } d := by
  have hedit := document_edit_allowed f .select fun d =>
    (.subquery { fields := (selectFields d.fields keys .empty).1 } d, (selectFields d.fields keys .empty).2)
  rw [← hedit, select]
  simp only
  split <;> rfl

lemma Call.editsBlock_or_select {c : Call} (h : c.run f = .ok g) :
    f.EditsBlock g ∨ ∃ keys, c = .select keys ∧ g = f.select keys := by
  cases c with
  | rename names =>
    cases h
    exact .inl (f.editsBlock_edit ..)
  | remove keys =>
    cases h
    exact .inl (f.editsBlock_editFields ..)
  | assign type group fields =>
    obtain ⟨-, rfl⟩ := assign_eq_ok_iff.1 h
    exact .inl (f.editsBlock_editFields ..)
  | groupBy keys =>
    obtain ⟨-, rfl⟩ := groupBy_eq_ok_iff.1 h
    exact .inl (f.editsBlock_editFields ..)
  | pick keys =>
    cases h
    exact .inl ⟨fun _ b => b, by simp [Frame.pick, Document.mapBlock_id]⟩
  | aggregate a =>
    obtain ⟨-, rfl⟩ := aggregate_eq_ok_iff.1 h
    exact .inl (f.editsBlock_editFields ..)
  | orderBy keys ascending =>
    obtain ⟨-, rfl⟩ := orderBy_eq_ok_iff.1 h
    exact .inl (f.editsBlock_editFields ..)
  | distinct | limit | filter | query | having =>
    cases h
    exact .inl (f.editsBlock_edit ..)
  | select keys =>
    cases h
    exact .inr ⟨keys, rfl, rfl⟩

def runAll (f : Frame) (cs : List Call) : Except Error Frame :=
  cs.foldlM Call.run f

lemma runAll_cons_eq_ok_iff {c : Call} {cs : List Call} :
    f.runAll (c :: cs) = .ok g ↔ ∃ h, c.run f = .ok h ∧ h.runAll cs = .ok g := by
  rw [runAll, List.foldlM_cons]
  exact bind_eq_ok_iff

end Frame

end QueryTree
