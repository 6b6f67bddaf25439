import QueryTree.Proofs.Frame.OutputColumns
/-! Edits of fields. An edit changes the fields that its keys name, each in one attribute, and nothing else of the frame
but the notices; keys that name no field when their turn comes are told in their order. -/

namespace QueryTree

lemma Fields.contains_iff {fs : Fields} {key : String} : fs.contains key = true ↔ key ∈ fs.keys :=
  Entries.contains_iff

namespace Frame

variable {f g : Frame}

/-- The fields after each of `given` was set under its key: of several values for one key the last one counts. -/
structure Overwrites {α : Type} (set : α → Field → Field) (given : List (String × α)) (old new : Fields) : Prop where
  keys : new.keys = old.keys
  fields : ∀ key, new.get? key = (old.get? key).map fun field =>
    match Entries.get? given.reverse key with
    | some v => set v field
    | none => field

lemma keys_changeFields (changes : List (String × (Field → Field))) (fs : Fields) :
    (changeFields changes fs).1.keys = fs.keys := by
  simp only [changeFields]
  induction changes generalizing fs with
  | nil => rfl
  | cons c changes ih => rw [List.foldl_cons, ih, Fields.keys_modify]

lemma missing_changeFields (changes : List (String × (Field → Field))) (fs : Fields) :
    (changeFields changes fs).2 = (changes.map Prod.fst).filter fun key => decide (key ∉ fs.keys) := by
  apply List.filter_congr
  intro key _
  rw [Bool.eq_iff_iff, Bool.not_eq_true', decide_eq_true_iff, ← Bool.not_eq_true]
  exact not_congr Fields.contains_iff

lemma overwrites_changeFields {α : Type} (set : α → Field → Field)
    (hset : ∀ v w field, set v (set w field) = set v field) (given : List (String × α)) (fs : Fields) :
    Overwrites set given fs (changeFields (given.map fun m => (m.1, set m.2)) fs).1 := by
  refine ⟨keys_changeFields _ fs, fun key => ?_⟩
  simp only [changeFields, List.foldl_map]
  induction given generalizing fs with
  | nil => exact Option.map_id'.symm
  | cons m given ih =>
    obtain ⟨k, v⟩ := m
    rw [List.foldl_cons, ih, Fields.get?_modify, List.reverse_cons, Entries.get?_append, Entries.get?_cons]
    by_cases hk : k = key
    · -- a later value for the key wins over this one
      cases Entries.get? given.reverse key with
      | none => simp [hk, Function.comp_def]
      | some w => simp [hk, Function.comp_def, hset]
    · simp [hk]

/-- What an edit of fields makes of a frame: of the document only the fields differ, by `change`, and of the rest only
the notices, by one for each missing key, or by one for a frame that is empty or a union that may not be edited. -/
structure EditsFields (f g : Frame) (op : Operation) (rule : UnionRule) (change : Fields → Fields → Prop)
    (missing : Fields → List String) : Prop where
  empty : f.document = none → g = { f with notices := f.notices ++ [.emptyFrame op] }
  union : ∀ d, f.document = some d → d.isUnion = true → rule = .skipped →
    g = { f with notices := f.notices ++ [.unionSourced op] }
  edited : ∀ d, f.document = some d → (d.isUnion = true → rule = .allowed) → ∃ fs, change d.fields fs ∧
    g = { f with
      document := some (d.mapFields fun _ => fs)
      notices := f.notices ++ (missing d.fields).map (.unknownField op) }

lemma EditsFields.notices {op : Operation} {rule : UnionRule} {change : Fields → Fields → Prop}
    {missing : Fields → List String} (h : EditsFields f g op rule change missing) {d : Document}
    (hd : f.document = some d) (hrule : d.isUnion = true → rule = .allowed) :
    g.notices = f.notices ++ (missing d.fields).map (.unknownField op) := by
  obtain ⟨fs, -, rfl⟩ := h.edited d hd hrule
  rfl

lemma editsFields_editFields {op : Operation} {rule : UnionRule} {k : Fields → Fields × List String}
    {change : Fields → Fields → Prop} {missing : Fields → List String} (hchange : ∀ fs, change fs (k fs).1)
    (hmissing : ∀ fs, (k fs).2 = missing fs) : EditsFields f (f.editFields op rule k) op rule change missing := by
  refine ⟨?_, ?_, ?_⟩
  · intro hd
    simp only [editFields, edit]
    rw [hd]
    cases f
    cases hd
    rfl
  · rintro d hd hunion rfl
    simp [editFields, edit, hd, hunion, notify]
  · intro d hd hrule
    have hedited : (d.isUnion && decide (rule = .skipped)) = false := by
      rw [Bool.and_eq_false_imp, decide_eq_false_iff_not]
      rintro hunion rfl
      cases hrule hunion
    refine ⟨_, hchange d.fields, ?_⟩
    simp [editFields, edit, hd, hedited, notify, hmissing]

def missing (keys : List String) (old : Fields) : List String :=
  keys.filter fun key => decide (key ∉ old.keys)

lemma editsFields_changeFields {α : Type} (f : Frame) (op : Operation) (rule : UnionRule) (set : α → Field → Field)
    (hset : ∀ v w field, set v (set w field) = set v field) (given : List (String × α)) :
    EditsFields f (f.editFields op rule (changeFields (given.map fun m => (m.1, set m.2)))) op rule
      (Overwrites set given) (missing (given.map Prod.fst)) := by
  refine editsFields_editFields (overwrites_changeFields set hset given) fun fs => ?_
  rw [missing_changeFields, List.map_map]
  rfl

def salesDocument : Document :=
  .table
    { fields := .ofList [("region", .ofType .dimension), ("amount", .ofType .numeric)], filter := some "amount > 0" }
    { table := "sales" }

def sales : Frame where
  document := some salesDocument
  picked := ["amount", "year", "amount"]
  settings := .raw

end Frame

end QueryTree
