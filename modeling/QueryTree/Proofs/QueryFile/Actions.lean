import QueryTree.Proofs.Files
import QueryTree.Proofs.Json.ReadBack
import QueryTree.QueryFile
/-! Loading and storing as steps on the files: loading changes nothing, storing changes nothing if it fails,
and what both do to a file whose labels are known. -/

namespace QueryTree.QueryFile

namespace Action

variable {α β : Type}

lemma run_bind (a : Action α) (f : α → Action β) (fs : Files) :
    (a >>= f).run fs = match a.run fs with
      | (.ok x, fs) => (f x).run fs
      | (.error e, fs) => (.error e, fs) := by
  rw [run, ExceptT.run_bind, StateT.run_bind]
  cases h : a.run fs with
  | mk outcome fs' =>
    rw [run] at h
    rw [h]
    cases outcome <;> rfl

@[simp] lemma run_pure (x : α) (fs : Files) : (pure x : Action α).run fs = (.ok x, fs) := rfl

@[simp] lemma run_throw (e : Error) (fs : Files) : (throw e : Action α).run fs = (.error e, fs) := rfl

@[simp] lemma run_ofExcept (r : Except Error α) (fs : Files) : (ofExcept r : Action α).run fs = (r, fs) := by
  cases r <;> rfl

@[simp] lemma run_get (fs : Files) : (get : Action Files).run fs = (.ok fs, fs) := rfl

def Keeps (a : Action α) : Prop :=
  ∀ fs, (a.run fs).2 = fs

lemma keeps_pure (x : α) : Keeps (pure x) := fun _ => rfl

lemma keeps_throw (e : Error) : Keeps (throw e : Action α) := fun _ => rfl

lemma keeps_ofExcept (r : Except Error α) : Keeps (ofExcept r : Action α) := fun fs => by rw [run_ofExcept]

lemma keeps_get : Keeps (get : Action Files) := fun _ => rfl

lemma Keeps.bind {a : Action α} {f : α → Action β} (ha : Keeps a) (hf : ∀ x, Keeps (f x)) : Keeps (a >>= f) := by
  intro fs
  have hfs := ha fs
  rw [run_bind]
  rcases hrun : a.run fs with ⟨_ | x, fs'⟩
  · rwa [hrun] at hfs
  · rw [hrun] at hfs
    exact (hf x fs').trans hfs

lemma keeps_readText (path : String) : Keeps (readText path) :=
  keeps_get.bind fun _ => keeps_ofExcept _

lemma keeps_readJson (path : String) : Keeps (readJson path) := by
  refine (keeps_readText path).bind fun text => ?_
  split
  · exact keeps_pure _
  · exact keeps_throw _

lemma keeps_loadValue (path : String) (label : Option String) : Keeps (loadValue path label) := by
  have hread : Keeps (readJson path >>= fun content => (ofExcept (valueIn path content label) : Action Json)) :=
    (keeps_readJson path).bind fun _ => keeps_ofExcept _
  refine keeps_get.bind fun fs => ?_
  split
  · exact (keeps_throw _).bind fun _ => hread
  · exact hread

lemma keeps_contentWith (path : String) (v : Json) (label : Option String) : Keeps (contentWith path v label) := by
  cases label with
  | none => exact keeps_pure v
  | some label =>
    refine keeps_get.bind fun fs => ?_
    split
    · exact (keeps_readJson path).bind fun _ => (keeps_ofExcept _).bind fun _ => keeps_pure _
    · exact (keeps_pure _).bind fun _ => keeps_pure _

lemma run_writeText (room : Files.Room) (path text : String) (fs : Files) :
    (writeText room path text).run fs =
      ((fs.writeText room path text).1.mapError .access, (fs.writeText room path text).2) := by
  rcases hwrite : fs.writeText room path text with ⟨_ | _, fs'⟩ <;> simp only [writeText, run_bind, run_get, hwrite] <;>
    rfl

lemma eq_of_run_saveValue_eq_error {room : Files.Room} {path : String} {v : Json} {label : Option String}
    {fs fs' : Files} {e : Error} (h : (saveValue room path v label).run fs = (.error e, fs'))
    (he : e ≠ .access .cutShort) : fs' = fs := by
  have hkeeps := keeps_contentWith path v label fs
  rw [saveValue, run_bind] at h
  rcases hrun : (contentWith path v label).run fs with ⟨_ | content, fs₁⟩ <;> rw [hrun] at h hkeeps <;>
    obtain rfl : fs₁ = fs := hkeeps
  · exact (Prod.mk.inj h).2.symm
  · simp only [run_writeText] at h
    obtain ⟨houtcome, hfiles⟩ := Prod.mk.inj h
    obtain ⟨cause, hcause, rfl⟩ := mapError_eq_error_iff.1 houtcome
    exact Files.eq_of_writeText_eq_error (Prod.ext hcause hfiles) fun hcut => he (congrArg Error.access hcut)

lemma run_readJson {path text : String} {fs : Files} {v : Json} (htext : fs.readText path = .ok text)
    (hv : Json.parse? text = some v) : (readJson path).run fs = (.ok v, fs) := by
  simp [readJson, readText, run_bind, htext, hv, mapError_ok]

end Action

/-- Where a save succeeds, the disk had room for it. -/
theorem saveValue_of_run_eq_ok {room : Files.Room} {fs fs' : Files} {path : String} {v : Json} {label : Option String}
    (h : (Action.saveValue room path v label).run fs = (.ok (), fs')) : saveValue fs path v label = .ok fs' := by
  rw [Action.saveValue, Action.run_bind] at h
  rw [saveValue, Action.saveValue, Action.run_bind]
  rcases hcontent : (Action.contentWith path v label).run fs with ⟨_ | content, fs₁⟩ <;> rw [hcontent] at h
  · cases h
  · simp only [Action.run_writeText] at h ⊢
    rcases hwrite : fs₁.writeText room path content.pretty with ⟨_ | _, fs₂⟩ <;> rw [hwrite] at h <;> cases h
    obtain ⟨place, hp, hd, rfl⟩ := Files.exists_of_writeText_eq_ok hwrite
    rw [Files.writeText_enough hp hd]
    rfl

/-- Whether a file holds an object of these labels; without labels, whether there is no such file. -/
def Holds (fs : Files) (path : String) : Option Json.Members → Prop
  | none => fs.contains path = false
  | some labels => ∃ text, fs.readText path = .ok text ∧ Json.parse? text = some (.object labels)

variable {fs : Files} {path : String} {labels : Option Json.Members}

lemma Holds.unique (h : Holds fs path labels) : (Json.object (labels.getD [])).hasUniqueNames := by
  cases labels with
  | none => rfl
  | some labels =>
    obtain ⟨text, -, hv⟩ := h
    exact Json.parse?_hasUniqueNames hv

lemma Holds.nesting (h : Holds fs path labels) : (Json.object (labels.getD [])).nesting ≤ Json.maxNesting := by
  cases labels with
  | none => decide
  | some labels =>
    obtain ⟨text, -, hv⟩ := h
    exact Json.parse?_nesting_le hv

lemma Holds.eq {others : Option Json.Members} (h : Holds fs path labels) (h' : Holds fs path others) :
    labels = others := by
  have hempty {ls : Json.Members} (hc : fs.contains path = false) : ¬ Holds fs path (some ls) := by
    rintro ⟨text, htext, -⟩
    rw [Files.contains_of_readText htext] at hc
    cases hc
  cases labels with
  | none =>
    cases others with
    | none => rfl
    | some others => exact absurd h' (hempty h)
  | some labels =>
    cases others with
    | none => exact absurd h (hempty h')
    | some others =>
      obtain ⟨text, htext, hv⟩ := h
      obtain ⟨text', htext', hv'⟩ := h'
      cases htext.symm.trans htext'
      cases hv.symm.trans hv'
      rfl

def answer (path label : String) : Option Json.Members → Except Error Json
  | none => .error (.notFound path)
  | some labels =>
    match labels.get? label with
    | some v => .ok v
    | none => .error (.labelNotFound path label)

lemma Holds.run_loadValue (h : Holds fs path labels) (label : String) :
    (Action.loadValue path (some label)).run fs = (answer path label labels, fs) := by
  cases labels with
  | none =>
    have hc : fs.contains path = false := h
    simp [Action.loadValue, Action.run_bind, hc, answer]
  | some labels =>
    obtain ⟨text, htext, hv⟩ := h
    have hc := Files.contains_of_readText htext
    have hvalue : valueIn path (.object labels) (some label) = answer path label (some labels) := rfl
    simp [Action.loadValue, Action.run_bind, hc, Action.run_readJson htext hv, hvalue]

lemma Holds.run_contentWith (h : Holds fs path labels) (v : Json) (label : String) :
    (Action.contentWith path v (some label)).run fs = (.ok (.object ((labels.getD []).insert label v)), fs) := by
  cases labels with
  | none =>
    have hc : fs.contains path = false := h
    simp [Action.contentWith, Action.run_bind, hc]
  | some labels =>
    obtain ⟨text, htext, hv⟩ := h
    have hc := Files.contains_of_readText htext
    simp only [Action.contentWith, Action.run_bind, Action.run_get, hc, if_true, Action.run_readJson htext hv,
      labelsIn, Action.run_ofExcept, Action.run_pure, Option.getD_some]

lemma Holds.run_saveValue (h : Holds fs path labels) (room : Files.Room) (v : Json) (label : String) :
    (Action.saveValue room path v (some label)).run fs =
      let written := fs.writeText room path (Json.object ((labels.getD []).insert label v)).pretty
      (written.1.mapError .access, written.2) := by
  rw [Action.saveValue, Action.run_bind, h.run_contentWith]
  exact Action.run_writeText ..

end QueryTree.QueryFile
