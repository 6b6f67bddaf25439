import QueryTree.Proofs.Frame.LabelledFiles
/-! Where a document can be stored, and that it is loaded again from where it was stored. -/

namespace QueryTree

namespace QueryFile

variable {fs fs' : Files} {path : String} {v : Json}

lemma saveValue_none_eq_ok_iff :
    saveValue fs path v none = .ok fs' ↔ fs.writeText .enough path v.pretty = (.ok (), fs') := by
  have hcontent : (Action.contentWith path v none).run fs = (.ok v, fs) := rfl
  rw [saveValue, Action.saveValue, Action.run_bind, hcontent]
  simp only [Action.run_writeText]
  rcases fs.writeText .enough path v.pretty with ⟨_ | _, fs₁⟩ <;> simp [Except.mapError]

lemma exists_holds_of_saveValue {label : String} (h : saveValue fs path v (some label) = .ok fs') :
    ∃ labels, Holds fs path labels := by
  cases hc : fs.contains path with
  | false => exact ⟨none, hc⟩
  | true =>
    cases htext : fs.readText path with
    | error e =>
      simp [saveValue, Action.saveValue, Action.contentWith, Action.readJson, Action.readText, Action.run_bind, hc,
        htext, mapError_error] at h
    | ok text =>
      cases hparse : Json.parse? text with
      | none =>
        simp [saveValue, Action.saveValue, Action.contentWith, Action.readJson, Action.readText, Action.run_bind, hc,
          htext, hparse, mapError_ok] at h
      | some content =>
        cases content with
        | object labels => exact ⟨some labels, text, htext, hparse⟩
        | _ =>
          simp [saveValue, Action.saveValue, Action.contentWith, Action.run_bind, hc,
            Action.run_readJson htext hparse, labelsIn] at h

lemma exists_saveValue_eq_ok_iff {label : Option String} : (∃ fs', saveValue fs path v label = .ok fs') ↔
    fs.Writable path ∧ ∀ l, label = some l → ∃ labels, Holds fs path labels := by
  cases label with
  | none =>
    simp only [saveValue_none_eq_ok_iff, Files.exists_writeText_eq_ok_iff]
    exact ⟨fun hw => ⟨hw, nofun⟩, And.left⟩
  | some l =>
    constructor
    · rintro ⟨fs', h⟩
      obtain ⟨labels, hholds⟩ := exists_holds_of_saveValue h
      exact ⟨(Files.exists_writeText_eq_ok_iff _).1 ⟨fs', (saveValue_label_eq_ok_iff hholds).1 h⟩,
        fun _ _ => ⟨labels, hholds⟩⟩
    · rintro ⟨hw, hlabels⟩
      obtain ⟨labels, hholds⟩ := hlabels l rfl
      exact exists_saveValue hholds hw v l

end QueryFile

namespace Frame

open QueryFile (Holds)

variable {fs fs' : Files} {path : String} {d : Document}

lemma load_eq_map (fs : Files) (path : String) (label : Option String) :
    load fs path label = (QueryFile.load fs path label).map fun d => { document := some d } := by
  rw [load, QueryFile.load]
  cases QueryFile.loadValue fs path label with
  | error e => rfl
  | ok v =>
    rw [ok_bind, ok_bind, ofJson]
    cases Document.ofJson v <;> rfl

lemma load_of_save_file (hd : Document.ofJson d.toJson = .ok d) (hplain : d.toJson.Plain Json.maxNesting)
    (hs : QueryFile.save fs path d none = .ok fs') : load fs' path none = .ok { document := some d } := by
  rw [QueryFile.save, QueryFile.saveValue_none_eq_ok_iff] at hs
  have hvalue := QueryFile.loadValue_none (Files.readText_of_writeText hs) hplain.parse?_pretty
  exact load_eq_ok_iff.2 ⟨d.toJson, d, hvalue, hd, rfl⟩

lemma load_of_save_label {labels : Option Json.Members} {label : String} (hd : Document.ofJson d.toJson = .ok d)
    (hdepth : d.toJson.nesting ≤ 126) (hholds : Holds fs path labels) (hothers : OthersReadBack labels label)
    (hs : QueryFile.save fs path d (some label) = .ok fs') :
    load fs' path (some label) = .ok { document := some d } := by
  obtain ⟨v, hv⟩ := (exists_parse?_stored_iff hholds).2 ⟨hdepth, hothers⟩
  have hread := hv
  rw [parse?_stored hholds, if_pos hdepth, Option.map_eq_some_iff] at hread
  obtain ⟨ws, hws, rfl⟩ := hread
  have hstored : Holds fs' path (some ws) := ⟨_, QueryFile.readText_of_saveValue hholds hs, hv⟩
  refine load_of_get? hstored ?_ hd
  rw [Json.get?_of_membersReadBack? hws, Entries.get?_insert, if_pos rfl]
  exact Json.readBack?_of_isIntegral _ d.written_toJson.isIntegral

lemma load_of_save {label : Option String} (hd : Document.ofJson d.toJson = .ok d) (hplain : d.toJson.Plain 126)
    (hs : QueryFile.save fs path d label = .ok fs')
    (hothers : ∀ l, label = some l → ∀ labels, Holds fs path labels → OthersReadBack labels l) :
    load fs' path label = .ok { document := some d } := by
  cases label with
  | none => exact load_of_save_file hd ⟨hplain.unique, hplain.integral, Nat.le_succ_of_le hplain.nesting⟩ hs
  | some l =>
    obtain ⟨labels, hholds⟩ := QueryFile.exists_holds_of_saveValue hs
    exact load_of_save_label hd hplain.nesting hholds (hothers l rfl labels hholds) hs

end Frame

end QueryTree
