import QueryTree.Proofs.Document.ReadBack
import QueryTree.Proofs.Frame.Storage
import QueryTree.Proofs.QueryFile.Actions
/-! Frames stored under labels. A label adds a level of nesting, which storing does not count and reading does, so
storing the deepest frames that can be read makes a file of labels unreadable. -/

namespace QueryTree

open Json (Members membersReadBack?)

namespace QueryFile

variable {fs fs' : Files} {path : String}

lemma loadValue_of_notJson {text : String} (htext : fs.readText path = .ok text) (hparse : Json.parse? text = none)
    (label : Option String) : loadValue fs path label = .error .notJson := by
  have hc := Files.contains_of_readText htext
  simp [loadValue, Action.loadValue, Action.readJson, Action.readText, Action.run_bind, hc, htext, hparse,
    mapError_ok]

lemma exists_of_loadValue_none {v : Json} (h : loadValue fs path none = .ok v) :
    ∃ text, fs.readText path = .ok text ∧ Json.parse? text = some v := by
  cases hc : fs.contains path with
  | false => simp [loadValue, Action.loadValue, Action.run_bind, hc] at h
  | true =>
    cases htext : fs.readText path with
    | error e =>
      simp [loadValue, Action.loadValue, Action.readJson, Action.readText, Action.run_bind, hc, htext,
        mapError_error] at h
    | ok text =>
      cases hparse : Json.parse? text with
      | none =>
        simp [loadValue, Action.loadValue, Action.readJson, Action.readText, Action.run_bind, hc, htext, hparse,
          mapError_ok] at h
      | some w =>
        simp [loadValue, Action.loadValue, Action.run_bind, hc, Action.run_readJson htext hparse, valueIn] at h
        exact ⟨text, rfl, h ▸ hparse⟩

lemma loadValue_none {text : String} {v : Json} (htext : fs.readText path = .ok text)
    (hparse : Json.parse? text = some v) : loadValue fs path none = .ok v := by
  have hc := Files.contains_of_readText htext
  simp [loadValue, Action.loadValue, Action.run_bind, hc, Action.run_readJson htext hparse, valueIn]

lemma saveValue_label_eq_ok_iff {labels : Option Members} {v : Json} {label : String} (hholds : Holds fs path labels) :
    saveValue fs path v (some label) = .ok fs' ↔
      fs.writeText .enough path (Json.object ((labels.getD []).insert label v)).pretty = (.ok (), fs') := by
  rw [saveValue, hholds.run_saveValue]
  rcases fs.writeText .enough path (Json.object ((labels.getD []).insert label v)).pretty with ⟨_ | _, fs₁⟩ <;>
    simp [Except.mapError]

lemma exists_saveValue {labels : Option Members} (hholds : Holds fs path labels) (hw : fs.Writable path) (v : Json)
    (label : String) : ∃ fs', saveValue fs path v (some label) = .ok fs' := by
  obtain ⟨fs', hwrite⟩ := (Files.exists_writeText_eq_ok_iff _).2 hw
  exact ⟨fs', (saveValue_label_eq_ok_iff hholds).2 hwrite⟩

lemma readText_of_saveValue {labels : Option Members} {v : Json} {label : String} (hholds : Holds fs path labels)
    (h : saveValue fs path v (some label) = .ok fs') :
    fs'.readText path = .ok (Json.object ((labels.getD []).insert label v)).pretty :=
  Files.readText_of_writeText ((saveValue_label_eq_ok_iff hholds).1 h)

end QueryFile

namespace Json

lemma isSome_readBack?_insert_iff {ms : Members} (hms : ms.keys.Nodup) (label : String) (v : Json) :
    (membersReadBack? (ms.insert label v)).isSome ↔ v.readBack?.isSome ∧
      ∀ other w, other ≠ label → ms.get? other = some w → w.readBack?.isSome := by
  have hkeys := Entries.nodup_keys_insert hms label v
  rw [isSome_membersReadBack?_iff]
  constructor
  · intro h
    refine ⟨h (label, v) (Entries.mem_of_get? (by rw [Entries.get?_insert, if_pos rfl])), ?_⟩
    intro other w hne hw
    exact h (other, w) (Entries.mem_of_get? (by rw [Entries.get?_insert, if_neg (Ne.symm hne), hw]))
  · rintro ⟨hv, hothers⟩ ⟨other, w⟩ hm
    have hget := Entries.get?_eq_some_of_mem hkeys hm
    rw [Entries.get?_insert] at hget
    split at hget
    · cases hget
      exact hv
    · next hne => exact hothers other w (Ne.symm hne) hget

end Json

namespace Frame

open QueryFile (Holds)

lemma load_eq_ok_iff {fs : Files} {path : String} {label : Option String} {f : Frame} :
    load fs path label = .ok f ↔ ∃ v d, QueryFile.loadValue fs path label = .ok v ∧ Document.ofJson v = .ok d ∧
      { document := some d } = f := by
  rw [load, bind_eq_ok_iff]
  simp only [mapError_eq_ok_iff, ofJson, map_eq_ok_iff, exists_and_left]

lemma load_of_get? {fs : Files} {path label : String} {labels : Members} {v : Json} {d : Document}
    (h : Holds fs path (some labels)) (hv : labels.get? label = some v) (hd : Document.ofJson v = .ok d) :
    load fs path (some label) = .ok { document := some d } := by
  have hanswer : QueryFile.answer path label (some labels) = .ok v := by simp only [QueryFile.answer, hv]
  refine load_eq_ok_iff.2 ⟨v, d, ?_, hd, rfl⟩
  rw [QueryFile.loadValue, h.run_loadValue, hanswer]

lemma exists_of_load_label {fs : Files} {path label : String} {labels : Option Members} {f : Frame}
    (h : Holds fs path labels) (hf : load fs path (some label) = .ok f) :
    ∃ v d, Entries.get? (labels.getD []) label = some v ∧ Document.ofJson v = .ok d ∧ { document := some d } = f := by
  obtain ⟨v, d, hv, hd, hf⟩ := load_eq_ok_iff.1 hf
  refine ⟨v, d, ?_, hd, hf⟩
  rw [QueryFile.loadValue, h.run_loadValue] at hv
  unfold QueryFile.answer at hv
  split at hv
  · cases hv
  · split at hv
    · next hget =>
      cases hv
      exact hget
    · cases hv

lemma exists_of_load {fs : Files} {path : String} {f : Frame} (h : load fs path none = .ok f) :
    ∃ d, f = { document := some d } ∧ Document.ofJson d.toJson = .ok d := by
  obtain ⟨v, d, hv, hd, rfl⟩ := load_eq_ok_iff.1 h
  obtain ⟨text, -, hparse⟩ := QueryFile.exists_of_loadValue_none hv
  have hu := Json.parse?_hasUniqueNames hparse
  have hnodes := Document.everyNode_of_ofJson (fun _ => Field.aggregatesNumbers_stored) hu hd
  refine ⟨d, rfl, Document.ofJson_toJson_iff.2 ⟨?_, (Document.canonical_of_ofJson hu hd).symm⟩⟩
  exact hnodes.mono fun _ hd => ⟨hd.1, hd.2⟩

variable {fs fs' : Files} {path label : String} {labels : Option Members} {d : Document}

def OthersReadBack (labels : Option Members) (label : String) : Prop :=
  ∀ other v, other ≠ label → Entries.get? (labels.getD []) other = some v → v.readBack?.isSome

lemma parse?_stored (h : Holds fs path labels) :
    Json.parse? (Json.object ((labels.getD []).insert label d.toJson)).pretty =
      if d.toJson.nesting ≤ 126 then (membersReadBack? ((labels.getD []).insert label d.toJson)).map .object
      else none := by
  have hu := @Json.hasUniqueNames_insert _ label _ h.unique d.hasUniqueNames_toJson
  have hothers : ∀ m ∈ labels.getD [], m.2.nesting ≤ 126 := Json.nesting_object_le_iff.1 h.nesting
  have hnesting : (Json.object ((labels.getD []).insert label d.toJson)).nesting ≤ Json.maxNesting ↔
      d.toJson.nesting ≤ 126 := by
    refine Json.nesting_object_le_iff.trans ⟨fun hall => ?_, fun hd m hm => ?_⟩
    · exact hall (label, d.toJson) (Entries.mem_of_get? (by rw [Entries.get?_insert, if_pos rfl]))
    · rcases Entries.mem_insert hm with rfl | hm
      · exact hd
      · exact hothers m hm
  rw [Json.parse?_pretty hu]
  simp only [hnesting]
  rfl

lemma exists_parse?_stored_iff (h : Holds fs path labels) :
    (∃ v, Json.parse? (Json.object ((labels.getD []).insert label d.toJson)).pretty = some v) ↔
      d.toJson.nesting ≤ 126 ∧ OthersReadBack labels label := by
  have hself := Json.readBack?_of_isIntegral _ d.written_toJson.isIntegral
  have hsome := Json.isSome_readBack?_insert_iff (Json.hasUniqueNames_object.1 h.unique).1 label d.toJson
  rw [hself, Option.isSome_some] at hsome
  rw [parse?_stored h, ← Option.isSome_iff_exists]
  by_cases hd : d.toJson.nesting ≤ 126
  · rw [if_pos hd, Option.isSome_map, hsome]
    simp [hd, OthersReadBack]
  · simp [hd]

/-- A loaded frame that is stored under a label is loaded from there again, and the other labels give the frames
that they gave, if its document does not nest too deep for one more level and the numbers under the other labels
read back. Otherwise the file becomes unreadable, with every label of it. -/
theorem load_of_labelled_save {fs fs₁ fs' : Files} {p q l : String} {f : Frame} {labels : Option Members}
    (hf : load fs p none = .ok f) (hq : Holds fs₁ q labels) (hs : f.save fs₁ q (some l) = .ok fs') :
    (f.toJson.nesting ≤ 126 ∧ OthersReadBack labels l → load fs' q (some l) = .ok f ∧
      ∀ other g, other ≠ l → load fs₁ q (some other) = .ok g → load fs' q (some other) = .ok g) ∧
    (¬ (f.toJson.nesting ≤ 126 ∧ OthersReadBack labels l) → ∀ label, load fs' q (some label) = .error .notJson) := by
  obtain ⟨d, rfl, hd⟩ := exists_of_load hf
  have hjson : ({ document := some d } : Frame).toJson = d.toJson := rfl
  have htext := QueryFile.readText_of_saveValue hq hs
  rw [hjson] at htext ⊢
  have hiff := @exists_parse?_stored_iff fs₁ q l labels d hq
  refine ⟨fun hfits => ?_, fun hnot label => ?_⟩
  · obtain ⟨v, hv⟩ := hiff.2 hfits
    have hread := hv
    rw [parse?_stored hq, if_pos hfits.1, Option.map_eq_some_iff] at hread
    obtain ⟨ws, hws, rfl⟩ := hread
    have hstored : Holds fs' q (some ws) := ⟨_, htext, hv⟩
    have hget := Json.get?_of_membersReadBack? hws
    refine ⟨load_of_get? hstored ?_ hd, fun other g hne hg => ?_⟩
    · rw [hget, Entries.get?_insert, if_pos rfl]
      exact Json.readBack?_of_isIntegral _ d.written_toJson.isIntegral
    · obtain ⟨v, e, hv, he, rfl⟩ := exists_of_load_label hq hg
      obtain ⟨w, hw⟩ := Option.isSome_iff_exists.1 (hfits.2 other v hne hv)
      have hwget : ws.get? other = some w := by
        rw [hget, Entries.get?_insert, if_neg (Ne.symm hne), hv, Option.bind_some, hw]
      have hunique := Json.hasUniqueNames_of_get? hstored.unique hwget
      exact load_of_get? hstored hwget
        (Document.ofJson_readBack (Json.hasUniqueNames_of_get? hq.unique hv) he hw hunique)
  · have hnone := Option.eq_none_iff_forall_ne_some.2 fun v hv => hnot (hiff.1 ⟨v, hv⟩)
    rw [load, QueryFile.loadValue_of_notJson htext hnone]
    rfl

def oneFile (name : String) (v : Json) : Files :=
  Files.empty.set [name] (.file v.pretty.toUTF8)

lemma readText_oneFile {name : String} (hp : Files.empty.place? name = some [name])
    (hdirectory : Files.empty.isDirectory [name] = false) (v : Json) : (oneFile name v).readText name = .ok v.pretty :=
  Files.readText_of_writeText (Files.writeText_enough hp hdirectory v.pretty)

lemma load_oneFile {name : String} {d : Document} (hp : Files.empty.place? name = some [name])
    (hdirectory : Files.empty.isDirectory [name] = false) (hd : Document.ofJson d.toJson = .ok d)
    (hn : d.toJson.nesting ≤ Json.maxNesting) : load (oneFile name d.toJson) name none = .ok { document := some d } := by
  have hplain : d.toJson.Plain Json.maxNesting := ⟨d.hasUniqueNames_toJson, d.written_toJson.isIntegral, hn⟩
  have hvalue := QueryFile.loadValue_none (readText_oneFile hp hdirectory _) hplain.parse?_pretty
  exact load_eq_ok_iff.2 ⟨d.toJson, d, hvalue, hd, rfl⟩

lemma ofJson_toJson_tableDocument : Document.ofJson tableDocument.toJson = .ok tableDocument := by
  decide +kernel

def storedUnderA : Files :=
  oneFile "store.json" (.object [("a", tableDocument.toJson)])

lemma holds_storedUnderA : Holds storedUnderA "store.json" (some [("a", tableDocument.toJson)]) := by
  have hplain : (Json.object [("a", tableDocument.toJson)]).Plain Json.maxNesting :=
    ⟨by decide, by decide, by decide⟩
  exact ⟨_, readText_oneFile rfl rfl _, hplain.parse?_pretty⟩

theorem load_of_labelled_save_storedUnderA :
    load (oneFile "t.json" tableDocument.toJson) "t.json" none = .ok { document := some tableDocument } ∧
      ∃ fs', save { document := some tableDocument } storedUnderA "store.json" (some "q") = .ok fs' ∧
        load fs' "store.json" (some "q") = .ok { document := some tableDocument } ∧
        load fs' "store.json" (some "a") = .ok { document := some tableDocument } := by
  have hload := @load_oneFile "t.json" tableDocument rfl rfl ofJson_toJson_tableDocument (by decide)
  have hholds := holds_storedUnderA
  have hwritable : storedUnderA.Writable "store.json" := ⟨["store.json"], rfl, rfl⟩
  obtain ⟨fs', hsave⟩ := QueryFile.exists_saveValue hholds hwritable tableDocument.toJson "q"
  have hothers : OthersReadBack (some [("a", tableDocument.toJson)]) "q" := by
    intro other v _ hv
    obtain ⟨-, rfl⟩ := Prod.mk.inj (List.mem_singleton.1 (Entries.mem_of_get? hv))
    rw [Json.readBack?_of_isIntegral _ tableDocument.written_toJson.isIntegral]
    rfl
  have hfits := (load_of_labelled_save hload hholds hsave).1 ⟨by decide, hothers⟩
  exact ⟨hload, fs', hsave, hfits.1, hfits.2 "a" _ (by decide) (load_of_get? hholds rfl ofJson_toJson_tableDocument)⟩

def nested : Nat → Document
  | 0 => tableDocument
  | n + 1 => .subquery tableDocument.block (nested n)

lemma nesting_toJson_nested (n : Nat) : (nested n).toJson.nesting = n + 4 := by
  induction n with
  | zero => decide
  | succ n ih =>
    have hblock : (Document.selectMember tableDocument.block []).2.nesting = 3 := by decide
    simp only [nested, Document.toJson, Json.nesting, Json.membersNesting, ih, hblock]
    omega

lemma ofJson_toJson_nested (n : Nat) : Document.ofJson (nested n).toJson = .ok (nested n) := by
  have htable := Document.ofJson_toJson_iff.1 ofJson_toJson_tableDocument
  rw [Document.ofJson_toJson_iff]
  induction n with
  | zero => exact htable
  | succ n ih =>
    obtain ⟨hstorable, hcanonical⟩ := ih
    refine ⟨.node ⟨htable.1.root.aggregates, trivial⟩ (List.forall_mem_singleton.2 hstorable), ?_⟩
    rw [nested, Document.canonical, ← hcanonical]
    rfl

def deepest : Files :=
  oneFile "deep.json" (nested 123).toJson

/-- The deepest document that can be read is stored under a label, and cannot be read from there. -/
theorem labelled_save_of_deepest :
    load deepest "deep.json" none = .ok { document := some (nested 123) } ∧
      ∃ fs', save { document := some (nested 123) } deepest "store.json" (some "q") = .ok fs' ∧
        load fs' "store.json" (some "q") = .error .notJson := by
  have hload := @load_oneFile "deep.json" (nested 123) rfl rfl (ofJson_toJson_nested 123)
    (Nat.le_of_eq (nesting_toJson_nested 123))
  have hholds : Holds deepest "store.json" none := rfl
  have hwritable : deepest.Writable "store.json" := ⟨["store.json"], rfl, rfl⟩
  obtain ⟨fs', hsave⟩ := QueryFile.exists_saveValue hholds hwritable (nested 123).toJson "q"
  have htext := QueryFile.readText_of_saveValue hholds hsave
  refine ⟨hload, fs', hsave, ?_⟩
  have hdeep : ¬ (nested 123).toJson.nesting ≤ 126 := by
    rw [nesting_toJson_nested]
    decide
  have hparse := @parse?_stored deepest "store.json" "q" none (nested 123) hholds
  rw [if_neg hdeep] at hparse
  rw [load, QueryFile.loadValue_of_notJson htext hparse]
  rfl

end Frame

end QueryTree
