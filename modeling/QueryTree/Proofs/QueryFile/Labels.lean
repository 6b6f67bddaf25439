import QueryTree.Proofs.Entries
import QueryTree.Proofs.QueryFile.Actions
/-! Runs of labelled calls on one file. The file is an ordered map from labels to values: a load answers with the
value saved last, and labels stay in the order of their first appearance. -/

namespace QueryTree

namespace QueryFile

inductive Call where
  | save (room : Files.Room) (label : String) (v : Json)
  | load (label : String)

def Call.action (path : String) : Call → Action (Option Json)
  | .save room label v => do
    Action.saveValue room path v label
    return none
  | .load label => do return some (← Action.loadValue path label)

abbrev Answered := Call × Except Error (Option Json)

def runCalls (path : String) : List Call → Files → List Answered × Files
  | [], fs => ([], fs)
  | c :: cs, fs =>
    let (answer, fs) := (c.action path).run fs
    let (history, fs) := runCalls path cs fs
    ((c, answer) :: history, fs)

def savedBy : Answered → Option (String × Json)
  | (.save _ label v, .ok _) => some (label, v)
  | _ => none

def saved (history : List Answered) : Entries Json :=
  history.filterMap savedBy

/-- The value saved last under a label, or the one that the file held at first. -/
def latest (initial : Option Json.Members) (history : List Answered) (label : String) : Option Json :=
  (Entries.get? (saved history).reverse label).or (Entries.get? (initial.getD []) label)

/-- The labels of a file after entries are saved in it; the first one makes the file. -/
def storeAll (labels : Option Json.Members) (entries : Entries Json) : Option Json.Members :=
  entries.foldl (fun labels e => some ((labels.getD []).insert e.1 e.2)) labels

lemma storeAll_append (labels : Option Json.Members) (es fs : Entries Json) :
    storeAll labels (es ++ fs) = storeAll (storeAll labels es) fs :=
  List.foldl_append

lemma getD_storeAll (labels : Option Json.Members) (entries : Entries Json) :
    (storeAll labels entries).getD [] = Entries.putAll (labels.getD []) entries := by
  induction entries generalizing labels with
  | nil => rfl
  | cons e entries ih => exact ih _

lemma storeAll_isNone (labels : Option Json.Members) (entries : Entries Json) :
    (storeAll labels entries).isNone = (labels.isNone && entries.isEmpty) := by
  induction entries generalizing labels with
  | nil => simp [storeAll]
  | cons e entries ih =>
    have hstep : storeAll labels (e :: entries) = storeAll (some ((labels.getD []).insert e.1 e.2)) entries := rfl
    simp [hstep, ih]

lemma answer_storeAll (path label : String) (initial : Option Json.Members) (history : List Answered) :
    answer path label (storeAll initial (saved history)) = match latest initial history label with
      | some v => .ok v
      | none => .error (if initial.isNone && (saved history).isEmpty then .notFound path
          else .labelNotFound path label) := by
  have hnone := storeAll_isNone initial (saved history)
  have hget := Entries.get?_putAll (initial.getD []) (saved history) label
  rw [← getD_storeAll] at hget
  rw [latest, ← hget, ← hnone]
  cases storeAll initial (saved history) with
  | none => rfl
  | some labels => rw [answer]; cases h : Entries.get? labels label <;> simp [h]

def Call.Storable : Call → Prop
  | .save _ _ v => v.Plain 126
  | .load _ => True

structure Stores (fs : Files) (path : String) (labels : Option Json.Members) : Prop where
  holds : Holds fs path labels
  plain : (Json.object (labels.getD [])).Plain Json.maxNesting

variable {fs : Files} {path : String} {labels : Option Json.Members}

lemma Call.run_load (label : String) (h : Holds fs path labels) :
    ((Call.load label).action path).run fs = ((answer path label labels).map some, fs) := by
  rw [Call.action, Action.run_bind, h.run_loadValue]
  cases answer path label labels <;> rfl

lemma Call.run_save (room : Files.Room) (label : String) (v : Json) (h : Holds fs path labels) :
    ((Call.save room label v).action path).run fs =
      let written := fs.writeText room path (Json.object ((labels.getD []).insert label v)).pretty
      ((written.1.mapError .access).map fun _ => none, written.2) := by
  rw [Call.action, Action.run_bind, h.run_saveValue]
  rcases fs.writeText room path (Json.object ((labels.getD []).insert label v)).pretty with ⟨_ | _, fs'⟩ <;> rfl

lemma Stores.step (h : Stores fs path labels) {c : Call} (hc : c.Storable) {fs' : Files}
    {answer : Except Error (Option Json)} (hrun : (c.action path).run fs = (answer, fs'))
    (hcut : answer ≠ .error (.access .cutShort)) :
    Stores fs' path (storeAll labels (saved [(c, answer)])) ∧ (fs.Writable path → fs'.Writable path) := by
  cases c with
  | load label =>
    rw [Call.run_load label h.holds] at hrun
    obtain ⟨-, rfl⟩ := Prod.mk.inj hrun
    exact ⟨h, id⟩
  | save room label v =>
    rw [Call.run_save room label v h.holds] at hrun
    rcases fs.writeText_cases room path (Json.object ((labels.getD []).insert label v)).pretty with
      ⟨-, e, -, hwrite⟩ | ⟨-, fs₁, hwrite | hwrite⟩ <;> rw [hwrite] at hrun <;>
      obtain ⟨rfl, rfl⟩ := Prod.mk.inj hrun
    · exact ⟨h, id⟩
    · have htext := Files.readText_of_writeText hwrite
      have hplain := h.plain.insert hc label
      exact ⟨⟨⟨_, htext, hplain.parse?_pretty⟩, hplain⟩, fun _ => Files.writable_of_readText htext⟩
    · exact absurd rfl hcut

lemma Holds.answer_save (h : Holds fs path labels) (hw : fs.Writable path) {room : Files.Room} {label : String}
    {v : Json} {fs' : Files} {answer : Except Error (Option Json)}
    (hrun : ((Call.save room label v).action path).run fs = (answer, fs'))
    (hcut : answer ≠ .error (.access .cutShort)) : answer = .ok none := by
  rw [Call.run_save room label v h] at hrun
  rcases fs.writeText_cases room path (Json.object ((labels.getD []).insert label v)).pretty with
    ⟨hnot, -⟩ | ⟨-, fs₁, hwrite | hwrite⟩
  · exact absurd hw hnot
  · rw [hwrite] at hrun
    exact (Prod.mk.inj hrun).1.symm
  · rw [hwrite] at hrun
    exact absurd (Prod.mk.inj hrun).1.symm hcut

def Call.HasRoom : Call → Prop
  | .save room _ _ => room = .enough
  | .load _ => True

lemma Holds.answer_ne_cutShort (h : Holds fs path labels) {c : Call} (hroom : c.HasRoom) {fs' : Files}
    {answer : Except Error (Option Json)} (hrun : (c.action path).run fs = (answer, fs')) :
    answer ≠ .error (.access .cutShort) := by
  cases c with
  | load label =>
    rw [Call.run_load label h] at hrun
    obtain ⟨rfl, -⟩ := Prod.mk.inj hrun
    cases labels with
    | none => simp [QueryFile.answer, Except.map]
    | some labels => cases hget : Entries.get? labels label <;> simp [QueryFile.answer, Except.map, hget]
  | save room label v =>
    obtain rfl : room = .enough := hroom
    rw [Call.run_save .enough label v h] at hrun
    obtain ⟨rfl, -⟩ := Prod.mk.inj hrun
    have hne := fs.writeText_enough_ne path (Json.object ((labels.getD []).insert label v)).pretty
    generalize fs.writeText .enough path (Json.object ((labels.getD []).insert label v)).pretty = written at hne ⊢
    rcases written with ⟨e | _, fs'⟩
    · intro hcut
      have he : e = .cutShort := by simpa [Except.mapError, Except.map] using hcut
      exact hne (congrArg Except.error he)
    · simp [Except.mapError, Except.map]

lemma Stores.run (h : Stores fs path labels) (calls : List Call) (hcalls : ∀ c ∈ calls, c.Storable)
    (hcut : ∀ a ∈ (runCalls path calls fs).1, a.2 ≠ .error (.access .cutShort)) :
    Stores (runCalls path calls fs).2 path (storeAll labels (saved (runCalls path calls fs).1)) ∧
      ∀ before c answer after, (runCalls path calls fs).1 = before ++ (c, answer) :: after →
        ∃ fs₁ fs₂, Stores fs₁ path (storeAll labels (saved before)) ∧ (fs.Writable path → fs₁.Writable path) ∧
          (c.action path).run fs₁ = (answer, fs₂) := by
  induction calls generalizing fs labels with
  | nil =>
    refine ⟨h, ?_⟩
    intro before c answer after hhistory
    exact absurd hhistory (by simp [runCalls])
  | cons c cs ih =>
    obtain ⟨hc, hcs⟩ := List.forall_mem_cons.1 hcalls
    rcases hrun : (c.action path).run fs with ⟨ans, fs'⟩
    have hhistory : (runCalls path (c :: cs) fs).1 = (c, ans) :: (runCalls path cs fs').1 := by
      rw [runCalls, hrun]
    rw [hhistory, List.forall_mem_cons] at hcut
    obtain ⟨hstep, hwritable⟩ := h.step hc hrun hcut.1
    obtain ⟨hend, hmid⟩ := ih hstep hcs hcut.2
    have hfiles : (runCalls path (c :: cs) fs).2 = (runCalls path cs fs').2 := by
      rw [runCalls, hrun]
    have hsaved (history : List Answered) : saved ((c, ans) :: history) = saved [(c, ans)] ++ saved history :=
      List.filterMap_append (l := [(c, ans)])
    refine ⟨?_, ?_⟩
    · rw [hhistory, hfiles, hsaved, storeAll_append]
      exact hend
    · intro before d answer after hsplit
      rw [hhistory] at hsplit
      cases before with
      | nil =>
        obtain ⟨hhead, -⟩ := List.cons.inj hsplit
        cases hhead
        exact ⟨fs, fs', h, id, hrun⟩
      | cons first before =>
        obtain ⟨rfl, hrest⟩ := List.cons.inj hsplit
        obtain ⟨fs₁, fs₂, hstores, hw, hrun₁⟩ := hmid before d answer after hrest
        rw [hsaved, storeAll_append]
        exact ⟨fs₁, fs₂, hstores, hw ∘ hwritable, hrun₁⟩

lemma Stores.uncut (h : Stores fs path labels) (calls : List Call) (hcalls : ∀ c ∈ calls, c.Storable)
    (hroom : ∀ c ∈ calls, c.HasRoom) : ∀ a ∈ (runCalls path calls fs).1, a.2 ≠ .error (.access .cutShort) := by
  induction calls generalizing fs labels with
  | nil => exact List.forall_mem_nil _
  | cons c cs ih =>
    obtain ⟨hc, hcs⟩ := List.forall_mem_cons.1 hcalls
    obtain ⟨hroomc, hroomcs⟩ := List.forall_mem_cons.1 hroom
    rcases hrun : (c.action path).run fs with ⟨ans, fs'⟩
    have hhistory : (runCalls path (c :: cs) fs).1 = (c, ans) :: (runCalls path cs fs').1 := by
      rw [runCalls, hrun]
    have hcut : ans ≠ .error (.access .cutShort) := h.holds.answer_ne_cutShort hroomc hrun
    rw [hhistory]
    exact List.forall_mem_cons.2 ⟨hcut, ih (h.step hc hrun hcut).1 hcs hroomcs⟩

lemma Holds.stores (h : Holds fs path labels) (hi : ∀ m ∈ labels.getD [], m.2.isIntegral) :
    Stores fs path labels := by
  exact ⟨h, h.unique, Json.isIntegral_object.2 hi, h.nesting⟩

lemma latest_save_of_ne {label other : String} (h : other ≠ label) (initial : Option Json.Members)
    (history : List Answered) (room : Files.Room) (v : Json) (answer : Except Error (Option Json)) :
    latest initial (history ++ [(.save room label v, answer)]) other = latest initial history other := by
  rw [latest, saved, List.filterMap_append, List.reverse_append, Entries.get?_append]
  have hlast : Entries.get? (List.filterMap savedBy [(.save room label v, answer)]).reverse other = none := by
    cases answer with
    | error e => rfl
    | ok w => exact if_neg (Ne.symm h)
  rw [hlast, Option.none_or]
  rfl

/-- A file of labels is an ordered map over every run of labelled saves and loads in which no save is cut short while
its text is written. A load answers with the value saved last under its label, or the one there at first; a save keeps
the other labels; labels keep the order in which they first appear. Whatever a file holds, a load leaves it as it is,
and so does a save that fails before its text is written. -/
theorem labels_follow_runs (path : String) :
    (∀ room v label fs e fs', (Action.saveValue room path v label).run fs = (.error e, fs') →
      e ≠ .access .cutShort → fs' = fs) ∧
    (∀ label fs, ((Action.loadValue path label).run fs).2 = fs) ∧
    ∀ fs initial calls history fs', Holds fs path initial → (∀ m ∈ initial.getD [], m.2.isIntegral) →
      (∀ c ∈ calls, c.Storable) → runCalls path calls fs = (history, fs') →
      (∀ a ∈ history, a.2 ≠ .error (.access .cutShort)) →
      (∀ before label answer after, history = before ++ (.load label, answer) :: after →
        answer = match latest initial before label with
          | some v => .ok (some v)
          | none => .error (if initial.isNone && (saved before).isEmpty then .notFound path
              else .labelNotFound path label)) ∧
      (fs.Writable path → ∀ before room label v answer after,
        history = before ++ (.save room label v, answer) :: after → answer = .ok none) ∧
      (∀ before room label v answer other, other ≠ label →
        latest initial (before ++ [(.save room label v, answer)]) other = latest initial before other) ∧
      ∃ final, Holds fs' path final ∧ final.isNone = (initial.isNone && (saved history).isEmpty) ∧
        (∀ label, Entries.get? (final.getD []) label = latest initial history label) ∧
        Entries.keys (final.getD []) = (Entries.keys (initial.getD []) ++ (saved history).keys).eraseDups := by
  refine ⟨?_, fun label fs => Action.keeps_loadValue path label fs, ?_⟩
  · exact fun room v label fs e fs' h he => Action.eq_of_run_saveValue_eq_error h he
  intro fs initial calls history fs' hholds hintegral hcalls hrun hcut
  have hstores := hholds.stores hintegral
  obtain ⟨hend, hmid⟩ := hstores.run calls hcalls (by rwa [hrun])
  rw [hrun] at hend hmid
  refine ⟨?_, ?_, ?_, storeAll initial (saved history), hend.holds, storeAll_isNone _ _, ?_, ?_⟩
  · intro before label ans after hsplit
    obtain ⟨fs₁, fs₂, h₁, -, hload⟩ := hmid before _ ans after hsplit
    rw [Call.run_load label h₁.holds, answer_storeAll] at hload
    rw [← (Prod.mk.inj hload).1]
    cases latest initial before label <;> rfl
  · intro hw before room label v ans after hsplit
    obtain ⟨fs₁, fs₂, h₁, hw₁, hsave⟩ := hmid before _ ans after hsplit
    have hmem : (Call.save room label v, ans) ∈ history := by simp [hsplit]
    exact h₁.holds.answer_save (hw₁ hw) hsave (hcut _ hmem)
  · exact fun before room label v ans other hne => latest_save_of_ne hne initial before room v ans
  · intro label
    rw [getD_storeAll, Entries.get?_putAll]
    rfl
  · rw [getD_storeAll]
    exact Entries.keys_putAll (Json.hasUniqueNames_object.1 hstores.plain.unique).1 _

def nullUnderB : Files :=
  Files.empty.set ["store.json"] (.file (Json.object [("b", .null)]).pretty.toUTF8)

lemma plain_nullUnderB : (Json.object [("b", .null)]).Plain Json.maxNesting :=
  ⟨by decide, by decide, by decide⟩

lemma readText_nullUnderB : nullUnderB.readText "store.json" = .ok (Json.object [("b", .null)]).pretty := by
  have hplace : Files.empty.place? "store.json" = some ["store.json"] := rfl
  exact Files.readText_set hplace rfl _

lemma holds_nullUnderB : Holds nullUnderB "store.json" (some [("b", .null)]) :=
  ⟨_, readText_nullUnderB, plain_nullUnderB.parse?_pretty⟩

theorem labels_follow_runs_nullUnderB :
    Holds nullUnderB "store.json" (some [("b", .null)]) ∧ nullUnderB.Writable "store.json" ∧
      (runCalls "store.json" [.save .enough "a" (.bool true), .load "a", .load "b"] nullUnderB).1 =
        [(.save .enough "a" (.bool true), .ok none), (.load "a", .ok (some (.bool true))),
          (.load "b", .ok (some .null))] := by
  let calls : List Call := [.save .enough "a" (.bool true), .load "a", .load "b"]
  have hw : nullUnderB.Writable "store.json" := ⟨["store.json"], rfl, rfl⟩
  have hintegral : ∀ m ∈ [("b", Json.null)], m.2.isIntegral := by decide
  have hcalls : ∀ c ∈ calls, c.Storable := by
    simpa [calls, Call.Storable] using ⟨by decide, by decide, by decide⟩
  obtain ⟨x, y, z, fs', hrun⟩ : ∃ x y z fs', runCalls "store.json" calls nullUnderB =
      ([(.save .enough "a" (.bool true), x), (.load "a", y), (.load "b", z)], fs') := ⟨_, _, _, _, rfl⟩
  have huncut := (holds_nullUnderB.stores hintegral).uncut calls hcalls (by simp [calls, Call.HasRoom])
  rw [hrun] at huncut
  obtain ⟨hload, hsave, -⟩ := (labels_follow_runs "store.json").2.2 nullUnderB (some [("b", .null)]) calls _ fs'
    holds_nullUnderB hintegral hcalls hrun huncut
  obtain rfl : x = .ok none := hsave hw [] .enough "a" (.bool true) x _ rfl
  have hy : y = .ok (some (.bool true)) := hload [_] "a" y _ rfl
  have hz : z = .ok (some .null) := hload [_, _] "b" z [] rfl
  rw [hz, hy] at hrun
  exact ⟨holds_nullUnderB, hw, congrArg Prod.fst hrun⟩

/-- Without a file there is no label to miss, and a save that the disk cuts short takes the labels with it. -/
theorem labels_missed_and_lost :
    (runCalls "store.json" [.load "q"] .empty).1 = [(.load "q", .error (.notFound "store.json"))] ∧
      Error.notFound "store.json" ≠ .labelNotFound "store.json" "q" ∧
      ∃ fs', (Action.saveValue (.bytes 0) "store.json" .null (some "a")).run nullUnderB =
          (.error (.access .cutShort), fs') ∧
        nullUnderB.readText "store.json" = .ok (Json.object [("b", .null)]).pretty ∧
        fs'.readText "store.json" = .ok "" ∧ (Json.object [("b", .null)]).pretty ≠ "" := by
  have hnonempty {ms : Json.Members} (h : (Json.object ms).Plain Json.maxNesting) : (Json.object ms).pretty ≠ "" := by
    intro hempty
    have hparse := h.parse?_pretty
    rw [hempty] at hparse
    cases hparse
  have hplain : (Json.object [("b", .null), ("a", .null)]).Plain Json.maxNesting := ⟨by decide, by decide, by decide⟩
  have hplace : nullUnderB.place? "store.json" = some ["store.json"] := rfl
  obtain ⟨fs', hwrite, htext⟩ := Files.exists_writeText_bytes_zero hplace rfl (hnonempty hplain)
  refine ⟨rfl, nofun, fs', ?_, readText_nullUnderB, htext, hnonempty plain_nullUnderB⟩
  rw [holds_nullUnderB.run_saveValue]
  have hinsert : Entries.insert [("b", Json.null)] "a" .null = [("b", .null), ("a", .null)] := rfl
  simp only [Option.getD_some, hinsert, hwrite]
  rfl

end QueryFile

end QueryTree
