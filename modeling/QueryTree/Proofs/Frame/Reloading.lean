import QueryTree.Frame.Render
import QueryTree.Proofs.Frame.Calls
import QueryTree.Proofs.Frame.Storage
import QueryTree.Proofs.Sql.Canonical
import QueryTree.Proofs.Text.Padding
import QueryTree.Sql.Layout
/-! Reloading frames. A reachable frame that is stored and read back has the same column texts. It renders the same
text exactly when it has no condition that is the empty text, for these are lost in storing. -/

namespace QueryTree

namespace Document

lemma canonicalSource_of_canonical {d : Document} (h : d.canonical = d) : d.EveryNode CanonicalSource := by
  refine (everyNode_canonical_eq h).mono fun d hd => ?_
  cases d with
  | table b t =>
    rw [canonical] at hd
    exact (table.inj hd).2
  | subquery | union => trivial
  | join b left joined =>
    rw [canonical, canonicalJoined_eq] at hd
    have hjoined : (joined.map fun j => (j.1.canonical, j.2.canonical)) = joined.map id :=
      (join.inj hd).2.2.trans (List.map_id _).symm
    exact fun j hj => congrArg Prod.fst (List.map_inj_left.1 hjoined j hj)

lemma canonicalSource_mapBlock (g : Block → Block) (d : Document) :
    (d.mapBlock g).CanonicalSource ↔ d.CanonicalSource := by
  cases d <;> exact .rfl

end Document

namespace Frame

variable {f g : Frame}

def CanonicalSources (f : Frame) : Prop :=
  ∀ d, f.document = some d → d.EveryNode Document.CanonicalSource

lemma CanonicalSources.call (h : f.CanonicalSources) {c : Call} (hrun : c.run f = .ok g) : g.CanonicalSources := by
  intro e he
  rcases c.editsBlock_or_select hrun with ⟨k, hg⟩ | ⟨keys, -, rfl⟩
  · rw [hg, Option.map_eq_some_iff] at he
    obtain ⟨d, hd, rfl⟩ := he
    exact (h d hd).mapBlock ((Document.canonicalSource_mapBlock _ d).2 (h d hd).root)
  · rw [document_select, Option.map_eq_some_iff] at he
    obtain ⟨d, hd, rfl⟩ := he
    exact .node trivial (List.forall_mem_singleton.2 (h d hd))

lemma canonical_condition? (on : String) :
    ((condition? on).bind fun s => Document.condition? (.string s)) = condition? on := by
  by_cases hnone : ((Text.trim on).isEmpty || Text.trim on == "0") = true
  · have hcondition : condition? on = none := if_pos hnone
    rw [hcondition, Option.bind_none]
  · have hcondition : condition? on = some (Text.trim on) := if_neg hnone
    rw [Bool.or_eq_true, beq_iff_eq, not_or] at hnone
    have hblank : Text.isBlankText (Text.trim on) = false := by
      by_contra hblank
      have hempty := Text.trim_of_isBlankText (Bool.of_not_eq_false hblank)
      rw [Text.trim_trim] at hempty
      exact hnone.1 (by rw [hempty]; rfl)
    simp [hcondition, Document.condition?, hblank, Text.trim_trim, hnone.2]

lemma CanonicalSources.join {fs : List Frame} (h : ∀ f ∈ fs, f.CanonicalSources) {types : List JoinType}
    {on : List String} {unique : Bool} (hrun : Frame.join fs types on unique = .ok g) : g.CanonicalSources := by
  obtain ⟨-, -, left, rest, hds, hg⟩ := document_of_join hrun
  obtain ⟨hleft, hrest⟩ := List.forall_mem_cons.1 (forall_documents h hds)
  intro d hd
  cases hg.symm.trans hd
  refine .node ?_ (List.forall_mem_cons.2 ⟨hleft, List.forall_mem_map.2 fun j hj => hrest _ (List.of_mem_zip hj).2⟩)
  intro j hj
  obtain ⟨i, hi, hlink⟩ := List.mem_iff_getElem.1 (List.of_mem_zip hj).1
  rw [List.getElem_zipWith] at hlink
  rw [← hlink, JoinLink.canonical, canonical_condition?]

lemma CanonicalSources.union {fs : List Frame} (h : ∀ f ∈ fs, f.CanonicalSources) {types : List UnionType}
    (hrun : Frame.union fs types = .ok g) : g.CanonicalSources := by
  obtain ⟨-, first, rest, hds, hg⟩ := document_of_union hrun
  obtain ⟨hfirst, hrest⟩ := List.forall_mem_cons.1 (forall_documents h hds)
  intro d hd
  cases hg.symm.trans hd
  exact .node trivial
    (List.forall_mem_cons.2 ⟨hfirst, List.forall_mem_map.2 fun m hm => hrest _ (List.of_mem_zip hm).2⟩)

lemma canonicalSources_of_ofJson {v : Json} (hu : v.hasUniqueNames) (h : ofJson v = .ok f) : f.CanonicalSources := by
  obtain ⟨e, he, rfl⟩ := map_eq_ok_iff.1 h
  intro d hd
  cases hd
  exact Document.canonicalSource_of_canonical (Document.canonical_of_ofJson hu he)

lemma Reachable.canonicalSources (h : Reachable f) : f.CanonicalSources := by
  induction h with
  | empty => exact nofun
  | value hu hv => exact canonicalSources_of_ofJson hu hv
  | text hs hv => exact canonicalSources_of_ofJson (Json.parse?_hasUniqueNames hs) hv
  | @document d f hd => exact canonicalSources_of_ofJson d.hasUniqueNames_toJson hd
  | settings _ _ ih => exact ih
  | call _ c hrun ih => exact ih.call hrun
  | join _ hrun ih => exact CanonicalSources.join ih hrun
  | union _ hrun ih => exact CanonicalSources.union ih hrun

lemma Reachable.nearCanonical (h : Reachable f) {d : Document} (hd : f.document = some d) :
    d.EveryNode Document.NearCanonical :=
  (Document.everyNode_and_iff.2 ⟨h.sound d hd, h.canonicalSources d hd⟩).mono fun _ ⟨hsound, hsource⟩ =>
    ⟨hsound.fields, hsource⟩

lemma document_of_reloaded (h : ofJson f.toJson = .ok g) :
    ∃ d, f.document = some d ∧ g.document = some d.canonical := by
  obtain ⟨e, he, rfl⟩ := map_eq_ok_iff.1 h
  cases hd : f.document with
  | none =>
    rw [toJson, hd] at he
    cases he
  | some d =>
    rw [toJson, hd] at he
    exact ⟨d, rfl, congrArg some (Document.ofJson_toJson_iff.1 he).2⟩

lemma layout_eq_iff [Sql.Formatter] {settings : LayoutSettings} {ts us : List Sql.Token} {p : Prop}
    (h : Sql.Fades ts us p) : Sql.layout settings (Sql.text us) = Sql.layout settings (Sql.text ts) ↔ p := by
  constructor
  · intro hlayout
    have hsquash : Sql.squash (Sql.text us) = Sql.squash (Sql.text ts) := by
      rw [← Sql.squash_layout settings, hlayout, Sql.squash_layout]
    have hink := congrArg (fun s => s.toList.length) hsquash
    simp only [Sql.squash, String.toList_ofList] at hink
    exact h.keeps hink
  · intro hp
    rw [h.eq hp]

/-- A reachable frame that is stored and read back has the same column texts, and renders the same text exactly if no
query in it has a condition that is the empty text. -/
theorem Reachable.reloaded_iff [Sql.Formatter] (h : Reachable f) (hg : ofJson f.toJson = .ok g) :
    let r := (g.withSettings f.settings).render
    r.columns = f.render.columns ∧
      (r.rendered = f.render.rendered ↔ ∀ d, f.document = some d → d.EveryNode fun e => ¬ e.HasEmptyCondition) := by
  intro r
  obtain ⟨d, hd, hcanonical⟩ := document_of_reloaded hg
  have hnear := h.nearCanonical hd
  constructor
  · have hcolumns : Sql.Columns.ofFields f.settings.types d.canonical.fields = .ofFields f.settings.types d.fields := by
      rw [Document.fields, Document.block_canonical]
      exact Sql.Columns.ofFields_canonical _ hnear.root.fields
    change g.document.map _ = f.document.map _
    rw [hd, hcanonical]
    exact congrArg some hcolumns
  · have hrendered : r.rendered = Sql.layout f.settings.layout d.canonical.sql := by
      change Frame.sqlText _ = _
      simp only [sqlText, withSettings, hcanonical]
    have hrendered' : f.render.rendered = Sql.layout f.settings.layout d.sql := by
      change Frame.sqlText _ = _
      simp only [sqlText, hd]
    rw [hrendered, hrendered', Document.sql, Document.sql, layout_eq_iff (Document.fades_canonical hnear)]
    simp [hd, Document.KeepsConditions]

def tableFrame : Frame where
  document := some tableDocument
  settings := .raw

lemma reachable_tableFrame : Reachable tableFrame :=
  .settings reachable_tableDocument .raw

lemma ofJson_of_document {v : Json} {d : Document} (h : Document.ofJson v = .ok d) :
    ofJson v = .ok { document := some d } := by
  rw [ofJson, h]
  rfl

theorem reloaded_blankAlias :
    let f := (tableFrame.rename [("x", " ")]).filter "x = y"
    ∃ g, Reachable f ∧ ofJson f.toJson = .ok g ∧ g.document ≠ f.document ∧
      (g.withSettings f.settings).render.rendered = f.render.rendered := by
  intro f
  let e : Document :=
    .table { fields := .ofList [("x", { type := .dimension })], filter := some "x = y" } { table := "t" }
  have hf : Reachable f := .call (.call reachable_tableFrame (.rename [("x", " ")]) rfl) (.filter "x = y") rfl
  have hread : Document.ofJson f.toJson = .ok e := by decide +kernel
  have hg := ofJson_of_document hread
  refine ⟨_, hf, hg, by decide +kernel, (hf.reloaded_iff hg).2.2 ?_⟩
  rintro d ⟨⟩
  refine .node ?_ nofun
  rintro ⟨-, h⟩
  revert h
  decide +kernel

/-- An empty condition is rendered as `WHERE` with nothing after it, and is lost in storing. -/
theorem reloaded_emptyFilter :
    let f := tableFrame.filter ""
    ∃ g, Reachable f ∧ ofJson f.toJson = .ok g ∧ f.render.rendered = "SELECT x FROM t WHERE " ∧
      (g.withSettings f.settings).render.rendered = "SELECT x FROM t" := by
  intro f
  have hread : Document.ofJson f.toJson = .ok tableDocument := by decide +kernel
  refine ⟨_, .call reachable_tableFrame (.filter "") rfl, ofJson_of_document hread, ?_, ?_⟩
  · decide +kernel
  · decide +kernel

end Frame

end QueryTree
