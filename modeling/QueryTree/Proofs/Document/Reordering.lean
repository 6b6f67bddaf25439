import QueryTree.Proofs.Document.Alike
/-! The order of names. A document looks up what it reads by name, so the names in its objects may stand in any order;
only the fields of its nodes are read one after the other. -/

namespace QueryTree

open Json (Members)
open Check (RefersTo isWrapped)
open Grammar

namespace Json

/-- The same value but for the order of names. The objects at the places of `keep`, each place being the names that lead
to it, keep their order. -/
inductive Reordered : (List String → Prop) → Json → Json → Prop
  | refl {keep : List String → Prop} (v : Json) : Reordered keep v v
  | array {keep : List String → Prop} {items items' : List Json} (length : items.length = items'.length)
      (values : ∀ (i : ℕ) (v w : Json), items[i]? = some v → items'[i]? = some w → Reordered (fun _ => False) v w) :
      Reordered keep (.array items) (.array items')
  | object {keep : List String → Prop} {ms ms' : Members} (names : ms.keys.Perm ms'.keys)
      (kept : keep [] → ms.keys = ms'.keys)
      (values : ∀ (name : String) (v w : Json), ms.get? name = some v → ms'.get? name = some w →
        Reordered (fun place => keep (name :: place)) v w) : Reordered keep (.object ms) (.object ms')

structure ReorderedMembers (keep : List String → Prop) (ms ms' : Members) : Prop where
  names : ms.keys.Perm ms'.keys
  kept : keep [] → ms.keys = ms'.keys
  values : ∀ name v w, ms.get? name = some v → ms'.get? name = some w →
    Reordered (fun place => keep (name :: place)) v w

variable {keep : List String → Prop} {v w : Json} {ms ms' : Members} {name : String}

lemma reorderedMembers_refl (ms : Members) : ReorderedMembers keep ms ms := by
  refine ⟨.refl _, fun _ => rfl, fun name v w hv hw => ?_⟩
  cases hv.symm.trans hw
  exact .refl v

lemma Reordered.exists_members (h : Reordered keep (.object ms) w) :
    ∃ ms', w = .object ms' ∧ ReorderedMembers keep ms ms' := by
  cases h with
  | refl => exact ⟨ms, rfl, reorderedMembers_refl ms⟩
  | object names kept values => exact ⟨_, rfl, names, kept, values⟩

lemma Reordered.hasUniqueNames (h : Reordered keep v w) (hv : v.hasUniqueNames) : w.hasUniqueNames := by
  induction h with
  | refl => exact hv
  | @array _ items items' hlength _ ih =>
    rw [hasUniqueNames_array] at hv ⊢
    intro w hw
    obtain ⟨i, hi⟩ := List.mem_iff_getElem?.1 hw
    have hlt : i < items.length := hlength ▸ (List.getElem?_eq_some_iff.1 hi).1
    have hget : items[i]? = some items[i] := List.getElem?_eq_getElem hlt
    exact ih i _ w hget hi (hv _ (List.getElem_mem hlt))
  | @object _ ms ms' names _ _ ih =>
    have hnodup : ms'.keys.Nodup := names.nodup (hasUniqueNames_object.1 hv).1
    rw [hasUniqueNames_object]
    refine ⟨hnodup, fun m hm => ?_⟩
    have hw : ms'.get? m.1 = some m.2 := Entries.get?_eq_some_of_mem hnodup hm
    obtain ⟨u, hu⟩ := Entries.exists_get?_of_mem_keys (names.mem_iff.2 (Entries.mem_keys_of_get? hw))
    exact ih m.1 u m.2 hu hw (hasUniqueNames_of_get? hv hu)

lemma Reordered.eq_of_isPlain (h : Reordered keep v w) (hv : IsPlain v) : w = v := by
  induction h with
  | refl => rfl
  | @array _ items items' hlength _ ih =>
    cases hv with
    | array hall =>
      refine congrArg Json.array (List.ext_getElem hlength.symm fun i hi' hi => ?_)
      exact ih i _ _ (List.getElem?_eq_getElem hi) (List.getElem?_eq_getElem hi') (hall _ (List.getElem_mem hi))
  | object => cases hv

namespace ReorderedMembers

variable (h : ReorderedMembers keep ms ms')

include h

lemma get?_eq_none (hn : ms.get? name = none) : ms'.get? name = none := by
  rw [Entries.get?_eq_none_iff] at hn ⊢
  exact fun hm => hn (h.names.mem_iff.2 hm)

lemma exists_get? (hv : ms.get? name = some v) :
    ∃ w, ms'.get? name = some w ∧ Reordered (fun place => keep (name :: place)) v w := by
  obtain ⟨w, hw⟩ := Entries.exists_get?_of_mem_keys (h.names.mem_iff.1 (Entries.mem_keys_of_get? hv))
  exact ⟨w, hw, h.values name v w hv hw⟩

lemma exists_object {us : Members} (hus : ms.get? name = some (.object us)) :
    ∃ us' : Members, ms'.get? name = some (.object us') ∧
      ReorderedMembers (fun place => keep (name :: place)) us us' := by
  obtain ⟨w, hw, hvalue⟩ := h.exists_get? hus
  obtain ⟨us', rfl, hmembers⟩ := hvalue.exists_members
  exact ⟨us', hw, hmembers⟩

lemma keepsPlain : KeepsPlain ms ms' := by
  intro name hplain
  cases hv : ms.get? name with
  | none => exact h.get?_eq_none hv
  | some v =>
    obtain ⟨w, hw, hvalue⟩ := h.exists_get? hv
    rw [hw, hvalue.eq_of_isPlain (hplain v hv)]

lemma keepsObjects : KeepsObjects ms ms' := by
  intro name us hus
  obtain ⟨us', hus', hmembers⟩ := h.exists_object hus
  exact ⟨us', hus', hmembers.keepsPlain⟩

end ReorderedMembers

end Json

inductive Document.FieldsPlace : Json → List String → Prop
  | wrapped {v : Json} {keys : List String} (isWrapped : isWrapped v = true) (refers : RefersTo v keys) :
      FieldsPlace v (keys ++ ["select", "fields"])
  | flat {v : Json} (isFlat : isWrapped v = false) : FieldsPlace v ["fields"]

namespace Document

open Json (Reordered ReorderedMembers)

variable {keep : List String → Prop} {block block' : Members}

lemma alikeBlocks_of_reordered {source : Check.Source} (hu : (Json.object block).hasUniqueNames) (hb : IsBlock block)
    (hs : ReadsFrom block source) (h : ReorderedMembers keep block block') (hkeep : keep ["fields"]) :
    AlikeBlocks block block' := by
  refine alikeBlocks_of_keeps hu hb hs h.keepsPlain h.keepsObjects fun fields fields' hget hget' => ?_
  obtain ⟨us, hus, hfields⟩ := h.exists_object hget
  cases hget'.symm.trans hus
  exact ⟨hfields.kept hkeep, hfields.keepsObjects⟩

lemma alikeNodes_of_reordered {v w : Json} (hv : IsNode v) (hu : v.hasUniqueNames) (h : Reordered keep v w)
    (hkeep : ∀ keys, RefersTo v keys → keep (keys ++ ["select", "fields"])) : AlikeNodes v w := by
  induction hv generalizing keep w with
  | @node node block source hselect hblock hreads hpresent hchildren ih =>
    obtain ⟨node', rfl, hnode⟩ := h.exists_members
    obtain ⟨block', hselect', hblocks⟩ := hnode.exists_object hselect
    have hplace : keep ["select", "fields"] := hkeep [] (.root _)
    have halike : AlikeBlocks block block' :=
      alikeBlocks_of_reordered (Json.hasUniqueNames_of_get? hu hselect) hblock hreads hblocks hplace
    refine .node hselect hselect' halike hreads (fun key _ hm => hnode.names.mem_iff.1 hm) ?_
    intro key hk v w hv hw
    refine ih key hk v hv (Json.hasUniqueNames_of_get? hu hv) (hnode.values key v w hv hw) fun keys hkeys => ?_
    exact hkeep (key :: keys) (.child hselect hreads hk hv hkeys)

/-- A value with its names in another order stands for the same document, if the fields of its nodes keep theirs. -/
theorem ofJson_of_reordered {v w : Json} {d : Document} (hu : v.hasUniqueNames) (h : Reordered (FieldsPlace v) v w)
    (hd : ofJson v = .ok d) : ofJson w = .ok d := by
  have hdocument : IsDocument v := isDocument_of_ofJson hu hd
  refine ofJson_of_alike hu (h.hasUniqueNames hu) ?_ hd
  cases hdocument with
  | @wrapped node hselect hnode =>
    obtain ⟨node', rfl, -⟩ := h.exists_members
    have hwrapped : isWrapped (.object node) = true := Check.isWrapped_iff.2 ⟨node, rfl, hselect⟩
    exact .wrapped (alikeNodes_of_reordered hnode hu h fun keys => .wrapped hwrapped)
  | @flat block t hselect hblock hunion hjoin htable hne =>
    obtain ⟨block', rfl, hmembers⟩ := h.exists_members
    have hflat : isWrapped (.object block) = false := by
      rw [Bool.eq_false_iff, ne_eq, Check.isWrapped_iff]
      rintro ⟨_, ⟨⟩, hm⟩
      exact hselect hm
    rw [← Entries.get?_eq_none_iff] at hunion hjoin
    have hreads : ReadsFrom block .table := .table hunion hjoin htable hne
    refine .flat hselect (fun hm => hselect (hmembers.names.mem_iff.2 hm)) ?_
    exact alikeBlocks_of_reordered hu hblock hreads hmembers (.flat hflat)

lemma getLast?_of_fieldsPlace {v : Json} {place : List String} (h : FieldsPlace v place) :
    place.getLast? = some "fields" := by
  cases h with
  | wrapped | flat => simp

lemma exists_get?_of_forall₂ {R : String → Json → Json → Prop} {ms ws : Members} {name : String} {v : Json}
    (h : List.Forall₂ (fun m w => m.1 = w.1 ∧ R m.1 m.2 w.2) ms ws) (hv : ms.get? name = some v) :
    ∃ w, ws.get? name = some w ∧ R name v w := by
  induction h with
  | nil => cases hv
  | @cons m w ms ws hm _ ih =>
    obtain ⟨key, u⟩ := m
    obtain ⟨key', u'⟩ := w
    obtain ⟨rfl, hvalue⟩ := hm
    rw [Entries.get?_cons] at hv ⊢
    split at hv
    · next hkey =>
      subst hkey
      cases hv
      exact ⟨u', if_pos rfl, hvalue⟩
    · next hkey =>
      rw [if_neg hkey]
      exact ih hv

lemma reordered_of_perm {ms ws ws' : Members} (hn : ws'.keys.Nodup) (hperm : ws.Perm ws') (hkept : keep [] → ws = ws')
    (h : List.Forall₂ (fun m w => m.1 = w.1 ∧ Reordered (fun place => keep (m.1 :: place)) m.2 w.2) ms ws) :
    Reordered keep (.object ms) (.object ws') := by
  have hkeys : ms.keys = ws.keys := by
    refine List.forall₂_eq_eq_eq.subst (motive := fun R : List String → List String → Prop => R ms.keys ws.keys) ?_
    exact List.forall₂_map_left_iff.2 (List.forall₂_map_right_iff.2 (h.imp fun _ _ hm => hm.1))
  refine .object (hkeys ▸ hperm.map Prod.fst) (fun hk => hkeys.trans (congrArg Entries.keys (hkept hk))) ?_
  intro name v w hv hw
  obtain ⟨w', hw', hvalue⟩ :=
    exists_get?_of_forall₂ (R := fun name v w => Reordered (fun place => keep (name :: place)) v w) h hv
  have hget : ws'.get? name = some w' := Entries.get?_eq_some_of_mem hn (hperm.mem_iff.1 (Entries.mem_of_get? hw'))
  cases hw.symm.trans hget
  exact hvalue

def turned (turn : Bool) (ms : Members) : Json :=
  .object (if turn then ms.reverse else ms)

lemma reordered_turned {ms ws : Members} (hn : ws.keys.Nodup) (hfree : ¬ keep [])
    (h : List.Forall₂ (fun m w => m.1 = w.1 ∧ Reordered (fun place => keep (m.1 :: place)) m.2 w.2) ms ws) :
    Reordered keep (turned false ms) (turned true ws) := by
  have hn' : (Entries.keys ws.reverse).Nodup := by
    rw [Entries.keys, List.map_reverse, List.nodup_reverse]
    exact hn
  exact reordered_of_perm hn' ws.reverse_perm.symm (fun hk => absurd hk hfree) h

def dailyFields (turn : Bool) : Members :=
  [("total", turned turn [("type", .string "num"), ("group_by", .string "sum")]),
    ("day", turned turn [("type", .string "dim"), ("order_by", .string "ASC")])]

def dailyTotals (turn : Bool) : Json :=
  turned turn [
    ("sq", turned turn [("select", turned turn [("table", .string "t"), ("fields", .object (dailyFields turn))])]),
    ("select", turned turn [("fields", .object (dailyFields turn)), ("distinct", .bool true)])]

lemma reordered_dailyFields (htotal : ¬ keep ["total"]) (hday : ¬ keep ["day"]) :
    Reordered keep (.object (dailyFields false)) (.object (dailyFields true)) := by
  refine reordered_of_perm (by decide) (.refl _) (fun _ => rfl) (.cons ⟨rfl, ?_⟩ (.cons ⟨rfl, ?_⟩ .nil))
  · exact reordered_turned (by decide) htotal (List.forall₂_same.2 fun m _ => ⟨rfl, .refl m.2⟩)
  · exact reordered_turned (by decide) hday (List.forall₂_same.2 fun m _ => ⟨rfl, .refl m.2⟩)

lemma reordered_dailyTotals (hkeep : ∀ place, keep place → place.getLast? = some "fields") :
    Reordered keep (dailyTotals false) (dailyTotals true) := by
  have hfree {place : List String} (hlast : place.getLast? ≠ some "fields") : ¬ keep place :=
    fun hp => hlast (hkeep place hp)
  refine reordered_turned (by decide +kernel) (hfree (by decide)) (.cons ⟨rfl, ?_⟩ (.cons ⟨rfl, ?_⟩ .nil))
  · refine reordered_turned (by decide +kernel) (hfree (by decide)) (.cons ⟨rfl, ?_⟩ .nil)
    refine reordered_turned (by decide +kernel) (hfree (by decide)) (.cons ⟨rfl, .refl _⟩ (.cons ⟨rfl, ?_⟩ .nil))
    exact reordered_dailyFields (hfree (by decide)) (hfree (by decide))
  · refine reordered_turned (by decide +kernel) (hfree (by decide)) (.cons ⟨rfl, ?_⟩ (.cons ⟨rfl, .refl _⟩ .nil))
    exact reordered_dailyFields (hfree (by decide)) (hfree (by decide))

theorem ofJson_of_reordered_dailyTotals :
    dailyTotals true ≠ dailyTotals false ∧
      ∃ d, ofJson (dailyTotals false) = .ok d ∧ ofJson (dailyTotals true) = .ok d := by
  have hu : (dailyTotals false).hasUniqueNames = true := by decide +kernel
  have hpass : (Check.check (dailyTotals false)).fault = none := by decide +kernel
  obtain ⟨d, hd⟩ := exists_ofJson hu hpass
  have h : Reordered (FieldsPlace (dailyTotals false)) (dailyTotals false) (dailyTotals true) :=
    reordered_dailyTotals fun _ => getLast?_of_fieldsPlace
  exact ⟨by decide +kernel, d, hd, ofJson_of_reordered hu h hd⟩

end Document

end QueryTree
