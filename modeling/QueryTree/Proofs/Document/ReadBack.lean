import QueryTree.Proofs.Document.Alike
import QueryTree.Proofs.Document.RoundTrip
/-! Documents with their numbers read back. All numbers that a document reads are integers, which read back as
themselves; other numbers stand where no document looks, so the document stays the same. -/

namespace QueryTree

open Json (Members membersReadBack?)
open Check (Source)
open Grammar

lemma Grammar.IsPlain.isIntegral {v : Json} (h : IsPlain v) : v.isIntegral := by
  induction h with
  | null | bool | natural | string => rfl
  | array _ ih => exact Json.isIntegral_array.2 ih

namespace Json

variable {ms ws : Members} {name : String}

lemma readBack?_object_eq_some_iff {w : Json} :
    (Json.object ms).readBack? = some w ↔ ∃ ws, membersReadBack? ms = some ws ∧ w = .object ws := by
  rw [readBack?, Option.map_eq_some_iff]
  simp only [eq_comm]

lemma exists_object_readBack {us : Members} (h : membersReadBack? ms = some ws)
    (hus : ms.get? name = some (.object us)) :
    ∃ us' : Members, ws.get? name = some (.object us') ∧ membersReadBack? us = some us' := by
  have hall := isSome_membersReadBack?_iff.1 (Option.isSome_iff_exists.2 ⟨ws, h⟩)
  obtain ⟨w, hw⟩ := Option.isSome_iff_exists.1 (hall _ (Entries.mem_of_get? hus))
  obtain ⟨us', hread, rfl⟩ := readBack?_object_eq_some_iff.1 hw
  exact ⟨us', by rw [get?_of_membersReadBack? h, hus, Option.bind_some, hw], hread⟩

lemma keepsPlain_readBack (h : membersReadBack? ms = some ws) : KeepsPlain ms ws := by
  intro name hplain
  rw [get?_of_membersReadBack? h]
  cases hv : ms.get? name with
  | none => rfl
  | some v => exact readBack?_of_isIntegral v (hplain v hv).isIntegral

lemma keepsObjects_readBack (h : membersReadBack? ms = some ws) : KeepsObjects ms ws := by
  intro name us hus
  obtain ⟨us', hus', hread⟩ := exists_object_readBack h hus
  exact ⟨us', hus', keepsPlain_readBack hread⟩

end Json

namespace Document

variable {block ws : Members}

lemma alikeBlocks_readBack {source : Source} (hu : (Json.object block).hasUniqueNames) (hb : IsBlock block)
    (hs : ReadsFrom block source) (hw : membersReadBack? block = some ws) : AlikeBlocks block ws := by
  refine alikeBlocks_of_keeps hu hb hs (Json.keepsPlain_readBack hw) (Json.keepsObjects_readBack hw) ?_
  intro fields fields' hget hget'
  obtain ⟨us, hus, hread⟩ := Json.exists_object_readBack hw hget
  cases hget'.symm.trans hus
  exact ⟨(Json.keys_of_membersReadBack? hread).symm, Json.keepsObjects_readBack hread⟩

lemma alikeNodes_readBack {v w : Json} (hv : IsNode v) (hu : v.hasUniqueNames) (hw : v.readBack? = some w) :
    AlikeNodes v w := by
  induction hv generalizing w with
  | @node node block source hselect hblock hreads hpresent hchildren ih =>
    obtain ⟨ns, hns, rfl⟩ := Json.readBack?_object_eq_some_iff.1 hw
    obtain ⟨bs, hselect', hbs⟩ := Json.exists_object_readBack hns hselect
    have hblocks := alikeBlocks_readBack (Json.hasUniqueNames_of_get? hu hselect) hblock hreads hbs
    refine .node hselect hselect' hblocks hreads ?_ ?_
    · rw [Json.keys_of_membersReadBack? hns]
      exact fun _ _ hm => hm
    · intro key hk v w hv hw
      rw [Json.get?_of_membersReadBack? hns, hv] at hw
      exact ih key hk v hv (Json.hasUniqueNames_of_get? hu hv) hw

theorem ofJson_readBack {v w : Json} {d : Document} (hu : v.hasUniqueNames) (h : ofJson v = .ok d)
    (hw : v.readBack? = some w) (hu' : w.hasUniqueNames) : ofJson w = .ok d := by
  have hdocument : IsDocument v := isDocument_of_ofJson hu h
  refine ofJson_of_alike hu hu' ?_ h
  cases hdocument with
  | @wrapped node hselect hnode =>
    obtain ⟨ns, -, rfl⟩ := Json.readBack?_object_eq_some_iff.1 hw
    exact .wrapped (alikeNodes_readBack hnode hu hw)
  | @flat block t hselect hblock hunion hjoin htable hne =>
    obtain ⟨bs, hbs, rfl⟩ := Json.readBack?_object_eq_some_iff.1 hw
    rw [← Entries.get?_eq_none_iff] at hunion hjoin
    have hreads : ReadsFrom block .table := .table hunion hjoin htable hne
    refine .flat hselect ?_ (alikeBlocks_readBack hu hblock hreads hbs)
    rwa [Json.keys_of_membersReadBack? hbs]

end Document

end QueryTree
