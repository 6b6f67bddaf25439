import QueryTree.Proofs.Frame.Reachable
import QueryTree.Proofs.Sql.ColumnTexts
import QueryTree.Proofs.Sql.Composition
/-! What joins and unions make of the lists that they are given. Frames, types and conditions that do not fit together
are refused before the frames are looked at; otherwise each of them stands in its place in the new query. -/

namespace QueryTree

open Sql
open Check (childKey)

namespace Sql.Columns

lemma eq_nil_of_projected (types : CastTypes) {fs : Fields}
    (h : ∀ e ∈ fs.entries, e.2.groupBy = none ∧ e.2.orderBy = none) :
    (ofFields types fs).dimensions = [] ∧ (ofFields types fs).order = [] := by
  have hgrouped : fs.grouped = [] := List.filter_eq_nil_iff.2 fun e he => by simp [(h e he).1]
  rw [dimensions_ofFields, order_ofFields, hgrouped, Fields.sorted_eq_nil fun e he => (h e he).2]
  exact ⟨rfl, rfl⟩

end Sql.Columns

namespace Document

lemma nodeText_of_fields {fs : Fields} (h : ∀ e ∈ fs.entries, e.2.groupBy = none ∧ e.2.orderBy = none) (source : String) :
    nodeText { fields := fs } source =
      "SELECT " ++ ", ".intercalate (Columns.ofFields {} fs).names ++ " FROM " ++ source := by
  obtain ⟨hdimensions, horder⟩ := Columns.eq_nil_of_projected {} h
  have hend : endText { fields := fs } = "" := by
    rw [endText, horder]
    rfl
  delta nodeText
  simp only [hdimensions, hend]
  simp [clauseText, listText]

lemma text_joinedTokens_eq_join (n : ℕ) (joined : List (JoinLink × Document)) :
    text (joinedTokens n joined) = String.join ((joined.zipIdx n).map fun j => linkText j.1.1 j.1.2.sql j.2) := by
  induction joined generalizing n with
  | nil => rfl
  | cons j joined ih =>
    obtain ⟨link, d⟩ := j
    rw [joinedTokens, text_append, text_linkTokens, ih, List.zipIdx_cons, List.map_cons, String.join_cons, sql]

lemma sql_join_of_fields {fs : Fields} (h : ∀ e ∈ fs.entries, e.2.groupBy = none ∧ e.2.orderBy = none)
    (left : Document) (joined : List (JoinLink × Document)) :
    (Document.join { fields := fs } left joined).sql =
      "SELECT " ++ ", ".intercalate (Columns.ofFields {} fs).names ++ " FROM (" ++ left.sql ++ ") sq1" ++
        String.join ((joined.zipIdx 2).map fun j => linkText j.1.1 j.1.2.sql j.2) := by
  have hleft : text (wrapped left.tokens (childKey 1)) = "(" ++ left.sql ++ ") sq1" :=
    (text_wrapped left.tokens (toString 1)).trans (String.append_assoc ..)
  have hopen : " FROM (" = " FROM " ++ "(" := rfl
  have hnone : none ≠ some "" := (Option.some_ne_none "").symm
  rw [sql, tokens, text_node (b := { fields := fs }) hnone hnone, text_append, hleft, text_joinedTokens_eq_join,
    nodeText_of_fields h, hopen]
  simp only [String.append_assoc]

end Document

namespace Frame

inductive KeptCondition (given : String) : Option String → Prop
  | none (nothing : Text.trim given = "" ∨ Text.trim given = "0") : KeptCondition given none
  | some (nonempty : Text.trim given ≠ "") (nonzero : Text.trim given ≠ "0") :
      KeptCondition given (some (Text.trim given))

/-- Each frame, type and condition stands in its place in a join, and each query under the number of its place. -/
inductive JoinOf (frames : List Frame) (types : List JoinType) (on : List String) : Document → Prop
  | join {b : Block} {left : Document} {joined : List (JoinLink × Document)}
      (documents : (Document.join b left joined).children.map some = frames.map Frame.document)
      (inOrder : joined.map (fun j => j.1.type) = types)
      (conditions : List.Forall₂ KeptCondition on (joined.map fun j => j.1.on))
      (text : (Document.join b left joined).sql =
        "SELECT " ++ ", ".intercalate (Columns.ofFields {} b.fields).names ++ " FROM (" ++ left.sql ++ ") sq1" ++
          String.join ((joined.zipIdx 2).map fun j => Document.linkText j.1.1 j.1.2.sql j.2)) :
      JoinOf frames types on (.join b left joined)

inductive UnionOf (frames : List Frame) (types : List UnionType) : Document → Prop
  | union {b : Block} {first : Document} {members : List (UnionType × Document)}
      (documents : (Document.union b first members).children.map some = frames.map Frame.document)
      (inOrder : members.map Prod.fst = types) : UnionOf frames types (.union b first members)

/-- The outcome of a composition of frames: a fault of its own if the lists do not fit, another one if a frame is empty,
and otherwise a document as it should be. -/
structure Outcome (frames : List Frame) (fits : Prop) (unfit : Error) (op : Operation) (composed : Document → Prop)
    (r : Except Error Frame) : Prop where
  unfit_iff : r = .error unfit ↔ ¬ fits
  empty_iff : r = .error (.emptyFrame op) ↔ fits ∧ ∃ f ∈ frames, f.document = none
  ok_iff : (∃ g d, r = .ok g ∧ g.document = some d ∧ composed d) ↔ fits ∧ ∀ f ∈ frames, f.document ≠ none

section

variable {frames : List Frame} {fits : Prop} {unfit : Error} {op : Operation} {composed : Document → Prop}
  {r : Except Error Frame}

lemma Outcome.of_cases (hne : unfit ≠ .emptyFrame op) (hunfit : ¬ fits → r = .error unfit)
    (hempty : fits → (∃ f ∈ frames, f.document = none) → r = .error (.emptyFrame op))
    (hok : fits → (∀ f ∈ frames, f.document ≠ none) → ∃ g d, r = .ok g ∧ g.document = some d ∧ composed d) :
    Outcome frames fits unfit op composed r := by
  by_cases hfits : fits
  · by_cases hall : ∀ f ∈ frames, f.document ≠ none
    · obtain ⟨g, d, rfl, hd, hc⟩ := hok hfits hall
      refine ⟨⟨nofun, fun h => absurd hfits h⟩, ⟨nofun, fun ⟨_, f, hf, hnone⟩ => absurd hnone (hall f hf)⟩, ?_⟩
      exact ⟨fun _ => ⟨hfits, hall⟩, fun _ => ⟨g, d, rfl, hd, hc⟩⟩
    · have hsome : ∃ f ∈ frames, f.document = none := by
        simpa only [ne_eq, not_forall, Decidable.not_not, exists_prop] using hall
      obtain rfl := hempty hfits hsome
      refine ⟨⟨fun h => absurd (Except.error.inj h).symm hne, fun h => absurd hfits h⟩, ?_, ?_⟩
      · exact ⟨fun _ => ⟨hfits, hsome⟩, fun _ => rfl⟩
      · exact ⟨nofun, fun h => absurd h.2 hall⟩
  · obtain rfl := hunfit hfits
    refine ⟨⟨fun _ => hfits, fun _ => rfl⟩, ⟨fun h => absurd (Except.error.inj h) hne, fun h => absurd h.1 hfits⟩, ?_⟩
    exact ⟨nofun, fun h => absurd h.1 hfits⟩

end

lemma keptCondition (given : String) : KeptCondition given (condition? given) := by
  rw [condition?]
  split
  · next h =>
    rw [Bool.or_eq_true, String.isEmpty_iff, beq_iff_eq] at h
    exact .none h
  · next h =>
    rw [Bool.or_eq_true, String.isEmpty_iff, beq_iff_eq, not_or] at h
    exact .some h.1 h.2

def JoinFits (frames : List Frame) (types : List JoinType) (on : List String) : Prop :=
  frames.length = types.length + 1 ∧ types.length = on.length

variable {frames : List Frame}

lemma length_of_documents {ds : List Document} (h : ds.map some = frames.map Frame.document) :
    ds.length = frames.length := by
  simpa only [List.length_map] using congrArg List.length h

lemma exists_documents (op : Operation) (hlength : 0 < frames.length) (hall : ∀ f ∈ frames, f.document ≠ none) :
    ∃ first rest, documents op frames = .ok (first :: rest) ∧ (first :: rest).map some = frames.map Frame.document ∧
      rest.length + 1 = frames.length := by
  rcases documents_eq op frames with ⟨-, ds, hds, hmap⟩ | ⟨⟨f, hf, hnone⟩, -⟩
  · have hsame : ds.length = frames.length := length_of_documents hmap
    cases ds with
    | nil => exact absurd hsame (Nat.ne_of_lt hlength)
    | cons first rest => exact ⟨first, rest, hds, hmap, hsame⟩
  · exact absurd hnone (hall f hf)

lemma documents_of_empty (op : Operation) (h : ∃ f ∈ frames, f.document = none) :
    documents op frames = .error (.emptyFrame op) := by
  rcases documents_eq op frames with ⟨hall, -⟩ | ⟨-, herror⟩
  · obtain ⟨f, hf, hnone⟩ := h
    exact absurd hnone (hall f hf)
  · exact herror

lemma joinOf_zip {fs : Fields} (hfs : ∀ e ∈ fs.entries, e.2.groupBy = none ∧ e.2.orderBy = none)
    {left : Document} {rest : List Document} {types : List JoinType} {on : List String}
    (hdocuments : (left :: rest).map some = frames.map Frame.document) (htypes : types.length = rest.length)
    (hon : types.length = on.length) :
    JoinOf frames types on
      (.join { fields := fs } left ((types.zipWith (fun type c => JoinLink.mk type (condition? c)) on).zip rest)) := by
  have hlinks : types.zipWith (fun type c => JoinLink.mk type (condition? c)) on =
      (types.zip on).map fun p => JoinLink.mk p.1 (condition? p.2) := (List.map_uncurry_zip_eq_zipWith ..).symm
  have hlength : ((types.zip on).map fun p => JoinLink.mk p.1 (condition? p.2)).length = rest.length := by
    rw [List.length_map, List.length_zip, ← hon, Nat.min_self, htypes]
  have hfst {α : Type} (g : JoinLink → α) :
      (((types.zip on).map fun p => JoinLink.mk p.1 (condition? p.2)).zip rest).map (fun j => g j.1) =
        (types.zip on).map fun p => g (JoinLink.mk p.1 (condition? p.2)) := by
    have h := congrArg (List.map g) (List.map_fst_zip (Nat.le_of_eq hlength))
    rwa [List.map_map, List.map_map] at h
  rw [hlinks]
  refine .join ?_ ?_ ?_ (Document.sql_join_of_fields hfs _ _)
  · rw [← hdocuments, Document.children, List.map_snd_zip (Nat.le_of_eq hlength.symm)]
  · rw [hfst JoinLink.type]
    exact List.map_fst_zip (Nat.le_of_eq hon)
  · have hkept := congrArg (List.map condition?) (List.map_snd_zip (Nat.le_of_eq hon.symm))
    rw [List.map_map, Function.comp_def] at hkept
    rw [hfst JoinLink.on, hkept, List.forall₂_map_right_iff]
    exact List.forall₂_same.2 fun given _ => keptCondition given

lemma exists_join {types : List JoinType} {on : List String} (hfits : JoinFits frames types on)
    (hall : ∀ f ∈ frames, f.document ≠ none) (unique : Bool) :
    ∃ left rest, (left :: rest).map some = frames.map Frame.document ∧ types.length = rest.length ∧
      join frames types on unique = .ok
        { document := some (.join { fields := (Collected.addAll unique 1 {} (left :: rest)).fields } left
            ((types.zipWith (fun type c => JoinLink.mk type (condition? c)) on).zip rest))
          settings := firstSettings frames } := by
  obtain ⟨hframes, hon⟩ := hfits
  obtain ⟨left, rest, hds, hmap, hlength⟩ := exists_documents .join (hframes ▸ Nat.succ_pos _) hall
  have htypes : types.length = rest.length := by
    rw [hframes] at hlength
    exact (Nat.succ.inj hlength).symm
  refine ⟨left, rest, hmap, htypes, ?_⟩
  rw [join, if_neg (by simp [hframes, hon]), hds]
  rfl

lemma outcome_join (types : List JoinType) (on : List String) (unique : Bool) :
    Outcome frames (JoinFits frames types on) (.joinArity frames.length types.length on.length) .join
      (JoinOf frames types on) (join frames types on unique) := by
  refine .of_cases nofun ?_ ?_ ?_
  · intro hfits
    rw [JoinFits, not_and_or] at hfits
    rw [join, if_pos hfits]
    rfl
  · rintro ⟨hframes, hon⟩ hempty
    rw [join, if_neg (by simp [hframes, hon]), documents_of_empty .join hempty]
    rfl
  · intro hfits hall
    obtain ⟨left, rest, hmap, htypes, hrun⟩ := exists_join hfits hall unique
    have hfields := forall_collected_addAll (q := fun e => e.2.groupBy = none ∧ e.2.orderBy = none)
      (fun _ _ _ => ⟨rfl, rfl⟩) unique 1 (c := {}) (List.forall_mem_nil _) (left :: rest)
    exact ⟨_, _, hrun, rfl, joinOf_zip hfields hmap htypes hfits.2⟩

lemma outcome_union (types : List UnionType) :
    Outcome frames (frames.length = types.length + 1) (.unionArity frames.length types.length) .union
      (UnionOf frames types) (union frames types) := by
  refine .of_cases nofun ?_ ?_ ?_
  · intro hfits
    rw [union, if_pos hfits]
    rfl
  · intro hframes hempty
    rw [union, if_neg (by simp [hframes]), documents_of_empty .union hempty]
    rfl
  · intro hframes hall
    obtain ⟨first, rest, hds, hmap, hlength⟩ := exists_documents .union (hframes ▸ Nat.succ_pos _) hall
    have htypes : types.length = rest.length := by
      rw [hframes] at hlength
      exact (Nat.succ.inj hlength).symm
    have hrun : union frames types = .ok
        { document := some (.union { fields := unionFields first.fields } first (types.zip rest))
          settings := firstSettings frames } := by
      rw [union, if_neg (by simp [hframes]), hds]
      rfl
    refine ⟨_, _, hrun, rfl, .union ?_ (List.map_fst_zip (Nat.le_of_eq htypes))⟩
    rw [← hmap, Document.children, List.map_snd_zip (Nat.le_of_eq htypes.symm)]

theorem composition_outcome (frames : List Frame) :
    (∀ types on unique, Outcome frames (JoinFits frames types on)
      (.joinArity frames.length types.length on.length) .join (JoinOf frames types on) (join frames types on unique)) ∧
      ∀ types, Outcome frames (frames.length = types.length + 1) (.unionArity frames.length types.length) .union
        (UnionOf frames types) (union frames types) :=
  ⟨outcome_join, outcome_union⟩

end Frame

end QueryTree
