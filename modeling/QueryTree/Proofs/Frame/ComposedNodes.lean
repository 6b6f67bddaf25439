import QueryTree.Proofs.Frame.ComposedColumns
/-! The nodes that compositions make. A selection, a join and a union keep the documents that they are given as the
children of a new node, which has no clause of its own and selects columns of its children under their types. -/

namespace QueryTree

open Sql
open Check (subqueryKey childKey)

structure Field.Bare (f : Field) : Prop where
  visible : f.isVisible
  ungrouped : f.groupBy = none
  unordered : f.orderBy = none
  plain : f.expression = none

/-- A field that takes from the field `source` of a child its type, and nothing else but a name. -/
structure Field.Selects (f source : Field) : Prop where
  bare : f.Bare
  type : f.type = source.type
  customType : f.customType = source.customType

lemma Field.selects_projected (source : Field) (name : String) : (source.projected name).Selects source :=
  ⟨⟨rfl, rfl, rfl, rfl⟩, rfl, rfl⟩

lemma Field.Selects.castType_eq {f source : Field} (h : f.Selects source) (types : CastTypes) :
    f.castType types = source.castType types := by
  rw [Field.castType, h.type, h.customType, Field.castType]

structure Block.Clean (b : Block) : Prop where
  filter : b.filter = none
  having : b.having = none
  distinct : b.distinct = false
  limit : b.limit = none
  fields : ∀ e ∈ b.fields.entries, e.2.Bare

namespace Sql.Columns

lemma ofFields_of_bare (types : CastTypes) {fs : Fields} (h : ∀ e ∈ fs.entries, e.2.Bare) :
    (ofFields types fs).values = [] ∧
      (ofFields types fs).names = fs.entries.map fun e => selectText e.1 (e.2.outputName e.1) := by
  have hvisible : fs.visible = fs.entries := List.filter_eq_self.2 fun e he => (h e he).visible
  refine ⟨?_, ?_⟩
  · rw [values_ofFields, List.map_eq_nil_iff, Fields.aggregated, List.filter_eq_nil_iff]
    intro e he
    simp [(h e he).ungrouped]
  · rw [names_ofFields, hvisible]
    apply List.map_congr_left
    intro e he
    simp [expression, Field.source, Field.nonemptyOr, (h e he).ungrouped, (h e he).plain]

end Sql.Columns

namespace Document

/-- The column of a child that a key of a node stands for. -/
inductive NamesColumn : Document → String → Document → String → Prop
  | subquery (b : Block) (inner : Document) (name : String) : NamesColumn (.subquery b inner) ("sq." ++ name) inner name
  | join {b : Block} {left : Document} {joined : List (JoinLink × Document)} {child : Document} {n : ℕ}
      (numbered : (child, n) ∈ (Document.join b left joined).children.zipIdx 1) (name : String) :
      NamesColumn (.join b left joined) (Frame.joinKey n name) child name
  | union (b : Block) (first : Document) (members : List (UnionType × Document)) (name : String) :
      NamesColumn (.union b first members) name first name

lemma NamesColumn.unique {d child child' : Document} {key name name' : String} (h : d.NamesColumn key child name)
    (h' : d.NamesColumn key child' name') : child' = child ∧ name' = name := by
  cases h with
  | subquery b inner =>
    generalize hkey : "sq." ++ name = key at h'
    cases h' with
    | subquery => exact ⟨rfl, ((String.append_right_inj _).1 hkey).symm⟩
  | @join b left joined _ n hn =>
    generalize hkey : Frame.joinKey n name = key at h'
    cases h' with
    | @join _ _ _ _ m hm =>
      obtain ⟨rfl, rfl⟩ := Frame.columnKey_childKey_inj.1 hkey
      refine ⟨?_, rfl⟩
      have hchild := List.mk_mem_zipIdx_iff_le_and_getElem?_sub.1 hn
      have hchild' := List.mk_mem_zipIdx_iff_le_and_getElem?_sub.1 hm
      exact Option.some.inj (hchild'.2.symm.trans hchild.2)
  | union =>
    cases h' with
    | union => exact ⟨rfl, rfl⟩

structure Composes (d : Document) (children : List Document) : Prop where
  children : d.children = children
  clean : d.block.Clean
  columns : ∀ types, (Columns.ofFields types d.fields).dimensions = [] ∧ (Columns.ofFields types d.fields).values = [] ∧
    (Columns.ofFields types d.fields).order = [] ∧ (Columns.ofFields types d.fields).names =
      d.fields.entries.map fun e => Columns.selectText e.1 (e.2.outputName e.1)
  typed : ∀ key field, d.fields.get? key = some field → ∃ child name, d.NamesColumn key child name ∧
    (∀ child' name', d.NamesColumn key child' name' → child' = child ∧ name' = name) ∧
    ∃ source ∈ child.fields.visible, source.2.outputName source.1 = name ∧ field.type = source.2.type ∧
      field.customType = source.2.customType ∧ ∀ types, field.castType types = source.2.castType types

lemma composes_of_fields {d : Document} {fs : Fields} (hblock : d.block = { fields := fs })
    (h : ∀ e ∈ fs.entries, ∃ child, ∃ source ∈ child.fields.visible,
      d.NamesColumn e.1 child (source.2.outputName source.1) ∧ e.2.Selects source.2) : d.Composes d.children := by
  have hfields : d.fields = fs := congrArg Block.fields hblock
  have hbare : ∀ e ∈ fs.entries, e.2.Bare := by
    intro e he
    obtain ⟨-, source, -, -, hselects⟩ := h e he
    exact hselects.bare
  refine ⟨rfl, ?_, ?_, ?_⟩
  · rw [hblock]
    exact ⟨rfl, rfl, rfl, rfl, hbare⟩
  · intro types
    rw [hfields]
    obtain ⟨hdimensions, horder⟩ :=
      Columns.eq_nil_of_projected types fun e he => ⟨(hbare e he).ungrouped, (hbare e he).unordered⟩
    obtain ⟨hvalues, hnames⟩ := Columns.ofFields_of_bare types hbare
    exact ⟨hdimensions, hvalues, horder, hnames⟩
  · intro key field hfield
    rw [hfields] at hfield
    obtain ⟨child, source, hsource, hnamed, hselects⟩ := h _ (Entries.mem_of_get? hfield)
    exact ⟨child, _, hnamed, fun _ _ hother => hnamed.unique hother, source, hsource, rfl, hselects.type,
      hselects.customType, hselects.castType_eq⟩

end Document

namespace Frame

variable {f g : Frame} {d : Document} {frames : List Frame}

def selectNotice? (fs : Fields) (key : String) : Option Notice :=
  match fs.get? key with
  | none => some (.unknownField .select key)
  | some field => if field.isVisible then none else some (.hiddenField .select key)

lemma notices_selectFields (inner : Fields) (keys : List String) (fs : Fields) :
    (selectFields inner keys fs).2 = keys.filterMap (selectNotice? inner) := by
  induction keys generalizing fs with
  | nil => rfl
  | cons key keys ih =>
    rw [selectFields, List.filterMap_cons, selectNotice?]
    cases inner.get? key with
    | none => simp only [ih]
    | some field => by_cases hvisible : field.isVisible <;> simp [hvisible, ih]

lemma notices_select (hd : f.document = some d) (keys : List String) :
    (f.select keys).notices = f.notices ++ keys.filterMap (selectNotice? d.fields) := by
  simp [select, edit, hd, isEmpty, notify, notices_selectFields]

lemma composes_select (d : Document) (keys : List String) :
    (Document.subquery { fields := (selectFields d.fields keys .empty).1 } d).Composes [d] := by
  have hexposed : ∀ e ∈ (selectFields d.fields keys .empty).1.entries,
      ∃ source ∈ d.fields.visible, e = exposed subqueryKey source := by
    apply forall_selectFields (q := fun e => ∃ source ∈ d.fields.visible, e = exposed subqueryKey source)
      (List.forall_mem_nil _)
    intro key field hfield hvisible
    exact ⟨(key, field), List.mem_filter.2 ⟨Entries.mem_of_get? hfield, hvisible⟩, rfl⟩
  refine Document.composes_of_fields rfl ?_
  intro e he
  obtain ⟨source, hsource, rfl⟩ := hexposed e he
  exact ⟨d, source, hsource, .subquery _ d _, Field.selects_projected source.2 _⟩

lemma composes_join {left : Document} {rest : List Document} {joined : List (JoinLink × Document)} (unique : Bool)
    (hrest : joined.map Prod.snd = rest) :
    (Document.join { fields := (Collected.addAll unique 1 {} (left :: rest)).fields } left joined).Composes
      (left :: rest) := by
  subst hrest
  refine Document.composes_of_fields rfl ?_
  intro e he
  obtain ⟨kept, hsub, -, hkept⟩ := exists_kept_addAll unique 1 {} (left :: joined.map Prod.snd)
  rw [hkept] at he
  have hexposed := hsub.subset ((Entries.mem_putAll he).resolve_left List.not_mem_nil)
  obtain ⟨⟨child, n⟩, hn, hfield⟩ := List.mem_flatMap.1 hexposed
  obtain ⟨source, hsource, rfl⟩ := List.mem_map.1 hfield
  exact ⟨child, source, hsource, .join hn _, Field.selects_projected source.2 _⟩

lemma composes_union {first : Document} {rest : List Document} {members : List (UnionType × Document)}
    (hrest : members.map Prod.snd = rest) :
    (Document.union { fields := unionFields first.fields } first members).Composes (first :: rest) := by
  subst hrest
  refine Document.composes_of_fields rfl ?_
  intro e he
  obtain ⟨source, hsource, rfl⟩ := List.mem_map.1 (Fields.mem_ofList he)
  exact ⟨first, source, hsource, .union _ first members _, ⟨rfl, rfl, rfl, rfl⟩, rfl, rfl⟩

/-- Selections, joins and unions put a clean node above the documents that they are given, with columns of these under
their types. A selection tells of each key that names no visible column, in the order of the keys, and nothing else. -/
theorem compositions_start_clean :
    (∀ (f : Frame) (d : Document) keys, f.document = some d → ∃ e, (f.select keys).document = some e ∧
      e.kind = .subquery ∧ e.Composes [d] ∧
      (f.select keys).notices = f.notices ++ keys.filterMap (selectNotice? d.fields)) ∧
    (∀ frames types on unique g, join frames types on unique = .ok g → ∃ (ds : List Document) (e : Document),
      ds.map some = frames.map Frame.document ∧ g.document = some e ∧ e.kind = .join ∧ e.Composes ds) ∧
    ∀ frames types g, union frames types = .ok g → ∃ (ds : List Document) (e : Document),
      ds.map some = frames.map Frame.document ∧ g.document = some e ∧ e.kind = .union ∧ e.Composes ds := by
  refine ⟨?_, ?_, ?_⟩
  · intro f d keys hd
    exact ⟨_, by rw [document_select, hd, Option.map_some], rfl, composes_select d keys, notices_select hd keys⟩
  · intro frames types on unique g h
    obtain ⟨hframes, hon, left, rest, hds, hg⟩ := document_of_join h
    have hmap := map_some_of_documents hds
    have hlength : rest.length = types.length := Nat.succ.inj ((length_of_documents hmap).trans hframes)
    have hlinks : (types.zipWith (fun type c => JoinLink.mk type (condition? c)) on).length = types.length := by
      rw [List.length_zipWith, ← hon, Nat.min_self]
    have hfits := Nat.le_of_eq (hlength.trans hlinks.symm)
    exact ⟨left :: rest, _, hmap, hg, rfl, composes_join unique (List.map_snd_zip hfits)⟩
  · intro frames types g h
    obtain ⟨hframes, first, rest, hds, hg⟩ := document_of_union h
    have hmap := map_some_of_documents hds
    have hlength : rest.length = types.length := Nat.succ.inj ((length_of_documents hmap).trans hframes)
    exact ⟨first :: rest, _, hmap, hg, rfl, composes_union (List.map_snd_zip (Nat.le_of_eq hlength))⟩

def topTotals : Document :=
  .table
    { fields := .ofList
        [("customer", { type := .dimension, groupBy := some .group, customType := some "TEXT" }),
          ("region", { type := .dimension, visibility := .hidden }),
          ("amount",
            { type := .numeric, asName := some "total", groupBy := some (.aggregate .sum)
              expression := some "price * units", orderBy := some .descending })]
      filter := some "units > 0", having := some "SUM(price) > 1", distinct := true, limit := some 10 }
    { table := "sales" }

theorem compositions_start_clean_topTotals :
    (∃ e, (Frame.select { document := some topTotals } ["amount", "region", "year", "amount"]).document = some e ∧
      e.kind = .subquery ∧ e.Composes [topTotals] ∧
      (Frame.select { document := some topTotals } ["amount", "region", "year", "amount"]).notices =
        [.hiddenField .select "region", .unknownField .select "year"]) ∧
    (∃ g ds e, join [{ document := some topTotals }, singleColumn "total" "t"] [.left] ["0"] true = .ok g ∧
      ds.map some = [some topTotals, (singleColumn "total" "t").document] ∧ g.document = some e ∧ e.kind = .join ∧
      e.Composes ds) ∧
    ∃ g ds e, union [{ document := some topTotals }, singleColumn "total" "t"] [.all] = .ok g ∧
      ds.map some = [some topTotals, (singleColumn "total" "t").document] ∧ g.document = some e ∧ e.kind = .union ∧
      e.Composes ds := by
  obtain ⟨hselect, hjoin, hunion⟩ := compositions_start_clean
  obtain ⟨g, hg⟩ : ∃ g, join [{ document := some topTotals }, singleColumn "total" "t"] [.left] ["0"] true = .ok g :=
    ⟨_, rfl⟩
  obtain ⟨g', hg'⟩ : ∃ g, union [{ document := some topTotals }, singleColumn "total" "t"] [.all] = .ok g := ⟨_, rfl⟩
  obtain ⟨e, he, hkind, hcomposes, hnotices⟩ :=
    hselect { document := some topTotals } topTotals ["amount", "region", "year", "amount"] rfl
  refine ⟨⟨e, he, hkind, hcomposes, hnotices.trans (by decide +kernel)⟩, ?_, ?_⟩
  · obtain ⟨ds, e, h⟩ := hjoin _ _ _ _ g hg
    exact ⟨g, ds, e, hg, h⟩
  · obtain ⟨ds, e, h⟩ := hunion _ _ g' hg'
    exact ⟨g', ds, e, hg', h⟩

end Frame

end QueryTree
