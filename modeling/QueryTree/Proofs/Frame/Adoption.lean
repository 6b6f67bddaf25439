import QueryTree.Proofs.Frame.Reloading
/-! Frames of documents that were built and not read. Such a document is stored and read back: it must pass the
check, and what the frame holds is its adopted form, in which blank texts are absent. -/

namespace QueryTree

def nonemptyText (s? : Option String) : Option String :=
  s?.filter fun s => s ≠ ""

lemma bind_nonempty?_eq (s? : Option String) : s?.bind nonempty? = nonemptyText s? := by
  cases s? with
  | none => rfl
  | some s => by_cases hs : s = "" <;> simp [nonempty?, nonemptyText, Option.filter, hs]

def Field.adopted (f : Field) : Field :=
  { f with
    asName := nonemptyText (f.asName.map Alias.normalize)
    expression := nonemptyText f.expression
    customType := nonemptyText f.customType }

structure Block.AdoptedAs (b c : Block) : Prop where
  fields : c.fields.entries = b.fields.entries.map fun e => (e.1, e.2.adopted)
  filter : c.filter = nonemptyText b.filter
  having : c.having = nonemptyText b.having
  distinct : c.distinct = b.distinct
  limit : c.limit = b.limit

def TableRef.adopted (t : TableRef) : TableRef :=
  { t with schema := nonemptyText t.schema }

def JoinLink.adopted (l : JoinLink) : JoinLink :=
  { l with on := l.on.filter fun s => Text.trim s ≠ "" ∧ Text.trim s ≠ "0" }

namespace Document

/-- The second document is the first one, node by node, without its blank texts and with its aliases normalized. -/
inductive AdoptedAs : Document → Document → Prop
  | table {b c : Block} (block : b.AdoptedAs c) (t : TableRef) : AdoptedAs (table b t) (table c t.adopted)
  | subquery {b c : Block} {d e : Document} (block : b.AdoptedAs c) (inner : AdoptedAs d e) :
    AdoptedAs (subquery b d) (subquery c e)
  | join {b c : Block} {d e : Document} {ds es : List (JoinLink × Document)} (block : b.AdoptedAs c)
    (left : AdoptedAs d e) (links : es.map Prod.fst = ds.map fun j => j.1.adopted)
    (joined : ∀ p ∈ ds.zip es, AdoptedAs p.1.2 p.2.2) : AdoptedAs (join b d ds) (join c e es)
  | union {b c : Block} {d e : Document} {ds es : List (UnionType × Document)} (block : b.AdoptedAs c)
    (first : AdoptedAs d e) (types : es.map Prod.fst = ds.map Prod.fst)
    (members : ∀ p ∈ ds.zip es, AdoptedAs p.1.2 p.2.2) : AdoptedAs (union b d ds) (union c e es)

structure Adoptable (d : Document) : Prop where
  aggregates : ∀ e ∈ d.fields.entries, e.2.type = .dimension → e.2.aggregation? = none
  named : ∀ t, d.table? = some t → t.table ≠ ""
  members : d.kind = .join ∨ d.kind = .union → d.children.tail ≠ []

end Document

lemma Field.canonical_eq_adopted (f : Field) : f.canonical = f.adopted := by
  have hname : (f.asName.bind fun s => nonempty? (Alias.normalize s)) =
      nonemptyText (f.asName.map Alias.normalize) := by
    rw [← bind_nonempty?_eq, Option.bind_map, Function.comp_def]
  rw [canonical, hname, bind_nonempty?_eq, bind_nonempty?_eq, adopted]

lemma TableRef.canonical_eq_adopted (t : TableRef) : t.canonical = t.adopted := by
  rw [canonical, bind_nonempty?_eq, adopted]

lemma JoinLink.canonical_eq_adopted (l : JoinLink) : l.canonical = l.adopted := by
  have hcondition (s : String) : Document.condition? (.string s) =
      if Text.trim s ≠ "" ∧ Text.trim s ≠ "0" then some s else none := by
    have hblank : Text.isBlankText s = true ↔ Text.trim s = "" :=
      ⟨Text.trim_of_isBlankText, Text.isBlankText_of_trim⟩
    simp only [Document.condition?, Bool.or_eq_true, hblank, beq_iff_eq, ← not_or, ite_not]
  rw [canonical, adopted]
  cases l.on with
  | none => rfl
  | some s => simp [hcondition, Option.filter]

lemma Block.adoptedAs_iff {b c : Block} : b.AdoptedAs c ↔ c = b.canonical := by
  have hentries : b.fields.canonical.entries = b.fields.entries.map fun e => (e.1, e.2.adopted) := by
    simp only [Fields.canonical, Entries.mapValues, Field.canonical_eq_adopted]
  constructor
  · rintro ⟨hfields, hfilter, hhaving, hdistinct, hlimit⟩
    obtain ⟨⟨fields, hnodup⟩, filter, having, distinct, limit⟩ := c
    obtain rfl : fields = b.fields.canonical.entries := hfields.trans hentries.symm
    obtain rfl : filter = _ := hfilter
    obtain rfl : having = _ := hhaving
    obtain rfl : distinct = _ := hdistinct
    obtain rfl : limit = _ := hlimit
    rw [canonical, bind_nonempty?_eq, bind_nonempty?_eq]
  · rintro rfl
    exact ⟨hentries, bind_nonempty?_eq _, bind_nonempty?_eq _, rfl, rfl⟩

namespace Document

lemma adoptable_iff {d : Document} : d.Adoptable ↔ d.Storable := by
  have hfield (f : Field) : (f.type = .dimension → f.aggregation? = none) ↔ f.AggregatesNumbers := by
    rcases hgroup : f.groupBy with _ | _ | a
    · simp [Field.AggregatesNumbers, Field.aggregation?, hgroup]
    · simp [Field.AggregatesNumbers, Field.aggregation?, GroupBy.aggregation?, hgroup]
    · cases htype : f.type <;> simp [Field.AggregatesNumbers, Field.aggregation?, GroupBy.aggregation?, hgroup, htype]
  have haggregates : (∀ e ∈ d.fields.entries, e.2.type = .dimension → e.2.aggregation? = none) ↔
      d.AggregatesNumbers :=
    forall₂_congr fun e _ => hfield e.2
  have hsource : ((∀ t, d.table? = some t → t.table ≠ "") ∧
      (d.kind = .join ∨ d.kind = .union → d.children.tail ≠ [])) ↔ d.HasSource := by
    cases d with
    | table | subquery | join | union => simp [table?, kind, children, HasSource]
  constructor
  · exact fun h => ⟨haggregates.1 h.aggregates, hsource.1 ⟨h.named, h.members⟩⟩
  · exact fun h => ⟨haggregates.2 h.aggregates, (hsource.2 h.hasSource).1, (hsource.2 h.hasSource).2⟩

lemma eq_map_of_zip {α : Type} {f : α → α} {g : Document → Document} {ds es : List (α × Document)}
    (hfst : es.map Prod.fst = ds.map fun j => f j.1) (hsnd : ∀ p ∈ ds.zip es, p.2.2 = g p.1.2) :
    es = ds.map fun j => (f j.1, g j.2) := by
  induction ds generalizing es with
  | nil => exact List.map_eq_nil_iff.1 hfst
  | cons j ds ih =>
    cases es with
    | nil => cases hfst
    | cons k es =>
      obtain ⟨hk, hes⟩ := List.cons.inj hfst
      obtain ⟨hd, hds⟩ := List.forall_mem_cons.1 hsnd
      rw [List.map_cons, ← ih hes hds]
      exact congrArg (· :: es) (Prod.ext hk hd)

lemma AdoptedAs.eq_canonical {d e : Document} (h : d.AdoptedAs e) : e = d.canonical := by
  induction h with
  | table block t => rw [canonical, Block.adoptedAs_iff.1 block, t.canonical_eq_adopted]
  | subquery block _ ih => rw [canonical, Block.adoptedAs_iff.1 block, ih]
  | join block _ links _ ihleft ihjoined =>
    rw [canonical, Block.adoptedAs_iff.1 block, ihleft, canonicalJoined_eq, eq_map_of_zip links ihjoined]
    simp only [JoinLink.canonical_eq_adopted]
  | union block _ types _ ihfirst ihmembers =>
    rw [canonical, Block.adoptedAs_iff.1 block, ihfirst, canonicalMembers_eq, eq_map_of_zip (f := id) types ihmembers]
    rfl

lemma adoptedAs_canonical (d : Document) : d.AdoptedAs d.canonical := by
  have hzip {α : Type} {f : α → α} {ds : List (α × Document)} (h : ∀ j ∈ ds, j.2.AdoptedAs j.2.canonical) :
      ∀ p ∈ ds.zip (ds.map fun j => (f j.1, j.2.canonical)), p.1.2.AdoptedAs p.2.2 := by
    induction ds with
    | nil => exact List.forall_mem_nil _
    | cons j ds ih =>
      obtain ⟨hj, hds⟩ := List.forall_mem_cons.1 h
      exact List.forall_mem_cons.2 ⟨hj, ih hds⟩
  induction d using childInduction with
  | node d ih =>
    have hblock (b : Block) : b.AdoptedAs b.canonical := Block.adoptedAs_iff.2 rfl
    cases d with
    | table b t =>
      rw [canonical, t.canonical_eq_adopted]
      exact .table (hblock b) t
    | subquery b inner => exact .subquery (hblock b) (ih inner List.mem_cons_self)
    | join b left joined =>
      obtain ⟨hleft, hjoined⟩ := List.forall_mem_cons.1 ih
      rw [canonical, canonicalJoined_eq]
      refine .join (hblock b) hleft ?_ (hzip (List.forall_mem_map.1 hjoined))
      simp [JoinLink.canonical_eq_adopted]
    | union b first members =>
      obtain ⟨hfirst, hmembers⟩ := List.forall_mem_cons.1 ih
      rw [canonical, canonicalMembers_eq]
      refine .union (hblock b) hfirst ?_ (hzip (f := id) (List.forall_mem_map.1 hmembers))
      simp

lemma adoptedAs_iff {d e : Document} : d.AdoptedAs e ↔ e = d.canonical :=
  ⟨AdoptedAs.eq_canonical, fun h => h ▸ d.adoptedAs_canonical⟩

end Document

namespace Frame

/-- A document that was built makes a frame exactly if every node of it can be adopted, and the frame then holds its
only adopted form. -/
theorem ofDocument_adopts (d : Document) :
    ((∃ f, ofDocument d = .ok f) ↔ d.EveryNode Document.Adoptable) ∧
      ∀ f, ofDocument d = .ok f → ∃ e, f = { document := some e } ∧ ∀ e', d.AdoptedAs e' ↔ e' = e := by
  have hnodes : d.EveryNode Document.Adoptable ↔ d.EveryNode Document.Storable :=
    ⟨fun h => h.mono fun _ => Document.adoptable_iff.1, fun h => h.mono fun _ => Document.adoptable_iff.2⟩
  have hiff (f : Frame) : ofDocument d = .ok f ↔
      d.EveryNode Document.Adoptable ∧ f = { document := some d.canonical } := by
    rw [ofDocument, ofJson, map_eq_ok_iff, hnodes]
    constructor
    · rintro ⟨e, he, rfl⟩
      obtain ⟨hd, rfl⟩ := Document.ofJson_toJson_iff.1 he
      exact ⟨hd, rfl⟩
    · rintro ⟨hd, rfl⟩
      exact ⟨d.canonical, Document.ofJson_toJson_iff.2 ⟨hd, rfl⟩, rfl⟩
  constructor
  · constructor
    · rintro ⟨f, hf⟩
      exact ((hiff f).1 hf).1
    · exact fun h => ⟨_, (hiff _).2 ⟨h, rfl⟩⟩
  · intro f hf
    exact ⟨d.canonical, ((hiff f).1 hf).2, fun e => Document.adoptedAs_iff⟩

end Frame

end QueryTree
