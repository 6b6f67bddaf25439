import QueryTree.Frame.Compose
import QueryTree.Proofs.Document.RoundTrip
import QueryTree.Proofs.Field.WellFormed
/-! Reachable frames: those made empty or from a value, a text or a document, and by calls and compositions from
there. Every node of a reachable frame has well-formed fields, and every table in it is named. -/

namespace QueryTree

namespace Document

structure Sound (d : Document) : Prop where
  fields : ∀ e ∈ d.fields.entries, e.2.WellFormed
  named : ∀ t, d.table? = some t → t.table ≠ ""

lemma EveryNode.mapBlock {p : Document → Prop} {d : Document} (h : d.EveryNode p) {g : Block → Block}
    (hroot : p (d.mapBlock g)) : (d.mapBlock g).EveryNode p := by
  refine .node hroot ?_
  rw [children_mapBlock]
  exact (everyNode_iff.1 h).2

lemma Sound.mapBlock {d : Document} (h : d.Sound) {g : Block → Block}
    (hg : ∀ e ∈ (g d.block).fields.entries, e.2.WellFormed) : (d.mapBlock g).Sound := by
  refine ⟨?_, ?_⟩
  · rw [Document.fields, block_mapBlock]
    exact hg
  · intro t ht
    apply h.named t
    cases d <;> exact ht

lemma sound_of_ofJson {v : Json} (hu : v.hasUniqueNames) {d : Document} (h : ofJson v = .ok d) :
    d.EveryNode Sound := by
  have hnodes := everyNode_of_ofJson (fun _ => Field.wellFormed_stored) hu h
  apply hnodes.mono
  rintro e ⟨hfields, hsource⟩
  refine ⟨hfields, ?_⟩
  intro t ht
  cases e with
  | table b source =>
    cases ht
    exact hsource
  | _ => cases ht

end Document

namespace Frame

inductive Call where
  | rename (names : List (String × String))
  | remove (keys : List String)
  | assign (type : FieldType) (groupBy : Option GroupBy) (fields : List (String × String))
  | groupBy (keys : List String)
  | pick (keys : List String)
  | aggregate (a : Aggregation)
  | orderBy (keys : List String) (ascending : List Bool)
  | distinct
  | limit (n : UInt64)
  | filter (condition : String)
  | query (condition : String) (mode : IfExists) (c : Connective)
  | having (condition : String) (mode : IfExists) (c : Connective)
  | select (keys : List String)

def Call.run (f : Frame) : Call → Except Error Frame
  | .rename names => .ok (f.rename names)
  | .remove keys => .ok (f.remove keys)
  | .assign type g fields => f.assign type g fields
  | .groupBy keys => f.groupBy keys
  | .pick keys => .ok (f.pick keys)
  | .aggregate a => f.aggregate a
  | .orderBy keys ascending => f.orderBy keys ascending
  | .distinct => .ok f.distinct
  | .limit n => .ok (f.limit n)
  | .filter condition => .ok (f.filter condition)
  | .query condition mode c => .ok (f.query condition mode c)
  | .having condition mode c => .ok (f.having condition mode c)
  | .select keys => .ok (f.select keys)

inductive Reachable : Frame → Prop
  | empty : Reachable .empty
  | value {v : Json} {f : Frame} (unique : v.hasUniqueNames) (made : ofJson v = .ok f) : Reachable f
  | text {s : String} {v : Json} {f : Frame} (parsed : Json.parse? s = some v) (made : ofJson v = .ok f) : Reachable f
  | document {d : Document} {f : Frame} (made : ofDocument d = .ok f) : Reachable f
  | settings {f : Frame} (reached : Reachable f) (settings : Settings) : Reachable (f.withSettings settings)
  | call {f g : Frame} (reached : Reachable f) (c : Call) (run : c.run f = .ok g) : Reachable g
  | join {fs : List Frame} {types : List JoinType} {on : List String} {unique : Bool} {g : Frame}
      (reached : ∀ f ∈ fs, Reachable f) (made : join fs types on unique = .ok g) : Reachable g
  | union {fs : List Frame} {types : List UnionType} {g : Frame} (reached : ∀ f ∈ fs, Reachable f)
      (made : union fs types = .ok g) : Reachable g

section

variable {f g : Frame}

lemma assign_eq_ok_iff {type : FieldType} {role : Option GroupBy} {given : List (String × String)} :
    f.assign type role given = .ok g ↔ (∀ a, role = some (.aggregate a) → ∀ n ∈ given, type = .numeric) ∧
      g = f.editFields .assign .skipped fun fs =>
        (given.foldl (fun fs n => fs.insert n.1 (computed type role n.1 n.2)) fs, []) := by
  rcases role with _ | _ | a
  · simpa [assign] using eq_comm
  · simpa [assign, GroupBy.aggregation?] using eq_comm
  · have hnumeric : (∀ b, some (GroupBy.aggregate a) = some (.aggregate b) → ∀ n ∈ given, type = .numeric) ↔
        checkAllAggregable a (given.map fun n => (n.1, type)) = .ok () := by
      rw [Check.checkAllAggregable_iff, List.forall_mem_map]
      exact ⟨fun h => h a rfl, fun h _ _ => h⟩
    rw [hnumeric]
    simp only [assign, Option.bind_some, GroupBy.aggregation?]
    cases checkAllAggregable a (given.map fun n => (n.1, type)) with
    | error e => simp
    | ok _ => simpa using eq_comm

lemma groupBy_eq_ok_iff {keys : List String} :
    f.groupBy keys = .ok g ↔ f.document.any Document.isUnion = false ∧
      g = f.editFields .groupBy .skipped (changeFields (keys.map fun key => (key, (·.withGroupBy .group)))) := by
  rw [groupBy]
  cases f.document.any Document.isUnion with
  | true => simp
  | false => simpa using eq_comm

lemma mem_pickedTypes_iff {p : String × FieldType} : p ∈ f.pickedTypes ↔
    ∃ d, f.document = some d ∧ d.isUnion = false ∧ p.1 ∈ f.picked ∧
      ∃ field, d.fields.get? p.1 = some field ∧ field.type = p.2 := by
  obtain ⟨key, type⟩ := p
  rw [pickedTypes]
  cases hd : f.document with
  | none => simp
  | some d =>
    cases hunion : d.isUnion with
    | true => simp [hunion]
    | false => simp [hunion, List.mem_filterMap, Option.map_eq_some_iff]

lemma aggregate_eq_ok_iff {a : Aggregation} :
    f.aggregate a = .ok g ↔ (∀ p ∈ f.pickedTypes, p.2 = .numeric) ∧
      g = f.editFields .aggregate .skipped
        (changeFields (f.picked.map fun key => (key, (·.withGroupBy (.aggregate a))))) := by
  rw [← Check.checkAllAggregable_iff (a := a), aggregate]
  cases checkAllAggregable a f.pickedTypes with
  | error e => simp
  | ok _ => simpa using eq_comm

lemma orderBy_eq_ok_iff {keys : List String} {ascending : List Bool} :
    f.orderBy keys ascending = .ok g ↔ keys.length = ascending.length ∧ g = f.editFields .orderBy .allowed
      (changeFields (keys.zipWith (fun key b => (key, (·.withOrderBy (.ofAscending b)))) ascending)) := by
  rw [orderBy]
  by_cases hlength : keys.length = ascending.length
  · simpa [hlength] using eq_comm
  · simp [hlength]

end

def Sound (f : Frame) : Prop :=
  ∀ d, f.document = some d → d.EveryNode Document.Sound

lemma document_edit (f : Frame) (op : Operation) (rule : UnionRule) (g : Document → Document × List Notice) :
    (f.edit op rule g).document =
      f.document.map fun d => if d.isUnion && decide (rule = .skipped) then d else (g d).1 := by
  cases hd : f.document with
  | none => simp [edit, hd, notify]
  | some d =>
    simp only [edit, hd, Option.map_some]
    split
    · exact hd
    · rfl

section

variable {f : Frame} {op : Operation} {rule : UnionRule}

lemma Sound.edit (h : f.Sound) {g : Document → Document × List Notice}
    (hg : ∀ d, f.document = some d → ¬ (d.isUnion && decide (rule = .skipped)) = true → d.EveryNode Document.Sound →
      (g d).1.EveryNode Document.Sound) : (f.edit op rule g).Sound := by
  intro e he
  rw [document_edit, Option.map_eq_some_iff] at he
  obtain ⟨d, hd, rfl⟩ := he
  split
  · exact h d hd
  · next hrule => exact hg d hd hrule (h d hd)

lemma Sound.editBlock (h : f.Sound) {g : Block → Block} (hg : ∀ b, (g b).fields = b.fields) :
    (f.editBlock op rule g).Sound := by
  apply h.edit
  intro d _ _ hsound
  apply hsound.mapBlock (hsound.root.mapBlock _)
  rw [hg]
  exact hsound.root.fields

lemma Sound.editFields (h : f.Sound) {g : Fields → Fields × List String}
    (hg : ∀ d, f.document = some d → ¬ (d.isUnion && decide (rule = .skipped)) = true →
      (∀ e ∈ d.fields.entries, e.2.WellFormed) → ∀ e ∈ (g d.fields).1.entries, e.2.WellFormed) :
    (f.editFields op rule g).Sound := by
  apply h.edit
  intro d hd hrule hsound
  exact hsound.mapBlock (hsound.root.mapBlock (hg d hd hrule hsound.root.fields))

end

variable {f g : Frame}

lemma Sound.assign (h : f.Sound) {type : FieldType} {role : Option GroupBy} {given : List (String × String)}
    (hrun : f.assign type role given = .ok g) : g.Sound := by
  obtain ⟨hnumeric, rfl⟩ := assign_eq_ok_iff.1 hrun
  apply h.editFields
  intro d _ _ hfields
  apply Fields.forall_foldl_insert (q := fun e => e.2.WellFormed) hfields
  exact fun n hn => .computed (fun a ha => hnumeric a ha n hn) n.1 n.2

lemma Sound.groupBy (h : f.Sound) {keys : List String} (hrun : f.groupBy keys = .ok g) : g.Sound := by
  obtain ⟨-, rfl⟩ := groupBy_eq_ok_iff.1 hrun
  apply h.editFields
  intro d _ _ hfields
  apply forall_changeFields (q := fun e => e.2.WellFormed) hfields
  intro c hc field hfield
  obtain ⟨key, -, rfl⟩ := List.mem_map.1 hc
  exact hfield.withGroupBy nofun

lemma Sound.aggregate (h : f.Sound) {a : Aggregation} (hrun : f.aggregate a = .ok g) : g.Sound := by
  obtain ⟨hchecked, rfl⟩ := aggregate_eq_ok_iff.1 hrun
  apply h.editFields
  intro d hd hrule hfields
  have hunion : d.isUnion = false := by simpa using hrule
  have hpicked : ∀ e ∈ d.fields.entries, e.1 ∈ f.picked → e.2.type = .numeric := by
    rintro ⟨key, field⟩ he hkey
    have hget : d.fields.get? key = some field := Entries.get?_eq_some_of_mem d.fields.nodup he
    exact hchecked (key, field.type) (mem_pickedTypes_iff.2 ⟨d, hd, hunion, hkey, field, hget, rfl⟩)
  let q : String × Field → Prop := fun e => e.2.WellFormed ∧ (e.1 ∈ f.picked → e.2.type = .numeric)
  have hstart : ∀ e ∈ d.fields.entries, q e := fun e he => ⟨hfields e he, hpicked e he⟩
  have hstep : ∀ c ∈ f.picked.map fun key => (key, fun field : Field => field.withGroupBy (.aggregate a)),
      ∀ field, q (c.1, field) → q (c.1, c.2 field) := by
    rintro c hc field ⟨hfield, hnumeric⟩
    obtain ⟨key, hkey, rfl⟩ := List.mem_map.1 hc
    exact ⟨hfield.withGroupBy fun _ _ => hnumeric hkey, hnumeric⟩
  exact fun e he => (forall_changeFields hstart hstep e he).1

lemma Sound.orderBy (h : f.Sound) {keys : List String} {ascending : List Bool}
    (hrun : f.orderBy keys ascending = .ok g) : g.Sound := by
  obtain ⟨-, rfl⟩ := orderBy_eq_ok_iff.1 hrun
  apply h.editFields
  intro d _ _ hfields
  apply forall_changeFields (q := fun e => e.2.WellFormed) hfields
  intro c hc field hfield
  obtain ⟨i, hi, rfl⟩ := List.mem_iff_getElem.1 hc
  rw [List.getElem_zipWith]
  exact hfield.withOrderBy _

lemma Sound.rename (h : f.Sound) (names : List (String × String)) : (f.rename names).Sound := by
  apply h.edit
  intro d _ _ hsound
  apply hsound.mapBlock (hsound.root.mapBlock _)
  apply forall_changeFields (q := fun e => e.2.WellFormed) hsound.root.fields
  intro c hc field hfield
  obtain ⟨n, -, rfl⟩ := List.mem_map.1 hc
  exact hfield.withAlias n.2

lemma Sound.remove (h : f.Sound) (keys : List String) : (f.remove keys).Sound := by
  apply h.editFields
  intro d _ _ hfields
  exact forall_removeFields (q := fun e => e.2.WellFormed) hfields keys

lemma Sound.select (h : f.Sound) (keys : List String) : (f.select keys).Sound := by
  have hfields : ∀ d : Document, ∀ e ∈ (selectFields d.fields keys .empty).1.entries, e.2.WellFormed := by
    intro d
    exact forall_selectFields (q := fun e => e.2.WellFormed) (List.forall_mem_nil _)
      (fun _ f _ _ => .projected f _) keys
  have hedit : (f.edit .select .allowed fun d =>
      (.subquery { fields := (selectFields d.fields keys .empty).1 } d, (selectFields d.fields keys .empty).2)).Sound := by
    apply h.edit
    intro d _ _ hsound
    exact .node ⟨hfields d, nofun⟩ (List.forall_mem_singleton.2 hsound)
  unfold Frame.select
  simp only
  split
  · exact hedit
  · exact hedit

lemma Sound.call (h : f.Sound) {c : Call} (hrun : c.run f = .ok g) : g.Sound := by
  cases c with
  | assign type group fields => exact h.assign hrun
  | groupBy keys => exact h.groupBy hrun
  | aggregate a => exact h.aggregate hrun
  | orderBy keys ascending => exact h.orderBy hrun
  | rename names =>
    cases hrun
    exact h.rename names
  | remove keys =>
    cases hrun
    exact h.remove keys
  | pick keys =>
    cases hrun
    exact h
  | distinct | limit | filter | query | having =>
    cases hrun
    exact h.editBlock fun _ => rfl
  | select keys =>
    cases hrun
    exact h.select keys

lemma forall_collected_add {q : String × Field → Prop} (hq : ∀ key f name, q (key, Field.projected f name))
    (unique : Bool) (query : String) {c : Collected} (h : ∀ e ∈ c.fields.entries, q e) (fields : List (String × Field)) :
    ∀ e ∈ (c.add unique query fields).fields.entries, q e := by
  induction fields generalizing c with
  | nil => exact h
  | cons m fields ih =>
    obtain ⟨key, field⟩ := m
    simp only [Collected.add]
    split
    · exact ih h
    · exact ih (Fields.forall_insert h (hq _ _ _))

lemma forall_collected_addAll {q : String × Field → Prop} (hq : ∀ key f name, q (key, Field.projected f name))
    (unique : Bool) (n : Nat) {c : Collected} (h : ∀ e ∈ c.fields.entries, q e) (ds : List Document) :
    ∀ e ∈ (c.addAll unique n ds).fields.entries, q e := by
  induction ds generalizing n c with
  | nil => exact h
  | cons d ds ih => exact ih (n + 1) (forall_collected_add hq unique _ h _)

lemma documents_eq (op : Operation) (frames : List Frame) :
    ((∀ f ∈ frames, f.document ≠ none) ∧ ∃ ds, documents op frames = .ok ds ∧ ds.map some = frames.map Frame.document) ∨
      (∃ f ∈ frames, f.document = none) ∧ documents op frames = .error (.emptyFrame op) := by
  induction frames with
  | nil => exact .inl ⟨List.forall_mem_nil _, [], rfl, rfl⟩
  | cons f fs ih =>
    rw [documents, List.mapM_cons]
    cases hd : f.document with
    | none => exact .inr ⟨⟨f, List.mem_cons_self, hd⟩, rfl⟩
    | some d =>
      rcases ih with ⟨hall, ds, hds, hmap⟩ | ⟨⟨e, he, hnone⟩, herror⟩
      · refine .inl ⟨List.forall_mem_cons.2 ⟨by simp [hd], hall⟩, d :: ds, ?_, ?_⟩
        · rw [documents] at hds
          rw [hds]
          rfl
        · rw [List.map_cons, List.map_cons, hd, hmap]
      · refine .inr ⟨⟨e, List.mem_cons_of_mem _ he, hnone⟩, ?_⟩
        rw [documents] at herror
        rw [herror]
        rfl

lemma forall_documents {p : Document → Prop} {op : Operation} {fs : List Frame} {ds : List Document}
    (h : ∀ f ∈ fs, ∀ d, f.document = some d → p d) (hds : documents op fs = .ok ds) : ∀ d ∈ ds, p d := by
  rcases documents_eq op fs with ⟨-, es, hes, hmap⟩ | ⟨-, herror⟩
  · cases hds.symm.trans hes
    intro d hd
    have hmem : some d ∈ fs.map Frame.document := hmap ▸ List.mem_map_of_mem hd
    obtain ⟨f, hf, hdocument⟩ := List.mem_map.1 hmem
    exact h f hf d hdocument
  · cases hds.symm.trans herror

lemma document_of_join {fs : List Frame} {types : List JoinType} {on : List String} {unique : Bool}
    (h : join fs types on unique = .ok g) :
    fs.length = types.length + 1 ∧ types.length = on.length ∧
      ∃ left rest, documents .join fs = .ok (left :: rest) ∧
        g.document = some (.join { fields := (Collected.addAll unique 1 {} (left :: rest)).fields } left
          ((types.zipWith (fun type c => JoinLink.mk type (condition? c)) on).zip rest)) := by
  unfold join at h
  split at h
  · cases h
  · next hlength =>
    rw [not_or, Decidable.not_not, Decidable.not_not] at hlength
    obtain ⟨ds, hds, h⟩ := bind_eq_ok_iff.1 h
    cases ds with
    | nil => cases h
    | cons left rest =>
      cases h
      exact ⟨hlength.1, hlength.2, left, rest, hds, rfl⟩

lemma document_of_union {fs : List Frame} {types : List UnionType} (h : union fs types = .ok g) :
    fs.length = types.length + 1 ∧ ∃ first rest, documents .union fs = .ok (first :: rest) ∧
      g.document = some (.union { fields := unionFields first.fields } first (types.zip rest)) := by
  unfold union at h
  split at h
  · cases h
  · next hlength =>
    rw [Decidable.not_not] at hlength
    obtain ⟨ds, hds, h⟩ := bind_eq_ok_iff.1 h
    cases ds with
    | nil => cases h
    | cons first rest =>
      cases h
      exact ⟨hlength, first, rest, hds, rfl⟩

lemma Sound.join {fs : List Frame} (h : ∀ f ∈ fs, f.Sound) {types : List JoinType} {on : List String} {unique : Bool}
    (hrun : Frame.join fs types on unique = .ok g) : g.Sound := by
  obtain ⟨-, -, left, rest, hds, hg⟩ := document_of_join hrun
  obtain ⟨hleft, hrest⟩ := List.forall_mem_cons.1 (forall_documents h hds)
  intro d hd
  cases hg.symm.trans hd
  refine .node ⟨?_, nofun⟩ (List.forall_mem_cons.2 ⟨hleft, ?_⟩)
  · exact forall_collected_addAll (q := fun e => e.2.WellFormed) (fun _ => .projected) unique 1
      (List.forall_mem_nil _) (left :: rest)
  · intro c hc
    obtain ⟨j, hj, rfl⟩ := List.mem_map.1 hc
    exact hrest _ (List.of_mem_zip hj).2

lemma Sound.union {fs : List Frame} (h : ∀ f ∈ fs, f.Sound) {types : List UnionType}
    (hrun : Frame.union fs types = .ok g) : g.Sound := by
  obtain ⟨-, first, rest, hds, hg⟩ := document_of_union hrun
  obtain ⟨hfirst, hrest⟩ := List.forall_mem_cons.1 (forall_documents h hds)
  intro d hd
  cases hg.symm.trans hd
  refine .node ⟨?_, nofun⟩ (List.forall_mem_cons.2 ⟨hfirst, ?_⟩)
  · apply Fields.forall_ofList (q := fun e => e.2.WellFormed)
    intro e he
    obtain ⟨m, -, rfl⟩ := List.mem_map.1 he
    exact Field.wellFormed_ofType m.2.type m.2.customType
  · intro c hc
    obtain ⟨m, hm, rfl⟩ := List.mem_map.1 hc
    exact hrest _ (List.of_mem_zip hm).2

lemma sound_of_ofJson {v : Json} (hu : v.hasUniqueNames) {f : Frame} (h : ofJson v = .ok f) : f.Sound := by
  obtain ⟨e, he, rfl⟩ := map_eq_ok_iff.1 h
  intro d hd
  cases hd
  exact Document.sound_of_ofJson hu he

theorem Reachable.sound (h : Reachable f) : f.Sound := by
  induction h with
  | empty => exact nofun
  | value hu hv => exact sound_of_ofJson hu hv
  | text hs hv => exact sound_of_ofJson (Json.parse?_hasUniqueNames hs) hv
  | @document d f hd => exact sound_of_ofJson d.hasUniqueNames_toJson hd
  | settings _ _ ih => exact ih
  | call _ c hrun ih => exact ih.call hrun
  | join _ hrun ih => exact Sound.join ih hrun
  | union _ hrun ih => exact Sound.union ih hrun

theorem Reachable.everyNode_fields (h : Reachable f) {d : Document} (hd : f.document = some d) :
    d.EveryNode fun e => ∀ key field, e.fields.get? key = some field →
      (field.type = .dimension → field.aggregation? = none) ∧
        ∀ name, field.asName = some name → ∀ c ∈ name.toList, ¬ Text.isBlank c := by
  apply (h.sound d hd).mono
  intro e he key field hget
  have hfield : field.WellFormed := he.fields (key, field) (Entries.mem_of_get? hget)
  refine ⟨?_, hfield.unblank⟩
  intro hdimension
  rw [Field.aggregation?, Option.bind_eq_none_iff]
  intro g hg
  cases g with
  | group => rfl
  | aggregate a => cases hdimension.symm.trans (hfield.aggregates a hg)

def ordersJson : Json :=
  .object
    [("fields", .object
      [("Order No", .object [("type", .string "dim")]),
        ("Value", .object
          [("type", .string "num"), ("as", .string " Net\u00a0 Value\t"), ("group_by", .string "Max")])]),
      ("table", .string "Orders")]

def orders : Frame where
  document := some (.table
    { fields := .ofList
        [("Order No", { type := .dimension }),
          ("Value", { type := .numeric, asName := some "Net_Value", groupBy := some (.aggregate .max) })] }
    { table := "Orders" })

lemma ofJson_ordersJson : ofJson ordersJson = .ok orders := by
  have hread : Document.ofJson ordersJson = .ok (orders.document.get rfl) := by decide +kernel
  rw [ofJson, hread]
  rfl

theorem everyNode_fields_joinedOrders :
    ∃ totals joined d,
      Call.run ((orders.select ["Order No", "Value"]).pick ["sq.Net_Value"]) (.aggregate .sum) = .ok totals ∧
      Frame.join [orders, totals.rename [("sq.Order_No", " number ")]] [.left] ["0"] false = .ok joined ∧
      Reachable joined ∧ joined.document = some d ∧
      d.EveryNode fun e => ∀ key field, e.fields.get? key = some field →
        (field.type = .dimension → field.aggregation? = none) ∧
          ∀ name, field.asName = some name → ∀ c ∈ name.toList, ¬ Text.isBlank c := by
  have horders : Reachable orders := .value (by decide +kernel) ofJson_ordersJson
  have hpicked := (horders.call (.select ["Order No", "Value"]) rfl).call (.pick ["sq.Net_Value"]) rfl
  have htotals := hpicked.call (.aggregate .sum) rfl
  have hrenamed := htotals.call (.rename [("sq.Order_No", " number ")]) rfl
  have hframes := List.forall_mem_cons.2 ⟨horders, List.forall_mem_singleton.2 hrenamed⟩
  have hmade : ∀ g, Frame.join [_, _] [.left] ["0"] false = .ok g → Reachable g := fun _ => .join hframes
  exact ⟨_, _, _, rfl, rfl, hmade _ rfl, rfl, (hmade _ rfl).everyNode_fields rfl⟩

end Frame

end QueryTree
