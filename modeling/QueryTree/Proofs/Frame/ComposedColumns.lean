import QueryTree.Proofs.Frame.JoinedColumns
/-! The fields of composed queries. A selection, a join and a union give their new node one field for each column that
they take from the queries below it. A join keeps the queries apart by their numbers, and of equal names of one query
the last counts. -/

namespace QueryTree

open Check (subqueryKey childKey)

namespace Frame

def exposed (query : String) (e : String × Field) : String × Field :=
  (columnKey query (e.2.outputName e.1), e.2.projected (e.2.outputName e.1))

lemma get?_map_exposed (query : String) (fields : List (String × Field)) (name : String) :
    Entries.get? (fields.map (exposed query)) (columnKey query name) =
      (fields.find? fun e => e.2.outputName e.1 = name).map fun e => e.2.projected name := by
  induction fields with
  | nil => rfl
  | cons e fields ih =>
    have hkey : columnKey query (e.2.outputName e.1) = columnKey query name ↔ e.2.outputName e.1 = name :=
      String.append_right_inj _
    rw [List.map_cons, exposed, Entries.get?_cons, List.find?_cons]
    by_cases hname : e.2.outputName e.1 = name
    · rw [if_pos (hkey.2 hname), decide_eq_true hname, Option.map_some, hname]
    · rw [if_neg (mt hkey.1 hname), decide_eq_false hname, ih]

def exposedFrom (n : ℕ) (ds : List Document) : List (String × Field) :=
  (ds.zipIdx n).flatMap fun p => p.1.fields.visible.map (exposed (childKey p.2))

lemma exposedFrom_cons (n : ℕ) (d : Document) (ds : List Document) :
    exposedFrom n (d :: ds) = d.fields.visible.map (exposed (childKey n)) ++ exposedFrom (n + 1) ds := by
  rw [exposedFrom, List.zipIdx_cons, List.flatMap_cons]
  rfl

lemma exists_kept_add (unique : Bool) (query : String) (c : Collected) (fields : List (String × Field)) :
    ∃ kept, kept.Sublist (fields.map (exposed query)) ∧ (unique = false → kept = fields.map (exposed query)) ∧
      (c.add unique query fields).fields.entries = c.fields.entries.putAll kept := by
  induction fields generalizing c with
  | nil => exact ⟨[], .slnil, fun _ => rfl, rfl⟩
  | cons e fields ih =>
    obtain ⟨key, f⟩ := e
    simp only [Collected.add]
    split
    · next htaken =>
      obtain ⟨kept, hsub, -, hkept⟩ := ih c
      refine ⟨kept, hsub.cons _, ?_, hkept⟩
      rintro rfl
      simp at htaken
    · obtain ⟨kept, hsub, hall, hkept⟩ := ih
        { fields := c.fields.insert (columnKey query (f.outputName key)) (f.projected (f.outputName key))
          names := f.outputName key :: c.names }
      exact ⟨exposed query (key, f) :: kept, hsub.cons_cons _, fun h => by rw [hall h, List.map_cons], hkept⟩

lemma exists_kept_addAll (unique : Bool) (n : ℕ) (c : Collected) (ds : List Document) :
    ∃ kept, kept.Sublist (exposedFrom n ds) ∧ (unique = false → kept = exposedFrom n ds) ∧
      (c.addAll unique n ds).fields.entries = c.fields.entries.putAll kept := by
  induction ds generalizing n c with
  | nil => exact ⟨[], .slnil, fun _ => rfl, rfl⟩
  | cons d ds ih =>
    obtain ⟨kept, hsub, hall, hkept⟩ := exists_kept_add unique (childKey n) c d.fields.visible
    obtain ⟨later, hlater, hlaterAll, hrest⟩ := ih (n + 1) (c.add unique (childKey n) d.fields.visible)
    rw [exposedFrom_cons]
    refine ⟨kept ++ later, hsub.append hlater, fun h => by rw [hall h, hlaterAll h], ?_⟩
    rw [Collected.addAll, hrest, hkept, Entries.putAll, Entries.putAll, Entries.putAll, List.foldl_append]

lemma entries_addAll (n : ℕ) (ds : List Document) :
    (Collected.addAll false n {} ds).fields.entries = Entries.putAll [] (exposedFrom n ds) := by
  obtain ⟨kept, -, hall, hkept⟩ := exists_kept_addAll false n {} ds
  rw [hkept, hall rfl]
  rfl

lemma get?_reverse_exposedFrom {n m : ℕ} {ds : List Document} {d : Document} (h : (d, m) ∈ ds.zipIdx n) (name : String) :
    Entries.get? (exposedFrom n ds).reverse (columnKey (childKey m) name) =
      (d.fields.visible.reverse.find? fun e => e.2.outputName e.1 = name).map fun e => e.2.projected name := by
  -- queries with other numbers have no such key
  have hother : ∀ {k : ℕ} {es : List Document}, (∀ p ∈ es.zipIdx k, p.2 ≠ m) →
      Entries.get? (exposedFrom k es).reverse (columnKey (childKey m) name) = none := by
    intro k es hes
    rw [Entries.get?_eq_none_iff]
    intro hmem
    obtain ⟨c, hc, hkey⟩ := List.mem_map.1 hmem
    obtain ⟨p, hp, hfield⟩ := List.mem_flatMap.1 (List.mem_reverse.1 hc)
    obtain ⟨e, -, rfl⟩ := List.mem_map.1 hfield
    exact hes p hp (columnKey_childKey_inj.1 hkey).1
  induction ds generalizing n with
  | nil => cases h
  | cons first ds ih =>
    have hlater : ∀ p ∈ ds.zipIdx (n + 1), n < p.2 := fun p hp => List.le_snd_of_mem_zipIdx hp
    rw [exposedFrom_cons, List.reverse_append, Entries.get?_append]
    rcases List.mem_cons.1 (List.zipIdx_cons .. ▸ h) with hfirst | hrest
    · cases hfirst
      rw [hother fun p hp => Nat.ne_of_gt (hlater p hp), Option.none_or, ← List.map_reverse, get?_map_exposed]
    · have hnumber : n ≠ m := Nat.ne_of_lt (hlater _ hrest)
      have hhead : Entries.get? (first.fields.visible.map (exposed (childKey n))).reverse (columnKey (childKey m) name) =
          none := by
        rw [Entries.get?_eq_none_iff]
        intro hmem
        obtain ⟨c, hc, hkey⟩ := List.mem_map.1 hmem
        obtain ⟨e, -, rfl⟩ := List.mem_map.1 (List.mem_reverse.1 hc)
        exact hnumber (columnKey_childKey_inj.1 hkey).1
      rw [ih hrest, hhead, Option.or_none]

lemma map_some_of_documents {op : Operation} {frames : List Frame} {ds : List Document}
    (h : documents op frames = .ok ds) : ds.map some = frames.map Frame.document := by
  rcases documents_eq op frames with ⟨-, es, hes, hmap⟩ | ⟨-, herror⟩
  · cases h.symm.trans hes
    exact hmap
  · cases h.symm.trans herror

def joinKey (n : ℕ) (name : String) : String :=
  "sq" ++ toString n ++ "." ++ name

/-- A join that leaves no column out has each visible column of each query, under the place of the query and the name of
the column, in the order in which these appear first. Keys of two queries never meet, so that a field is made of the
last visible field with its name in its query. -/
theorem join_exposes_columns {frames : List Frame} {types : List JoinType} {on : List String} {g : Frame}
    (h : join frames types on false = .ok g) :
    ∃ (ds : List Document) (d : Document), ds.map some = frames.map Frame.document ∧ g.document = some d ∧
      d.fields.keys = ((ds.zipIdx 1).flatMap fun p => p.1.fields.outputNames.map (joinKey p.2)).eraseDups ∧
      (∀ p ∈ ds.zipIdx 1, ∀ q ∈ ds.zipIdx 1, ∀ e ∈ p.1.fields.visible, ∀ f ∈ q.1.fields.visible,
        joinKey p.2 (e.2.outputName e.1) = joinKey q.2 (f.2.outputName f.1) ↔
          p.2 = q.2 ∧ e.2.outputName e.1 = f.2.outputName f.1) ∧
      ∀ p ∈ ds.zipIdx 1, ∀ name, d.fields.get? (joinKey p.2 name) =
        (p.1.fields.visible.reverse.find? fun e => e.2.outputName e.1 = name).map fun e => e.2.projected name := by
  obtain ⟨-, -, left, rest, hds, hg⟩ := document_of_join h
  refine ⟨left :: rest, _, map_some_of_documents hds, hg, ?_, fun p _ q _ e _ f _ => columnKey_childKey_inj, ?_⟩
  · have hkeys : (exposedFrom 1 (left :: rest)).map Prod.fst =
        ((left :: rest).zipIdx 1).flatMap fun p => p.1.fields.outputNames.map (joinKey p.2) := by
      rw [exposedFrom, List.map_flatMap]
      congr 1
      funext p
      rw [Fields.outputNames, List.map_map, List.map_map]
      rfl
    rw [← hkeys, Document.fields, Document.block, Fields.keys, entries_addAll]
    exact @Entries.keys_putAll _ [] List.nodup_nil _
  · intro p hp name
    rw [Document.fields, Document.block, Fields.get?, entries_addAll, Entries.get?_putAll, Entries.get?_nil, Option.or_none]
    exact get?_reverse_exposedFrom hp name

def dotted : Frame where
  document := some (.table
    { fields := .ofList
        [("1.x", { type := .dimension }), ("a", { type := .dimension, asName := some "x" }),
          ("b", { type := .numeric, asName := some "x" })] }
    { table := "t" })

theorem join_exposes_columns_dotted :
    ∃ g d, join (dotted :: .replicate 10 (singleColumn "x" "u")) (.replicate 10 .cross) (.replicate 10 "0") false =
        .ok g ∧ g.document = some d ∧
      d.fields.keys = ["sq1.1.x", "sq1.x", "sq2.x", "sq3.x", "sq4.x", "sq5.x", "sq6.x", "sq7.x", "sq8.x", "sq9.x",
        "sq10.x", "sq11.x"] ∧ d.fields.get? "sq1.x" = some { type := .numeric, asName := some "x" } := by
  obtain ⟨g, hg⟩ : ∃ g, join (dotted :: .replicate 10 (singleColumn "x" "u")) (.replicate 10 .cross)
      (.replicate 10 "0") false = .ok g := ⟨_, rfl⟩
  obtain ⟨ds, d, hds, hd, hkeys, -, hfields⟩ := join_exposes_columns hg
  obtain rfl : ds = (dotted :: .replicate 10 (singleColumn "x" "u")).filterMap Frame.document := by
    have hsome := congrArg (List.filterMap id) hds
    simpa only [List.filterMap_map, Function.id_comp, List.filterMap_some] using hsome
  refine ⟨g, d, hg, hd, hkeys.trans (by decide +kernel), ?_⟩
  exact (hfields _ List.mem_cons_self "x").trans (by decide +kernel)

end Frame

end QueryTree
