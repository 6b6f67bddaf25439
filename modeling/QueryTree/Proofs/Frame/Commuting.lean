import QueryTree.Proofs.Frame.FieldEdits
/-! Calls that edit different parts of a node, in either order. What such a call reads of the fields is which there are
and their types, and none of them changes that. So each fails, is skipped or misses a key before the other as it does
after it, and the changes that they make commute. -/

namespace QueryTree

lemma Entries.modify_comm {α : Type} {g k : α → α} (h : ∀ v, g (k v) = k (g v)) (es : Entries α) (key other : String) :
    (es.modify other k).modify key g = (es.modify key g).modify other k := by
  induction es with
  | nil => rfl
  | cons e es ih =>
    obtain ⟨name, v⟩ := e
    by_cases hk : name = key
    · by_cases ho : name = other
      · simp [modify, ← hk, ← ho, h]
      · simp [modify, ← hk, ho]
    · by_cases ho : name = other
      · simp [modify, hk, ← ho]
      · simp [modify, hk, ho, ih]

lemma Fields.modify_comm {g k : Field → Field} (h : ∀ field, g (k field) = k (g field)) (fs : Fields)
    (key other : String) : (fs.modify other k).modify key g = (fs.modify key g).modify other k := by
  simp only [modify, Fields.mk.injEq]
  exact Entries.modify_comm h fs.entries key other

namespace Frame

inductive Part where
  | names
  | roles
  | directions
  | filter
  | having
  | distinct
  | limit
deriving DecidableEq

inductive Attribute where
  | name (name : String)
  | role (role : GroupBy)
  | direction (order : SortOrder)

namespace Attribute

def part : Attribute → Part
  | name _ => .names
  | role _ => .roles
  | direction _ => .directions

def set : Attribute → Field → Field
  | name s, field => field.withAlias s
  | role g, field => field.withGroupBy g
  | direction o, field => field.withOrderBy o

lemma type_set (a : Attribute) (field : Field) : (a.set field).type = field.type := by
  cases a <;> rfl

lemma set_comm {a b : Attribute} (h : a.part ≠ b.part) (field : Field) : a.set (b.set field) = b.set (a.set field) := by
  cases a <;> cases b <;> first | exact absurd rfl h | rfl

end Attribute

def setAll (given : List (String × Attribute)) (fs : Fields) : Fields :=
  (changeFields (given.map fun m => (m.1, m.2.set)) fs).1

lemma setAll_cons (m : String × Attribute) (given : List (String × Attribute)) (fs : Fields) :
    setAll (m :: given) fs = setAll given (fs.modify m.1 m.2.set) := rfl

lemma type_get?_setAll (given : List (String × Attribute)) (fs : Fields) (key : String) :
    ((setAll given fs).get? key).map Field.type = (fs.get? key).map Field.type := by
  induction given generalizing fs with
  | nil => rfl
  | cons m given ih =>
    rw [setAll_cons, ih, Fields.get?_modify]
    split
    · rw [Option.map_map]
      congr 1
      exact funext m.2.type_set
    · rfl

lemma setAll_modify {a : Attribute} {given : List (String × Attribute)} (h : ∀ m ∈ given, a.part ≠ m.2.part)
    (fs : Fields) (key : String) : setAll given (fs.modify key a.set) = (setAll given fs).modify key a.set := by
  induction given generalizing fs with
  | nil => rfl
  | cons m given ih =>
    obtain ⟨hm, hgiven⟩ := List.forall_mem_cons.1 h
    rw [setAll_cons, setAll_cons, ← ih hgiven, Fields.modify_comm (Attribute.set_comm hm)]

lemma setAll_comm {given other : List (String × Attribute)} (h : ∀ m ∈ given, ∀ n ∈ other, m.2.part ≠ n.2.part)
    (fs : Fields) : setAll other (setAll given fs) = setAll given (setAll other fs) := by
  induction given generalizing fs with
  | nil => rfl
  | cons m given ih =>
    obtain ⟨hm, hgiven⟩ := List.forall_mem_cons.1 h
    rw [setAll_cons, ih hgiven, setAll_modify hm, setAll_cons]

namespace Call

/-- The part that a call edits; none if it makes, removes or picks fields. -/
def part? : Call → Option Part
  | .rename _ => some .names
  | .groupBy _ | .aggregate _ => some .roles
  | .orderBy _ _ => some .directions
  | .query _ _ _ | .filter _ => some .filter
  | .having _ _ _ => some .having
  | .distinct => some .distinct
  | .limit _ => some .limit
  | .remove _ | .assign _ _ _ | .pick _ | .select _ => none

def attributes (picked : List String) : Call → List (String × Attribute)
  | .rename names => names.map fun n => (n.1, .name n.2)
  | .groupBy keys => keys.map fun key => (key, .role .group)
  | .aggregate a => picked.map fun key => (key, .role (.aggregate a))
  | .orderBy keys ascending => (keys.zip ascending).map fun m => (m.1, .direction (.ofAscending m.2))
  | _ => []

def clauses : Call → Block → Block
  | .filter s, b => { b with filter := some (combine b.filter s .append .and) }
  | .query s mode c, b => { b with filter := some (combine b.filter s mode c) }
  | .having s mode c, b => { b with having := some (combine b.having s mode c) }
  | .distinct, b => { b with distinct := true }
  | .limit n, b => { b with limit := some n }
  | _, b => b

def change (c : Call) (picked : List String) (b : Block) : Block :=
  { c.clauses b with fields := setAll (c.attributes picked) b.fields }

def Allowed (f : Frame) : Call → Prop
  | .groupBy _ => f.document.any Document.isUnion = false
  | .aggregate _ => ∀ p ∈ f.pickedTypes, p.2 = .numeric
  | .orderBy keys ascending => keys.length = ascending.length
  | _ => True

variable {c other : Call} {p q : Part}

lemma part_of_mem_attributes (h : c.part? = some p) {picked : List String} {m : String × Attribute}
    (hm : m ∈ c.attributes picked) : m.2.part = p := by
  cases c with
  | rename | groupBy | aggregate | orderBy =>
    obtain ⟨_, -, rfl⟩ := List.mem_map.1 hm
    exact Option.some.inj h
  | _ => cases hm

lemma clauses_comm (hc : c.part? = some p) (hother : other.part? = some q) (hne : p ≠ q) (b : Block) :
    c.clauses (other.clauses b) = other.clauses (c.clauses b) := by
  cases c <;> cases other <;> first | rfl | exact absurd (Option.some.inj (hc.symm.trans hother)) hne

lemma clauses_fields (c : Call) (b : Block) (fs : Fields) :
    c.clauses { b with fields := fs } = { c.clauses b with fields := fs } := by
  cases c <;> rfl

lemma change_comm (hc : c.part? = some p) (hother : other.part? = some q) (hne : p ≠ q) (picked : List String)
    (b : Block) : c.change picked (other.change picked b) = other.change picked (c.change picked b) := by
  have hparts : ∀ m ∈ other.attributes picked, ∀ n ∈ c.attributes picked, m.2.part ≠ n.2.part := by
    intro m hm n hn
    rw [part_of_mem_attributes hother hm, part_of_mem_attributes hc hn]
    exact hne.symm
  simp only [change, clauses_fields, clauses_comm hc hother hne, setAll_comm hparts]

end Call

def changed (rule : UnionRule) (k : Block → Block) (d : Document) : Document :=
  if d.isUnion && decide (rule = .skipped) then d else d.mapBlock k

def told (op : Operation) (rule : UnionRule) (named : List String) : Option Document → List Notice
  | none => [.emptyFrame op]
  | some d =>
    if d.isUnion && decide (rule = .skipped) then [.unionSourced op]
    else (missing named d.fields).map (.unknownField op)

lemma edit_eq (f : Frame) (op : Operation) (rule : UnionRule) (named : List String) (k : Block → Block) :
    f.edit op rule (fun d => (d.mapBlock k, (missing named d.fields).map (.unknownField op))) = { f with
      document := f.document.map (changed rule k)
      notices := f.notices ++ told op rule named f.document } := by
  cases f with
  | mk document picked settings rendered columns notices =>
    cases document with
    | none => rfl
    | some d =>
      simp only [edit, Option.map_some, changed, told]
      split <;> rfl

lemma editFields_eq (f : Frame) (op : Operation) (rule : UnionRule) (given : List (String × Attribute)) :
    f.editFields op rule (changeFields (given.map fun m => (m.1, m.2.set))) = { f with
      document := f.document.map (changed rule fun b => { b with fields := setAll given b.fields })
      notices := f.notices ++ told op rule (given.map Prod.fst) f.document } := by
  rw [← edit_eq, editFields]
  congr 1
  funext d
  have hnamed : (given.map fun m => (m.1, m.2.set)).map Prod.fst = given.map Prod.fst := List.map_map
  simp only [missing_changeFields, hnamed]
  cases d <;> rfl

namespace Call

/-- A call changes the block of the root alike in all frames with the same picked fields, and tells only whether there
is a node that it may edit, and which keys name no field of it. -/
def RunsAs (c : Call) (op : Operation) (rule : UnionRule) (named : List String → List String) : Prop :=
  ∀ f g, c.run f = .ok g ↔ c.Allowed f ∧ g = { f with
    document := f.document.map (changed rule (c.change f.picked))
    notices := f.notices ++ told op rule (named f.picked) f.document }

lemma runsAs_of_edit {c : Call} {op : Operation} {rule : UnionRule} (hallowed : ∀ f, c.Allowed f)
    (hrun : ∀ f, c.run f = .ok (f.edit op rule fun d => (d.mapBlock (c.change f.picked), []))) :
    c.RunsAs op rule fun _ => [] := by
  intro f g
  rw [hrun, ← edit_eq, Except.ok.injEq, and_iff_right (hallowed f)]
  exact eq_comm

lemma runsAs_of_editFields {c : Call} {op : Operation} {rule : UnionRule} (hclauses : ∀ b, c.clauses b = b)
    (hrun : ∀ f g, c.run f = .ok g ↔ c.Allowed f ∧
      g = f.editFields op rule (changeFields ((c.attributes f.picked).map fun m => (m.1, m.2.set)))) :
    c.RunsAs op rule fun picked => (c.attributes picked).map Prod.fst := by
  intro f g
  have hchange : c.change f.picked = fun b => { b with fields := setAll (c.attributes f.picked) b.fields } := by
    funext b
    rw [change, hclauses]
  rw [hrun, editFields_eq, hchange]

lemma exists_runsAs {c : Call} {p : Part} (h : c.part? = some p) : ∃ op rule named, c.RunsAs op rule named := by
  cases c with
  | rename names =>
    -- keys that name no field are not told
    refine ⟨.rename, .allowed, _, runsAs_of_edit (fun _ => trivial) fun f => ?_⟩
    have hchanges : (attributes f.picked (rename names)).map (fun m => (m.1, m.2.set)) =
        names.map fun n => (n.1, (·.withAlias n.2)) := List.map_map
    rw [run, Frame.rename, ← hchanges]
    rfl
  | groupBy keys =>
    refine ⟨.groupBy, .skipped, _, runsAs_of_editFields (fun _ => rfl) fun f g => ?_⟩
    rw [attributes, List.map_map]
    exact groupBy_eq_ok_iff
  | aggregate a =>
    refine ⟨.aggregate, .skipped, _, runsAs_of_editFields (fun _ => rfl) fun f g => ?_⟩
    rw [attributes, List.map_map]
    exact aggregate_eq_ok_iff
  | orderBy keys ascending =>
    refine ⟨.orderBy, .allowed, _, runsAs_of_editFields (fun _ => rfl) fun f g => ?_⟩
    rw [attributes, List.map_map, List.zip, List.map_zipWith]
    exact orderBy_eq_ok_iff
  | distinct => exact ⟨.distinct, .skipped, _, runsAs_of_edit (fun _ => trivial) fun _ => rfl⟩
  | limit n => exact ⟨.limit, .allowed, _, runsAs_of_edit (fun _ => trivial) fun _ => rfl⟩
  | filter | query => exact ⟨.filter, .skipped, _, runsAs_of_edit (fun _ => trivial) fun _ => rfl⟩
  | having s mode w => exact ⟨.having, .skipped, _, runsAs_of_edit (fun _ => trivial) fun _ => rfl⟩
  | remove | assign | pick | select => cases h

end Call

def SameTypes (old new : Fields) : Prop :=
  ∀ key, (new.get? key).map Field.type = (old.get? key).map Field.type

lemma missing_eq_of_sameTypes {old new : Fields} (h : SameTypes old new) (named : List String) :
    missing named new = missing named old := by
  have hmem : ∀ (fs : Fields) (key : String), key ∈ fs.keys ↔ ((fs.get? key).map Field.type).isSome := by
    intro fs key
    rw [Option.isSome_map]
    exact Entries.isSome_get?_iff.symm
  simp only [missing, hmem, h _]

section

variable (rule : UnionRule) (c : Call) (picked : List String)

lemma isUnion_changed (k : Block → Block) (d : Document) : (changed rule k d).isUnion = d.isUnion := by
  rw [changed]
  split
  · rfl
  · exact Document.isUnion_mapBlock k d

lemma sameTypes_changed (d : Document) : SameTypes d.fields (changed rule (c.change picked) d).fields := by
  intro key
  rw [changed]
  split
  · rfl
  · rw [Document.fields, Document.block_mapBlock]
    exact type_get?_setAll (c.attributes picked) d.fields key

lemma told_changed (op : Operation) (other : UnionRule) (named : List String) (o : Option Document) :
    told op other named (o.map (changed rule (c.change picked))) = told op other named o := by
  cases o with
  | none => rfl
  | some d =>
    simp only [Option.map_some, told, isUnion_changed, missing_eq_of_sameTypes (sameTypes_changed rule c picked d)]

lemma pickedTypes_changed (f : Frame) (ns : List Notice) :
    pickedTypes { f with document := f.document.map (changed rule (c.change picked)), notices := ns } = f.pickedTypes := by
  have htypes : ∀ (fs : Fields) (key : String), ((fs.get? key).map fun field => (key, field.type)) =
      ((fs.get? key).map Field.type).map (key, ·) := fun fs key => (Option.map_map ..).symm
  simp only [pickedTypes]
  cases f.document with
  | none => rfl
  | some d => simp only [Option.map_some, isUnion_changed, htypes, sameTypes_changed rule c picked d _]

lemma allowed_changed (other : Call) (f : Frame) (ns : List Notice) :
    other.Allowed { f with document := f.document.map (changed rule (c.change picked)), notices := ns } ↔
      other.Allowed f := by
  cases other with
  | groupBy keys =>
    simp only [Call.Allowed]
    cases f.document with
    | none => rfl
    | some d => simp only [Option.map_some, Option.any_some, isUnion_changed]
  | aggregate a => simp only [Call.Allowed, pickedTypes_changed]
  | _ => rfl

end

variable {c other : Call} {p q : Part}

lemma changed_comm {k k' : Block → Block} (h : ∀ b, k (k' b) = k' (k b)) (rule rule' : UnionRule) (d : Document) :
    changed rule k (changed rule' k' d) = changed rule' k' (changed rule k d) := by
  have hblock : (d.mapBlock k').mapBlock k = (d.mapBlock k).mapBlock k' := by
    cases d <;> simp only [Document.mapBlock, h]
  by_cases hskipped : (d.isUnion && decide (rule = .skipped)) = true <;>
    by_cases hskipped' : (d.isUnion && decide (rule' = .skipped)) = true <;>
      simp only [changed, hskipped, hskipped', Document.isUnion_mapBlock, hblock, if_true, if_false, Bool.false_eq_true]

lemma runAll_pair_eq_ok_iff {op op' : Operation} {rule rule' : UnionRule} {named named' : List String → List String}
    (hc : c.RunsAs op rule named) (hother : other.RunsAs op' rule' named') {f g : Frame} :
    f.runAll [c, other] = .ok g ↔ c.Allowed f ∧ other.Allowed f ∧ g = { f with
      document := (f.document.map (changed rule (c.change f.picked))).map (changed rule' (other.change f.picked))
      notices := f.notices ++ told op rule (named f.picked) f.document ++
        told op' rule' (named' f.picked) f.document } := by
  have hlast : ∀ h : Frame, h.runAll [other] = .ok g ↔ other.run h = .ok g := by
    intro h
    rw [runAll_cons_eq_ok_iff]
    exact ⟨fun ⟨_, hrun, hnil⟩ => hrun.trans hnil, fun hrun => ⟨g, hrun, rfl⟩⟩
  rw [runAll_cons_eq_ok_iff]
  constructor
  · rintro ⟨h, hfirst, hsecond⟩
    obtain ⟨hallowed, rfl⟩ := (hc f h).1 hfirst
    obtain ⟨hallowed', rfl⟩ := (hother _ g).1 ((hlast _).1 hsecond)
    refine ⟨hallowed, (allowed_changed ..).1 hallowed', ?_⟩
    simp only [told_changed]
  · rintro ⟨hallowed, hallowed', rfl⟩
    refine ⟨_, (hc f _).2 ⟨hallowed, rfl⟩, (hlast _).2 ((hother _ _).2 ⟨(allowed_changed ..).2 hallowed', ?_⟩)⟩
    simp only [told_changed]

theorem edits_of_parts_comm [Sql.Formatter] (f : Frame) (hc : c.part? = some p) (hother : other.part? = some q)
    (hne : p ≠ q) :
    (∃ e e', f.runAll [c, other] = .error e ∧ f.runAll [other, c] = .error e') ∨
      ∃ g g', f.runAll [c, other] = .ok g ∧ f.runAll [other, c] = .ok g' ∧ g'.document = g.document ∧
        g'.sqlText = g.sqlText ∧ g'.notices.Perm g.notices ∧ g' = { g with notices := g'.notices } := by
  obtain ⟨op, rule, named, hruns⟩ := Call.exists_runsAs hc
  obtain ⟨op', rule', named', hruns'⟩ := Call.exists_runsAs hother
  have hpair (g : Frame) := runAll_pair_eq_ok_iff hruns hruns' (f := f) (g := g)
  have hpair' (g : Frame) := runAll_pair_eq_ok_iff hruns' hruns (f := f) (g := g)
  -- both orders ask of `f` itself whether each call is allowed, and what it has to tell
  by_cases hallowed : c.Allowed f ∧ other.Allowed f
  · have hdocument : (f.document.map (changed rule' (other.change f.picked))).map (changed rule (c.change f.picked)) =
        (f.document.map (changed rule (c.change f.picked))).map (changed rule' (other.change f.picked)) := by
      rw [Option.map_map, Option.map_map]
      congr 1
      exact funext (changed_comm (Call.change_comm hc hother hne f.picked) rule rule')
    refine .inr ⟨_, _, (hpair _).2 ⟨hallowed.1, hallowed.2, rfl⟩, (hpair' _).2 ⟨hallowed.2, hallowed.1, rfl⟩,
      hdocument, ?_, ?_, ?_⟩
    · simp only [sqlText, hdocument]
    · simp only [List.append_assoc]
      exact List.perm_append_comm.append_left f.notices
    · simp only [hdocument]
  · obtain ⟨e, he⟩ := exists_eq_error_of_ne_ok fun g hg => hallowed ⟨((hpair g).1 hg).1, ((hpair g).1 hg).2.1⟩
    obtain ⟨e', he'⟩ := exists_eq_error_of_ne_ok fun g hg => hallowed ⟨((hpair' g).1 hg).2.1, ((hpair' g).1 hg).1⟩
    exact .inl ⟨e, e', he, he'⟩

theorem edits_of_parts_comm_sales : ∃ g g',
    sales.runAll [.aggregate .sum, .orderBy ["amount", "total"] [false, true]] = .ok g ∧
    sales.runAll [.orderBy ["amount", "total"] [false, true], .aggregate .sum] = .ok g' ∧
    g.document.map Document.sql =
      some "SELECT region, SUM(amount) as amount FROM sales WHERE amount > 0 ORDER BY amount DESC" ∧
    g.notices = [.unknownField .aggregate "year", .unknownField .orderBy "total"] ∧
    g'.document = g.document ∧ g'.sqlText = g.sqlText ∧ g'.notices.Perm g.notices := by
  have hruns : sales.runAll [.aggregate .sum, .orderBy ["amount", "total"] [false, true]] = .ok _ := rfl
  have hsum : Call.part? (.aggregate .sum) = some .roles := rfl
  have horder : Call.part? (.orderBy ["amount", "total"] [false, true]) = some .directions := rfl
  obtain ⟨e, -, he, -⟩ | ⟨g, g', hg, hg', hdocument, hsql, hnotices, -⟩ :=
    edits_of_parts_comm sales hsum horder (by decide)
  · cases hruns.symm.trans he
  · obtain rfl := Except.ok.inj (hruns.symm.trans hg)
    exact ⟨_, g', hruns, hg', by decide +kernel, by decide +kernel, hdocument, hsql, hnotices⟩

end Frame

end QueryTree
