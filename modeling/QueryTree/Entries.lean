/-!
Ordered associations: lists of key and value in which the first entry of a key counts. Inserting
replaces the value in place or appends the key, so keys keep the order of their first appearance.
-/

namespace QueryTree

abbrev Entries (α : Type) := List (String × α)

namespace Entries

variable {α β : Type}

def keys (es : Entries α) : List String :=
  es.map Prod.fst

def get? (es : Entries α) (key : String) : Option α :=
  match es with
  | [] => none
  | (k, v) :: rest => if k = key then some v else get? rest key

def contains (es : Entries α) (key : String) : Bool :=
  (get? es key).isSome

def insert (es : Entries α) (key : String) (v : α) : Entries α :=
  match es with
  | [] => [(key, v)]
  | (k, u) :: rest => if k = key then (k, v) :: rest else (k, u) :: insert rest key v

def modify (es : Entries α) (key : String) (f : α → α) : Entries α :=
  match es with
  | [] => []
  | (k, u) :: rest => if k = key then (k, f u) :: rest else (k, u) :: modify rest key f

def erase (es : Entries α) (key : String) : Entries α :=
  match es with
  | [] => []
  | (k, u) :: rest => if k = key then rest else (k, u) :: erase rest key

def mapValues (f : α → β) (es : Entries α) : Entries β :=
  es.map fun e => (e.1, f e.2)

def present (es : List (String × Option α)) : Entries α :=
  es.filterMap fun e => e.2.map fun v => (e.1, v)

def agree [DecidableEq α] (es fs : Entries α) : Bool :=
  (es.keys ++ fs.keys).all fun key => decide (es.get? key = fs.get? key)

@[simp] theorem keys_nil : keys ([] : Entries α) = [] := rfl

@[simp] theorem keys_cons (e : String × α) (es : Entries α) : keys (e :: es) = e.1 :: keys es := rfl

@[simp] theorem get?_nil (key : String) : get? ([] : Entries α) key = none := rfl

theorem get?_cons (k : String) (v : α) (es : Entries α) (key : String) :
    get? ((k, v) :: es) key = if k = key then some v else get? es key := rfl

theorem get?_eq_none_iff {es : Entries α} {key : String} : es.get? key = none ↔ key ∉ es.keys := by
  induction es with
  | nil => simp
  | cons e es ih =>
    obtain ⟨k, v⟩ := e
    by_cases h : k = key
    · simp [get?_cons, h]
    · simp [get?_cons, h, ih, Ne.symm h]

theorem agree_iff [DecidableEq α] {es fs : Entries α} :
    es.agree fs = true ↔ ∀ key, es.get? key = fs.get? key := by
  simp only [agree, List.all_eq_true, decide_eq_true_eq]
  constructor
  · intro h key
    by_cases hk : key ∈ es.keys ++ fs.keys
    · exact h key hk
    · rw [List.mem_append, not_or] at hk
      rw [get?_eq_none_iff.2 hk.1, get?_eq_none_iff.2 hk.2]
  · exact fun h key _ => h key

theorem mem_of_get? {es : Entries α} {key : String} {v : α} (h : es.get? key = some v) : (key, v) ∈ es := by
  induction es with
  | nil => simp at h
  | cons e es ih =>
    obtain ⟨k, u⟩ := e
    rw [get?_cons] at h
    split at h
    · simp_all
    · exact List.mem_cons_of_mem _ (ih h)

theorem isSome_get?_iff {es : Entries α} {key : String} : (es.get? key).isSome ↔ key ∈ es.keys := by
  rw [Option.isSome_iff_ne_none, ne_eq, get?_eq_none_iff, Decidable.not_not]

theorem mem_keys_of_get? {es : Entries α} {key : String} {v : α} (h : es.get? key = some v) : key ∈ es.keys :=
  isSome_get?_iff.1 (h ▸ rfl)

theorem exists_get?_of_mem_keys {es : Entries α} {key : String} (h : key ∈ es.keys) : ∃ v, es.get? key = some v :=
  Option.isSome_iff_exists.1 (isSome_get?_iff.2 h)

theorem contains_iff {es : Entries α} {key : String} : es.contains key = true ↔ key ∈ es.keys :=
  isSome_get?_iff

theorem get?_eq_some_of_mem {es : Entries α} (hes : es.keys.Nodup) {key : String} {v : α} (h : (key, v) ∈ es) :
    es.get? key = some v := by
  induction es with
  | nil => simp at h
  | cons e es ih =>
    obtain ⟨k, u⟩ := e
    have ⟨hk, ht⟩ := List.nodup_cons.1 hes
    rcases List.mem_cons.1 h with h | h
    · simp_all [get?_cons]
    · have hm : key ∈ keys es := List.mem_map.2 ⟨_, h, rfl⟩
      have : k ≠ key := fun e => hk (e ▸ hm)
      rw [get?_cons, if_neg this, ih ht h]

theorem eq_of_get? {es fs : Entries α} (hes : es.keys.Nodup) (hkeys : es.keys = fs.keys)
    (h : ∀ key, es.get? key = fs.get? key) : es = fs := by
  induction es generalizing fs with
  | nil => exact (List.map_eq_nil_iff.1 hkeys.symm).symm
  | cons e es ih =>
    cases fs with
    | nil => cases hkeys
    | cons f fs =>
      obtain ⟨k, v⟩ := e
      obtain ⟨l, w⟩ := f
      obtain ⟨rfl, hrest⟩ : k = l ∧ keys es = keys fs := List.cons.inj hkeys
      obtain ⟨hk, hes⟩ := List.nodup_cons.1 hes
      have hvalue : some v = some w := by simpa only [get?_cons, if_true] using h k
      cases hvalue
      refine congrArg _ (ih hes hrest fun key => ?_)
      by_cases hkey : k = key
      · subst hkey
        rw [get?_eq_none_iff.2 hk, get?_eq_none_iff.2 (hrest ▸ hk)]
      · simpa only [get?_cons, if_neg hkey] using h key

theorem get?_append (es fs : Entries α) (key : String) :
    get? (es ++ fs) key = (es.get? key).or (fs.get? key) := by
  induction es with
  | nil => rfl
  | cons e es ih =>
    obtain ⟨k, u⟩ := e
    by_cases h : k = key <;> simp [get?_cons, h, ih]

theorem get?_filter {es : Entries α} (hes : es.keys.Nodup) (p : String × α → Bool) (key : String) :
    get? (es.filter p) key = (es.get? key).filter fun v => p (key, v) := by
  induction es with
  | nil => rfl
  | cons e es ih =>
    obtain ⟨k, u⟩ := e
    have ⟨hk, ht⟩ := List.nodup_cons.1 hes
    by_cases h : k = key
    · subst h
      have hn : get? es k = none := get?_eq_none_iff.2 hk
      by_cases hp : p (k, u) <;> simp [get?_cons, hp, ih ht, hn, Option.filter]
    · by_cases hp : p (k, u) <;> simp [get?_cons, hp, h, ih ht]

theorem mem_present {es : List (String × Option α)} {e : String × α} :
    e ∈ present es ↔ (e.1, some e.2) ∈ es := by
  rw [present, List.mem_filterMap]
  constructor
  · rintro ⟨⟨k, u⟩, hm, h⟩
    obtain ⟨v, rfl, rfl⟩ := Option.map_eq_some_iff.1 h
    exact hm
  · exact fun h => ⟨_, h, rfl⟩

theorem forall_mem_present {p : α → Prop} {es : List (String × Option α)} (h : ∀ e ∈ es, ∀ v, e.2 = some v → p v) :
    ∀ e ∈ present es, p e.2 :=
  fun e he => h _ (mem_present.1 he) e.2 rfl

theorem keys_present_sublist (es : List (String × Option α)) : (present es).keys.Sublist (keys es) := by
  induction es with
  | nil => exact .slnil
  | cons e es ih =>
    obtain ⟨k, u⟩ := e
    cases u with
    | none => exact .cons k ih
    | some v => exact .cons_cons k ih

theorem get?_present {es : List (String × Option α)} (hes : (keys es).Nodup) (key : String) :
    (present es).get? key = (get? es key).join := by
  induction es with
  | nil => rfl
  | cons e es ih =>
    obtain ⟨k, u⟩ := e
    have ⟨hk, ht⟩ := List.nodup_cons.1 hes
    cases u with
    | none =>
      have : present ((k, none) :: es) = present es := rfl
      rw [this, ih ht, get?_cons]
      split
      · next h => rw [← h, get?_eq_none_iff.2 hk]; rfl
      · rfl
    | some v =>
      have : present ((k, some v) :: es) = (k, v) :: present es := rfl
      rw [this, get?_cons, get?_cons, ih ht]
      split <;> rfl

theorem get?_insert (es : Entries α) (key : String) (v : α) (other : String) :
    (es.insert key v).get? other = if key = other then some v else es.get? other := by
  induction es with
  | nil => rfl
  | cons e es ih =>
    obtain ⟨k, u⟩ := e
    by_cases h : k = key
    · subst h
      by_cases h' : k = other <;> simp [insert, get?_cons, h']
    · by_cases h' : k = other
      · subst h'
        simp [insert, get?_cons, h, Ne.symm h]
      · simp [insert, get?_cons, h, h', ih]

theorem mem_insert {es : Entries α} {name : String} {v : α} {e : String × α} (h : e ∈ es.insert name v) :
    e = (name, v) ∨ e ∈ es := by
  induction es with
  | nil => exact .inl (List.mem_singleton.1 h)
  | cons m es ih =>
    obtain ⟨k, u⟩ := m
    rw [insert] at h
    split at h
    · next hk =>
      rcases List.mem_cons.1 h with rfl | h
      · exact .inl (by rw [hk])
      · exact .inr (List.mem_cons_of_mem _ h)
    · rcases List.mem_cons.1 h with rfl | h
      · exact .inr List.mem_cons_self
      · exact (ih h).imp_right (List.mem_cons_of_mem _)

theorem mem_modify {es : Entries α} {key : String} {f : α → α} {e : String × α} (h : e ∈ es.modify key f) :
    e ∈ es ∨ ∃ u, (key, u) ∈ es ∧ e = (key, f u) := by
  induction es with
  | nil => exact .inl h
  | cons m es ih =>
    obtain ⟨k, u⟩ := m
    rw [modify] at h
    split at h
    · next hk =>
      subst hk
      rcases List.mem_cons.1 h with rfl | h
      · exact .inr ⟨u, List.mem_cons_self, rfl⟩
      · exact .inl (List.mem_cons_of_mem _ h)
    · rcases List.mem_cons.1 h with rfl | h
      · exact .inl List.mem_cons_self
      · rcases ih h with h | ⟨w, hw, rfl⟩
        · exact .inl (List.mem_cons_of_mem _ h)
        · exact .inr ⟨w, List.mem_cons_of_mem _ hw, rfl⟩

theorem get?_modify (es : Entries α) (key : String) (f : α → α) (other : String) :
    (es.modify key f).get? other = if key = other then (es.get? other).map f else es.get? other := by
  induction es with
  | nil => simp [modify]
  | cons e es ih =>
    obtain ⟨k, u⟩ := e
    by_cases h : k = key
    · subst h
      by_cases h' : k = other <;> simp [modify, get?_cons, h']
    · by_cases h' : k = other
      · subst h'
        simp [modify, get?_cons, h, Ne.symm h]
      · simp [modify, get?_cons, h, h', ih]

theorem insert_of_get? {es : Entries α} {key : String} {v : α} (h : es.get? key = some v) : es.insert key v = es := by
  induction es with
  | nil => cases h
  | cons e es ih =>
    obtain ⟨k, u⟩ := e
    rw [get?_cons] at h
    split at h
    · next hk => simp_all [insert]
    · next hk => rw [insert, if_neg hk, ih h]

theorem modify_modify (es : Entries α) (key : String) (f g : α → α) :
    (es.modify key f).modify key g = es.modify key fun v => g (f v) := by
  induction es with
  | nil => rfl
  | cons e es ih =>
    obtain ⟨k, u⟩ := e
    by_cases hk : k = key <;> simp [modify, hk, ih]

theorem keys_insert_of_mem {es : Entries α} {key : String} (h : key ∈ es.keys) (v : α) :
    (es.insert key v).keys = es.keys := by
  induction es with
  | nil => simp at h
  | cons e es ih =>
    obtain ⟨k, u⟩ := e
    by_cases hk : k = key
    · simp [insert, hk]
    · have : key ∈ keys es := by simpa [Ne.symm hk] using h
      simp [insert, hk, ih this]

theorem insert_of_not_mem {es : Entries α} {key : String} (h : key ∉ es.keys) (v : α) :
    es.insert key v = es ++ [(key, v)] := by
  induction es with
  | nil => rfl
  | cons e es ih =>
    obtain ⟨k, u⟩ := e
    have ⟨hk, ht⟩ : k ≠ key ∧ key ∉ keys es := by simpa [eq_comm] using h
    simp [insert, hk, ih ht]

theorem keys_insert_of_not_mem {es : Entries α} {key : String} (h : key ∉ es.keys) (v : α) :
    (es.insert key v).keys = es.keys ++ [key] := by
  simp [insert_of_not_mem h, keys]

theorem nodup_keys_insert {es : Entries α} (h : es.keys.Nodup) (key : String) (v : α) :
    (es.insert key v).keys.Nodup := by
  by_cases hk : key ∈ es.keys
  · rwa [keys_insert_of_mem hk]
  · rw [keys_insert_of_not_mem hk, List.nodup_append]
    refine ⟨h, by simp, ?_⟩
    intro a ha b hb
    rw [List.mem_singleton] at hb
    exact fun e => hk (hb ▸ e ▸ ha)

@[simp] theorem keys_modify (es : Entries α) (key : String) (f : α → α) : (es.modify key f).keys = es.keys := by
  induction es with
  | nil => rfl
  | cons e es ih =>
    by_cases hk : e.1 = key <;> simp [modify, hk, ih]

theorem erase_sublist (es : Entries α) (key : String) : (es.erase key).Sublist es := by
  induction es with
  | nil => exact .slnil
  | cons e es ih =>
    by_cases hk : e.1 = key
    · simp [erase, hk]
    · simpa [erase, hk] using ih

theorem keys_erase_sublist (es : Entries α) (key : String) : (es.erase key).keys.Sublist es.keys :=
  (es.erase_sublist key).map Prod.fst

theorem mapValues_mapValues {γ : Type} (f : α → β) (g : β → γ) (es : Entries α) :
    (es.mapValues f).mapValues g = es.mapValues fun v => g (f v) := by
  simp [mapValues]

theorem mapValues_eq_self {f : α → α} {es : Entries α} (h : ∀ e ∈ es, f e.2 = e.2) : es.mapValues f = es := by
  have hid : es.mapValues f = es.map id := List.map_congr_left fun e he => by rw [h e he]; rfl
  rw [hid, List.map_id]

@[simp] theorem keys_mapValues (f : α → β) (es : Entries α) : (es.mapValues f).keys = es.keys := by
  simp [mapValues, keys]

end Entries

end QueryTree
