import Mathlib.Tactic.Lemma
import QueryTree.Entries
/-! Entries put, changed and erased one after another. The value put last counts, and keys keep the order of their first
appearance. -/

namespace QueryTree.Entries

variable {α β : Type}

def putAll (es : Entries α) (puts : Entries α) : Entries α :=
  puts.foldl (fun es e => es.insert e.1 e.2) es

lemma get?_putAll (es puts : Entries α) (key : String) :
    (es.putAll puts).get? key = (get? puts.reverse key).or (es.get? key) := by
  induction puts generalizing es with
  | nil => rfl
  | cons e puts ih =>
    obtain ⟨k, v⟩ := e
    have hstep : es.putAll ((k, v) :: puts) = (es.insert k v).putAll puts := rfl
    rw [hstep, ih, get?_insert, List.reverse_cons, get?_append, Option.or_assoc, get?_cons]
    split <;> rfl

lemma mem_putAll {es puts : Entries α} {e : String × α} (h : e ∈ es.putAll puts) : e ∈ es ∨ e ∈ puts := by
  induction puts generalizing es with
  | nil => exact .inl h
  | cons m puts ih =>
    rcases ih h with h | h
    · rcases mem_insert h with rfl | h
      · exact .inr List.mem_cons_self
      · exact .inl h
    · exact .inr (List.mem_cons_of_mem _ h)

lemma putAll_eq_append {es puts : Entries α} (h : (keys (es ++ puts)).Nodup) : es.putAll puts = es ++ puts := by
  induction puts generalizing es with
  | nil => exact (List.append_nil es).symm
  | cons e puts ih =>
    have hkeys : keys (es ++ e :: puts) = es.keys ++ e.1 :: keys puts := by simp [keys]
    have he : e.1 ∉ es.keys := by
      intro hm
      rw [hkeys] at h
      exact (List.nodup_append.1 h).2.2 _ hm _ List.mem_cons_self rfl
    have hinsert : es.insert e.1 e.2 = es ++ [e] := insert_of_not_mem he e.2
    have hstep : es.putAll (e :: puts) = (es.insert e.1 e.2).putAll puts := rfl
    rw [hstep, ih (by simpa [hinsert] using h), hinsert, List.append_assoc, List.singleton_append]

lemma nodup_keys_putAll {es : Entries α} (h : es.keys.Nodup) (puts : Entries α) : (es.putAll puts).keys.Nodup := by
  induction puts generalizing es with
  | nil => exact h
  | cons e puts ih => exact ih (nodup_keys_insert h e.1 e.2)

lemma eraseDups_of_nodup {keys : List String} (h : keys.Nodup) : keys.eraseDups = keys := by
  induction keys with
  | nil => rfl
  | cons key keys ih =>
    obtain ⟨hkey, hkeys⟩ := List.nodup_cons.1 h
    have hfilter : keys.filter (fun b => !b == key) = keys :=
      List.filter_eq_self.2 fun k hk => by simpa using fun hk' : k = key => hkey (hk' ▸ hk)
    rw [List.eraseDups_cons, hfilter, ih hkeys]

lemma keys_putAll {es : Entries α} (h : es.keys.Nodup) (puts : Entries α) :
    (es.putAll puts).keys = (es.keys ++ puts.keys).eraseDups := by
  induction puts generalizing es with
  | nil => simpa [putAll] using (eraseDups_of_nodup h).symm
  | cons e puts ih =>
    obtain ⟨k, v⟩ := e
    have hstep : es.putAll ((k, v) :: puts) = (es.insert k v).putAll puts := rfl
    rw [hstep, ih (nodup_keys_insert h k v), keys_cons]
    by_cases hk : k ∈ es.keys
    · rw [keys_insert_of_mem hk, List.eraseDups_append, List.eraseDups_append]
      simp [List.removeAll, hk]
    · rw [keys_insert_of_not_mem hk, List.append_assoc, List.singleton_append]

lemma get?_map (f : String → α → β) (es : Entries α) (key : String) :
    get? (es.map fun e => (e.1, f e.1 e.2)) key = (es.get? key).map (f key) := by
  induction es with
  | nil => rfl
  | cons e es ih =>
    obtain ⟨k, v⟩ := e
    by_cases hk : k = key
    · simp [get?_cons, hk]
    · simp [get?_cons, hk, ih]

lemma modify_id (es : Entries α) (key : String) : es.modify key (fun v => v) = es := by
  induction es with
  | nil => rfl
  | cons e es ih =>
    obtain ⟨k, v⟩ := e
    by_cases hk : k = key
    · simp [modify, hk]
    · simp [modify, hk, ih]

lemma map_modify {g : String → α → β} {key : String} {change : α → α} {n : β → β}
    (h : ∀ v, g key (change v) = n (g key v)) (es : Entries α) :
    (es.modify key change).map (fun e => (e.1, g e.1 e.2)) = modify (es.map fun e => (e.1, g e.1 e.2)) key n := by
  induction es with
  | nil => rfl
  | cons e es ih =>
    obtain ⟨k, v⟩ := e
    by_cases hk : k = key
    · subst hk
      simp [modify, h]
    · simp [modify, hk, ih]

lemma erase_of_not_mem {es : Entries α} {key : String} (h : key ∉ es.keys) : es.erase key = es := by
  induction es with
  | nil => rfl
  | cons e es ih =>
    obtain ⟨k, v⟩ := e
    obtain ⟨hk, hes⟩ := not_or.1 (mt List.mem_cons.2 h)
    rw [erase, if_neg (Ne.symm hk), ih hes]

lemma map_erase (g : String → α → β) (es : Entries α) (key : String) :
    (es.erase key).map (fun e => (e.1, g e.1 e.2)) = erase (es.map fun e => (e.1, g e.1 e.2)) key := by
  induction es with
  | nil => rfl
  | cons e es ih =>
    obtain ⟨k, v⟩ := e
    by_cases hk : k = key
    · simp [erase, hk]
    · simp [erase, hk, ih]

end QueryTree.Entries
