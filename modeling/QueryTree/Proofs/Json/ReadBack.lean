import QueryTree.Proofs.Json.Lexing
import QueryTree.Proofs.Json.Nesting
import QueryTree.Proofs.Json.UniqueNames
/-! Reading pretty text. A value comes back from its text with its numbers read back, if it does not nest too
deep and every number reads back; otherwise the text is refused. -/

namespace QueryTree.Json

mutual

def readBack? : Json → Option Json
  | .number n => n.readBack?.map .number
  | .array items => (itemsReadBack? items).map .array
  | .object members => (membersReadBack? members).map .object
  | .null => some .null
  | .bool b => some (.bool b)
  | .string s => some (.string s)

def itemsReadBack? : List Json → Option (List Json)
  | [] => some []
  | v :: rest => (readBack? v).bind fun w => (itemsReadBack? rest).map (w :: ·)

def membersReadBack? : List (String × Json) → Option Members
  | [] => some []
  | (name, v) :: rest => (readBack? v).bind fun w => (membersReadBack? rest).map ((name, w) :: ·)

end

lemma isSome_membersReadBack?_iff {ms : Members} :
    (membersReadBack? ms).isSome ↔ ∀ m ∈ ms, m.2.readBack?.isSome := by
  induction ms with
  | nil => simp [membersReadBack?]
  | cons m rest ih =>
    obtain ⟨name, v⟩ := m
    rw [List.forall_mem_cons, ← ih, membersReadBack?]
    cases v.readBack? <;> simp

lemma get?_of_membersReadBack? {ms ws : Members} (h : membersReadBack? ms = some ws) (name : String) :
    ws.get? name = (ms.get? name).bind readBack? := by
  induction ms generalizing ws with
  | nil =>
    cases h
    rfl
  | cons m rest ih =>
    obtain ⟨key, v⟩ := m
    obtain ⟨w, hw, h⟩ := Option.bind_eq_some_iff.1 h
    obtain ⟨us, hus, rfl⟩ := Option.map_eq_some_iff.1 h
    rw [Entries.get?_cons, Entries.get?_cons, ih hus]
    split
    · exact hw.symm
    · rfl

lemma keys_of_membersReadBack? {ms ws : Members} (h : membersReadBack? ms = some ws) : ws.keys = ms.keys := by
  induction ms generalizing ws with
  | nil =>
    cases h
    rfl
  | cons m rest ih =>
    obtain ⟨key, v⟩ := m
    obtain ⟨w, -, h⟩ := Option.bind_eq_some_iff.1 h
    obtain ⟨us, hus, rfl⟩ := Option.map_eq_some_iff.1 h
    exact congrArg (key :: ·) (ih hus)

def Number.isInteger : Number → Bool
  | .natural _ | .negative _ => true
  | .double _ => false

mutual

def isIntegral : Json → Bool
  | .number n => n.isInteger
  | .array items => itemsAreIntegral items
  | .object members => membersAreIntegral members
  | .null | .bool _ | .string _ => true

def itemsAreIntegral : List Json → Bool
  | [] => true
  | v :: rest => isIntegral v && itemsAreIntegral rest

def membersAreIntegral : List (String × Json) → Bool
  | [] => true
  | (_, v) :: rest => isIntegral v && membersAreIntegral rest

end

@[simp] lemma isIntegral_array {items : List Json} :
    (Json.array items).isIntegral = true ↔ ∀ v ∈ items, v.isIntegral := by
  rw [isIntegral]
  induction items with
  | nil => simp [itemsAreIntegral]
  | cons v rest ih => simp [itemsAreIntegral, ih]

@[simp] lemma isIntegral_object {ms : Members} : (Json.object ms).isIntegral = true ↔ ∀ m ∈ ms, m.2.isIntegral := by
  rw [isIntegral]
  induction ms with
  | nil => simp [membersAreIntegral]
  | cons m rest ih => simp [membersAreIntegral, ih]

mutual

lemma readBack?_of_isIntegral : (v : Json) → v.isIntegral → v.readBack? = some v
  | .number (.natural n), _ => congrArg (Option.map Json.number) (Number.readBack?_natural n)
  | .number (.negative k), _ => congrArg (Option.map Json.number) (Number.readBack?_negative k)
  | .array items, h => congrArg (Option.map Json.array) (itemsReadBack?_of_isIntegral items (isIntegral_array.1 h))
  | .object members, h =>
    congrArg (Option.map Json.object) (membersReadBack?_of_isIntegral members (isIntegral_object.1 h))
  | .null, _ | .bool _, _ | .string _, _ => rfl

lemma itemsReadBack?_of_isIntegral :
    (items : List Json) → (∀ v ∈ items, v.isIntegral) → itemsReadBack? items = some items
  | [], _ => rfl
  | v :: rest, h => by
    obtain ⟨hv, hrest⟩ := List.forall_mem_cons.1 h
    rw [itemsReadBack?, readBack?_of_isIntegral v hv, itemsReadBack?_of_isIntegral rest hrest]
    rfl

lemma membersReadBack?_of_isIntegral :
    (ms : List (String × Json)) → (∀ m ∈ ms, m.2.isIntegral) → membersReadBack? ms = some ms
  | [], _ => rfl
  | (name, v) :: rest, h => by
    obtain ⟨hv, hrest⟩ := List.forall_mem_cons.1 h
    rw [membersReadBack?, readBack?_of_isIntegral v hv, membersReadBack?_of_isIntegral rest hrest]
    rfl

end

mutual

def tokensThen : Json → List Token → List Token
  | .null, ts => .null :: ts
  | .bool b, ts => .bool b :: ts
  | .number n, ts => n.readBack?.elim [.invalid] (.number · :: ts)
  | .string s, ts => .string s :: ts
  | .array [], ts => .openArray :: .closeArray :: ts
  | .array (v :: vs), ts => .openArray :: tokensThen v (itemsThen vs ts)
  | .object [], ts => .openObject :: .closeObject :: ts
  | .object ((name, v) :: members), ts =>
    .openObject :: .string name :: .colon :: tokensThen v (membersThen members ts)

def itemsThen : List Json → List Token → List Token
  | [], ts => .closeArray :: ts
  | v :: vs, ts => .comma :: tokensThen v (itemsThen vs ts)

def membersThen : List (String × Json) → List Token → List Token
  | [], ts => .closeObject :: ts
  | (name, v) :: members, ts => .comma :: .string name :: .colon :: tokensThen v (membersThen members ts)

end

open Token (lex Ends)

lemma ends_prettyItems (level : Nat) (vs : List Json) (r : List Char) :
    Ends ((prettyItems level vs).toList ++ r) := by
  cases vs with
  | nil => simp [prettyItems, newline, Ends]
  | cons v vs => simp [prettyItems, Ends]

lemma ends_prettyMembers (level : Nat) (ms : List (String × Json)) (r : List Char) :
    Ends ((prettyMembers level ms).toList ++ r) := by
  cases ms with
  | nil => simp [prettyMembers, newline, Ends]
  | cons m ms => simp [prettyMembers, Ends]

mutual

lemma lex_prettyAt (level : Nat) {r : List Char} (hr : Ends r) :
    (v : Json) → lex ((prettyAt level v).toList ++ r) = tokensThen v (lex r)
  | .null => by simp [prettyAt, tokensThen]
  | .bool true => by simp [prettyAt, tokensThen]
  | .bool false => by simp [prettyAt, tokensThen]
  | .number n => by rw [prettyAt, Token.lex_number n hr, tokensThen]
  | .string s => by
    rw [prettyAt, Token.lex_quote, tokensThen]
  | .array [] => by
    simp [prettyAt, tokensThen]
  | .object [] => by
    simp [prettyAt, tokensThen]
  | .array (v :: vs) => by
    have hitems := lex_prettyItems level r vs
    have hvalue := lex_prettyAt (level + 1) (ends_prettyItems level vs (']' :: r)) v
    simp [prettyAt, tokensThen, Token.lex_newline, hvalue, hitems]
  | .object ((name, v) :: members) => by
    have hmembers := lex_prettyMembers level r members
    have hvalue := lex_prettyAt (level + 1) (ends_prettyMembers level members ('\x7d' :: r)) v
    simp [prettyAt, tokensThen, Token.lex_newline, Token.lex_quote, hvalue, hmembers]

lemma lex_prettyItems (level : Nat) (r : List Char) :
    (vs : List Json) → lex ((prettyItems level vs).toList ++ ']' :: r) = itemsThen vs (lex r)
  | [] => by
    simp [prettyItems, itemsThen, Token.lex_newline]
  | v :: vs => by
    have hitems := lex_prettyItems level r vs
    have hvalue := lex_prettyAt (level + 1) (ends_prettyItems level vs (']' :: r)) v
    simp [prettyItems, itemsThen, Token.lex_newline, hvalue, hitems]

lemma lex_prettyMembers (level : Nat) (r : List Char) :
    (ms : List (String × Json)) → lex ((prettyMembers level ms).toList ++ '\x7d' :: r) = membersThen ms (lex r)
  | [] => by
    simp [prettyMembers, membersThen, Token.lex_newline]
  | (name, v) :: members => by
    have hmembers := lex_prettyMembers level r members
    have hvalue := lex_prettyAt (level + 1) (ends_prettyMembers level members ('\x7d' :: r)) v
    simp [prettyMembers, membersThen, Token.lex_newline, Token.lex_quote, hvalue, hmembers]

end

def resume (room : Nat) : Progress → List Token → Option (Json × List Token)
  | .reading phase stack, ts => run room phase stack ts
  | .done v, ts => some (v, ts)

lemma run_cons (room : Nat) (phase : Phase) (stack : List Enclosing) (t : Token) (ts : List Token) :
    run room phase stack (t :: ts) = (step room phase stack t).bind (resume room · ts) := by
  rw [run]
  cases step room phase stack t with
  | none => rfl
  | some p => cases p <;> rfl

lemma run_firstItem (room : Nat) (stack : List Enclosing) (v : Json) (ts : List Token) :
    run room .firstItem stack (tokensThen v ts) = run room .value (.array [] :: stack) (tokensThen v ts) := by
  have hhead : ∃ t rest, tokensThen v ts = t :: rest ∧ t ≠ .closeArray := by
    cases v with
    | number n => cases hn : n.readBack? <;> simp [tokensThen, hn]
    | array vs => cases vs <;> simp [tokensThen]
    | object ms => cases ms <;> simp [tokensThen]
    | null | bool | string => simp [tokensThen]
  obtain ⟨t, rest, hts, ht⟩ := hhead
  rw [hts, run_cons, run_cons]
  congr 1
  cases t <;> first | rfl | exact absurd rfl ht

lemma ite_bind_ite {α β : Type} {p q r : Prop} [Decidable p] [Decidable q] [Decidable r] (h : r ↔ p ∧ q)
    (o : Option α) (f : α → Option β) :
    (if p then o.bind fun a => if q then f a else none else none) = o.bind fun a => if r then f a else none := by
  by_cases hp : p <;> by_cases hq : q <;> simp [h, hp, hq]

mutual

/-- A value that is read at a place continues the reading there, if it fits and its numbers read back. -/
lemma run_tokensThen (room : Nat) (stack : List Enclosing) (hs : stack.length ≤ room) (ts : List Token) :
    (v : Json) → v.hasUniqueNames → run room .value stack (tokensThen v ts) =
      (readBack? v).bind fun w => if v.nesting + stack.length ≤ room then resume room (deliver w stack) ts else none
  | .null, _ => by simp [tokensThen, run_cons, step, startValue, readBack?, nesting, hs]
  | .bool b, _ => by simp [tokensThen, run_cons, step, startValue, readBack?, nesting, hs]
  | .string s, _ => by simp [tokensThen, run_cons, step, startValue, readBack?, nesting, hs]
  | .number n, _ => by
    cases hn : n.readBack? <;> simp [tokensThen, run_cons, step, startValue, readBack?, nesting, hs, hn]
  | .array [], _ => by
    by_cases hlt : stack.length < room
    · have hle : 1 + stack.length ≤ room := by omega
      simp [tokensThen, run_cons, step, startValue, readBack?, itemsReadBack?, nesting, itemsNesting, hlt, hle, resume]
    · have hle : ¬ 1 + stack.length ≤ room := by omega
      simp [tokensThen, run_cons, step, startValue, readBack?, itemsReadBack?, nesting, itemsNesting, hlt, hle]
  | .object [], _ => by
    by_cases hlt : stack.length < room
    · have hle : 1 + stack.length ≤ room := by omega
      simp [tokensThen, run_cons, step, startValue, readBack?, membersReadBack?, nesting, membersNesting, hlt, hle,
        resume]
    · have hle : ¬ 1 + stack.length ≤ room := by omega
      simp [tokensThen, run_cons, step, startValue, readBack?, membersReadBack?, nesting, membersNesting, hlt, hle]
  | .array (v :: vs), h => by
    rw [hasUniqueNames_array] at h
    rw [tokensThen, run_cons, step, startValue, readBack?, nesting, Option.bind_map]
    by_cases hlt : stack.length < room
    · have hitems := run_itemsThen room stack hlt ts [] (v :: vs) h
      have hcomma : run room (.afterItem []) stack (itemsThen (v :: vs) ts) =
          run room .value (.array [] :: stack) (tokensThen v (itemsThen vs ts)) := by
        rw [itemsThen, run_cons]
        rfl
      have hfit : itemsNesting (v :: vs) + 1 + stack.length ≤ room ↔ itemsNesting (v :: vs) + stack.length < room := by
        omega
      rw [if_pos hlt, Option.bind_some, resume, run_firstItem, ← hcomma, hitems]
      simp only [hfit]
      rfl
    · have hle : ¬ itemsNesting (v :: vs) + 1 + stack.length ≤ room := by omega
      simp only [hlt, hle, if_false, Option.bind_none]
      exact (Option.bind_fun_none _).symm
  | .object ((name, v) :: members), h => by
    rw [hasUniqueNames_object] at h
    rw [tokensThen, run_cons, step, startValue, readBack?, nesting, Option.bind_map]
    by_cases hlt : stack.length < room
    · have hmembers := run_membersThen room stack hlt ts [] ((name, v) :: members) h.2 h.1
      have hcomma : run room (.afterMember []) stack (membersThen ((name, v) :: members) ts) =
          run room .firstName stack (.string name :: .colon :: tokensThen v (membersThen members ts)) := by
        rw [membersThen, run_cons]
        rfl
      have hfit : membersNesting ((name, v) :: members) + 1 + stack.length ≤ room ↔
          membersNesting ((name, v) :: members) + stack.length < room := by omega
      rw [if_pos hlt, Option.bind_some, resume, ← hcomma, hmembers]
      simp only [hfit]
      rfl
    · have hle : ¬ membersNesting ((name, v) :: members) + 1 + stack.length ≤ room := by omega
      simp only [hlt, hle, if_false, Option.bind_none]
      exact (Option.bind_fun_none _).symm

lemma run_itemsThen (room : Nat) (stack : List Enclosing) (hs : stack.length < room) (ts : List Token)
    (acc : List Json) :
    (vs : List Json) → (∀ v ∈ vs, v.hasUniqueNames) → run room (.afterItem acc) stack (itemsThen vs ts) =
      (itemsReadBack? vs).bind fun ws => if itemsNesting vs + stack.length < room
        then resume room (deliver (.array (acc.reverse ++ ws)) stack) ts else none
  | [], _ => by simp [itemsThen, run_cons, step, itemsReadBack?, itemsNesting, hs]
  | v :: vs, h => by
    obtain ⟨hv, hvs⟩ := List.forall_mem_cons.1 h
    have hvalue := run_tokensThen room (.array acc :: stack) hs (itemsThen vs ts) v hv
    rw [itemsThen, run_cons, step, Option.bind_some, resume, hvalue, itemsReadBack?, itemsNesting, Option.bind_assoc]
    congr 1; funext w
    have hrest := run_itemsThen room stack hs ts (w :: acc) vs hvs
    have hfit : max v.nesting (itemsNesting vs) + stack.length < room ↔
        v.nesting + (stack.length + 1) ≤ room ∧ itemsNesting vs + stack.length < room := by omega
    rw [deliver, resume, hrest, List.length_cons, Option.bind_map, ite_bind_ite hfit]
    simp only [List.reverse_cons, List.append_assoc, List.singleton_append]
    rfl

lemma run_membersThen (room : Nat) (stack : List Enclosing) (hs : stack.length < room) (ts : List Token)
    (acc : Members) :
    (ms : List (String × Json)) → (∀ m ∈ ms, m.2.hasUniqueNames) → (acc.keys ++ Entries.keys ms).Nodup →
    run room (.afterMember acc) stack (membersThen ms ts) =
      (membersReadBack? ms).bind fun ws => if membersNesting ms + stack.length < room
        then resume room (deliver (.object (acc ++ ws)) stack) ts else none
  | [], _, _ => by simp [membersThen, run_cons, step, membersReadBack?, membersNesting, hs]
  | (name, v) :: members, h, hkeys => by
    obtain ⟨hv, hmembers⟩ := List.forall_mem_cons.1 h
    have hname : name ∉ acc.keys := by
      intro hn
      exact (List.nodup_append.1 hkeys).2.2 name hn name List.mem_cons_self rfl
    have hvalue := run_tokensThen room (.member acc name :: stack) hs (membersThen members ts) v hv
    rw [membersThen, run_cons, step, Option.bind_some, resume, run_cons, step, Option.bind_some, resume, run_cons,
      step, Option.bind_some, resume, hvalue, membersReadBack?, membersNesting, Option.bind_assoc]
    congr 1; funext w
    have hkeys' : (Entries.keys (acc ++ [(name, w)]) ++ Entries.keys members).Nodup := by
      simpa [Entries.keys] using hkeys
    have hrest := run_membersThen room stack hs ts (acc ++ [(name, w)]) members hmembers hkeys'
    have hfit : max v.nesting (membersNesting members) + stack.length < room ↔
        v.nesting + (stack.length + 1) ≤ room ∧ membersNesting members + stack.length < room := by omega
    rw [deliver, resume, Entries.insert_of_not_mem hname, hrest, List.length_cons, Option.bind_map,
      ite_bind_ite hfit]
    simp only [List.append_assoc, List.singleton_append]
    rfl

end

theorem parse?_pretty {v : Json} (hv : v.hasUniqueNames) :
    parse? v.pretty = if v.nesting ≤ maxNesting then v.readBack? else none := by
  have htokens : tokens v.pretty = tokensThen v [] := by
    have h := lex_prettyAt 0 (r := []) nofun v
    rwa [List.append_nil] at h
  have hrun := run_tokensThen maxNesting [] (Nat.zero_le _) [] v hv
  rw [parse?, read?, htokens, hrun]
  cases v.readBack? with
  | none => simp
  | some w =>
    by_cases hle : v.nesting ≤ maxNesting <;> simp [hle, deliver, resume]

structure Plain (depth : Nat) (v : Json) : Prop where
  unique : v.hasUniqueNames
  integral : v.isIntegral
  nesting : v.nesting ≤ depth

lemma Plain.parse?_pretty {v : Json} (h : v.Plain maxNesting) : parse? v.pretty = some v := by
  rw [Json.parse?_pretty h.unique, if_pos h.nesting, readBack?_of_isIntegral v h.integral]

lemma Plain.insert {depth : Nat} {ms : Members} {v : Json} (h : (Json.object ms).Plain (depth + 1))
    (hv : v.Plain depth) (name : String) : (Json.object (ms.insert name v)).Plain (depth + 1) where
  unique := hasUniqueNames_insert h.unique hv.unique
  integral := by
    refine isIntegral_object.2 fun m hm => ?_
    rcases Entries.mem_insert hm with rfl | hm
    · exact hv.integral
    · exact isIntegral_object.1 h.integral m hm
  nesting := by
    refine nesting_object_le_iff.2 fun m hm => ?_
    rcases Entries.mem_insert hm with rfl | hm
    · exact hv.nesting
    · exact nesting_object_le_iff.1 h.nesting m hm

end QueryTree.Json
