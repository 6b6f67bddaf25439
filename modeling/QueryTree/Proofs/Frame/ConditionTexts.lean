import Mathlib.Tactic.Lemma
import QueryTree.Frame.Edit
import QueryTree.Text.Blank
/-! How SQL reads the text of a condition: operands with AND or OR between them, of which AND binds tighter. What
stands in quotes, or inside parentheses, brackets, CASE or BETWEEN, belongs to an operand. -/

namespace QueryTree.Frame

abbrev Operand := List String

structure Condition where
  first : Operand
  rest : List (Connective × Operand)
deriving DecidableEq

namespace Condition

def isQuote (c : Char) : Bool :=
  "'\"\x60".toList.contains c

def isWordChar (c : Char) : Bool :=
  c.isAlphanum || "_.$#@:".toList.contains c || 128 ≤ c.toNat

def opensComment (c : Char) (next : Option Char) : Bool :=
  (c, next) = ('-', some '-') || (c, next) = ('/', some '*')

structure LexState where
  quote : Option Char := none
  word : List Char := []

def wordOf (word : List Char) : List String :=
  if word.isEmpty then [] else [.ofList word]

/-- The lexemes that end before or with a character, and the state after it. Comments are not read. -/
def lexStep (s : LexState) (c : Char) (next : Option Char) : Option (List String × LexState) :=
  match s.quote with
  | some q => if c = q then some (wordOf (s.word ++ [c]), {}) else some ([], { s with word := s.word ++ [c] })
  | none =>
    if isQuote c then some (wordOf s.word, { quote := some c, word := [c] })
    else if Text.isBlank c then some (wordOf s.word, {})
    else if isWordChar c then some ([], { s with word := s.word ++ [c] })
    else if opensComment c next then none
    else some (wordOf s.word ++ [c.toString], {})

def lexemesFrom (s : LexState) : List Char → Option (List String)
  | [] => if s.quote.isSome then none else some (wordOf s.word)
  | c :: cs => (lexStep s c cs.head?).bind fun r => (lexemesFrom r.2 cs).map (r.1 ++ ·)

def lexemes? (s : String) : Option (List String) :=
  lexemesFrom {} s.toList

lemma lexStep_space (s : LexState) (c : Char) : lexStep s c (some ' ') = lexStep s c none := by
  have hcomment : opensComment c (some ' ') = opensComment c none := by simp [opensComment]
  rw [lexStep, hcomment]
  rfl

lemma lexStep_blank {s : LexState} (h : s.quote = none) (next : Option Char) :
    lexStep s ' ' next = some (wordOf s.word, {}) := by
  have hquote : isQuote ' ' = false := by decide
  have hblank : Text.isBlank ' ' = true := by decide
  simp [lexStep, h, hquote, hblank]

lemma lexemesFrom_append_space {s : LexState} {cs : List Char} {ls : List String}
    (h : lexemesFrom s cs = some ls) (ds : List Char) :
    lexemesFrom s (cs ++ ' ' :: ds) = (lexemesFrom {} ds).map (ls ++ ·) := by
  induction cs generalizing s ls with
  | nil =>
    rw [lexemesFrom] at h
    split at h
    · cases h
    · next hquote =>
      cases h
      rw [List.nil_append, lexemesFrom, lexStep_blank (Option.not_isSome_iff_eq_none.1 hquote), Option.bind_some]
  | cons c cs ih =>
    -- a space opens no comment, so the step is the one at the end of a text
    have hstep : lexStep s c (cs ++ ' ' :: ds).head? = lexStep s c cs.head? := by
      cases cs with
      | nil => exact lexStep_space s c
      | cons d cs => rfl
    rw [lexemesFrom] at h
    obtain ⟨r, hr, hrest⟩ := Option.bind_eq_some_iff.1 h
    obtain ⟨ms, hms, rfl⟩ := Option.map_eq_some_iff.1 hrest
    rw [List.cons_append, lexemesFrom, hstep, hr, Option.bind_some, ih hms, Option.map_map]
    congr 1
    funext ls
    exact (List.append_assoc ..).symm

lemma lexemes?_append_space {s : String} {ls : List String} (h : lexemes? s = some ls) (t : String) :
    lexemes? (s ++ " " ++ t) = (lexemes? t).map (ls ++ ·) := by
  rw [lexemes?, String.toList_append, String.toList_append, List.append_assoc]
  exact lexemesFrom_append_space h t.toList

lemma lexemes?_word (op : Connective) : lexemes? op.word = some [op.word] := by
  cases op <;> decide +kernel

lemma lexemes?_connect {s t : String} {ls ms : List String} (hs : lexemes? s = some ls) (ht : lexemes? t = some ms)
    (op : Connective) : lexemes? (s ++ " " ++ op.word ++ " " ++ t) = some (ls ++ op.word :: ms) := by
  have hop : lexemes? (s ++ " " ++ op.word) = some (ls ++ [op.word]) := by
    rw [lexemes?_append_space hs, lexemes?_word]
    rfl
  rw [lexemes?_append_space hop, ht]
  simp

inductive Opener where
  | parenthesis
  | bracket
  | case
  | between
deriving DecidableEq

/-- What is open after a lexeme of an operand. A BETWEEN is closed by an AND of its own. -/
def openedAfter (opened : List Opener) (lexeme : String) : Option (List Opener) :=
  match Text.foldCase lexeme, opened with
  | "(", _ => some (.parenthesis :: opened)
  | ")", .parenthesis :: opened => some opened
  | ")", _ => none
  | "[", _ => some (.bracket :: opened)
  | "]", .bracket :: opened => some opened
  | "]", _ => none
  | "case", _ => some (.case :: opened)
  | "end", .case :: opened => some opened
  | "end", _ => none
  | "between", _ => some (.between :: opened)
  | "and", .between :: opened => some opened
  | "or", .between :: _ => none
  | _, _ => some opened

def connective? (lexeme : String) : Option Connective :=
  match Text.foldCase lexeme with
  | "and" => some .and
  | "or" => some .or
  | _ => none

def separator? (opened : List Opener) (lexeme : String) : Option Connective :=
  if opened.isEmpty then connective? lexeme else none

def split? (opened : List Opener) : List String → Option Condition
  | [] => if opened.isEmpty then some ⟨[], []⟩ else none
  | l :: ls =>
    match separator? opened l with
    | some op => (split? [] ls).map fun c => ⟨[], (op, c.first) :: c.rest⟩
    | none => (openedAfter opened l).bind fun opened => (split? opened ls).map fun c => ⟨l :: c.first, c.rest⟩

lemma split?_append {opened : List Opener} {ls : List String} {c : Condition} (h : split? opened ls = some c)
    (op : Connective) (ms : List String) :
    split? opened (ls ++ op.word :: ms) = (split? [] ms).map fun d => ⟨c.first, c.rest ++ (op, d.first) :: d.rest⟩ := by
  induction ls generalizing opened c with
  | nil =>
    rw [split?] at h
    split at h
    · next hopened =>
      cases h
      obtain rfl := List.isEmpty_iff.1 hopened
      have hop : separator? [] op.word = some op := by cases op <;> decide +kernel
      rw [List.nil_append, split?, hop]
      rfl
    · cases h
  | cons l ls ih =>
    rw [split?] at h
    rw [List.cons_append, split?]
    cases hl : separator? opened l with
    | some op' =>
      simp only [hl] at h ⊢
      obtain ⟨c', hc', rfl⟩ := Option.map_eq_some_iff.1 h
      rw [ih hc', Option.map_map]
      rfl
    | none =>
      simp only [hl] at h ⊢
      obtain ⟨inside, hinside, hrest⟩ := Option.bind_eq_some_iff.1 h
      obtain ⟨c', hc', rfl⟩ := Option.map_eq_some_iff.1 hrest
      rw [hinside, Option.bind_some, ih hc', Option.map_map]
      rfl

def operands (c : Condition) : List Operand :=
  c.first :: c.rest.map Prod.snd

def read? (s : String) : Option Condition :=
  ((lexemes? s).bind (split? [])).filter fun c => decide ([] ∉ c.operands)

lemma read?_eq_some_iff {s : String} {c : Condition} :
    read? s = some c ↔ ∃ ls, lexemes? s = some ls ∧ split? [] ls = some c ∧ [] ∉ c.operands := by
  rw [read?, Option.filter_eq_some_iff, Option.bind_eq_some_iff, decide_eq_true_iff]
  constructor
  · rintro ⟨⟨ls, hls, hc⟩, hoperands⟩
    exact ⟨ls, hls, hc, hoperands⟩
  · rintro ⟨ls, hls, hc, hoperands⟩
    exact ⟨⟨ls, hls, hc⟩, hoperands⟩

def append (c : Condition) (op : Connective) (d : Condition) : Condition :=
  ⟨c.first, c.rest ++ (op, d.first) :: d.rest⟩

lemma read?_append {s t : String} {c d : Condition} (hs : read? s = some c) (ht : read? t = some d) (op : Connective) :
    read? (s ++ " " ++ op.word ++ " " ++ t) = some (c.append op d) := by
  obtain ⟨ls, hls, hc, hfull⟩ := read?_eq_some_iff.1 hs
  obtain ⟨ms, hms, hd, hfull'⟩ := read?_eq_some_iff.1 ht
  refine read?_eq_some_iff.2 ⟨_, lexemes?_connect hls hms op, ?_, ?_⟩
  · rw [split?_append hc, hd]
    rfl
  · have hoperands : (c.append op d).operands = c.operands ++ d.operands := by simp [operands, append]
    rw [hoperands, List.mem_append, not_or]
    exact ⟨hfull, hfull'⟩

example : (read? "x between 1 and 2 or (y or z) and name = 'a or b'").map operands =
    some [["x", "between", "1", "and", "2"], ["(", "y", "or", "z", ")"], ["name", "=", "'a or b'"]] := by
  decide +kernel

def alternativesFrom (group : List Operand) : List (Connective × Operand) → List (List Operand)
  | [] => [group]
  | (.and, a) :: rest => alternativesFrom (group ++ [a]) rest
  | (.or, a) :: rest => group :: alternativesFrom [a] rest

def alternatives (c : Condition) : List (List Operand) :=
  alternativesFrom [c.first] c.rest

/-- The truth of a condition, given that of its operands. AND binds tighter than OR. -/
def value (holds : Operand → Bool) (c : Condition) : Bool :=
  c.alternatives.any fun group => group.all holds

def extend (c : Condition) (n : Connective × Operand) : Condition :=
  { c with rest := c.rest ++ [n] }

lemma exists_alternativesFrom (group : List Operand) (rest : List (Connective × Operand)) :
    ∃ groups last, alternativesFrom group rest = groups ++ [last] ∧
      ∀ a, alternativesFrom group (rest ++ [(.and, a)]) = groups ++ [last ++ [a]] ∧
        alternativesFrom group (rest ++ [(.or, a)]) = groups ++ [last] ++ [[a]] := by
  induction rest generalizing group with
  | nil => exact ⟨[], group, rfl, fun a => ⟨rfl, rfl⟩⟩
  | cons n rest ih =>
    obtain ⟨op, b⟩ := n
    cases op with
    | and => exact ih (group ++ [b])
    | or =>
      obtain ⟨groups, last, hrest, hextended⟩ := ih [b]
      refine ⟨group :: groups, last, congrArg (group :: ·) hrest, fun a => ?_⟩
      exact ⟨congrArg (group :: ·) (hextended a).1, congrArg (group :: ·) (hextended a).2⟩

lemma exists_alternatives (c : Condition) : ∃ groups last, c.alternatives = groups ++ [last] ∧
    ∀ a, (c.extend (.and, a)).alternatives = groups ++ [last ++ [a]] ∧
      (c.extend (.or, a)).alternatives = c.alternatives ++ [[a]] := by
  obtain ⟨groups, last, hc, hextended⟩ := exists_alternativesFrom [c.first] c.rest
  refine ⟨groups, last, hc, fun a => ⟨(hextended a).1, ?_⟩⟩
  rw [alternatives, alternatives, hc]
  exact (hextended a).2

lemma value_extend_or (holds : Operand → Bool) (c : Condition) (a : Operand) :
    (c.extend (.or, a)).value holds = (c.value holds || holds a) := by
  obtain ⟨_, _, -, hextended⟩ := c.exists_alternatives
  rw [value, (hextended a).2, List.any_append, value]
  simp

/-- The groups that an AND with `a` does not reach have `a` already. -/
def LeavesNoneOut (c : Condition) (a : Operand) : Prop :=
  ∀ group ∈ c.alternatives.dropLast, a ∈ group

lemma value_of_extend_and {holds : Operand → Bool} {c : Condition} {a : Operand}
    (h : (c.extend (.and, a)).value holds = true) : c.value holds = true := by
  obtain ⟨groups, last, hc, hextended⟩ := c.exists_alternatives
  rw [value, (hextended a).1, List.any_append, Bool.or_eq_true] at h
  rw [value, hc, List.any_append, Bool.or_eq_true]
  simp only [List.any_cons, List.any_nil, List.all_append, Bool.or_false, Bool.and_eq_true] at h ⊢
  exact h.imp_right And.left

lemma value_extend_and_of {holds : Operand → Bool} {c : Condition} {a : Operand} (hc : c.value holds = true)
    (ha : holds a = true) : (c.extend (.and, a)).value holds = true := by
  obtain ⟨groups, last, halternatives, hextended⟩ := c.exists_alternatives
  rw [value, halternatives, List.any_append, Bool.or_eq_true] at hc
  rw [value, (hextended a).1, List.any_append, Bool.or_eq_true]
  simp only [List.any_cons, List.any_nil, List.all_append, List.all_cons, List.all_nil, ha, Bool.or_false,
    Bool.and_true] at hc ⊢
  exact hc

lemma holds_of_value_iff {c : Condition} {a : Operand} :
    (∀ holds, (c.extend (.and, a)).value holds = true → holds a = true) ↔ c.LeavesNoneOut a := by
  obtain ⟨groups, last, hc, hextended⟩ := c.exists_alternatives
  simp only [LeavesNoneOut, value, hc, (hextended a).1, List.dropLast_concat]
  constructor
  · intro h group hgroup
    -- let the operands of the one group hold and no others
    have ha := h (fun b => decide (b ∈ group)) (List.any_eq_true.2 ⟨group, List.mem_append_left _ hgroup, by simp⟩)
    exact of_decide_eq_true ha
  · intro h holds hvalue
    obtain ⟨group, hgroup, hall⟩ := List.any_eq_true.1 hvalue
    rcases List.mem_append.1 hgroup with hgroup | hgroup
    · exact List.all_eq_true.1 hall a (h group hgroup)
    · obtain rfl := List.mem_singleton.1 hgroup
      exact List.all_eq_true.1 hall a (List.mem_append_right _ List.mem_cons_self)

lemma value_extend_and_iff {c : Condition} {a : Operand} :
    (∀ holds, (c.extend (.and, a)).value holds = (c.value holds && holds a)) ↔ c.LeavesNoneOut a := by
  rw [← holds_of_value_iff]
  constructor
  · intro h holds hvalue
    rw [h, Bool.and_eq_true] at hvalue
    exact hvalue.2
  · intro h holds
    rw [Bool.eq_iff_iff, Bool.and_eq_true]
    exact ⟨fun hvalue => ⟨value_of_extend_and hvalue, h holds hvalue⟩, fun hboth => value_extend_and_of hboth.1 hboth.2⟩

lemma alternativesFrom_of_forall_and {rest : List (Connective × Operand)} (h : ∀ n ∈ rest, n.1 = .and)
    (group : List Operand) : alternativesFrom group rest = [group ++ rest.map Prod.snd] := by
  induction rest generalizing group with
  | nil => rw [alternativesFrom, List.map_nil, List.append_nil]
  | cons n rest ih =>
    obtain ⟨op, a⟩ := n
    obtain ⟨rfl, hrest⟩ := List.forall_mem_cons.1 h
    rw [alternativesFrom, ih hrest, List.map_cons, List.append_assoc, List.singleton_append]

lemma leavesNoneOut_of_forall_and {c : Condition} (h : ∀ n ∈ c.rest, n.1 = .and) (a : Operand) : c.LeavesNoneOut a := by
  rw [LeavesNoneOut, alternatives, alternativesFrom_of_forall_and h]
  exact List.forall_mem_nil _

end Condition

end QueryTree.Frame
