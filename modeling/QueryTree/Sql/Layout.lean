import QueryTree.Sql.Format
/-!
A formatter. Clauses start a line, subqueries are indented, and keywords may be put in upper case. Nothing but
blanks between pieces and the case of keywords changes, so the text keeps its squashed form.
-/

namespace QueryTree.Sql

namespace Layout

structure Piece where
  spaced : Bool
  chars : List Char

def isQuote (c : Char) : Bool :=
  c == '\x27' || c == '\x22'

def isPunctuation (c : Char) : Bool :=
  c == '(' || c == ')' || c == ',' || c == ';'

def flush (spaced : Bool) (met : List Char) : List Piece :=
  if met.isEmpty then [] else [⟨spaced, met.reverse⟩]

/-- The pieces of a text: quoted texts, single punctuation marks, and the runs between. `met` holds the
characters of the present piece, last first, and `quote` the mark that ends it if it is quoted. -/
def pieces (spaced : Bool) (met : List Char) (quote : Option Char) : List Char → List Piece
  | [] => flush spaced met
  | c :: cs =>
    match quote with
    | some q =>
      if c = q then ⟨spaced, (c :: met).reverse⟩ :: pieces false [] none cs
      else pieces spaced (c :: met) quote cs
    | none =>
      if Text.isBlank c then flush spaced met ++ pieces true [] none cs
      else
        let before := if met.isEmpty then spaced else false
        if isQuote c then flush spaced met ++ pieces before [c] (some c) cs
        else if isPunctuation c then flush spaced met ++ ⟨before, [c]⟩ :: pieces false [] none cs
        else pieces spaced (c :: met) none cs

def chars (ps : List Piece) : List Char :=
  ps.flatMap Piece.chars

@[simp] theorem chars_append (ps qs : List Piece) : chars (ps ++ qs) = chars ps ++ chars qs :=
  List.flatMap_append

@[simp] theorem chars_cons (p : Piece) (ps : List Piece) : chars (p :: ps) = p.chars ++ chars ps :=
  List.flatMap_cons

@[simp] theorem chars_flush (spaced : Bool) (met : List Char) : chars (flush spaced met) = met.reverse := by
  cases met <;> simp [flush, chars]

theorem squashChars_chars_pieces (spaced : Bool) (met : List Char) (quote : Option Char) (cs : List Char) :
    squashChars (chars (pieces spaced met quote cs)) = squashChars (met.reverse ++ cs) := by
  fun_induction pieces spaced met quote cs with
  | case1 => simp
  | case2 spaced met cs q ih =>
    rw [chars_cons, squashChars_append, ih, ← squashChars_append]
    simp
  | case3 spaced met c cs q _ ih =>
    rw [ih]
    simp
  | case4 spaced met c cs hc ih =>
    have blank : squashChars [c] = [] := squashChars_of_blank (by simpa using hc)
    rw [chars_append, chars_flush, squashChars_append, ih, squashChars_append met.reverse (c :: cs),
      squashChars_cons c, blank]
    rfl
  | case5 spaced met c cs _ _ _ ih =>
    rw [chars_append, chars_flush, squashChars_append, ih, ← squashChars_append]
    simp
  | case6 spaced met c cs _ _ _ _ ih =>
    rw [chars_append, chars_flush, chars_cons, squashChars_append, squashChars_append, ih, ← squashChars_append,
      ← squashChars_append]
    simp
  | case7 spaced met c cs _ _ _ ih =>
    rw [ih]
    simp

def joinStarts : List String :=
  ["left", "right", "full", "cross", "inner", "join"]

def lineStarts : List String :=
  joinStarts ++ ["select", "from", "where", "group", "having", "order", "limit", "union", "create", "insert", "delete"]

def joinModifiers : List String :=
  ["left", "right", "full", "cross", "inner", "outer"]

def reserved : List String :=
  lineStarts ++ joinModifiers ++
    ["distinct", "by", "on", "as", "and", "or", "not", "in", "is", "null", "like", "between", "exists", "case",
      "when", "then", "else", "end", "asc", "desc", "all", "table", "into", "sum", "count", "min", "max", "avg"]

def word (p : Piece) : String :=
  .ofList (p.chars.map Char.toLower)

structure Place where
  queries : List Bool := []
  last : String := ""

def newline (options : FormatOptions) (level : Nat) : List Char :=
  '\n' :: List.replicate (options.indent.toNat * level) ' '

def Place.level (p : Place) : Nat :=
  p.queries.count true

def startsLine (place : Place) (p : Piece) : Bool :=
  place.last ≠ "" && (p.spaced || place.last == "(") && lineStarts.contains (word p)
    && !(word p == "join" && joinModifiers.contains place.last)

def startLevel (options : FormatOptions) (place : Place) (p : Piece) : Nat :=
  if options.joinsAsTopLevel || !joinStarts.contains (word p) then place.level else place.level + 1

def separator (options : FormatOptions) (place : Place) (p : Piece) : List Char :=
  if place.last = ";" then List.replicate options.linesBetweenQueries.toNat '\n'
  else if p.chars = [')'] && place.queries.head? == some true then newline options (place.level - 1)
  else if startsLine place p then newline options (startLevel options place p)
  else if p.spaced && place.last ≠ "" then [' ']
  else []

def pieceChars (options : FormatOptions) (p : Piece) : List Char :=
  if options.uppercase && reserved.contains (word p) then p.chars.map Char.toUpper else p.chars

def Place.after (place : Place) (p : Piece) (rest : List Piece) : Place :=
  let queries := match p.chars with
    | ['('] => (rest.head?.map word == some "select") :: place.queries
    | [')'] => place.queries.tail
    | _ => place.queries
  { queries, last := word p }

def write (options : FormatOptions) (place : Place) : List Piece → List Char
  | [] => []
  | p :: rest => separator options place p ++ pieceChars options p ++ write options (place.after p rest) rest

theorem squashChars_newline (options : FormatOptions) (level : Nat) : squashChars (newline options level) = [] := by
  rw [newline, squashChars_cons, squashChars_replicate (by decide)]
  rfl

theorem squashChars_separator (options : FormatOptions) (place : Place) (p : Piece) :
    squashChars (separator options place p) = [] := by
  unfold separator
  split
  · exact squashChars_replicate (by decide) _
  · split
    · exact squashChars_newline ..
    · split
      · exact squashChars_newline ..
      · split
        · decide
        · rfl

theorem squashChars_pieceChars (options : FormatOptions) (p : Piece) :
    squashChars (pieceChars options p) = squashChars p.chars := by
  unfold pieceChars
  split
  · exact squashChars_map_toUpper p.chars
  · rfl

theorem squashChars_write (options : FormatOptions) (place : Place) (ps : List Piece) :
    squashChars (write options place ps) = squashChars (chars ps) := by
  induction ps generalizing place with
  | nil => rfl
  | cons p ps ih =>
    rw [write, squashChars_append, squashChars_append, squashChars_separator, squashChars_pieceChars, ih,
      chars_cons, squashChars_append, List.nil_append]

end Layout

instance : Formatter where
  format options sql := .ofList (Layout.write options {} (Layout.pieces false [] none sql.toList))
  squash_format options sql := by
    rw [squash, String.toList_ofList, Layout.squashChars_write, Layout.squashChars_chars_pieces]
    rfl

end QueryTree.Sql
