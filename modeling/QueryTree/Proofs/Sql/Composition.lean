import QueryTree.Proofs.Document.RoundTrip
import QueryTree.Proofs.Sql.Template
/-! The text of a document, put together from the texts of the documents that it reads from. -/

namespace QueryTree

namespace Sql

def clauseText (keyword operand : String) : String :=
  if operand = "" then "" else " " ++ keyword ++ " " ++ operand

def listText (keyword : String) (items : List String) : String :=
  if items = [] then "" else " " ++ keyword ++ " " ++ ", ".intercalate items

@[simp] lemma text_nil : text [] = "" := rfl

@[simp] lemma text_cons (t : Token) (ts : List Token) : text (t :: ts) = t.text ++ text ts := by
  rw [text, List.map_cons, String.join_cons, text]

@[simp] lemma text_append (ts us : List Token) : text (ts ++ us) = text ts ++ text us := by
  rw [text, List.map_append, String.join_append, text, text]

section

variable {f : String → Token} (hf : ∀ s, (f s).text = s)

include hf

lemma text_commaSeparated (xs : List String) : text (commaSeparated (xs.map f)) = ", ".intercalate xs := by
  induction xs with
  | nil => rfl
  | cons x xs ih =>
    cases xs with
    | nil => simp [commaSeparated, hf]
    | cons y ys =>
      have hcons : commaSeparated ((x :: y :: ys).map f) =
          f x :: .comma :: .space :: commaSeparated ((y :: ys).map f) := rfl
      rw [hcons, text_cons, text_cons, text_cons, ih, hf, String.intercalate_cons_cons, String.append_assoc]
      rfl

lemma text_listClause (keyword : Token) (xs : List String) :
    text (listClause keyword (xs.map f)) = listText keyword.text xs := by
  cases xs with
  | nil => rfl
  | cons x xs =>
    have hclause : listClause keyword ((x :: xs).map f) =
        .space :: keyword :: .space :: commaSeparated ((x :: xs).map f) := rfl
    rw [hclause, text_cons, text_cons, text_cons, text_commaSeparated hf, listText, if_neg (List.cons_ne_nil x xs)]
    simp only [String.append_assoc]
    rfl

end

lemma text_optionalClause {keyword : Token} {o : Option String} (h : o ≠ some "") :
    text (optionalClause keyword (o.map .raw)) = clauseText keyword.text (o.getD "") := by
  cases o with
  | none => rfl
  | some s =>
    have hs : s ≠ "" := fun hs => h (congrArg some hs)
    simp [optionalClause, clause, clauseText, hs, Token.text, String.append_assoc]

end Sql

namespace Document

open Sql
open Check (subqueryKey childKey)

def endText (b : Block) : String :=
  listText "ORDER BY" (Columns.ofFields {} b.fields).order ++ b.limit.elim "" fun n => " LIMIT " ++ toString n.toNat

def nodeText (b : Block) (source : String) : String :=
  "SELECT " ++ (if b.distinct then "DISTINCT " else "") ++ ", ".intercalate (Columns.ofFields {} b.fields).names ++
    " FROM " ++ source ++ clauseText "WHERE" (b.filter.getD "") ++
    listText "GROUP BY" (Columns.ofFields {} b.fields).dimensions ++ clauseText "HAVING" (b.having.getD "") ++ endText b

def operatorText : UnionType → String
  | .distinct => " UNION "
  | .all => " UNION ALL "

mutual

def composed : Document → String
  | table b t => nodeText b ((t.schema.elim "" fun s => s ++ ".") ++ t.table)
  | subquery b inner => nodeText b ("(" ++ composed inner ++ ") sq")
  | join b left joined => nodeText b ("(" ++ composed left ++ ") sq1" ++ composedJoins 2 joined)
  | union b first members => composed first ++ composedMembers members ++ endText b

def composedJoins (n : Nat) : List (JoinLink × Document) → String
  | [] => ""
  | (link, d) :: rest => " " ++ link.type.sql ++ " (" ++ composed d ++ ") sq" ++ toString n ++
      (link.on.elim "" fun s => " ON " ++ s) ++ composedJoins (n + 1) rest

def composedMembers : List (UnionType × Document) → String
  | [] => ""
  | (type, d) :: rest => operatorText type ++ composed d ++ composedMembers rest

end

lemma text_endTokens (b : Block) : text (endTokens b) = endText b := by
  have hlimit (o : Option UInt64) : text (optionalClause .limit (o.map .natural)) =
      o.elim "" fun n => " LIMIT " ++ toString n.toNat := by
    cases o with
    | none => rfl
    | some n => simp [optionalClause, clause, Token.text, Text.naturalText, ← String.append_assoc]
  rw [endTokens, text_append, text_listClause fun _ => rfl, hlimit]
  rfl

lemma text_selectTokens (distinct : Bool) (c : Columns) :
    text (selectTokens distinct c ++ [.space, .from, .space]) =
      "SELECT " ++ (if distinct then "DISTINCT " else "") ++ ", ".intercalate c.names ++ " FROM " := by
  have hnames := text_commaSeparated (f := .raw) (fun _ => rfl) c.names
  have hselect : "SELECT " = "SELECT" ++ " " := rfl
  have hdistinct : "DISTINCT " = "DISTINCT" ++ " " := rfl
  have hfrom : " FROM " = " " ++ ("FROM" ++ (" " ++ "")) := rfl
  rw [selectTokens, hselect, hdistinct, hfrom]
  cases distinct <;> simp only [text_append, text_cons, text_nil, hnames, Token.text, String.append_assoc] <;> rfl

lemma text_node {b : Block} (hfilter : b.filter ≠ some "") (hhaving : b.having ≠ some "") (source : List Token) :
    text (bodyTokens b source ++ endTokens b) = nodeText b (text source) := by
  have hgroup (xs : List String) : text (listClause .groupBy (xs.map .identifier)) = listText "GROUP BY" xs :=
    text_listClause (fun _ => rfl) .groupBy xs
  -- the equation that rw would state for this definition is slow to check
  delta nodeText
  rw [bodyTokens, conditionTokens, text_append, text_append, text_append, text_selectTokens, text_append, text_append,
    text_optionalClause hfilter, text_optionalClause hhaving, hgroup, text_endTokens]
  simp only [String.append_assoc]
  rfl

lemma text_wrapped (ts : List Token) (number : String) :
    text (wrapped ts ("sq" ++ number)) = "(" ++ text ts ++ ") sq" ++ number := by
  have hclose : ") sq" = ")" ++ (" " ++ "sq") := rfl
  rw [hclose, wrapped]
  simp only [text_append, text_cons, text_nil, Token.text, String.append_assoc, String.append_empty]

def linkText (link : JoinLink) (query : String) (n : Nat) : String :=
  " " ++ link.type.sql ++ " (" ++ query ++ ") sq" ++ toString n ++ link.on.elim "" fun s => " ON " ++ s

lemma text_linkTokens (link : JoinLink) (query : List Token) (n : Nat) :
    text (linkTokens link query (childKey n)) = linkText link (text query) n := by
  have hjoin : text [.space, .join link.type, .space] = " " ++ link.type.sql ++ " " := by
    simp [Token.text, String.append_assoc]
  have hquery : text (wrapped query (childKey n)) = "(" ++ text query ++ ") sq" ++ toString n :=
    text_wrapped query (toString n)
  have hon : text (optionalClause .on (link.on.map .raw)) = link.on.elim "" fun s => " ON " ++ s := by
    cases link.on with
    | none => rfl
    | some s => simp [optionalClause, clause, Token.text, ← String.append_assoc]
  have hopen : " (" = " " ++ "(" := rfl
  rw [linkTokens, linkText, text_append, text_append, hjoin, hquery, hon, hopen]
  simp only [String.append_assoc]

lemma text_joinedTokens {joined : List (JoinLink × Document)} (h : ∀ j ∈ joined, j.2.sql = j.2.composed) (n : Nat) :
    text (joinedTokens n joined) = composedJoins n joined := by
  induction joined generalizing n with
  | nil => rfl
  | cons j joined ih =>
    obtain ⟨link, d⟩ := j
    obtain ⟨hd, hjoined⟩ := List.forall_mem_cons.1 h
    rw [joinedTokens, composedJoins, text_append, text_linkTokens, ih hjoined, ← hd, linkText, sql]

lemma text_memberTokens {members : List (UnionType × Document)} (h : ∀ m ∈ members, m.2.sql = m.2.composed) :
    text (memberTokens members) = composedMembers members := by
  induction members with
  | nil => rfl
  | cons m members ih =>
    obtain ⟨type, d⟩ := m
    obtain ⟨hd, hmembers⟩ := List.forall_mem_cons.1 h
    have hoperator : text [.space, .union type, .space] = operatorText type := by
      cases type <;> rfl
    rw [composedMembers, ← hoperator, ← ih hmembers, ← hd, sql, ← text_append, ← text_append]
    rfl

def HasConditions (d : Document) : Prop :=
  d.block.filter ≠ some "" ∧ d.block.having ≠ some ""

lemma sql_eq_composed {d : Document} (h : d.EveryNode HasConditions) : d.sql = d.composed := by
  induction d using childInduction with
  | node d ih =>
    obtain ⟨⟨hfilter, hhaving⟩, hchildren⟩ := everyNode_iff.1 h
    have hchild : ∀ c ∈ d.children, c.sql = c.composed := fun c hc => ih c hc (hchildren c hc)
    cases d with
    | table b t =>
      have htable : text (tableTokens t) = (t.schema.elim "" fun s => s ++ ".") ++ t.table := by
        rw [tableTokens, text_cons, text_nil, String.append_empty]
        cases hschema : t.schema <;> simp [Token.text, TableRef.qualified]
      rw [sql, tokens, text_node (b := b) hfilter hhaving, htable, composed]
    | subquery b inner =>
      have hquery : text (wrapped inner.tokens subqueryKey) = "(" ++ inner.composed ++ ") sq" := by
        rw [← hchild inner List.mem_cons_self]
        exact (text_wrapped inner.tokens "").trans (String.append_empty)
      rw [sql, tokens, text_node (b := b) hfilter hhaving, hquery, composed]
    | join b left joined =>
      obtain ⟨hleft, hjoined⟩ := List.forall_mem_cons.1 hchild
      have hquery : text (wrapped left.tokens (childKey 1)) = "(" ++ left.composed ++ ") sq1" := by
        have hclose : ") sq1" = ") sq" ++ toString 1 := rfl
        rw [← hleft, hclose, ← String.append_assoc]
        exact text_wrapped left.tokens (toString 1)
      rw [sql, tokens, text_node (b := b) hfilter hhaving, text_append, hquery,
        text_joinedTokens (List.forall_mem_map.1 hjoined), composed]
    | union b first members =>
      obtain ⟨hfirst, hmembers⟩ := List.forall_mem_cons.1 hchild
      rw [sql, tokens, text_append, text_append, text_endTokens, text_memberTokens (List.forall_mem_map.1 hmembers),
        composed, ← hfirst, sql]

lemma ne_empty_of_bind_nonempty? {o : Option String} (h : o.bind nonempty? = o) : o ≠ some "" := by
  rintro rfl
  cases h

lemma hasConditions_of_canonical {d : Document} (h : d.canonical = d) : d.EveryNode HasConditions := by
  refine (everyNode_canonical_eq h).mono fun e he => ?_
  have hblock : e.block.canonical = e.block := by rw [← block_canonical, he]
  exact ⟨ne_empty_of_bind_nonempty? (congrArg Block.filter hblock),
    ne_empty_of_bind_nonempty? (congrArg Block.having hblock)⟩

/-- A document that was read from a value is rendered as its text is put together, and so is every query in it, whose
text stands in that of the document as it is. Names in objects must be unique, as they are in every value read from a
text. -/
theorem sql_composed {v : Json} (hu : v.hasUniqueNames) {d : Document} (h : ofJson v = .ok d) :
    d.sql = d.composed ∧
      d.EveryNode fun e => e.sql = e.composed ∧ ∃ before after, d.sql = before ++ e.sql ++ after := by
  have hconditions := hasConditions_of_canonical (canonical_of_ofJson hu h)
  refine ⟨sql_eq_composed hconditions, everyNode_iff_forall_mem_nodes.2 fun e he => ?_⟩
  have hnode := everyNode_iff_forall_mem_nodes.1 hconditions.everyNode e he
  obtain ⟨before, after, htokens⟩ := infix_tokens_of_mem_nodes he
  refine ⟨sql_eq_composed hnode, text before, text after, ?_⟩
  rw [sql, sql, ← htokens, text_append, text_append]

def totals : Json :=
  let a := ("a", Json.object [("type", .string "dim")])
  let n := ("n", Json.object [("type", .string "num")])
  .object
    [("select", .object
      [("fields", .object
        [("sq1.a", .object [("type", .string "dim"), ("group_by", .string "group"), ("order_by", .string "DESC")]),
          ("sq2.n", .object [("type", .string "num"), ("group_by", .string "sum"), ("as", .string "total")])]),
        ("join", .object
          [("join_type", .array [.string "left join"]), ("on", .array [.string "sq1.a = sq2.a"])]),
        ("where", .string "sq1.a > 1"), ("having", .string ""), ("limit", .string "10")]),
      ("sq1", .object [("select", .object
        [("fields", .object [a]), ("schema", .string "s"), ("table", .string "t"), ("distinct", .bool true)])]),
      ("sq2", .object
        [("select", .object
          [("fields", .object [a, n]), ("union", .object [("union_type", .array [.string "union all"])])]),
          ("sq1", .object
            [("sq", .object [("select", .object [("fields", .object [a, n]), ("table", .string "u")])]),
              ("select", .object [("fields", .object [a, n])])]),
          ("sq2", .object [("select", .object
            [("fields", .object [a, n]), ("table", .string "v"), ("where", .string "n > 0")])])])]

def totalsDocument : Document :=
  let a := ("a", { type := .dimension })
  let n := ("n", { type := .numeric })
  .join
    { fields := .ofList
        [("sq1.a", { type := .dimension, groupBy := some .group, orderBy := some .descending }),
          ("sq2.n", { type := .numeric, asName := some "total", groupBy := some (.aggregate .sum) })],
      filter := some "sq1.a > 1", limit := some 10 }
    (.table { fields := .ofList [a], distinct := true } { schema := some "s", table := "t" })
    [(⟨.left, some "sq1.a = sq2.a"⟩, .union { fields := .ofList [a, n] }
      (.subquery { fields := .ofList [a, n] } (.table { fields := .ofList [a, n] } { table := "u" }))
      [(.all, .table { fields := .ofList [a, n], filter := some "n > 0" } { table := "v" })])]

theorem sql_composed_totals : totals.hasUniqueNames = true ∧ ofJson totals = .ok totalsDocument ∧
    totalsDocument.sql = totalsDocument.composed ∧
    totalsDocument.composed = "SELECT sq1.a, SUM(sq2.n) as total FROM (SELECT DISTINCT a FROM s.t) sq1 " ++
      "LEFT JOIN (SELECT a, n FROM (SELECT a, n FROM u) sq UNION ALL SELECT a, n FROM v WHERE n > 0) sq2 " ++
      "ON sq1.a = sq2.a WHERE sq1.a > 1 GROUP BY sq1.a ORDER BY sq1.a DESC LIMIT 10" := by
  have hu : totals.hasUniqueNames = true := by decide +kernel
  have h : ofJson totals = .ok totalsDocument := by decide +kernel
  exact ⟨hu, h, (sql_composed hu h).1, by decide +kernel⟩

end Document

end QueryTree
