import QueryTree.Proofs.Sql.Template
/-! The clauses of a rendering. Every node that is no union shows its conditions with their texts, and its DISTINCT,
in the order of the nodes; a union shows the clauses of its members and none of its own. -/

namespace QueryTree

namespace Sql

def operandText? : List Token → Option String
  | .space :: .raw s :: _ => some s
  | _ => none

def clauseTexts (keyword : Token) : List Token → List (Option String)
  | [] => []
  | t :: ts => if t = keyword then operandText? ts :: clauseTexts keyword ts else clauseTexts keyword ts

lemma length_clauseTexts (keyword : Token) (ts : List Token) : (clauseTexts keyword ts).length = ts.count keyword := by
  induction ts with
  | nil => rfl
  | cons t ts ih => by_cases h : t = keyword <;> simp [clauseTexts, h, ih]

def Token.isCounted : Token → Bool
  | distinct | «where» | having => true
  | _ => false

def Quiet (ts : List Token) : Prop :=
  ∀ t ∈ ts, t.isCounted = false

def Emits (keyword : Token) (ts : List Token) (texts : List String) : Prop :=
  ∀ r, clauseTexts keyword (ts ++ r) = texts.map some ++ clauseTexts keyword r

section

variable {ts us : List Token} {keyword : Token}

@[simp] lemma quiet_nil : Quiet [] :=
  List.forall_mem_nil _

@[simp] lemma quiet_cons {t : Token} : Quiet (t :: ts) ↔ t.isCounted = false ∧ Quiet ts :=
  List.forall_mem_cons

@[simp] lemma quiet_append : Quiet (ts ++ us) ↔ Quiet ts ∧ Quiet us :=
  List.forall_mem_append

lemma quiet_map {f : String → Token} (hf : ∀ s, (f s).isCounted = false) (xs : List String) : Quiet (xs.map f) :=
  List.forall_mem_map.2 fun s _ => hf s

lemma quiet_commaSeparated (h : Quiet ts) : Quiet (commaSeparated ts) :=
  forall_mem_commaSeparated (p := fun t => t.isCounted = false) rfl rfl h

lemma quiet_listClause (hk : keyword.isCounted = false) (h : Quiet ts) : Quiet (listClause keyword ts) :=
  forall_mem_listClause (p := fun t => t.isCounted = false) rfl hk rfl h

lemma quiet_optionalClause {α : Type} {f : α → Token} (hk : keyword.isCounted = false)
    (hf : ∀ a, (f a).isCounted = false) (o : Option α) : Quiet (optionalClause keyword (o.map f)) :=
  forall_mem_optionalClause (p := fun t => t.isCounted = false) rfl hk hf o

lemma Emits.append {xs ys : List String} (h : Emits keyword ts xs) (h' : Emits keyword us ys) :
    Emits keyword (ts ++ us) (xs ++ ys) := by
  intro r
  rw [List.append_assoc, h, h', List.map_append, List.append_assoc]

lemma emits_of_not_mem (h : keyword ∉ ts) : Emits keyword ts [] := by
  intro r
  induction ts with
  | nil => rfl
  | cons t ts ih =>
    rw [List.mem_cons, not_or] at h
    rw [List.cons_append, clauseTexts, if_neg (Ne.symm h.1)]
    exact ih h.2

lemma Emits.clauseTexts_eq {xs : List String} (h : Emits keyword ts xs) : clauseTexts keyword ts = xs.map some := by
  have hnil := h []
  rwa [List.append_nil, clauseTexts, List.append_nil] at hnil

section

variable (hk : keyword.isCounted = true)

include hk

lemma Quiet.not_mem (h : Quiet ts) : keyword ∉ ts := by
  intro hm
  rw [h keyword hm] at hk
  cases hk

lemma Quiet.count (h : Quiet ts) : ts.count keyword = 0 :=
  List.count_eq_zero.2 (h.not_mem hk)

lemma Quiet.emits (h : Quiet ts) : Emits keyword ts [] :=
  emits_of_not_mem (h.not_mem hk)

lemma emits_optionalClause (o : Option String) :
    Emits keyword (optionalClause keyword (o.map .raw)) o.toList := by
  intro r
  cases o with
  | none => rfl
  | some s =>
    have hspace : Token.space ≠ keyword := by rintro rfl; cases hk
    have hraw : Token.raw s ≠ keyword := by rintro rfl; cases hk
    simp [optionalClause, clause, clauseTexts, operandText?, hspace, hraw]

lemma emits_optionalClause_of_ne {other : Token} (hne : keyword ≠ other) (o : Option String) :
    Emits keyword (optionalClause other (o.map .raw)) [] := by
  apply emits_of_not_mem
  cases o with
  | none => exact List.not_mem_nil
  | some s =>
    have hspace : keyword ≠ .space := by rintro rfl; cases hk
    have hraw : keyword ≠ .raw s := by rintro rfl; cases hk
    simp [optionalClause, clause, hspace, hraw, hne]

end

end

end Sql

namespace Document

open Sql
open Check (subqueryKey childKey)

def selects (d : Document) : List Document :=
  d.nodes.filter fun e => !e.isUnion

lemma selects_eq_of_isUnion {d : Document} (h : d.isUnion = true) : d.selects = d.children.flatMap selects := by
  rw [selects, nodes_eq, List.filter_append, List.filter_flatMap, List.filter_cons_of_neg (by simp [h]),
    List.filter_nil, List.append_nil]
  rfl

lemma selects_eq {d : Document} (h : d.isUnion = false) : d.selects = d.children.flatMap selects ++ [d] := by
  rw [selects, nodes_eq, List.filter_append, List.filter_flatMap, List.filter_cons_of_pos (by simp [h]),
    List.filter_nil]
  rfl

inductive Rendered : List Token → List Document → Prop
  | between {ts : List Token} (h : Quiet ts) : Rendered ts []
  | append {ts us : List Token} {ds es : List Document} (h : Rendered ts ds) (h' : Rendered us es) :
    Rendered (ts ++ us) (ds ++ es)
  | select {d : Document} {ds : List Document} (hunion : d.isUnion = false) (h : Rendered d.sourceTokens ds) :
    Rendered d.tokens (ds ++ [d])

variable {ts us : List Token} {ds : List Document}

lemma Rendered.after (h : Rendered ts ds) (hq : Quiet us) : Rendered (us ++ ts) ds :=
  (Rendered.between hq).append h

lemma Rendered.before (h : Rendered ts ds) (hq : Quiet us) : Rendered (ts ++ us) ds := by
  have happend := h.append (.between hq)
  rwa [List.append_nil] at happend

lemma rendered_wrapped (h : Rendered ts ds) (name : String) : Rendered (wrapped ts name) ds := by
  have hopen : Quiet [.openParen] := by simp [Token.isCounted]
  have hclose : Quiet [.closeParen, .space, .identifier name] := by simp [Token.isCounted]
  exact (h.after hopen).before hclose

lemma rendered_joinedTokens {joined : List (JoinLink × Document)} (h : ∀ j ∈ joined, Rendered j.2.tokens j.2.selects)
    (n : Nat) : Rendered (joinedTokens n joined) ((joined.map Prod.snd).flatMap selects) := by
  induction joined generalizing n with
  | nil => exact .between quiet_nil
  | cons j joined ih =>
    obtain ⟨link, d⟩ := j
    obtain ⟨hd, hjoined⟩ := List.forall_mem_cons.1 h
    have hjoin : Quiet [.space, .join link.type, .space] := by simp [Token.isCounted]
    have hon : Quiet (optionalClause .on (link.on.map .raw)) := quiet_optionalClause rfl (fun _ => rfl) _
    rw [joinedTokens]
    exact (((rendered_wrapped hd _).after hjoin).before hon).append (ih hjoined (n + 1))

lemma rendered_memberTokens {members : List (UnionType × Document)}
    (h : ∀ m ∈ members, Rendered m.2.tokens m.2.selects) :
    Rendered (memberTokens members) ((members.map Prod.snd).flatMap selects) := by
  induction members with
  | nil => exact .between quiet_nil
  | cons m members ih =>
    obtain ⟨type, d⟩ := m
    obtain ⟨hd, hmembers⟩ := List.forall_mem_cons.1 h
    have hunion : Quiet [.space, .union type, .space] := by simp [Token.isCounted]
    exact (hd.append (ih hmembers)).after hunion

lemma quiet_endTokens (b : Block) : Quiet (endTokens b) :=
  quiet_append.2 ⟨quiet_listClause rfl (quiet_map (fun _ => rfl) _), quiet_optionalClause rfl (fun _ => rfl) _⟩

lemma rendered_tokens (d : Document) : Rendered d.tokens d.selects := by
  induction d using childInduction with
  | node d ih =>
    cases hunion : d.isUnion with
    | false =>
      -- a SELECT ends after all that it reads from, so it comes last
      rw [selects_eq hunion]
      refine .select hunion ?_
      cases d with
      | union => cases hunion
      | table b t => exact .between (by simp [sourceTokens, tableTokens, Token.isCounted])
      | subquery b inner =>
        rw [children, List.flatMap_singleton]
        exact rendered_wrapped (ih inner List.mem_cons_self) _
      | join b left joined =>
        obtain ⟨hleft, hjoined⟩ := List.forall_mem_cons.1 ih
        exact (rendered_wrapped hleft _).append (rendered_joinedTokens (List.forall_mem_map.1 hjoined) 2)
    | true =>
      rw [selects_eq_of_isUnion hunion]
      cases d with
      | table | subquery | join => cases hunion
      | union b first members =>
        obtain ⟨hfirst, hmembers⟩ := List.forall_mem_cons.1 ih
        rw [tokens]
        exact (hfirst.append (rendered_memberTokens (List.forall_mem_map.1 hmembers))).before (quiet_endTokens b)

section

variable {keyword : Token} (hk : keyword.isCounted = true)

include hk

lemma count_headTokens (n : Shown) :
    (headTokens n).count keyword = if n.distinct then [Token.distinct].count keyword else 0 := by
  have hnames : Quiet (commaSeparated (n.names.map .raw)) := quiet_commaSeparated (quiet_map (fun _ => rfl) _)
  have hrest : Quiet (.space :: commaSeparated (n.names.map .raw) ++ [.space, .from, .space]) := by
    simp [Token.isCounted, hnames]
  rw [headTokens, List.append_assoc, List.count_append, hrest.count hk, Nat.add_zero]
  split
  · have hstart : Quiet [.select, .space] := by simp [Token.isCounted]
    change ([Token.select, Token.space] ++ [Token.distinct]).count keyword = _
    rw [List.count_append, hstart.count hk, Nat.zero_add]
  · have hstart : Quiet [.select] := by simp [Token.isCounted]
    exact hstart.count hk

lemma emits_clauseTokens {n : Shown} {xs ys : List String}
    (hwhere : Emits keyword (optionalClause .where (n.filter.map .raw)) xs)
    (hhaving : Emits keyword (optionalClause .having (n.having.map .raw)) ys) :
    Emits keyword (clauseTokens n) (xs ++ ys) := by
  have hgroup : Emits keyword (listClause .groupBy (n.dimensions.map .identifier)) [] :=
    (quiet_listClause rfl (quiet_map (fun _ => rfl) _)).emits hk
  have horder : Emits keyword (listClause .orderBy (n.order.map .raw)) [] :=
    (quiet_listClause rfl (quiet_map (fun _ => rfl) _)).emits hk
  have hlimit : Emits keyword (optionalClause .limit (n.limit.map .natural)) [] :=
    (quiet_optionalClause rfl (fun _ => rfl) _).emits hk
  have hall := hwhere.append (hgroup.append (hhaving.append (horder.append hlimit)))
  rwa [List.append_nil, List.append_nil, List.nil_append] at hall

lemma emits_headTokens (hne : keyword ≠ .distinct) (n : Shown) : Emits keyword (headTokens n) [] := by
  apply emits_of_not_mem
  rw [← List.count_eq_zero, count_headTokens hk, List.count_eq_zero.2 (by simpa using hne), ite_self]

end

lemma emits_where (n : Shown) : Emits .where (clauseTokens n) n.filter.toList := by
  have hhaving : Emits .where (optionalClause .having (n.having.map .raw)) [] :=
    emits_optionalClause_of_ne (by decide) (by decide) n.having
  have hclauses := emits_clauseTokens rfl (emits_optionalClause rfl n.filter) hhaving
  rwa [List.append_nil] at hclauses

lemma emits_having (n : Shown) : Emits .having (clauseTokens n) n.having.toList := by
  have hwhere : Emits .having (optionalClause .where (n.filter.map .raw)) [] :=
    emits_optionalClause_of_ne (by decide) (by decide) n.filter
  exact emits_clauseTokens rfl hwhere (emits_optionalClause rfl n.having)

lemma count_distinct_clauseTokens (n : Shown) : (clauseTokens n).count .distinct = 0 := by
  have hwhere : Emits .distinct (optionalClause .where (n.filter.map .raw)) [] :=
    emits_optionalClause_of_ne (by decide) (by decide) n.filter
  have hhaving : Emits .distinct (optionalClause .having (n.having.map .raw)) [] :=
    emits_optionalClause_of_ne (by decide) (by decide) n.having
  rw [← length_clauseTexts, (emits_clauseTokens rfl hwhere hhaving).clauseTexts_eq]
  rfl

section

variable {keyword : Token} {shown : Block → Option String} (hk : keyword.isCounted = true)
  (hne : keyword ≠ .distinct) (hclauses : ∀ b, Emits keyword (clauseTokens (.ofBlock b)) (shown b).toList)

include hk hne hclauses

lemma Rendered.emits (h : Rendered ts ds) : Emits keyword ts (ds.flatMap fun d => (shown d.block).toList) := by
  induction h with
  | between h => exact h.emits hk
  | append _ _ ih ih' =>
    rw [List.flatMap_append]
    exact ih.append ih'
  | @select d ds hunion _ ih =>
    rw [tokens_eq hunion, List.flatMap_append, List.flatMap_singleton]
    exact (emits_headTokens hk hne _).append (ih.append (hclauses d.block))

lemma clauseTexts_tokens (d : Document) :
    clauseTexts keyword d.tokens = (d.selects.filterMap fun e => shown e.block).map some := by
  rw [(d.rendered_tokens.emits hk hne hclauses).clauseTexts_eq, List.filterMap_eq_flatMap_toList]

lemma count_tokens (d : Document) : d.tokens.count keyword = d.selects.countP fun e => (shown e.block).isSome := by
  rw [← length_clauseTexts, clauseTexts_tokens hk hne hclauses, List.length_map, List.length_filterMap_eq_countP]

end

-- DISTINCT stands before the nodes that a SELECT reads from, so it is counted and not listed in their order
lemma Rendered.count_distinct (h : Rendered ts ds) : ts.count .distinct = ds.countP fun d => d.block.distinct := by
  induction h with
  | between h => exact h.count rfl
  | append _ _ ih ih' => rw [List.count_append, List.countP_append, ih, ih']
  | @select d ds hunion _ ih =>
    rw [tokens_eq hunion, List.count_append, List.count_append, ih, count_distinct_clauseTokens, count_headTokens rfl,
      List.countP_append, List.countP_singleton, Nat.add_zero, Nat.add_comm]
    rfl

structure ShowsClauses (d : Document) : Prop where
  filter : ∀ s, d.block.filter = some s → clause .where (.raw s) <:+: d.tokens
  having : ∀ s, d.block.having = some s → clause .having (.raw s) <:+: d.tokens
  distinct : d.block.distinct = true → [.select, .space, .distinct] <+: d.tokens

lemma showsClauses {d : Document} (h : d.isUnion = false) : d.ShowsClauses := by
  have hclauses : clauseTokens (.ofBlock d.block) <:+: d.tokens := by
    rw [tokens_eq h, ← List.append_assoc]
    exact (List.suffix_append ..).isInfix
  refine ⟨fun s hs => ?_, fun s hs => ?_, fun hd => ?_⟩
  · have hwhere : optionalClause .where ((Shown.ofBlock d.block).filter.map .raw) = clause .where (.raw s) := by
      rw [Shown.ofBlock, hs]
      rfl
    rw [clauseTokens, hwhere] at hclauses
    exact (List.prefix_append ..).isInfix.trans hclauses
  · have hhaving : optionalClause .having ((Shown.ofBlock d.block).having.map .raw) = clause .having (.raw s) := by
      rw [Shown.ofBlock, hs]
      rfl
    rw [clauseTokens, hhaving, ← List.append_assoc, ← List.append_assoc] at hclauses
    exact (List.infix_append ..).trans hclauses
  · have hhead : headTokens (.ofBlock d.block) = [.select, .space, .distinct] ++ (.space ::
        commaSeparated ((Shown.ofBlock d.block).names.map .raw) ++ [.space, .from, .space]) := by
      simp [headTokens, Shown.ofBlock, hd]
    rw [tokens_eq h, hhead, List.append_assoc]
    exact List.prefix_append ..

/-- Every node is rendered inside the whole. Conditions and DISTINCT of all nodes but unions are rendered, each once and
with its own text, and nothing else is rendered as a condition or as DISTINCT. -/
theorem clauses_rendered (d : Document) :
    (d.EveryNode fun e => e.tokens <:+: d.tokens ∧ (e.isUnion = false → e.ShowsClauses)) ∧
      clauseTexts .where d.tokens = (d.selects.filterMap fun e => e.block.filter).map some ∧
      clauseTexts .having d.tokens = (d.selects.filterMap fun e => e.block.having).map some ∧
      d.tokens.count .where = (d.selects.countP fun e => e.block.filter.isSome) ∧
      d.tokens.count .having = (d.selects.countP fun e => e.block.having.isSome) ∧
      d.tokens.count .distinct = d.selects.countP fun e => e.block.distinct := by
  have hwhere (b : Block) := emits_where (.ofBlock b)
  have hhaving (b : Block) := emits_having (.ofBlock b)
  have hnodes : ∀ e ∈ d.nodes, e.tokens <:+: d.tokens ∧ (e.isUnion = false → e.ShowsClauses) := by
    intro e he
    exact ⟨infix_tokens_of_mem_nodes he, showsClauses⟩
  refine ⟨everyNode_iff_forall_mem_nodes.2 hnodes, ?_, ?_, ?_, ?_, ?_⟩
  · exact clauseTexts_tokens (by decide) (by decide) hwhere d
  · exact clauseTexts_tokens (by decide) (by decide) hhaving d
  · exact count_tokens (by decide) (by decide) hwhere d
  · exact count_tokens (by decide) (by decide) hhaving d
  · exact d.rendered_tokens.count_distinct

def filteredUnion : Json :=
  let fields := ("fields", .object [("x", .object [("type", .string "dim")])])
  .object
    [("select", .object
      [fields, ("union", .object [("union_type", .array [.string "UNION"])]), ("where", .string "x > 1")]),
    ("sq1", .object [("select", .object [fields, ("table", .string "a")])]),
    ("sq2", .object [("select", .object [fields, ("table", .string "b")])])]

theorem clauses_not_rendered_filteredUnion : ∃ d, ofJson filteredUnion = .ok d ∧ d.block.filter = some "x > 1" ∧
    d.tokens.count .where = 0 ∧ (d.nodes.countP fun e => e.block.filter.isSome) = 1 := by
  let fields := Fields.ofList [("x", { type := .dimension })]
  let members := [(UnionType.distinct, table { fields } { table := "b" })]
  refine ⟨.union { fields, filter := some "x > 1" } (.table { fields } { table := "a" }) members, ?_, rfl, ?_, rfl⟩
  · decide +kernel
  · decide +kernel

end Document

end QueryTree
