import QueryTree.Proofs.Sql.Clauses
import QueryTree.Proofs.Sql.Node
/-! The rendering of documents without unions is unambiguous. Two of them have the same tokens exactly when they
agree, node by node, in everything that is rendered. -/

namespace QueryTree.Document

open Sql
open Check (subqueryKey childKey)

def links : Document → List JoinLink
  | join _ _ joined => joined.map Prod.fst
  | _ => []

structure SameSource (d e : Document) : Prop where
  kind : d.kind = e.kind
  table : d.table? = e.table?
  links : d.links = e.links
  children : d.children.length = e.children.length

inductive RendersAlike : Document → Document → Prop
  | node {d e : Document} (shown : Shown.ofBlock d.block = Shown.ofBlock e.block) (source : SameSource d e)
      (children : ∀ p ∈ d.children.zip e.children, RendersAlike p.1 p.2) : RendersAlike d e

def Closes (ts : List Token) : Prop :=
  ∀ t ∈ ts.head?, t = .closeParen

variable {r s : List Token}

lemma Closes.resumes (h : Closes r) : Resumes [] r := by
  refine ⟨fun t ht => .inr (h t ht), fun k hk => ?_⟩
  cases r with
  | nil => cases hk
  | cons t r =>
    obtain rfl := h t rfl
    cases hk

lemma closes_nil : Closes [] :=
  nofun

lemma closes_closeParen (r : List Token) : Closes (.closeParen :: r) := by
  rintro t ⟨⟩
  rfl

/-- A name is no keyword, so that a list of names does not look like `DISTINCT`. -/
lemma commaSeparated_raw_ne_distinct (xs : List String) :
    commaSeparated (xs.map .raw) ++ .space :: r ≠ .distinct :: s := by
  cases xs with
  | nil => exact nofun
  | cons => exact nofun

lemma headTokens_append_inj {m n : Shown} (h : headTokens m ++ r = headTokens n ++ s) :
    m.distinct = n.distinct ∧ m.names = n.names ∧ r = s := by
  have hnames : ∀ {xs ys : List String}, commaSeparated (xs.map .raw) ++ .space :: .from :: .space :: r =
      commaSeparated (ys.map .raw) ++ .space :: .from :: .space :: s → xs = ys ∧ r = s := by
    intro xs ys h
    obtain ⟨rfl, hrest⟩ := commaSeparated_append_inj isItem_raw (ends_space _) (ends_space _) h
    simp only [List.cons.injEq, true_and] at hrest
    exact ⟨rfl, hrest⟩
  unfold headTokens at h
  cases hm : m.distinct <;> cases hn : n.distinct
  all_goals simp only [hm, hn, Bool.false_eq_true, if_false, if_true, List.cons_append, List.append_assoc,
    List.nil_append, List.cons.injEq, true_and] at h
  · exact ⟨rfl, hnames h⟩
  · exact absurd h (commaSeparated_raw_ne_distinct _)
  · exact absurd h.symm (commaSeparated_raw_ne_distinct _)
  · exact ⟨rfl, hnames h⟩

/-- The clauses of a node come in one order, so what follows a clause never starts with its keyword. -/
lemma clauseTokens_append_inj {m n : Shown} (hr : Closes r) (hs : Closes s)
    (h : clauseTokens m ++ r = clauseTokens n ++ s) :
    m.filter = n.filter ∧ m.dimensions = n.dimensions ∧ m.having = n.having ∧ m.order = n.order ∧
      m.limit = n.limit ∧ r = s := by
  have hraw : Function.Injective Token.raw := isItem_raw.injective
  have hlimit : ∀ (n : Shown) {r}, Closes r → Resumes [.limit] (optionalClause .limit (n.limit.map .natural) ++ r) :=
    fun n _ hr => resumes_optionalClause _ hr.resumes
  have horder : ∀ (n : Shown) {r}, Closes r → Resumes [.orderBy, .limit]
      (listClause .orderBy (n.order.map .raw) ++ (optionalClause .limit (n.limit.map .natural) ++ r)) :=
    fun n _ hr => resumes_listClause _ (hlimit n hr)
  have hhaving : ∀ (n : Shown) {r}, Closes r → Resumes [.having, .orderBy, .limit]
      (optionalClause .having (n.having.map .raw) ++
        (listClause .orderBy (n.order.map .raw) ++ (optionalClause .limit (n.limit.map .natural) ++ r))) :=
    fun n _ hr => resumes_optionalClause _ (horder n hr)
  simp only [clauseTokens, List.append_assoc] at h
  obtain ⟨hfilter, h⟩ := optionalClause_append_inj (by decide) (resumes_listClause _ (hhaving m hr))
    (resumes_listClause _ (hhaving n hs)) hraw h
  obtain ⟨hdimensions, h⟩ := listClause_append_inj (by decide) (hhaving m hr) (hhaving n hs) isItem_identifier h
  obtain ⟨hhaving, h⟩ := optionalClause_append_inj (by decide) (horder m hr) (horder n hs) hraw h
  obtain ⟨horder, h⟩ := listClause_append_inj (by decide) (hlimit m hr) (hlimit n hs) isItem_raw h
  obtain ⟨hlimit, hrest⟩ := optionalClause_append_inj List.not_mem_nil hr.resumes hs.resumes
    (fun _ _ => Token.natural.inj) h
  exact ⟨hfilter, hdimensions, hhaving, horder, hlimit, hrest⟩

def laterKeywords : List Token :=
  [.where, .groupBy, .having, .orderBy, .limit]

def joinKeywords : List Token :=
  [.join .inner, .join .left, .join .right, .join .full, .join .cross] ++ laterKeywords

lemma resumes_clauseTokens (n : Shown) (hr : Closes r) : Resumes laterKeywords (clauseTokens n ++ r) := by
  simp only [clauseTokens, List.append_assoc]
  exact resumes_optionalClause _ (resumes_listClause _ (resumes_optionalClause _ (resumes_listClause _
    (resumes_optionalClause _ hr.resumes))))

lemma resumes_joinedTokens (n : Nat) (js : List (JoinLink × Document)) (hr : Resumes laterKeywords r) :
    Resumes joinKeywords (joinedTokens n js ++ r) := by
  cases js with
  | nil => exact ⟨hr.ends, fun k hk => List.mem_append_right _ (hr.keyword k hk)⟩
  | cons j js =>
    obtain ⟨link, d⟩ := j
    have hjoin : ∀ type, Token.join type ∈ joinKeywords := by
      intro type
      cases type <;> decide
    refine ⟨ends_space _, ?_⟩
    rintro k ⟨⟩
    exact hjoin link.type

def UnionFree (d : Document) : Prop :=
  d.EveryNode fun e => e.isUnion = false

def Unambiguous (d : Document) : Prop :=
  ∀ {e : Document} {r s : List Token}, e.UnionFree → Closes r → Closes s → d.tokens ++ r = e.tokens ++ s →
    d.RendersAlike e ∧ r = s

lemma wrapped_append_inj {d e : Document} (hd : d.Unambiguous) (he : e.UnionFree) {name name' : String}
    (h : wrapped d.tokens name ++ r = wrapped e.tokens name' ++ s) : d.RendersAlike e ∧ name = name' ∧ r = s := by
  simp only [wrapped, List.cons_append, List.append_assoc, List.nil_append, List.cons.injEq, true_and] at h
  obtain ⟨halike, hrest⟩ := hd he (closes_closeParen _) (closes_closeParen _) h
  simp only [List.cons.injEq, Token.identifier.injEq, true_and] at hrest
  exact ⟨halike, hrest⟩

lemma joinedTokens_append_inj {js ks : List (JoinLink × Document)} (hjs : ∀ j ∈ js, j.2.Unambiguous)
    (hks : ∀ k ∈ ks, k.2.UnionFree) (hr : Resumes laterKeywords r) (hs : Resumes laterKeywords s) {n : Nat}
    (h : joinedTokens n js ++ r = joinedTokens n ks ++ s) :
    js.map Prod.fst = ks.map Prod.fst ∧ (∀ p ∈ (js.map Prod.snd).zip (ks.map Prod.snd), RendersAlike p.1 p.2) ∧
      r = s := by
  have hjoin : ∀ type, .join type ∉ laterKeywords := by simp [laterKeywords]
  have hon : Token.on ∉ joinKeywords := by decide
  induction js generalizing n ks with
  | nil =>
    cases ks with
    | nil => exact ⟨rfl, nofun, h⟩
    | cons k ks =>
      obtain rfl : r = _ := h
      exact absurd (hr.keyword _ rfl) (hjoin _)
  | cons j js ih =>
    obtain ⟨⟨type, on⟩, d⟩ := j
    cases ks with
    | nil =>
      obtain rfl : _ = s := h
      exact absurd (hs.keyword _ rfl) (hjoin _)
    | cons k ks =>
      obtain ⟨⟨type', on'⟩, e⟩ := k
      obtain ⟨hd, hjs⟩ := List.forall_mem_cons.1 hjs
      obtain ⟨he, hks⟩ := List.forall_mem_cons.1 hks
      simp only [joinedTokens, linkTokens, List.append_assoc, List.cons_append, List.nil_append, List.cons.injEq,
        Token.join.injEq, true_and] at h
      obtain ⟨htype, hquery⟩ := h
      obtain ⟨halike, -, hclause⟩ := wrapped_append_inj hd he hquery
      obtain ⟨hcondition, htail⟩ := optionalClause_append_inj hon (resumes_joinedTokens _ js hr)
        (resumes_joinedTokens _ ks hs) isItem_raw.injective hclause
      obtain ⟨hlinks, hchildren, hrest⟩ := ih hjs hks htail
      refine ⟨?_, List.forall_mem_cons.2 ⟨halike, hchildren⟩, hrest⟩
      rw [List.map_cons, List.map_cons, hlinks, htype, hcondition]

lemma sourceTokens_append_inj {d e : Document} (hd : d.isUnion = false) (he : e.isUnion = false)
    (hchildren : ∀ c ∈ d.children, c.Unambiguous) (hfree : ∀ c ∈ e.children, c.UnionFree)
    (hr : Resumes laterKeywords r) (hs : Resumes laterKeywords s) (h : d.sourceTokens ++ r = e.sourceTokens ++ s) :
    SameSource d e ∧ (∀ p ∈ d.children.zip e.children, RendersAlike p.1 p.2) ∧ r = s := by
  have hkey : subqueryKey ≠ childKey 1 := by decide
  cases d with
  | union => cases hd
  | table b t =>
    cases e with
    | union => cases he
    | table c u =>
      simp only [sourceTokens, tableTokens, List.cons_append, List.nil_append, List.cons.injEq,
        Token.qualified.injEq] at h
      obtain ⟨⟨hschema, htable⟩, hrest⟩ := h
      have hsame : t = u := by
        cases t
        cases u
        simp_all
      exact ⟨⟨rfl, congrArg some hsame, rfl, rfl⟩, List.forall_mem_nil _, hrest⟩
    | subquery | join => cases h
  | subquery b inner =>
    obtain ⟨hinner, -⟩ := List.forall_mem_cons.1 hchildren
    cases e with
    | union => cases he
    | table => cases h
    | subquery c inner' =>
      obtain ⟨hfree, -⟩ := List.forall_mem_cons.1 hfree
      obtain ⟨halike, -, hrest⟩ := wrapped_append_inj hinner hfree h
      exact ⟨⟨rfl, rfl, rfl, rfl⟩, List.forall_mem_singleton.2 halike, hrest⟩
    | join c left joined =>
      obtain ⟨hfree, -⟩ := List.forall_mem_cons.1 hfree
      simp only [sourceTokens, List.append_assoc] at h
      exact absurd (wrapped_append_inj hinner hfree h).2.1 hkey
  | join b left joined =>
    obtain ⟨hleft, hjoined⟩ := List.forall_mem_cons.1 hchildren
    cases e with
    | union => cases he
    | table => cases h
    | subquery c inner =>
      obtain ⟨hfree, -⟩ := List.forall_mem_cons.1 hfree
      simp only [sourceTokens, List.append_assoc] at h
      exact absurd (wrapped_append_inj hleft hfree h).2.1 (Ne.symm hkey)
    | join c left' joined' =>
      obtain ⟨hfree, hfrees⟩ := List.forall_mem_cons.1 hfree
      simp only [sourceTokens, List.append_assoc] at h
      obtain ⟨halike, -, h⟩ := wrapped_append_inj hleft hfree h
      obtain ⟨hlinks, halikes, hrest⟩ := joinedTokens_append_inj (List.forall_mem_map.1 hjoined)
        (List.forall_mem_map.1 hfrees) hr hs h
      have hlength : joined.length = joined'.length := by simpa using congrArg List.length hlinks
      refine ⟨⟨rfl, rfl, hlinks, ?_⟩, List.forall_mem_cons.2 ⟨halike, halikes⟩, hrest⟩
      simp [children, hlength]

lemma unambiguous {d : Document} (h : d.UnionFree) : d.Unambiguous := by
  induction h with
  | @node d hd hchildren ih =>
    intro e r s he hr hs h
    obtain ⟨hunion, hfree⟩ := everyNode_iff.1 he
    rw [tokens_eq hd, tokens_eq hunion] at h
    simp only [List.append_assoc] at h
    obtain ⟨hdistinct, hnames, h⟩ := headTokens_append_inj h
    obtain ⟨hsource, halike, h⟩ := sourceTokens_append_inj hd hunion ih hfree (resumes_clauseTokens _ hr)
      (resumes_clauseTokens _ hs) h
    obtain ⟨hfilter, hdimensions, hhaving, horder, hlimit, hrest⟩ := clauseTokens_append_inj hr hs h
    have hshown : Shown.ofBlock d.block = Shown.ofBlock e.block := by
      rw [Shown.mk.injEq]
      exact ⟨hdistinct, hnames, hfilter, hdimensions, hhaving, horder, hlimit⟩
    exact ⟨.node hshown hsource halike, hrest⟩

lemma joinedTokens_congr {js ks : List (JoinLink × Document)} (hlinks : js.map Prod.fst = ks.map Prod.fst)
    (h : ∀ p ∈ (js.map Prod.snd).zip (ks.map Prod.snd), p.1.tokens = p.2.tokens) (n : Nat) :
    joinedTokens n js = joinedTokens n ks := by
  induction js generalizing ks n with
  | nil =>
    obtain rfl : ks = [] := List.map_eq_nil_iff.1 hlinks.symm
    rfl
  | cons j js ih =>
    cases ks with
    | nil => cases hlinks
    | cons k ks =>
      obtain ⟨link, d⟩ := j
      obtain ⟨link', e⟩ := k
      obtain ⟨rfl, hrest⟩ := List.cons.inj hlinks
      obtain ⟨hd, hrests⟩ := List.forall_mem_cons.1 h
      have hde : d.tokens = e.tokens := hd
      rw [joinedTokens, joinedTokens, ih hrest hrests, hde]

lemma SameSource.sourceTokens_eq {d e : Document} (h : SameSource d e)
    (hchildren : ∀ p ∈ d.children.zip e.children, p.1.tokens = p.2.tokens) : d.sourceTokens = e.sourceTokens := by
  have hkind := h.kind
  cases d with
  | table b t =>
    cases e with
    | table c u => rw [sourceTokens, sourceTokens, Option.some.inj h.table]
    | _ => cases hkind
  | subquery b inner =>
    cases e with
    | subquery c inner' =>
      have hinner : inner.tokens = inner'.tokens := hchildren _ List.mem_cons_self
      rw [sourceTokens, sourceTokens, hinner]
    | _ => cases hkind
  | join b left joined =>
    cases e with
    | join c left' joined' =>
      obtain ⟨hleft, hjoined⟩ := List.forall_mem_cons.1 hchildren
      have hlefts : left.tokens = left'.tokens := hleft
      rw [sourceTokens, sourceTokens, hlefts, joinedTokens_congr h.links hjoined]
    | _ => cases hkind
  | union b first members =>
    cases e with
    | union => rfl
    | _ => cases hkind

lemma RendersAlike.tokens_eq {d e : Document} (h : d.RendersAlike e) (hd : d.UnionFree) : d.tokens = e.tokens := by
  induction h with
  | @node d e hshown hsource _ ih =>
    obtain ⟨hunion, hfree⟩ := everyNode_iff.1 hd
    have he : e.isUnion = false := by rwa [isUnion, ← hsource.kind]
    have hchildren : ∀ p ∈ d.children.zip e.children, p.1.tokens = p.2.tokens :=
      fun p hp => ih p hp (hfree p.1 (List.of_mem_zip hp).1)
    rw [Document.tokens_eq hunion, Document.tokens_eq he, hshown, hsource.sourceTokens_eq hchildren]

theorem tokens_eq_iff {d e : Document} (hd : d.UnionFree) (he : e.UnionFree) :
    d.tokens = e.tokens ↔ d.RendersAlike e := by
  constructor
  · intro h
    have hrests : d.tokens ++ [] = e.tokens ++ [] := congrArg (· ++ []) h
    exact (unambiguous hd he closes_nil closes_nil hrests).1
  · exact fun h => h.tokens_eq hd

def joinSelecting (key : String) (f : Field) : Document :=
  let inner : Fields := .ofList [("x", { type := .dimension, groupBy := some .group, visibility := .hidden })]
  .join
    { fields := .ofList [(key, f), ("y", { type := .numeric, orderBy := some .descending })],
      having := some "y > 0", limit := some 3 }
    (.subquery { fields := inner, distinct := true } (.table { fields := inner, filter := some "" } { table := "t" }))
    [(⟨.left, some "sq1.x = sq2.x"⟩, .table { fields := .empty } { schema := some "s", table := "u" }),
      (⟨.cross, none⟩, .table { fields := inner } { table := "s.u" })]

lemma unionFree_joinSelecting (key : String) (f : Field) : (joinSelecting key f).UnionFree := by
  have hleaf : ∀ b t, (table b t).UnionFree := fun _ _ => .node rfl nofun
  refine .node rfl (List.forall_mem_cons.2 ⟨.node rfl ?_, ?_⟩)
  · exact List.forall_mem_singleton.2 (hleaf _ _)
  · exact List.forall_mem_cons.2 ⟨hleaf _ _, List.forall_mem_singleton.2 (hleaf _ _)⟩

theorem tokens_eq_joinSelecting :
    let d := joinSelecting "sq1.x" { type := .dimension, asName := some "x" }
    let e := joinSelecting "k" { type := .numeric, asName := some "x", expression := some "sq1.x" }
    d ≠ e ∧ d.UnionFree ∧ e.UnionFree ∧ d.tokens = e.tokens ∧ d.RendersAlike e := by
  intro d e
  have hne : d ≠ e := by decide +kernel
  have htokens : d.tokens = e.tokens := by decide +kernel
  have hd : d.UnionFree := unionFree_joinSelecting _ _
  have he : e.UnionFree := unionFree_joinSelecting _ _
  exact ⟨hne, hd, he, htokens, (tokens_eq_iff hd he).1 htokens⟩

end QueryTree.Document
