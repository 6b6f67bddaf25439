import QueryTree.Proofs.Sql.Clauses
/-! Parentheses in a stream of tokens: how deep it stands after a part of it, what stands at one depth, and which
tokens tell how a query is built. -/

namespace QueryTree.Sql

/-- The number of open parentheses after tokens that stand in `depth`, unless they close more than these. -/
def depthAfter : Nat → List Token → Option Nat
  | depth, [] => some depth
  | depth, .openParen :: ts => depthAfter (depth + 1) ts
  | 0, .closeParen :: _ => none
  | depth + 1, .closeParen :: ts => depthAfter depth ts
  | depth, _ :: ts => depthAfter depth ts

def Closed (ts : List Token) : Prop :=
  ∀ depth, depthAfter depth ts = some depth

/-- No start of the tokens closes more parentheses than it opens, and in the end all are closed. -/
structure Paired (ts : List Token) : Prop where
  starts : ∀ us, us <+: ts → us.count .closeParen ≤ us.count .openParen
  total : ts.count .closeParen = ts.count .openParen

/-- The tokens that stand in `level` open parentheses, in a stream that starts in `depth` of them. -/
def tokensAt (level : Nat) : Nat → List Token → List Token
  | _, [] => []
  | depth, .openParen :: ts => tokensAt level (depth + 1) ts
  | depth, .closeParen :: ts => tokensAt level (depth - 1) ts
  | depth, t :: ts => if depth = level then t :: tokensAt level depth ts else tokensAt level depth ts

namespace Token

def isParen : Token → Bool
  | openParen | closeParen => true
  | _ => false

/-- The tokens that tell how a query is built: where it starts, which tables, queries and operators it is made of. -/
def isStructural : Token → Bool
  | select | join _ | union _ | openParen | closeParen | qualified .. => true
  | _ => false

def isJoin : Token → Bool
  | join _ => true
  | _ => false

def isUnion : Token → Bool
  | union _ => true
  | _ => false

def table? : Token → Option TableRef
  | qualified schema name => some { schema, table := name }
  | _ => none

end Token

def skeleton (ts : List Token) : List Token :=
  ts.filter Token.isStructural

def Filling (ts : List Token) : Prop :=
  ∀ t ∈ ts, t.isStructural = false

section

variable {t : Token} {ts us : List Token}

lemma Token.isParen_eq_false (h : t.isStructural = false) : t.isParen = false := by
  cases t with
  | openParen | closeParen => cases h
  | _ => rfl

lemma depthAfter_cons (h : t.isParen = false) (depth : Nat) (ts : List Token) :
    depthAfter depth (t :: ts) = depthAfter depth ts := by
  cases t with
  | openParen | closeParen => cases h
  | _ => rw [depthAfter] <;> exact nofun

lemma depthAfter_append (depth : Nat) (ts us : List Token) :
    depthAfter depth (ts ++ us) = (depthAfter depth ts).bind (depthAfter · us) := by
  induction ts generalizing depth with
  | nil => rfl
  | cons t ts ih =>
    cases t with
    | openParen => exact ih (depth + 1)
    | closeParen =>
      cases depth with
      | zero => rfl
      | succ depth => exact ih depth
    | _ => exact ih depth

lemma depthAfter_cons_eq_bind (depth : Nat) (t : Token) (ts : List Token) :
    depthAfter depth (t :: ts) = (depthAfter depth [t]).bind (depthAfter · ts) :=
  depthAfter_append depth [t] ts

lemma depthAfter_skeleton (depth : Nat) (ts : List Token) : depthAfter depth (skeleton ts) = depthAfter depth ts := by
  induction ts generalizing depth with
  | nil => rfl
  | cons t ts ih =>
    cases hs : t.isStructural with
    | false =>
      rw [depthAfter_cons (Token.isParen_eq_false hs), ← ih, skeleton, List.filter_cons_of_neg (by simp [hs]), skeleton]
    | true =>
      rw [skeleton, List.filter_cons_of_pos hs, depthAfter_cons_eq_bind, depthAfter_cons_eq_bind depth t ts]
      exact congrArg _ (funext ih)

lemma closed_nil : Closed [] :=
  fun _ => rfl

lemma Closed.append (h : Closed ts) (h' : Closed us) : Closed (ts ++ us) := by
  intro depth
  rw [depthAfter_append, h, Option.bind_some, h']

lemma Closed.flatMap {α : Type} {f : α → List Token} (hf : ∀ a, Closed (f a)) (as : List α) :
    Closed (as.flatMap f) := by
  induction as with
  | nil => exact closed_nil
  | cons a as ih => exact (hf a).append ih

lemma closed_of_forall (h : ∀ t ∈ ts, t.isParen = false) : Closed ts := by
  intro depth
  induction ts with
  | nil => rfl
  | cons t ts ih =>
    obtain ⟨ht, hts⟩ := List.forall_mem_cons.1 h
    rw [depthAfter_cons ht, ih hts]

lemma closed_of_skeleton (h : Closed (skeleton ts)) : Closed ts := by
  intro depth
  rw [← depthAfter_skeleton, h]

lemma count_of_depthAfter {depth depth' : Nat} (h : depthAfter depth ts = some depth') :
    depth' + ts.count .closeParen = depth + ts.count .openParen := by
  induction ts generalizing depth with
  | nil =>
    cases h
    rfl
  | cons t ts ih =>
    cases t with
    | openParen =>
      have hts := ih h
      rw [List.count_cons_of_ne (by decide), List.count_cons_self]
      omega
    | closeParen =>
      cases depth with
      | zero => cases h
      | succ depth =>
        have hts := ih h
        rw [List.count_cons_self, List.count_cons_of_ne (by decide)]
        omega
    | _ => simpa using ih h

lemma Closed.paired (h : Closed ts) : Paired ts := by
  have htotal := count_of_depthAfter (h 0)
  refine ⟨fun us hus => ?_, by omega⟩
  obtain ⟨vs, rfl⟩ := hus
  have hdepth := h 0
  rw [depthAfter_append, Option.bind_eq_some_iff] at hdepth
  obtain ⟨depth, hus, -⟩ := hdepth
  have hcount := count_of_depthAfter hus
  omega

lemma skeleton_append (ts us : List Token) : skeleton (ts ++ us) = skeleton ts ++ skeleton us :=
  List.filter_append ..

lemma Filling.skeleton_eq (h : Filling ts) : skeleton ts = [] :=
  List.filter_eq_nil_iff.2 fun t ht => by simp [h t ht]

lemma countP_skeleton {p : Token → Bool} (hp : ∀ t, p t = true → t.isStructural = true) (ts : List Token) :
    (skeleton ts).countP p = ts.countP p := by
  rw [skeleton, List.countP_filter]
  refine List.countP_congr fun t _ => ?_
  simpa using hp t

lemma filterMap_table?_skeleton (ts : List Token) :
    (skeleton ts).filterMap Token.table? = ts.filterMap Token.table? := by
  rw [skeleton, List.filterMap_filter]
  congr 1
  funext t
  cases t with
  | _ => rfl

lemma filling_map {f : String → Token} (hf : ∀ s, (f s).isStructural = false) (xs : List String) :
    Filling (xs.map f) :=
  List.forall_mem_map.2 fun s _ => hf s

lemma filling_commaSeparated (h : Filling ts) : Filling (commaSeparated ts) :=
  forall_mem_commaSeparated (p := fun t => t.isStructural = false) rfl rfl h

lemma filling_listClause {keyword : Token} (hk : keyword.isStructural = false) (h : Filling ts) :
    Filling (listClause keyword ts) :=
  forall_mem_listClause (p := fun t => t.isStructural = false) rfl hk rfl h

lemma filling_optionalClause {keyword : Token} {α : Type} {f : α → Token} (hk : keyword.isStructural = false)
    (hf : ∀ a, (f a).isStructural = false) (o : Option α) : Filling (optionalClause keyword (o.map f)) :=
  forall_mem_optionalClause (p := fun t => t.isStructural = false) rfl hk hf o

variable {level depth : Nat}

lemma tokensAt_append {depth' : Nat} (h : depthAfter depth ts = some depth') (us : List Token) :
    tokensAt level depth (ts ++ us) = tokensAt level depth ts ++ tokensAt level depth' us := by
  induction ts generalizing depth with
  | nil =>
    cases h
    rfl
  | cons t ts ih =>
    cases t with
    | openParen => exact ih h
    | closeParen =>
      cases depth with
      | zero => cases h
      | succ depth => exact ih h
    | _ =>
      simp only [List.cons_append, tokensAt, ih h]
      split <;> rfl

lemma Closed.tokensAt_append (h : Closed ts) (us : List Token) :
    tokensAt level depth (ts ++ us) = tokensAt level depth ts ++ tokensAt level depth us :=
  Sql.tokensAt_append (h depth) us

lemma tokensAt_eq_nil {depth' : Nat} (h : depthAfter depth ts = some depth') :
    tokensAt level (level + 1 + depth) ts = [] := by
  induction ts generalizing depth with
  | nil => rfl
  | cons t ts ih =>
    cases t with
    | openParen => exact ih h
    | closeParen =>
      cases depth with
      | zero => cases h
      | succ depth => exact ih h
    | _ =>
      rw [tokensAt, if_neg (by omega)]
      exact ih h
      all_goals exact nofun

lemma tokensAt_parenthesized (h : Closed ts) (us : List Token) :
    tokensAt level level (.openParen :: ts ++ .closeParen :: us) = tokensAt level level us := by
  rw [List.cons_append, tokensAt, h.tokensAt_append, tokensAt_eq_nil (h 0), List.nil_append]
  rfl

lemma tokensAt_cons (h : t.isParen = false) (ts : List Token) :
    tokensAt level level (t :: ts) = t :: tokensAt level level ts := by
  cases t with
  | openParen | closeParen => cases h
  | _ => simp only [tokensAt, if_true]

lemma tokensAt_eq_self (h : ∀ t ∈ ts, t.isParen = false) : tokensAt level level ts = ts := by
  induction ts with
  | nil => rfl
  | cons t ts ih =>
    obtain ⟨ht, hts⟩ := List.forall_mem_cons.1 h
    rw [tokensAt_cons ht, ih hts]

end

end QueryTree.Sql
