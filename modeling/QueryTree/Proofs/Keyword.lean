import QueryTree.Keyword
import QueryTree.Proofs.Text.Words
/-! Keywords of joins and unions: which words name a kind, in whatever case and spacing. -/

namespace QueryTree

open Text

namespace JoinType

def keyword : JoinType → String
  | inner => "inner"
  | left => "left"
  | right => "right"
  | full => "full"
  | cross => "cross"

inductive NamedBy : JoinType → List String → Prop
  | join : NamedBy inner ["join"]
  | kind (t : JoinType) : NamedBy t [t.keyword]
  | kindJoin (t : JoinType) : NamedBy t [t.keyword, "join"]
  | kindOuter (t : JoinType) : NamedBy t [t.keyword, "outer"]
  | kindOuterJoin (t : JoinType) : NamedBy t [t.keyword, "outer", "join"]

lemma ofName?_eq_some_iff {s : String} {t : JoinType} : ofName? s = some t ↔ s = t.keyword := by
  constructor
  · unfold ofName?
    split <;> rintro ⟨⟩ <;> rfl
  · rintro rfl
    cases t <;> rfl

inductive ModifiedBy (t : JoinType) : List String → Prop
  | kind : ModifiedBy t [t.keyword]
  | outer : ModifiedBy t [t.keyword, "outer"]

variable {t : JoinType} {ws : List String}

lemma ofWords?_concat_join_eq_some_iff :
    ofWords? (ws ++ ["join"]) = some t ↔ (ws = [] ∧ t = inner) ∨ t.ModifiedBy ws := by
  constructor
  · simp only [ofWords?, List.getLast?_concat, BEq.rfl, if_true, List.dropLast_concat]
    split
    · rintro ⟨⟩
      exact .inl ⟨rfl, rfl⟩
    · intro h
      rw [ofName?_eq_some_iff.1 h]
      exact .inr .kind
    · intro h
      rw [ofName?_eq_some_iff.1 h]
      exact .inr .outer
    · exact nofun
  · rintro (⟨rfl, rfl⟩ | _ | _)
    · rfl
    · cases t <;> rfl
    · cases t <;> rfl

lemma ofWords?_eq_some_iff_of_ne_join (h : ws.getLast? ≠ some "join") : ofWords? ws = some t ↔ t.ModifiedBy ws := by
  have hbare : (ws.getLast? == some "join") = false := beq_eq_false_iff_ne.2 h
  constructor
  · simp only [ofWords?, hbare, Bool.false_eq_true, if_false]
    split
    · exact nofun
    · intro h
      rw [ofName?_eq_some_iff.1 h]
      exact .kind
    · intro h
      rw [ofName?_eq_some_iff.1 h]
      exact .outer
    · exact nofun
  · rintro (_ | _) <;> cases t <;> rfl

lemma namedBy_concat_join_iff : t.NamedBy (ws ++ ["join"]) ↔ (ws = [] ∧ t = inner) ∨ t.ModifiedBy ws := by
  constructor
  · have hinit : (ws ++ ["join"]).dropLast = ws := List.dropLast_concat
    have hlast : (ws ++ ["join"]).getLast? = some "join" := List.getLast?_concat
    generalize ws ++ ["join"] = us at hinit hlast
    subst hinit
    rintro (_ | _ | _ | _ | _)
    · exact .inl ⟨rfl, rfl⟩
    · exact absurd hlast (by cases t <;> decide)
    · exact .inr .kind
    · exact absurd hlast (by simp)
    · exact .inr .outer
  · rintro (⟨rfl, rfl⟩ | _ | _)
    · exact .join
    · exact .kindJoin t
    · exact .kindOuterJoin t

lemma namedBy_iff_of_ne_join (h : ws.getLast? ≠ some "join") : t.NamedBy ws ↔ t.ModifiedBy ws := by
  constructor
  · rintro (_ | _ | _ | _ | _)
    · exact absurd rfl h
    · exact .kind
    · exact absurd rfl h
    · exact .outer
    · exact absurd rfl h
  · rintro (_ | _)
    · exact .kind t
    · exact .kindOuter t

lemma ofWords?_eq_some_iff : ofWords? ws = some t ↔ t.NamedBy ws := by
  by_cases h : ws.getLast? = some "join"
  · obtain ⟨us, rfl⟩ := List.getLast?_eq_some_iff.1 h
    rw [ofWords?_concat_join_eq_some_iff, namedBy_concat_join_iff]
  · rw [ofWords?_eq_some_iff_of_ne_join h, namedBy_iff_of_ne_join h]

lemma parse_eq_ok_iff {s : String} : parse s = .ok t ↔ t.NamedBy (words (foldCase s)) := by
  rw [parse, readKeyword_eq_ok_iff, ofText?, ofWords?_eq_some_iff]

lemma parse_of_respells {s : String} (h : Respells s t.sql) : parse s = .ok t := by
  have hsql : ofWords? (words (foldCase t.sql)) = some t := ofText?_sql t
  rw [parse, readKeyword_eq_ok_iff, ofText?, h.words_foldCase, hsql]

end JoinType

namespace UnionType

inductive NamedBy : UnionType → List String → Prop
  | union : NamedBy distinct ["union"]
  | unionAll : NamedBy all ["union", "all"]

variable {t : UnionType}

lemma ofWords?_eq_some_iff {ws : List String} : ofWords? ws = some t ↔ t.NamedBy ws := by
  constructor
  · unfold ofWords?
    split
    · rintro ⟨⟩
      exact .union
    · rintro ⟨⟩
      exact .unionAll
    · exact nofun
  · rintro (_ | _) <;> rfl

lemma parse_eq_ok_iff {s : String} : parse s = .ok t ↔ t.NamedBy (words (foldCase s)) := by
  rw [parse, readKeyword_eq_ok_iff, ofText?, ofWords?_eq_some_iff]

lemma parse_of_respells {s : String} (h : Respells s t.sql) : parse s = .ok t := by
  have hsql : ofWords? (words (foldCase t.sql)) = some t := ofText?_sql t
  rw [parse, readKeyword_eq_ok_iff, ofText?, h.words_foldCase, hsql]

end UnionType

/-- Of the words that a text is spaced out from, with ASCII letters in lower case, exactly those that name a kind of
join or union are read as that kind. The SQL of a kind is read as it, in any case and spacing. -/
theorem keywords_parsed_exactly (s : String) :
    (∃ ws, SpacedOut (ws.map String.toList) (s.toList.map Char.toLower) ∧
      (∀ t, JoinType.parse s = .ok t ↔ t.NamedBy ws) ∧ ∀ t, UnionType.parse s = .ok t ↔ t.NamedBy ws) ∧
    (∀ t : JoinType, Respells s t.sql → JoinType.parse s = .ok t) ∧
    ∀ t : UnionType, Respells s t.sql → UnionType.parse s = .ok t := by
  have hspaced := spacedOut_words (foldCase s)
  rw [foldCase, String.toList_ofList] at hspaced
  refine ⟨⟨_, hspaced, ?_, ?_⟩, ?_, ?_⟩
  · exact fun _ => JoinType.parse_eq_ok_iff
  · exact fun _ => UnionType.parse_eq_ok_iff
  · exact fun _ => JoinType.parse_of_respells
  · exact fun _ => UnionType.parse_of_respells

theorem keywords_parsed_exactly_shouted :
    let join := "\u3000LeFt\t joiN "
    let union := "union\n\nALL"
    Respells join JoinType.left.sql ∧ JoinType.parse join = .ok .left ∧
      Respells union UnionType.all.sql ∧ UnionType.parse union = .ok .all := by
  intro join union
  have hjoin : Respells join JoinType.left.sql := ⟨_, _, spacedOut_iff.2 rfl, spacedOut_iff.2 rfl, by decide⟩
  have hunion : Respells union UnionType.all.sql := ⟨_, _, spacedOut_iff.2 rfl, spacedOut_iff.2 rfl, by decide⟩
  exact ⟨hjoin, (keywords_parsed_exactly join).2.1 .left hjoin, hunion,
    (keywords_parsed_exactly union).2.2 .all hunion⟩

example : JoinType.parse "join outer" = .error ⟨.joinType, "join outer"⟩ := by
  decide

end QueryTree
