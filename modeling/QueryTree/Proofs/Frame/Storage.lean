import QueryTree.Proofs.Frame.Reachable
/-! Storing frames. What is stored for a reachable frame can be read back exactly when no join and no union in it
was made of a single frame. -/

namespace QueryTree.Frame

def CombinesSeveral (d : Document) : Prop :=
  d.kind = .join ∨ d.kind = .union → 2 ≤ d.children.length

lemma hasSource_iff {d : Document} (h : d.Sound) : d.HasSource ↔ CombinesSeveral d := by
  cases d with
  | table b t =>
    have hnamed := h.named t rfl
    simp [Document.HasSource, CombinesSeveral, Document.kind, hnamed]
  | subquery b inner => simp [Document.HasSource, CombinesSeveral, Document.kind]
  | join b left joined =>
    simp [Document.HasSource, CombinesSeveral, Document.kind, Document.children, Nat.one_le_iff_ne_zero]
  | union b first members =>
    simp [Document.HasSource, CombinesSeveral, Document.kind, Document.children, Nat.one_le_iff_ne_zero]

lemma everyNode_storable_iff {d : Document} (h : d.EveryNode Document.Sound) :
    d.EveryNode Document.Storable ↔ d.EveryNode CombinesSeveral := by
  constructor
  · intro hstorable
    apply (Document.everyNode_and_iff.2 ⟨h, hstorable⟩).mono
    rintro e ⟨hsound, he⟩
    exact (hasSource_iff hsound).1 he.hasSource
  · intro hseveral
    apply (Document.everyNode_and_iff.2 ⟨h, hseveral⟩).mono
    rintro e ⟨hsound, he⟩
    exact ⟨fun f hf => (hsound.fields f hf).aggregates, (hasSource_iff hsound).2 he⟩

/-- A reachable frame can be stored and read back exactly when each of its joins and unions is of two queries at
least. Joins and unions themselves accept a single frame. -/
theorem Reachable.restored_iff {f : Frame} (h : Reachable f) {d : Document} (hd : f.document = some d) :
    (∃ e, Document.ofJson f.toJson = .ok e) ↔ d.EveryNode CombinesSeveral := by
  have hjson : f.toJson = d.toJson := by rw [toJson, hd]
  rw [hjson, ← everyNode_storable_iff (h.sound d hd)]
  simp only [Document.ofJson_toJson_iff]
  exact ⟨fun ⟨_, hstorable, _⟩ => hstorable, fun hstorable => ⟨_, hstorable, rfl⟩⟩

def tableDocument : Document :=
  .table { fields := .ofList [("x", { type := .dimension })] } { table := "t" }

lemma reachable_tableDocument : Reachable { document := some tableDocument } := by
  have h : Document.ofJson tableDocument.toJson = .ok tableDocument := by decide +kernel
  have hmade : ofDocument tableDocument = .ok { document := some tableDocument } := by
    rw [ofDocument, ofJson, h]
    rfl
  exact .document hmade

def pairUnion : Frame where
  document := some (.union { fields := .ofList [("x", { type := .dimension })] } tableDocument [(.all, tableDocument)])

theorem restored_pairUnion : Reachable pairUnion ∧ ∃ e, Document.ofJson pairUnion.toJson = .ok e := by
  have hmade : union [{ document := some tableDocument }, { document := some tableDocument }] [.all] = .ok pairUnion := rfl
  have hreached : Reachable pairUnion := by
    refine .union ?_ hmade
    simp [reachable_tableDocument]
  have htable : tableDocument.EveryNode CombinesSeveral := .node nofun nofun
  refine ⟨hreached, (hreached.restored_iff rfl).2 (.node (fun _ => Nat.le_refl 2) ?_)⟩
  exact List.forall_mem_cons.2 ⟨htable, List.forall_mem_singleton.2 htable⟩

def singleJoin : Frame where
  document := some (.join { fields := .ofList [("sq1.x", { type := .dimension, asName := some "x" })] } tableDocument [])

/-- A join of one frame is made, and what is stored for it does not pass the check. -/
theorem singleJoin_not_restored : join [{ document := some tableDocument }] [] [] false = .ok singleJoin ∧
    Reachable singleJoin ∧ Document.ofJson singleJoin.toJson = .error (.invalidJoin "select" "join_type is empty") := by
  have hmade : join [{ document := some tableDocument }] [] [] false = .ok singleJoin := rfl
  refine ⟨hmade, .join (List.forall_mem_singleton.2 reachable_tableDocument) hmade, ?_⟩
  decide +kernel

end QueryTree.Frame
