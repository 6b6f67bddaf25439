import Mathlib.Tactic.Lemma
import QueryTree.Files
import QueryTree.Proofs.Outcome
/-! Writing a file: it is opened where a directory holds it, and keeps all directories. What a disk with room for the
text leaves of the file reads as the text. -/

namespace QueryTree.Files

def Writable (fs : Files) (path : String) : Prop :=
  ∃ place, fs.place? path = some place ∧ fs.isDirectory place = false

lemma Room.take_eq_self {room : Room} {content : ByteArray} (h : ¬ (room.take content).size < content.size) :
    room.take content = content := by
  cases room with
  | enough => rfl
  | bytes n =>
    have hn : content.size ≤ n := by
      rw [take, ByteArray.size_extract] at h
      omega
    refine ByteArray.ext ?_
    rw [take, ByteArray.data_extract]
    exact Array.extract_eq_self_of_le hn

section

variable {fs fs' : Files} {place : Path.Place} {path text : String} {room : Room}

lemma writeText_of_place (hp : fs.place? path = some place) (hd : fs.isDirectory place = false) (room : Room)
    (text : String) : fs.writeText room path text =
      (if (room.take text.toUTF8).size < text.toUTF8.size then .error .cutShort else .ok (),
        fs.set place (.file (room.take text.toUTF8))) := by
  rw [writeText, hp]
  simp only [hd, Bool.false_eq_true, if_false]

lemma writeText_enough (hp : fs.place? path = some place) (hd : fs.isDirectory place = false) (text : String) :
    fs.writeText .enough path text = (.ok (), fs.set place (.file text.toUTF8)) := by
  rw [writeText_of_place hp hd, Room.take, if_neg (Nat.lt_irrefl _)]

lemma writeText_cases (fs : Files) (room : Room) (path text : String) :
    (¬ fs.Writable path ∧ ∃ e, e ≠ .cutShort ∧ fs.writeText room path text = (.error e, fs)) ∨
      fs.Writable path ∧ ∃ fs', fs.writeText room path text = (.ok (), fs') ∨
        fs.writeText room path text = (.error .cutShort, fs') := by
  cases hp : fs.place? path with
  | none =>
    refine .inl ⟨?_, .notFound, by decide, by rw [writeText, hp]⟩
    rintro ⟨place, hplace, -⟩
    cases hp.symm.trans hplace
  | some place =>
    cases hd : fs.isDirectory place with
    | true =>
      refine .inl ⟨?_, .isDirectory, by decide, by simp [writeText, hp, hd]⟩
      rintro ⟨place', hplace, hdirectory⟩
      cases hp.symm.trans hplace
      cases hd.symm.trans hdirectory
    | false =>
      refine .inr ⟨⟨place, hp, hd⟩, fs.set place (.file (room.take text.toUTF8)), ?_⟩
      rw [writeText_of_place hp hd]
      split
      · exact .inr rfl
      · exact .inl rfl

lemma writeText_enough_ne (fs : Files) (path text : String) :
    (fs.writeText .enough path text).1 ≠ .error .cutShort := by
  cases hp : fs.place? path with
  | none => simp [writeText, hp]
  | some place =>
    cases hd : fs.isDirectory place with
    | true => simp [writeText, hp, hd]
    | false => simp [writeText_enough hp hd]

lemma eq_of_writeText_eq_error {e : Error} (h : fs.writeText room path text = (.error e, fs')) (he : e ≠ .cutShort) :
    fs' = fs := by
  rcases fs.writeText_cases room path text with ⟨-, e, -, hwrite⟩ | ⟨-, fs₁, hwrite | hwrite⟩
  · exact (Prod.mk.inj (h.symm.trans hwrite)).2
  · cases h.symm.trans hwrite
  · cases h.symm.trans hwrite
    exact absurd rfl he

lemma exists_of_writeText_eq_ok (h : fs.writeText room path text = (.ok (), fs')) :
    ∃ place, fs.place? path = some place ∧ fs.isDirectory place = false ∧ fs' = fs.set place (.file text.toUTF8) := by
  rcases fs.writeText_cases room path text with ⟨-, e, -, hwrite⟩ | ⟨⟨place, hp, hd⟩, -⟩
  · cases h.symm.trans hwrite
  · rw [writeText_of_place hp hd] at h
    obtain ⟨houtcome, rfl⟩ := Prod.mk.inj h
    refine ⟨place, hp, hd, ?_⟩
    split at houtcome
    · cases houtcome
    · next hsize => rw [Room.take_eq_self hsize]

lemma exists_writeText_eq_ok_iff (text : String) :
    (∃ fs', fs.writeText .enough path text = (.ok (), fs')) ↔ fs.Writable path := by
  constructor
  · rintro ⟨_, h⟩
    obtain ⟨place, hp, hd, -⟩ := exists_of_writeText_eq_ok h
    exact ⟨place, hp, hd⟩
  · rintro ⟨place, hp, hd⟩
    exact ⟨_, writeText_enough hp hd text⟩

end

section

variable {fs : Files} {place : Path.Place} {content : ByteArray}

lemma isDirectory_set (h : fs.isDirectory place = false) (other : Path.Place) :
    (fs.set place (.file content)).isDirectory other = fs.isDirectory other := by
  simp only [isDirectory, at?] at h ⊢
  split
  · rfl
  · split at h
    · exact absurd h (by decide)
    · rw [set, Entries.get?_insert]
      split
      · next hkey =>
        rw [← hkey, h]
        rfl
      · rfl

lemma walk?_set (h : fs.isDirectory place = false) (start : Path.Place) (steps : List String) :
    (fs.set place (.file content)).walk? start steps = fs.walk? start steps := by
  induction steps generalizing start with
  | nil => rfl
  | cons step steps ih => rw [walk?, walk?, isDirectory_set h, ih]

lemma place?_set (h : fs.isDirectory place = false) (path : String) :
    (fs.set place (.file content)).place? path = fs.place? path := by
  rw [place?, place?, walk?_set h]

lemma at?_set_self (h : fs.isDirectory place = false) :
    (fs.set place (.file content)).at? place = some (.file content) := by
  simp only [isDirectory, at?] at h ⊢
  split at h
  · exact absurd h (by decide)
  · next hplace =>
    rw [if_neg hplace, set, Entries.get?_insert, if_pos rfl]

end

variable {fs fs' : Files} {path text : String} {room : Room}

lemma fromUTF8?_toUTF8 (s : String) : String.fromUTF8? s.toUTF8 = some s := by
  rw [String.fromUTF8?, String.toUTF8_eq_toByteArray, dif_pos s.isValidUTF8]
  rfl

lemma readText_set {place : Path.Place} (hp : fs.place? path = some place) (hd : fs.isDirectory place = false)
    (text : String) : (fs.set place (.file text.toUTF8)).readText path = .ok text := by
  have hentry : Files.entry? (fs.set place (.file text.toUTF8)) path = some (.file text.toUTF8) := by
    rw [ entry?, place?_set hd, hp, Option.bind_some, at?_set_self hd]
  have hbytes : (fs.set place (.file text.toUTF8)).readBytes path = .ok text.toUTF8 := by
    simp only [readBytes, hentry]
  simp only [readText, hbytes, ok_bind, fromUTF8?_toUTF8]

lemma readText_of_writeText (h : fs.writeText room path text = (.ok (), fs')) : fs'.readText path = .ok text := by
  obtain ⟨place, hp, hd, rfl⟩ := exists_of_writeText_eq_ok h
  exact readText_set hp hd text

lemma exists_writeText_bytes_zero {place : Path.Place} (hp : fs.place? path = some place)
    (hd : fs.isDirectory place = false) (h : text ≠ "") :
    ∃ fs', fs.writeText (.bytes 0) path text = (.error .cutShort, fs') ∧ fs'.readText path = .ok "" := by
  have htake : (Room.bytes 0).take text.toUTF8 = "".toUTF8 := by
    rw [Room.take]
    refine ByteArray.ext ?_
    simp
  have hsize : "".toUTF8.size < text.toUTF8.size := by
    simpa [String.toUTF8_eq_toByteArray] using Nat.pos_of_ne_zero (mt String.utf8ByteSize_eq_zero_iff.1 h)
  refine ⟨fs.set place (.file "".toUTF8), ?_, readText_set hp hd ""⟩
  rw [writeText_of_place hp hd, htake, if_pos hsize]

lemma readText_of_not_contains (h : fs.contains path = false) : fs.readText path = .error .notFound := by
  rw [contains, Option.isSome_eq_false_iff, Option.isNone_iff_eq_none] at h
  simp only [readText, readBytes, h]
  rfl

lemma contains_of_readText (h : fs.readText path = .ok text) : fs.contains path = true := by
  cases hc : fs.contains path with
  | true => rfl
  | false =>
    rw [readText_of_not_contains hc] at h
    cases h

lemma writable_of_readText (h : fs.readText path = .ok text) : fs.Writable path := by
  obtain ⟨content, hbytes, -⟩ := bind_eq_ok_iff.1 h
  have hentry : fs.entry? path = some (.file content) := by
    unfold readBytes at hbytes
    split at hbytes
    · next he =>
      cases hbytes
      exact he
    · cases hbytes
    · cases hbytes
  obtain ⟨place, hplace, hat⟩ := Option.bind_eq_some_iff.1 hentry
  refine ⟨place, hplace, ?_⟩
  rw [isDirectory, hat]
  rfl

end QueryTree.Files
