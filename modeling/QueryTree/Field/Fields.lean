import QueryTree.Entries
import QueryTree.Field.Basic
/-!
The fields of a query, in SELECT order. Keys are unique.
-/

namespace QueryTree

structure Fields where
  entries : Entries Field
  nodup : entries.keys.Nodup
deriving DecidableEq

namespace Fields

def empty : Fields :=
  ⟨[], .nil⟩

def keys (fs : Fields) : List String :=
  fs.entries.keys

def size (fs : Fields) : Nat :=
  fs.entries.length

def get? (fs : Fields) (key : String) : Option Field :=
  fs.entries.get? key

def contains (fs : Fields) (key : String) : Bool :=
  fs.entries.contains key

def insert (fs : Fields) (key : String) (f : Field) : Fields :=
  ⟨fs.entries.insert key f, Entries.nodup_keys_insert fs.nodup key f⟩

def modify (fs : Fields) (key : String) (f : Field → Field) : Fields :=
  ⟨fs.entries.modify key f, by rw [Entries.keys_modify]; exact fs.nodup⟩

def erase (fs : Fields) (key : String) : Fields :=
  ⟨fs.entries.erase key, (Entries.keys_erase_sublist fs.entries key).nodup fs.nodup⟩

def ofList (es : List (String × Field)) : Fields :=
  es.foldl (fun fs e => fs.insert e.1 e.2) empty

def agree (fs gs : Fields) : Bool :=
  fs.entries.agree gs.entries

def visible (fs : Fields) : List (String × Field) :=
  fs.entries.filter fun e => e.2.isVisible

@[simp] theorem keys_modify (fs : Fields) (key : String) (f : Field → Field) : (fs.modify key f).keys = fs.keys :=
  Entries.keys_modify ..

theorem agree_iff {fs gs : Fields} : fs.agree gs = true ↔ ∀ key, fs.get? key = gs.get? key :=
  Entries.agree_iff

theorem get?_modify (fs : Fields) (key : String) (f : Field → Field) (other : String) :
    (fs.modify key f).get? other = if key = other then (fs.get? other).map f else fs.get? other :=
  Entries.get?_modify ..

end Fields

end QueryTree
