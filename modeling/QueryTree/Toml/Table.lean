import QueryTree.Entries
import QueryTree.Toml.Scalar
/-!
Tables of a TOML document while it is read. Every name is defined once. A table that only lies on the way to
another one may still get its own header, and dotted keys may lead through it; a table made by a dotted key is
open to further dotted keys, and to headers of tables inside it; inline tables and lists are closed.
-/

namespace QueryTree.Toml

inductive Value where
  | scalar (s : Scalar)
  | list (items : List Value)
  | table (entries : List (String × Value))

namespace Value

mutual

def isRepresentable : Value → Bool
  | scalar s => s.isRepresentable
  | list items => areRepresentable items
  | table entries => haveRepresentable entries

def areRepresentable : List Value → Bool
  | [] => true
  | v :: vs => v.isRepresentable && areRepresentable vs

def haveRepresentable : List (String × Value) → Bool
  | [] => true
  | (_, v) :: rest => v.isRepresentable && haveRepresentable rest

end

end Value

inductive Origin where
  | passing
  | dotted
  | header
deriving DecidableEq

inductive Node where
  | value (v : Value)
  | table (origin : Origin) (entries : List (String × Node))
  | tables (elements : List (List (String × Node)))

namespace Node

abbrev Table := Entries Node

def define? (es : Table) (name : String) (n : Node) : Option Table :=
  if es.contains name then none else some (es.insert name n)

/-- `es` with the table under a dotted key changed by `f`. The key may lead through tables without a header
of their own, and through the last table of a list, but must end at a table made by dotted keys. -/
def throughDots? (f : Table → Option Table) : List String → Table → Option Table
  | [], es => f es
  | name :: path, es =>
    match es.get? name with
    | none => do
      let inner ← throughDots? f path []
      return es.insert name (.table .dotted inner)
    | some (.table .dotted inner) => do
      let inner ← throughDots? f path inner
      return es.insert name (.table .dotted inner)
    | some (.table .passing inner) =>
      if path.isEmpty then none
      else do
        let inner ← throughDots? f path inner
        return es.insert name (.table .passing inner)
    | some (.tables (last :: before)) =>
      if path.isEmpty then none
      else do
        let last ← throughDots? f path last
        return es.insert name (.tables (last :: before))
    | some _ => none

def assign? (path : List String) (name : String) (v : Value) (es : Table) : Option Table :=
  throughDots? (fun es => define? es name (.value v)) path es

/-- `es` with the table at the end of a path of headers changed by `f`; of a list of tables the last one is
meant. -/
def throughHeaders? (f : Table → Option Table) : List String → Table → Option Table
  | [], es => f es
  | name :: path, es =>
    match es.get? name with
    | none => do
      let inner ← throughHeaders? f path []
      return es.insert name (.table .passing inner)
    | some (.table origin inner) => do
      let inner ← throughHeaders? f path inner
      return es.insert name (.table origin inner)
    | some (.tables (last :: before)) => do
      let last ← throughHeaders? f path last
      return es.insert name (.tables (last :: before))
    | some _ => none

def openTable? (name : String) (es : Table) : Option Table :=
  match es.get? name with
  | none => some (es.insert name (.table .header []))
  | some (.table .passing inner) => some (es.insert name (.table .header inner))
  | some _ => none

def openElement? (name : String) (es : Table) : Option Table :=
  match es.get? name with
  | none => some (es.insert name (.tables [[]]))
  | some (.tables elements) => some (es.insert name (.tables ([] :: elements)))
  | some _ => none

mutual

def toValue : Node → Value
  | .value v => v
  | .table _ es => .table (toValues es)
  | .tables elements => .list (elementValues elements).reverse

def toValues : List (String × Node) → List (String × Value)
  | [] => []
  | (name, n) :: rest => (name, toValue n) :: toValues rest

def elementValues : List (List (String × Node)) → List Value
  | [] => []
  | es :: rest => .table (toValues es) :: elementValues rest

end

end Node

end QueryTree.Toml
