import QueryTree.Json.Token
/-!
Reading JSON. One value is read from a list of tokens by a machine whose stack holds the containers
around the present place, so the nesting allowed is the height of the stack.
-/

namespace QueryTree.Json

/-- A container around the present place: the items before it, last first, or the members before it and
the name it stands under. -/
inductive Enclosing where
  | array (items : List Json)
  | member (members : Members) (name : String)

inductive Phase where
  | value
  | firstItem
  | afterItem (items : List Json)
  | firstName
  | name (members : Members)
  | colon (members : Members) (name : String)
  | afterMember (members : Members)

inductive Progress where
  | reading (phase : Phase) (stack : List Enclosing)
  | done (v : Json)

def deliver (v : Json) : List Enclosing → Progress
  | [] => .done v
  | .array items :: stack => .reading (.afterItem (v :: items)) stack
  | .member members name :: stack => .reading (.afterMember (members.insert name v)) stack

def startValue (room : Nat) (stack : List Enclosing) : Token → Option Progress
  | .openObject => if stack.length < room then some (.reading .firstName stack) else none
  | .openArray => if stack.length < room then some (.reading .firstItem stack) else none
  | .null => some (deliver .null stack)
  | .bool b => some (deliver (.bool b) stack)
  | .number n => some (deliver (.number n) stack)
  | .string s => some (deliver (.string s) stack)
  | _ => none

def step (room : Nat) : Phase → List Enclosing → Token → Option Progress
  | .value, stack, t => startValue room stack t
  | .firstItem, stack, .closeArray => some (deliver (.array []) stack)
  | .firstItem, stack, t => startValue room (.array [] :: stack) t
  | .afterItem items, stack, .comma => some (.reading .value (.array items :: stack))
  | .afterItem items, stack, .closeArray => some (deliver (.array items.reverse) stack)
  | .firstName, stack, .closeObject => some (deliver (.object []) stack)
  | .firstName, stack, .string s => some (.reading (.colon [] s) stack)
  | .name members, stack, .string s => some (.reading (.colon members s) stack)
  | .colon members s, stack, .colon => some (.reading .value (.member members s :: stack))
  | .afterMember members, stack, .comma => some (.reading (.name members) stack)
  | .afterMember members, stack, .closeObject => some (deliver (.object members) stack)
  | _, _, _ => none

def run (room : Nat) (phase : Phase) (stack : List Enclosing) : List Token → Option (Json × List Token)
  | [] => none
  | t :: ts =>
    match step room phase stack t with
    | some (.reading phase stack) => run room phase stack ts
    | some (.done v) => some (v, ts)
    | none => none

def read? (room : Nat) (ts : List Token) : Option (Json × List Token) :=
  run room .value [] ts

def maxNesting : Nat :=
  127

def parse? (s : String) : Option Json :=
  match read? maxNesting (tokens s) with
  | some (v, []) => some v
  | _ => none

abbrev Decoder (ε α : Type) := List Token → Except ε (α × List Token)

namespace Decoder

variable {ε σ : Type}

def value (malformed : ε) (room : Nat) : Decoder ε Json := fun ts =>
  match read? room ts with
  | some r => .ok r
  | none => .error malformed

def members (malformed : ε) (next : σ → String → Decoder ε σ) (fuel : Nat) (acc : σ) : Decoder ε σ := fun ts =>
  match fuel, ts with
  | fuel + 1, .string name :: .colon :: ts => do
    let (acc, ts) ← next acc name ts
    match ts with
    | .comma :: ts => members malformed next fuel acc ts
    | .closeObject :: ts => .ok (acc, ts)
    | _ => .error malformed
  | _, _ => .error malformed

def object (malformed : ε) (next : σ → String → Decoder ε σ) (init : σ) : Decoder ε σ
  | .openObject :: .closeObject :: ts => .ok (init, ts)
  | .openObject :: ts => members malformed next ts.length init ts
  | _ => .error malformed

def items (malformed : ε) (next : σ → Nat → Decoder ε σ) (fuel : Nat) (i : Nat) (acc : σ) : Decoder ε σ :=
  fun ts =>
  match fuel with
  | 0 => .error malformed
  | fuel + 1 => do
    let (acc, ts) ← next acc i ts
    match ts with
    | .comma :: ts => items malformed next fuel (i + 1) acc ts
    | .closeArray :: ts => .ok (acc, ts)
    | _ => .error malformed

def array (malformed : ε) (next : σ → Nat → Decoder ε σ) (init : σ) : Decoder ε σ
  | .openArray :: .closeArray :: ts => .ok (init, ts)
  | .openArray :: ts => items malformed next ts.length 0 init ts
  | _ => .error malformed

def decode {α : Type} (malformed : ε) (d : Decoder ε α) (s : String) : Except ε α := do
  match ← d (tokens s) with
  | (a, []) => .ok a
  | _ => .error malformed

end Decoder

end QueryTree.Json
