import StyleSystem.Yaml.Scalar

/-!
# YAML documents

A `Node` is a scalar or a mapping from scalars to nodes. `Node.read?` reads the one document of a
text. A mapping is written in block style, one entry after the other and all of them in the same
column, or in flow style between braces; comments, and the document marks `---` and `...`, may
stand around it. Sequences, and mappings as keys, are refused, as are anchors, tags and directives.

## Reading

In block style the column decides where a token belongs: what stands further to the right than the
key of an entry is its value, what stands in the same column is the next entry, and what stands
further to the left comes after the mapping.

The functions on mappings take a budget for their calls. Every call takes a character of the text,
so a budget above its length is enough.
-/

namespace StyleSystem.Yaml

/-!
## Headers of mapping entries

An entry of a mapping starts with its `Header`: a key, and mostly a colon. There are two forms. In
the simple form the colon follows the key in the same line, and the key is not too long. In the
explicit form a question mark stands in front of the key, which may then be of any length and take
several lines, and the colon may be missing, or in block style stand below the question mark.
-/

/-- The header of an entry: its key, whether a colon follows, and the place after both. -/
structure Header where
  key : Scalar
  colon : Bool
  place : Place
  deriving DecidableEq, Repr

namespace Header

/-! ### Simple keys -/

/-- The longest text, in bytes, from the start of a simple key up to its colon. -/
def maxKeyLength : Nat := 1024

/-- **The header with a simple key.** A token must end after the colon, unless the key is quoted
and stands in a flow mapping. -/
def simple? (flow : Bool) (limit : Nat) (s : Source) : Option Header := do
  let (key, next) ← Scalar.read? flow limit s
  let left := if flow then next.rest.skip else next.skip.rest
  -- the key starts with the first character of `s`, and the colon is the first one left
  match s, left with
  | start :: _, ⟨':', colon⟩ :: rest =>
    if start.position.line = colon.line ∧ colon.offset ≤ start.position.offset + maxKeyLength ∧
        (endsToken (Source.next? rest) || (flow && !key.plain)) then
      some ⟨key, true, ⟨false, rest⟩⟩
    else none
  | _, _ => none

/-! ### Block style -/

/-- Whether the node at a place belongs to the entry of a mapping in the given column: it stands
further to the right. A block scalar, whose text is indented anyway, may stand in the column
itself. -/
def holds (column : Nat) (p : Place) : Bool :=
  !p.atEnd && (column < p.column || (p.column = column && Scalar.startsBlock p.rest))

/-- The explicit header whose question mark stands in the given column, from behind the question
mark on. -/
def explicit? (column : Nat) (s : Source) : Option Header := do
  let p := (Place.mk true s).skip
  -- behind the question mark, or in the lines below it
  let (key, next) ←
    if holds column p then do
      let (key, next) ← Scalar.read? false (column + 1) p.rest
      pure (key, next.skip)
    else pure (Scalar.missing, p)
  if next.column = column ∧ next.rest.atSign ':' then return ⟨key, true, ⟨true, next.rest.drop 1⟩⟩
  else return ⟨key, false, next⟩

/-- **The header at a place** in block style, which must be fresh. -/
def block? (limit : Nat) (p : Place) : Option Header :=
  if !p.fresh then none
  else if p.rest.atSign '?' then explicit? p.column (p.rest.drop 1)
  else simple? false limit p.rest

/-! ### Flow style -/

/-- The explicit header of an entry of a flow mapping, from behind the question mark on. -/
def explicitFlow? (limit : Nat) (s : Source) : Option Header := do
  let s := s.skip
  let (key, left) ← match s.next? with
    | some ':' | some ',' | some '\x7d' => pure (Scalar.missing, s)
    | _ => do
      let (key, next) ← Scalar.read? true limit s
      pure (key, next.rest.skip)
  match left with
  | ⟨':', _⟩ :: rest => return ⟨key, true, ⟨false, rest⟩⟩
  | _ => return ⟨key, false, ⟨false, left⟩⟩

/-- **The header of an entry of a flow mapping.** A scalar alone is a key without a colon. -/
def flow? (limit : Nat) : Source → Option Header
  | ⟨'?', _⟩ :: rest => explicitFlow? limit rest
  | s =>
    match simple? true limit s with
    | some h => some h
    | none => do
      let (key, next) ← Scalar.read? true limit s
      return ⟨key, false, ⟨false, next.rest.skip⟩⟩

end Header

/-! ## Nodes -/

/-- A node of a document. -/
inductive Node where
  | scalar (s : Scalar)
  | mapping (entries : List (Scalar × Node))

namespace Node

/-- The node that stands where nothing is written. -/
def missing : Node := scalar .missing

/-! ### Flow mappings -/

/-- The entries of a flow mapping from behind its opening brace or a comma on, and the text after
its closing brace. -/
def flowEntries? (limit : Nat) : Nat → Source → Option (List (Scalar × Node) × Source)
  | 0, _ => none
  | budget + 1, s => do
    match s.skip with
    | ⟨'\x7d', _⟩ :: rest => return ([], rest)
    | s =>
      let h ← Header.flow? limit s
      let (value, left) ←
        if h.colon then
          match h.place.rest.skip with
          | ⟨'\x7b', _⟩ :: rest => do
            let (entries, rest) ← flowEntries? limit budget rest
            pure (mapping entries, rest.skip)
          | s =>
            -- the value may be missing
            if s.next? = some ',' || s.next? = some '\x7d' then pure (missing, s)
            else do
              let (value, next) ← Scalar.read? true limit s
              pure (scalar value, next.rest.skip)
        else pure (missing, h.place.rest)
      match left with
      | ⟨',', _⟩ :: rest => do
        let (entries, rest) ← flowEntries? limit budget rest
        return ((h.key, value) :: entries, rest)
      | ⟨'\x7d', _⟩ :: rest => return ([(h.key, value)], rest)
      | _ => none

/-! ### Block mappings -/

/-- The node at a place, which is no block mapping, and the place of the next token. -/
def inline? (limit : Nat) (p : Place) : Option (Node × Place) :=
  match p.rest with
  | ⟨'\x7b', _⟩ :: rest => do
    let (entries, left) ← flowEntries? limit (rest.length + 1) rest
    return (mapping entries, (Place.mk false left).skip)
  | s => do
    let (value, next) ← Scalar.read? false limit s
    return (scalar value, next.skip)

/-- The entries of the block mapping in the given column, from behind the header of the first one
on, and the place of the next token after them. -/
def blockEntries? (column : Nat) : Nat → Header → Option (List (Scalar × Node) × Place)
  | 0, _ => none
  | budget + 1, h => do
    let p := h.place.skip
    let (value, next) ←
      if h.colon && Header.holds column p then
        -- a fresh place may start a mapping of its own, in the column where the place is
        match Header.block? (column + 1) p with
        | some inner => do
          let (entries, next) ← blockEntries? p.column budget inner
          pure (mapping entries, next)
        | none => inline? (column + 1) p
      else pure (missing, p)
    if next.atEnd || next.column < column then return ([(h.key, value)], next)
    -- what stands in the same column must be the next entry
    else if next.column = column then do
      let following ← Header.block? (column + 1) next
      let (entries, left) ← blockEntries? column budget following
      return ((h.key, value) :: entries, left)
    else none

/-- **The node at a place** and the place of the next token after it. -/
def nodeAt? (limit : Nat) (p : Place) : Option (Node × Place) :=
  match Header.block? limit p with
  | some h => do
    let (entries, next) ← blockEntries? p.column (p.rest.length + 1) h
    return (mapping entries, next)
  | none => inline? limit p

/-! ### Documents -/

/-- The place of the token after a document mark. -/
def afterMark (s : Source) : Place := (Place.mk false (s.drop 3)).skip

/-- Whether nothing but end marks follows. -/
def endsDocument : Nat → Source → Bool
  | 0, _ => false
  | budget + 1, s => s.isEmpty || (s.atMark '.' && endsDocument budget (afterMark s).rest)

/-- The node of the document at a place. A document may be empty behind its opening mark. -/
def documentAt? (p : Place) : Option (Node × Place) :=
  if p.rest.isEmpty then some (missing, p)
  else if p.rest.atMark '-' then
    let p := afterMark p.rest
    if p.atEnd then some (missing, p) else nodeAt? 0 p
  else nodeAt? 0 p

/-- **The node of the one document of a text.** -/
def read? (cs : List Char) : Option Node := do
  guard (cs.all isAllowed)
  let (node, next) ← documentAt? (Place.mk true (.ofText cs)).skip
  if endsDocument (next.rest.length + 1) next.rest then return node else none

end Node

end StyleSystem.Yaml
