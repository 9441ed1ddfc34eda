import Deadwood.Config.Yaml.Plain
import Deadwood.Config.Yaml.Token

/-!
The values of a file laid out by indentation: texts, sequences and mappings, some of which stand for others that bear an
anchor. Tokens are asked for one by one, so that the first fault in the text is the one that is told.
-/

namespace Deadwood.Yaml

/-- A value with its line, counted from one, and its tag. An alias has a number of its own besides that of the anchor
it stands for. -/
inductive Node
  | scalar (line : Nat) (tag value : Bytes)
  | sequence (line : Nat) (tag : Bytes) (items : List Node)
  | mapping (line : Nat) (tag : Bytes) (entries : List (Node × Node))
  | reference (line : Nat) (name : Bytes) (number anchor : Nat)

namespace Node

def line : Node → Nat
  | .scalar line _ _ | .sequence line _ _ | .mapping line _ _ | .reference line _ _ _ => line

def isMerge : Node → Bool
  | .scalar _ tag value => tag = Tag.merge && value = bytes "<<"
  | _ => false

def isMapping : Node → Bool
  | .mapping .. => true
  | _ => false

def text : Node → Bytes
  | .scalar _ _ text | .reference _ text _ _ => text
  | .sequence .. | .mapping .. => []

def sameKey (a b : Node) : Bool :=
  a.text = b.text && match a, b with
    | .scalar .., .scalar .. | .sequence .., .sequence .. | .mapping .., .mapping .. | .reference .., .reference .. => true
    | _, _ => false

end Node

structure Document where
  root : Node
  anchored : List (Nat × Node) := []

/-- What is known in the middle of a document: what tag handles stand for, the anchors so far with the latest first, the
values that bear them, and the number of aliases. -/
structure Progress where
  lexer : Lexer
  handles : List (Bytes × Bytes) := []
  anchors : List (Bytes × Nat) := []
  anchored : List (Nat × Node) := []
  aliases : Nat := 0

abbrev Parse := StateT Progress (Except Fault)

namespace Parse

def exhausted : Fault := .problem 0 .tooDeep

def peek : Parse Token := do
  let p ← get
  let (t, lexer) ← (Lex.peek.run p.lexer : Except Fault (Token × Lexer))
  set { p with lexer }
  return t

def drop : Parse Unit := do
  let p ← get
  let (_, lexer) ← (Lex.drop.run p.lexer : Except Fault (Unit × Lexer))
  set { p with lexer }

def next : Parse Token := do drop; peek

def fail {α : Type} (context : Nat) (t : Token) (p : Problem) : Parse α := throw (.atToken context t.line p)

def nothing (line : Nat) : Node := .scalar (line + 1) Tag.null []

def noteAnchor (name : Option Bytes) : Parse (Option Nat) := do
  match name with
  | none => return none
  | some name =>
    let p ← get
    let number := p.anchors.length
    set { p with anchors := (name, number) :: p.anchors }
    return some number

def keep (number : Option Nat) (n : Node) : Parse Node := do
  match number with
  | none => return n
  | some number =>
    modify fun p => { p with anchored := (number, n) :: p.anchored }
    return n

def reference (line : Nat) (name : Bytes) : Parse Node := do
  let p ← get
  match p.anchors.lookup name with
  | none => throw (.unknownAnchor name)
  | some anchor =>
    set { p with aliases := p.aliases + 1 }
    return .reference (line + 1) name p.aliases anchor

structure Properties where
  line : Nat
  anchor : Option Bytes := none
  tag : Option (Bytes × Bytes) := none
  tagLine : Nat := 0

def properties (t : Token) : Parse (Properties × Token) := do
  match t.symbol with
  | .anchor name =>
    let u ← next
    match u.symbol with
    | .tag handle suffix => return (⟨t.line, some name, some (handle, suffix), u.line⟩, ← next)
    | _ => return (⟨t.line, some name, none, 0⟩, u)
  | .tag handle suffix =>
    let u ← next
    match u.symbol with
    | .anchor name => return (⟨t.line, some name, some (handle, suffix), t.line⟩, ← next)
    | _ => return (⟨t.line, none, some (handle, suffix), t.line⟩, u)
  | _ => return (⟨t.line, none, none, 0⟩, t)

def expandTag (p : Properties) : Parse Bytes := do
  match p.tag with
  | none => return []
  | some ([], suffix) => return suffix
  | some (handle, suffix) =>
    match (← get).handles.lookup handle with
    | some expansion =>
      if expansion ++ suffix = [] then throw (.atToken p.line p.tagLine .undefinedHandle)
      return expansion ++ suffix
    | none => throw (.atToken p.line p.tagLine .undefinedHandle)

def isOpen (tag : Bytes) : Bool := tag = [] || tag = [33]

def scalarTag (tag : Bytes) (isPlain : Bool) (value : Bytes) : Bytes :=
  if !isOpen tag then Tag.short tag
  else if !isPlain then Tag.str
  else if value = bytes "<<" then Tag.merge
  else (Plain.ofText true value).tag

def collectionTag (usual tag : Bytes) : Bytes := if isOpen tag then usual else Tag.short tag

mutual

def node : (fuel : Nat) → (inBlock mayDash : Bool) → Parse Node
  | 0, _, _ => throw exhausted
  | fuel + 1, inBlock, mayDash => do
    let t ← peek
    match t.symbol with
    | .reference name =>
      drop
      reference t.line name
    | _ =>
      let (p, t) ← properties t
      let tag ← expandTag p
      let line := p.line + 1
      let sequence (items : Parse (List Node)) : Parse Node := do
        let number ← noteAnchor p.anchor
        keep number (.sequence line (collectionTag Tag.seq tag) (← items))
      let mapping (entries : Parse (List (Node × Node))) : Parse Node := do
        let number ← noteAnchor p.anchor
        keep number (.mapping line (collectionTag Tag.map tag) (← entries))
      match t.symbol, inBlock, mayDash with
      | .blockEntry, _, true => sequence (dashes fuel)
      | .scalar isPlain value, _, _ =>
        drop
        keep (← noteAnchor p.anchor) (.scalar line (scalarTag tag isPlain value) value)
      | .flowSequenceStart, _, _ => sequence (do drop; flowItems fuel t.line true)
      | .flowMappingStart, _, _ => mapping (do drop; flowEntries fuel t.line true)
      | .blockSequenceStart, true, _ => sequence (do drop; blockItems fuel t.line)
      | .blockMappingStart, true, _ => mapping (do drop; blockEntries fuel t.line)
      | _, _, _ =>
        if p.anchor.isSome || tag ≠ [] then
          keep (← noteAnchor p.anchor) (.scalar line (scalarTag tag true []) [])
        else fail p.line t .noContent

def blockItems : (fuel : Nat) → (start : Nat) → Parse (List Node)
  | 0, _ => throw exhausted
  | fuel + 1, start => do
    let t ← peek
    match t.symbol with
    | .blockEntry =>
      let u ← next
      let item ← match u.symbol with
        | .blockEntry | .blockEnd => pure (nothing t.line)
        | _ => node fuel true false
      return item :: (← blockItems fuel start)
    | .blockEnd =>
      drop
      return []
    | _ => fail start t .noDash

/-- The items of a sequence whose dashes stand as far to the left as the key before them. -/
def dashes : (fuel : Nat) → Parse (List Node)
  | 0 => throw exhausted
  | fuel + 1 => do
    let t ← peek
    match t.symbol with
    | .blockEntry =>
      let u ← next
      let item ← match u.symbol with
        | .blockEntry | .key | .value | .blockEnd => pure (nothing t.line)
        | _ => node fuel true false
      return item :: (← dashes fuel)
    | _ => return []

def blockPart : (fuel : Nat) → (line : Nat) → Parse Node
  | 0, _ => throw exhausted
  | fuel + 1, line => do
    match (← next).symbol with
    | .key | .value | .blockEnd => return nothing line
    | _ => node fuel true true

def blockEntries : (fuel : Nat) → (start : Nat) → Parse (List (Node × Node))
  | 0, _ => throw exhausted
  | fuel + 1, start => do
    let t ← peek
    match t.symbol with
    | .key =>
      let key ← blockPart fuel t.line
      let u ← peek
      let value ← match u.symbol with
        | .value => blockPart fuel u.line
        | _ => pure (nothing u.line)
      return (key, value) :: (← blockEntries fuel start)
    | .blockEnd =>
      drop
      return []
    | _ => fail start t .noKey

def flowItems : (fuel : Nat) → (start : Nat) → (isFirst : Bool) → Parse (List Node)
  | 0, _, _ => throw exhausted
  | fuel + 1, start, isFirst => do
    let t ← peek
    if t.symbol = .flowSequenceEnd then
      drop
      return []
    else
      if !isFirst && t.symbol ≠ .flowEntry then fail start t .noBracket
      let t ← if isFirst then pure t else next
      match t.symbol with
      | .flowSequenceEnd =>
        drop
        return []
      | .key =>
        drop
        let pair ← flowPair fuel
        return .mapping (t.line + 1) Tag.map [pair] :: (← flowItems fuel start false)
      | _ =>
        let item ← node fuel false false
        return item :: (← flowItems fuel start false)

/-- A mapping of one entry without braces, after the mark of its key. A missing key takes the token in its place. -/
def flowPair : (fuel : Nat) → Parse (Node × Node)
  | 0 => throw exhausted
  | fuel + 1 => do
    let t ← peek
    let key ← match t.symbol with
      | .value | .flowEntry | .flowSequenceEnd => do
        drop
        pure (nothing t.line)
      | _ => node fuel false false
    let u ← peek
    let value ← match u.symbol with
      | .value => do
        let v ← next
        match v.symbol with
        | .flowEntry | .flowSequenceEnd => pure (nothing u.line)
        | _ => node fuel false false
      | _ => pure (nothing u.line)
    let _ ← peek
    return (key, value)

def flowEntries : (fuel : Nat) → (start : Nat) → (isFirst : Bool) → Parse (List (Node × Node))
  | 0, _, _ => throw exhausted
  | fuel + 1, start, isFirst => do
    let t ← peek
    if t.symbol = .flowMappingEnd then
      drop
      return []
    else
      if !isFirst && t.symbol ≠ .flowEntry then fail start t .noBrace
      let t ← if isFirst then pure t else next
      match t.symbol with
      | .flowMappingEnd =>
        drop
        return []
      | .key =>
        let u ← next
        let key ← match u.symbol with
          | .value | .flowEntry | .flowMappingEnd => pure (nothing u.line)
          | _ => node fuel false false
        let value ← flowValue fuel
        return (key, value) :: (← flowEntries fuel start false)
      | _ =>
        let key ← node fuel false false
        let u ← peek
        return (key, nothing u.line) :: (← flowEntries fuel start false)

def flowValue : (fuel : Nat) → Parse Node
  | 0 => throw exhausted
  | fuel + 1 => do
    let t ← peek
    match t.symbol with
    | .value =>
      let u ← next
      match u.symbol with
      | .flowEntry | .flowMappingEnd => return nothing u.line
      | _ => node fuel false false
    | _ => return nothing t.line

end

def usualHandles : List (Bytes × Bytes) := [([33], [33]), ([33, 33], Tag.longForm)]

def directives : (fuel : Nat) → (versioned : Bool) → Parse Unit
  | 0, _ => throw exhausted
  | fuel + 1, versioned => do
    let t ← peek
    match t.symbol with
    | .version major minor =>
      if versioned then fail 0 t .repeatedVersion
      if major ≠ 1 || minor ≠ 1 then fail 0 t .otherVersion
      drop
      directives fuel true
    | .handle name expansion =>
      if ((← get).handles.lookup name).isSome then fail 0 t .repeatedHandle
      modify fun p => { p with handles := p.handles ++ [(name, expansion)] }
      drop
      directives fuel versioned
    | _ => modify fun p => { p with handles := p.handles ++ usualHandles }

/-- The first document of a text, none if there is no text. What follows it does not matter. -/
def document (fuel : Nat) : Parse (Option Document) := do
  let _ ← peek
  let t ← next
  let root ← match t.symbol with
    | .streamEnd => pure none
    | .version .. | .handle .. | .documentStart =>
      directives fuel false
      let t ← peek
      if t.symbol ≠ .documentStart then fail 0 t .noDocumentStart
      let u ← next
      match u.symbol with
      | .version .. | .handle .. | .documentStart | .documentEnd | .streamEnd => pure (some (nothing u.line))
      | _ => some <$> node fuel true false
    | _ =>
      directives fuel false
      some <$> node fuel true false
  match root with
  | none => return none
  | some root =>
    let _ ← peek
    return some ⟨root, (← get).anchored⟩

end Parse

def read (s : Bytes) : Except Fault (Option Document) :=
  let cursor := Cursor.ofText s
  ((Parse.document (8 * cursor.total + 64)).run { lexer := { cursor } }).map (·.1)

end Deadwood.Yaml
