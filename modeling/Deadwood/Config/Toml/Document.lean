import Deadwood.Config.Toml.Syntax

/-!
The tables that a settings file describes. Headings, entries and tables in braces are taken in the order in which they
stand, and the first that stands in another's place is refused.
-/

namespace Deadwood.Toml

/-- Numbers and dates are kept as they were written. -/
inductive Value
  | datetime (source : Bytes)
  | float (source : Bytes)
  | integer (source : Bytes)
  | boolean (b : Bool)
  | text (s : Bytes)
  | array (items : List Value)

mutual

/-- A table with the line where it begins. One that is only mentioned, as the parent of another or in braces, may
still get a heading of its own. -/
inductive Table
  | mk (line : Nat) (isHeaded : Bool) (fields : List (Bytes × Field))

inductive Field
  | value (line : Nat) (v : Value)
  | table (t : Table)
  | tables (first : Table) (others : List Table)

end

inductive Fault
  | unreadable
  | badEscape
  | keyOverKey (key : Bytes) (first : Nat)
  | keyOverTable (key : Bytes) (first : Nat)
  | keyOverList (key : Bytes)
  | pathOverKey (key : Bytes) (first : Nat)
  | tableOverKey (isList : Bool) (name : Bytes) (first : Nat)
  | tableOverTable (isList : Bool) (name : Bytes) (first : Nat)
  | tableOverList (name : Bytes) (first : Nat)

abbrev Checked (α : Type) := Except (Nat × Fault) α

namespace Table

def line : Table → Nat
  | .mk line _ _ => line

def isHeaded : Table → Bool
  | .mk _ isHeaded _ => isHeaded

def fields : Table → List (Bytes × Field)
  | .mk _ _ fields => fields

def empty (line : Nat) (isHeaded : Bool) : Table := .mk line isHeaded []

def find? (t : Table) (name : Bytes) : Option Field := (t.fields.find? (·.1 = name)).map (·.2)

def putField (name : Bytes) (f : Field) : List (Bytes × Field) → List (Bytes × Field)
  | [] => [(name, f)]
  | field :: rest => if field.1 = name then (name, f) :: rest else field :: putField name f rest

def put (t : Table) (name : Bytes) (f : Field) : Table := .mk t.line t.isHeaded (putField name f t.fields)

end Table

namespace Field

def line : Field → Nat
  | .value line _ => line
  | .table t => t.line
  | .tables first _ => first.line

def mapLast (f : Table → Table) (first : Table) (others : List Table) : Field :=
  match others.getLast? with
  | none => .tables (f first) []
  | some last => .tables first (others.dropLast ++ [f last])

end Field

def unescape : UInt8 → Option UInt8
  | 98 => some 8
  | 116 => some 9
  | 110 => some 10
  | 102 => some 12
  | 114 => some 13
  | 34 => some 34
  | 92 => some 92
  | _ => none

def hexDigit? (b : UInt8) : Option Nat :=
  if Bytes.isDigit b then some (b.toNat - 48)
  else if 97 ≤ b && b ≤ 102 then some (b.toNat - 87)
  else if 65 ≤ b && b ≤ 70 then some (b.toNat - 55)
  else none

def point? (digits : Bytes) : Option Nat :=
  (digits.foldl (fun n b => n.bind fun n => (hexDigit? b).map (n * 16 + ·)) (some 0)).filter fun n =>
    n < 0xD800 || (0xE000 ≤ n && n < 0x110000)

def resolve : Bytes → Option Bytes
  | [] => some []
  | 92 :: 117 :: a :: b :: c :: d :: rest => do
    let point ← point? [a, b, c, d]
    return Rune.encode point ++ (← resolve rest)
  | 92 :: 85 :: a :: b :: c :: d :: e :: f :: g :: h :: rest => do
    let point ← point? [a, b, c, d, e, f, g, h]
    return Rune.encode point ++ (← resolve rest)
  | 92 :: letter :: rest => do return (← unescape letter) :: (← resolve rest)
  | b :: rest => (resolve rest).map (b :: ·)

def Quoted.text (q : Quoted) : Checked Bytes :=
  match resolve q.source with
  | some s => .ok s
  | none => .error (q.left, .badEscape)

def Key.name : Key → Checked Bytes
  | .bare name => .ok name
  | .quoted name => name.text

/-- The table for a heading or for braces, in the place where it stands: a new one, or one that was only mentioned, with
its fields. -/
def Table.begin (t : Table) (left line : Nat) (isHeaded : Bool) (source name : Bytes) : Checked Table :=
  match t.find? name with
  | none => .ok (.empty line isHeaded)
  | some (.tables first _) => .error (left, .tableOverList source first.line)
  | some (.value first _) => .error (left, .tableOverKey false source first)
  | some (.table old) =>
    if old.isHeaded then .error (left, .tableOverTable false source old.line) else .ok (.mk line isHeaded old.fields)

def Table.beginItem (t : Table) (left : Nat) (source name : Bytes) : Checked (Table → Field) :=
  match t.find? name with
  | none => .ok fun item => .tables item []
  | some (.tables first others) => .ok fun item => .tables first (others ++ [item])
  | some (.table old) => .error (left, .tableOverTable true source old.line)
  | some (.value first _) => .error (left, .tableOverKey true source first)

def Table.add (t : Table) (left line : Nat) (key : Bytes) (v : Value) : Checked Table :=
  match t.find? key with
  | none => .ok (t.put key (.value line v))
  | some (.value first _) => .error (left, .keyOverKey key first)
  | some (.table old) => .error (left, .keyOverTable key old.line)
  | some (.tables _ _) => .error (left, .keyOverList key)

section Placing

variable (lineOf : Nat → Nat)

mutual

/-- The value of a key. Tables in braces go under the key at once, in a list if there are brackets around them; there is
no other value then. -/
def placeTerm (inList : Bool) (key : Bytes) (t : Table) : Term → Checked (Table × Option Value)
  | .datetime source => .ok (t, some (.datetime source))
  | .float source => .ok (t, some (.float source))
  | .integer source => .ok (t, some (.integer source))
  | .boolean b => .ok (t, some (.boolean b))
  | .literal s => .ok (t, some (.text s))
  | .quoted q => do return (t, some (.text (← q.text)))
  | .array items => do
    let (t, values) ← placeItems key t items
    return (t, values.map .array)
  | .table left entries => do
    if inList then
      let field ← t.beginItem left key key
      let item ← placeEntries inList (.empty (lineOf left) false) entries
      return (t.put key (field item), none)
    else
      let inner ← t.begin left (lineOf left) false key key
      let inner ← placeEntries inList inner entries
      return (t.put key (.table inner), none)

def placeItems (key : Bytes) (t : Table) : List Term → Checked (Table × Option (List Value))
  | [] => .ok (t, some [])
  | item :: rest => do
    let (t, value) ← placeTerm true key t item
    let (t, values) ← placeItems key t rest
    return (t, do return (← value) :: (← values))

def placeEntry (inList : Bool) (t : Table) : Entry → Checked Table
  | .mk key value left => do
    let key ← key.name
    let (t, value) ← placeTerm inList key t value
    match value with
    | some v => t.add left (lineOf left) key v
    | none => return t

def placeEntries (inList : Bool) (t : Table) : List Entry → Checked Table
  | [] => .ok t
  | e :: rest => do placeEntries inList (← placeEntry inList t e) rest

end

end Placing

/-- Changes what stands under a path, whose parents are made where they are missing. In a list the last table counts. -/
def Table.descend (left line : Nat) (change : Table → Checked Table) : Table → List Bytes → Checked Table
  | t, [] => change t
  | t, name :: path =>
    match t.find? name with
    | none => do return t.put name (.table (← descend left line change (.empty line false) path))
    | some (.table inner) => do return t.put name (.table (← descend left line change inner path))
    | some (.tables first others) => do
      let last ← descend left line change (others.getLast?.getD first) path
      return t.put name (Field.mapLast (fun _ => last) first others)
    | some (.value first _) => .error (left, .pathOverKey name first)

structure Section where
  heading : Heading
  entries : List Entry

def sections : List Statement → List Entry × List Section
  | [] => ([], [])
  | .entry e :: rest =>
    let (entries, found) := sections rest
    (e :: entries, found)
  | .heading h :: rest =>
    let (entries, found) := sections rest
    ([], ⟨h, entries⟩ :: found)

def Table.addSection (lineOf : Nat → Nat) (t : Table) (s : Section) : Checked Table := do
  let left := s.heading.left
  let line := lineOf left
  let path ← s.heading.path.mapM Key.name
  match path.getLast? with
  | none => .ok t
  | some name =>
    t.descend left line (fun parent => do
      if s.heading.isList then
        let field ← parent.beginItem left s.heading.source name
        return parent.put name (field (← placeEntries lineOf false (.empty line true) s.entries))
      else
        let inner ← parent.begin left line true s.heading.source name
        return parent.put name (.table (← placeEntries lineOf false inner s.entries))) path.dropLast

/-- The line reached when `left` bytes of a text remain. Every line break byte ends a line. -/
def lineOf (s : Bytes) (left : Nat) : Nat := 1 + (s.take (s.length - left)).countP isBreak

/-- The line blamed when reading gets stuck: a newline where it does so belongs to the next line. -/
def stuckLine (s : Bytes) (left : Nat) : Nat := 1 + (s.take (s.length - left + 1)).count 10

def read (source : Bytes) : Except (Nat × Fault) Table :=
  let s := source.scrubbed
  match Syntax.document.run s with
  | (none, left) => .error (stuckLine s left, .unreadable)
  | (some statements, _) =>
    let (entries, found) := sections statements
    let outcome : Checked Table := do
      found.foldlM (Table.addSection (lineOf s)) (← placeEntries (lineOf s) false (.empty 1 true) entries)
    outcome.mapError fun (left, fault) => (lineOf s left, fault)

end Deadwood.Toml
