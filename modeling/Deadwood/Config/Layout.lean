import Deadwood.Config.LoadError
import Deadwood.Config.Yaml.Node
import Deadwood.Text.Base64

/-!
Configuration in files laid out by indentation. Values that do not fit are collected, so that all of them can be told at
once; other faults end reading.
-/

namespace Deadwood

namespace Yaml

/-- The whole number that a value stands for. Fractions are cut off, and what is too small for a word becomes the
least. -/
def Plain.word? : Plain → Option Int
  | .int n => if Integer.fits n then some n else none
  | .float .nan => none
  | .float (.infinite negative) => if negative then some Integer.least else none
  | .float x =>
    if Integer.halfSize < x.truncate then none
    else if Integer.fits x.truncate then some x.truncate
    else some Integer.least
  | _ => none

def repeatedKeys : List (Node × Node) → List (Nat × LayoutFault)
  | [] => []
  | (key, _) :: rest =>
    ((rest.filter fun (again, _) => key.sameKey again).map fun (again, _) =>
      (again.line, .repeatedKey again.text key.line)) ++ repeatedKeys rest

def sources : Node → List Node
  | .sequence _ _ items => items
  | n => [n]

end Yaml

/-- A configuration being filled, with the faults found so far, the number of values that were looked at, and how many
of them were reached through an alias. -/
structure Filling where
  config : Config
  faults : List (Nat × LayoutFault) := []
  seen : Nat := 1
  aliased : Nat := 0

abbrev Fill := StateT Filling (Except LoadError)

structure Trail where
  anchored : List (Nat × Yaml.Node)
  aliases : List Nat := []

namespace Trail

def find (trail : Trail) : Yaml.Node → Option Yaml.Node
  | .reference _ _ _ anchor => trail.anchored.lookup anchor
  | n => some n

end Trail

namespace Fill

open Yaml (Node Plain)

def fail {α : Type} (fault : Yaml.Fault) : Fill α := throw (.unreadable fault)

def blame (faults : List (Nat × LayoutFault)) : Fill Unit := modify fun f => { f with faults := f.faults ++ faults }

def misfit (line : Nat) (tag value into : Bytes) : Fill Unit := blame [(line, .type tag value into)]

/-- Counts a value. Files that consist of little but aliases are not read to the end. -/
def count (trail : Trail) : Fill Unit := do
  modify fun f => { f with seen := f.seen + 1, aliased := f.aliased + if trail.aliases = [] then 0 else 1 }
  let f ← get
  if 100 < f.aliased && 1000 < f.seen && 99 * f.seen < 100 * f.aliased then fail .tooManyAliases

/-- The value that a node is or stands for, with the trail that leads to it. No alias may lead to itself. -/
def enter (trail : Trail) (n : Node) : Fill (Trail × Node) := do
  count trail
  match n with
  | .reference _ name number anchor =>
    if trail.aliases.contains number then fail (.endlessAnchor name)
    let trail := { trail with aliases := number :: trail.aliases }
    count trail
    match trail.anchored.lookup anchor with
    | some target => return (trail, target)
    | none => fail (.unknownAnchor name)
  | n => return (trail, n)

def scalar (tag value : Bytes) : Fill (Plain × Bytes) := do
  match Plain.ofTagged tag value with
  | .error fault => fail fault
  | .ok plain =>
    if tag = Yaml.Tag.binary then
      match Base64.decode? value with
      | some decoded => return (plain, decoded)
      | none => fail .badBinary
    else return (plain, value)

def misfitCollection (n : Node) (into : Bytes) : Fill Unit :=
  match n with
  | .sequence line tag _ => misfit line tag [] into
  | .mapping line tag entries =>
    if Yaml.repeatedKeys entries ≠ [] then blame (Yaml.repeatedKeys entries) else misfit line tag [] into
  | _ => pure ()

def text (trail : Trail) (n : Node) : Fill (Option Bytes) := do
  let (_, n) ← enter trail n
  match n with
  | .scalar _ tag value =>
    let (plain, value) ← scalar tag value
    return if plain = .null then none else some value
  | n =>
    misfitCollection n Slot.entry.type
    return none

/-- Fills a place with what a text stands for. Nothing leaves all but a list as it is. -/
def setScalar (slot : Slot) (line : Nat) (tag value : Bytes) : Fill Unit := do
  let (plain, text) ← scalar tag value
  let set (change : Config → Config) : Fill Unit := modify fun f => { f with config := change f.config }
  match slot, plain with
  | .intrinsics, .null => set fun c => { c with intrinsics := none }
  | _, .null => pure ()
  | .labels, _ =>
    if (LabelPolicy.ofName? text).isSome then set fun c => { c with labels := text } else throw (.policy text)
  | .entry, _ => set fun c => { c with entry := text }
  | .intrinsics, _ => misfit line tag value slot.type
  | slot, plain =>
    match plain.word? with
    | some n => set (slot.setInt n)
    | none => misfit line tag value slot.type

def setSlot (slot : Slot) (trail : Trail) (n : Node) : Fill Unit := do
  let (trail, n) ← enter trail n
  match slot, n with
  | .intrinsics, .sequence _ _ items =>
    let names ← items.filterMapM (text trail)
    modify fun f => { f with config := { f.config with intrinsics := some names } }
  | slot, .scalar line tag value => setScalar slot line tag value
  | slot, n => misfitCollection n slot.type

structure Shape where
  type : Bytes
  place : Bytes → Option (Trail → Node → Fill Unit)

def entries (shape : Shape) (trail : Trail) :
    List (Node × Node) → (given : Option (List Bytes)) → (filled : List Bytes) → Fill (Option (List Bytes))
  | [], given, _ => return given
  | (key, value) :: rest, given, filled => do
    if key.isMerge then entries shape trail rest given filled
    else match ← text trail key with
      | none => entries shape trail rest given filled
      | some name =>
        if given.any (·.contains name) then entries shape trail rest given filled
        else
          let given := given.map (name :: ·)
          match shape.place name with
          | none =>
            blame [(key.line, .unknown name shape.type)]
            entries shape trail rest given filled
          | some fill =>
            if filled.contains name then
              blame [(key.line, .repeatedField name shape.type)]
              entries shape trail rest given filled
            else
              fill trail value
              entries shape trail rest given (name :: filled)

def textKeys (trail : Trail) (entries : List (Node × Node)) : Fill (List Bytes) :=
  entries.filterMapM fun (key, _) => do
    let (_, n) ← enter trail key
    match n with
    | .scalar _ tag value =>
      let (plain, value) ← scalar tag value
      return if plain = .text then some value else none
    | _ => return none

/-- Takes over a mapping, and then what its last merge key says about keys that it does not have. -/
def mapping (shape : Shape) : (fuel : Nat) → Trail → (given : Option (List Bytes)) → Node → Fill (Option (List Bytes))
  | 0, _, _, _ => fail .tooManyAliases
  | fuel + 1, trail, given, n => do
    let (trail, n) ← enter trail n
    match n with
    | .mapping _ _ items =>
      if Yaml.repeatedKeys items ≠ [] then
        blame (Yaml.repeatedKeys items)
        return given
      let given ← entries shape trail items given []
      match items.reverse.find? (·.1.isMerge) with
      | none => return given
      | some (_, value) =>
        let known ← match given with
          | some known => pure known
          | none => textKeys trail items
        let known ← (Yaml.sources value).foldlM (fun known source => do
          if !(trail.find source).any Node.isMapping then fail .badMerge
          mapping shape fuel trail known source) (some known)
        return given.bind fun _ => known
    | .scalar line tag value =>
      let (plain, _) ← scalar tag value
      if plain ≠ .null then misfit line tag value shape.type
      return given
    | n =>
      misfitCollection n shape.type
      return given

def settings : Shape := ⟨Config.sectionType, fun key => (Slot.ofKey? key).map setSlot⟩

def file (fuel : Nat) : Shape :=
  ⟨Config.fileType, fun key =>
    if key = Config.heading.lower then some fun trail n => do let _ ← mapping settings fuel trail none n else none⟩

end Fill

namespace Config

/-- Takes over what an indented file says. Aliases may be followed in any order, but each only once on the way to a
value, so that the square of its size bounds how deep values lie. -/
def loadLayout (c : Config) (content : Bytes) : Except LoadError Config :=
  match Yaml.read content with
  | .error fault => .error (.unreadable fault)
  | .ok none => .ok c
  | .ok (some document) => do
    let fuel := (content.length + 2) * (content.length + 2)
    let (_, f) ← (Fill.mapping (Fill.file fuel) fuel { anchored := document.anchored } none document.root).run { config := c }
    if f.faults = [] then .ok f.config else .error (.layout f.faults)

end Config

end Deadwood
