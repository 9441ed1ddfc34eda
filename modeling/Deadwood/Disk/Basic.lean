import Deadwood.Disk.Path

/-! Files and directories as a value, with the operations of a file system and their errors. -/

namespace Deadwood

inductive FileCause
  | notFound
  | notDirectory
  | isDirectory
  | present
  | nameTooLong
  | invalid
  | other (message : Bytes)
  deriving DecidableEq, Repr

structure FileError where
  operation : Bytes
  path : Bytes
  cause : FileCause
  deriving DecidableEq, Repr

namespace FileError

def causeText : FileCause → Bytes
  | .notFound => bytes "no such file or directory"
  | .notDirectory => bytes "not a directory"
  | .isDirectory => bytes "is a directory"
  | .present => bytes "file exists"
  | .nameTooLong => bytes "file name too long"
  | .invalid => bytes "invalid argument"
  | .other message => message

def message (e : FileError) : Bytes := e.operation ++ bytes " " ++ e.path ++ bytes ": " ++ causeText e.cause

def onOpen (path : Bytes) (cause : FileCause) : FileError := ⟨bytes "open", path, cause⟩

end FileError

inductive DiskNode
  | directory
  | file (content : Bytes)
  deriving DecidableEq, Repr

/-- What a disk holds, by the names that lead to it, and the directory that relative paths start from. -/
structure Disk where
  current : List Bytes
  nodes : List (List Bytes × DiskNode) := []
  deriving DecidableEq, Repr

namespace Disk

def node? (d : Disk) (place : List Bytes) : Option DiskNode :=
  if place = [] then some .directory else (d.nodes.find? (·.1 = place)).map (·.2)

/-- What a file holds; one that is not there holds nothing. -/
def contentAt (d : Disk) (place : List Bytes) : Bytes :=
  match d.node? place with
  | some (.file content) => content
  | _ => []

def set (d : Disk) (place : List Bytes) (node : DiskNode) : Disk :=
  if place = [] then d
  else if (d.node? place).isSome then
    { d with nodes := d.nodes.map fun (p, old) => (p, if p = place then node else old) }
  else { d with nodes := d.nodes ++ [(place, node)] }

def enter (place : List Bytes) (name : Bytes) : List Bytes :=
  if name = bytes "." then place else if name = bytes ".." then place.dropLast else place ++ [name]

def longestName : Nat := 255
def longestPath : Nat := 4095

def look (d : Disk) (place : List Bytes) (name : Bytes) : Except FileCause (Option DiskNode) :=
  if longestName < name.length then .error .nameTooLong else .ok (d.node? (enter place name))

def follow (d : Disk) (place : List Bytes) : List Bytes → Except FileCause (List Bytes)
  | [] => .ok place
  | name :: names =>
    match d.look place name with
    | .error cause => .error cause
    | .ok (some .directory) => follow d (enter place name) names
    | .ok (some (.file _)) => .error .notDirectory
    | .ok none => .error .notFound

def names (path : Bytes) : List Bytes := (Bytes.split Path.slash path).filter (· ≠ [])

def isDots (name : Bytes) : Bool := name = bytes "." || name = bytes ".."

/-- The directory that a path leads through and the last name of the path, or no name where the path can only mean
that directory itself. -/
def approach (d : Disk) (path : Bytes) : Except FileCause (List Bytes × Option Bytes) :=
  let start := if path.head? = some Path.slash then [] else d.current
  if path = [] then .error .notFound
  else if path.contains 0 then .error .invalid
  else if longestPath < path.length then .error .nameTooLong
  else match (names path).getLast? with
    | none => .ok (start, none)
    | some last =>
      match d.follow start (names path).dropLast with
      | .error cause => .error cause
      | .ok place => .ok (if isDots last then (enter place last, none) else (place, some last))

def endsInSlash (path : Bytes) : Bool := path.getLast? = some Path.slash

/-- What a path leads to. A final slash asks for a directory. -/
def find (d : Disk) (path : Bytes) : Except FileCause DiskNode := do
  match ← d.approach path with
  | (_, none) => .ok .directory
  | (place, some name) =>
    match ← d.look place name with
    | none => .error .notFound
    | some .directory => .ok .directory
    | some (.file content) => if endsInSlash path then .error .notDirectory else .ok (.file content)

def read (d : Disk) (path : Bytes) : Except FileError Bytes :=
  match d.find path with
  | .error cause => .error (.onOpen path cause)
  | .ok .directory => .error ⟨bytes "read", path, .isDirectory⟩
  | .ok (.file content) => .ok content

/-- The place of a file to write, which need not be there yet, and what it holds. -/
def target (d : Disk) (path : Bytes) : Except FileCause (List Bytes × Bytes) := do
  match ← d.approach path with
  | (_, none) => .error .isDirectory
  | (place, some name) =>
    if endsInSlash path then .error .isDirectory
    else match ← d.look place name with
      | none => .ok (enter place name, [])
      | some .directory => .error .isDirectory
      | some (.file content) => .ok (enter place name, content)

def change (d : Disk) (path : Bytes) (f : Bytes → Bytes) : Except FileError Disk :=
  match d.target path with
  | .error cause => .error (.onOpen path cause)
  | .ok (place, content) => .ok (d.set place (.file (f content)))

def append (d : Disk) (path content : Bytes) : Except FileError Disk := d.change path (· ++ content)

/-- The beginnings of a path that end with a slash before a further name, the shortest first, given what was passed
in reverse. -/
def ancestors (passed : Bytes) : Bytes → List Bytes
  | [] => []
  | b :: rest =>
    let later := ancestors (b :: passed) rest
    if !Path.isSlash b && passed.head?.any Path.isSlash then passed.reverse :: later else later

def addDirectory (d : Disk) (path : Bytes) : Except FileCause Disk := do
  match ← d.approach path with
  | (_, none) => .error .present
  | (place, some name) =>
    match ← d.look place name with
    | some _ => .error .present
    | none => .ok (d.set (enter place name) .directory)

/-- Makes one directory, which may be there after all. -/
def makeDirectory (d : Disk) (path : Bytes) : Except FileError Disk :=
  match d.addDirectory path, d.find path with
  | .ok d, _ => .ok d
  | .error _, .ok .directory => .ok d
  | .error cause, _ => .error ⟨bytes "mkdir", path, cause⟩

/-- Makes the directory of the first path in one of the second, that in one of the third, and so on, from the first
that is there. -/
def makeChain (d : Disk) : List Bytes → Except FileError Disk
  | [] => .ok d
  | path :: parents =>
    match d.find path with
    | .ok .directory => .ok d
    | .ok (.file _) => .error ⟨bytes "mkdir", path, .notDirectory⟩
    | .error _ => do (← makeChain d parents).makeDirectory path

def makeDirectories (d : Disk) (path : Bytes) : Except FileError Disk :=
  d.makeChain (path :: (ancestors [] path).reverse)

def addFile (d : Disk) (place : List Bytes) (content : Bytes) : Disk :=
  let parents := (List.range place.length).map fun n => place.take n
  (parents.foldl (fun d p => if (d.node? p).isSome then d else d.set p .directory) d).set place (.file content)

end Disk

end Deadwood
