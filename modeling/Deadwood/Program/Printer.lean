import Deadwood.Program.Basic
import Deadwood.Digest.Basic
import Deadwood.Digest.Keccak

/-! Program text as it is written, and the digest of a program. -/

namespace Deadwood

namespace Marker

def start : Bytes := bytes "#start_function"
def finish : Bytes := bytes "#end_function"
def ints : Bytes := bytes "int-list:"
def floats : Bytes := bytes "float-list:"

end Marker

namespace Function

def header (f : Function) : Bytes :=
  let params := f.params.map fun p => p.type ++ bytes " " ++ p.name
  f.returnType ++ bytes " " ++ f.name ++ bytes "(" ++ Bytes.join (bytes ", ") params ++ bytes "):"

def declaration (marker : Bytes) (names : List Bytes) : Bytes :=
  Bytes.dropEndWhile (· == Bytes.space) (marker ++ bytes " " ++ Bytes.join (bytes ", ") names)

def declarations (f : Function) : List Bytes :=
  [declaration Marker.ints f.ints, declaration Marker.floats f.floats]

/-- The line of an instruction: labels stand at the margin, all else is indented. -/
def instructionLine (i : Instruction) : Bytes :=
  if i.op = .label then i.text else bytes "    " ++ i.text

def textLines (f : Function) : List Bytes :=
  [Marker.start, f.header] ++ f.declarations ++ f.body.map instructionLine ++ [Marker.finish]

end Function

namespace Program

def unlines (lines : List Bytes) : Bytes := lines.flatMap (· ++ [Bytes.newline])

def text (p : Program) : Bytes :=
  Bytes.join [Bytes.newline] (p.functions.map fun f => unlines f.textLines)

def pieces (p : Program) : List Bytes :=
  [[Bytes.newline]].intercalate (p.functions.map fun f => f.textLines.map (· ++ [Bytes.newline]))

/-- What the digest of a program is taken of: headers, declarations and instructions with their lines. -/
def canonical (p : Program) : Bytes :=
  unlines (p.functions.flatMap fun f =>
    f.header :: f.declarations ++ f.body.map fun i => Bytes.ofInt i.line ++ bytes ":" ++ i.text)

def digest (p : Program) : Digest := .ofBytes (Keccak.sum p.canonical)

end Program

end Deadwood
