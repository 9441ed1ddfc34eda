import Deadwood.Text.Bytes

/-! Paths of files: their parts, their plainest form, and names made from them. -/

namespace Deadwood.Path

def slash : UInt8 := 47

def isSlash (b : UInt8) : Bool := b == slash

def base (p : Bytes) : Bytes :=
  if p = [] then bytes "."
  else
    let last := Bytes.takeEndWhile (!isSlash ·) (p.dropEndWhile isSlash)
    if last = [] then bytes "/" else last

def extension (p : Bytes) : Bytes :=
  let last := Bytes.takeEndWhile (!isSlash ·) p
  if last.contains 46 then 46 :: Bytes.takeEndWhile (· != 46) last else []

/-- One more part of a path, after the parts so far in reverse. -/
def descend (rooted : Bool) (parts : List Bytes) (part : Bytes) : List Bytes :=
  if part = [] ∨ part = bytes "." then parts
  else if part = bytes ".." then
    match parts with
    | [] => if rooted then [] else [part]
    | top :: rest => if top = bytes ".." then part :: parts else rest
  else part :: parts

/-- The shortest path to the same place, found from the text alone. -/
def clean (p : Bytes) : Bytes :=
  let rooted := p.head? == some slash
  let parts := ((Bytes.split slash p).foldl (descend rooted) []).reverse
  let joined := Bytes.join [slash] parts
  if rooted then slash :: joined else if parts = [] then bytes "." else joined

def join (directory name : Bytes) : Bytes :=
  if directory = [] then clean name
  else if name = [] then clean directory
  else clean (directory ++ [slash] ++ name)

def directory (p : Bytes) : Bytes := clean (p.dropEndWhile (!isSlash ·))

/-- A path with a leading tilde replaced by the home directory: the one asked for, or else the account's own. -/
def expandHome (home account : Bytes) (p : Bytes) : Bytes :=
  let home := if home = [] then account else home
  match p with
  | 126 :: b :: rest => if (b = slash || b = 92) && home ≠ [] then clean (home ++ b :: rest) else clean p
  | p => clean p

def optimizedName (p : Bytes) : Bytes :=
  let name := base p
  (Bytes.before? (extension name) name).getD name ++ bytes ".opt.ir"

end Deadwood.Path
