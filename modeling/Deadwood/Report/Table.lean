import Deadwood.Text.Blank
import Deadwood.Text.Width

/-!
Tables in plain text. A column is as wide as its widest cell; headings are centred, numbers stand to the right and all
else to the left. Long cells are broken between words, so that the lines differ as little as possible.
-/

namespace Deadwood.Table

/-- The length of the order to a terminal, for a colour or to clear a line, that follows an escape character. -/
def orderLength : Bytes → Nat
  | 91 :: rest =>
    let numbers := rest.takeWhile fun b => Bytes.isDigit b || b == 59
    let wellFormed := numbers = [] || (Bytes.split 59 numbers).all fun n => 1 ≤ n.length && n.length ≤ 3
    match rest.drop numbers.length with
    | last :: _ => if wellFormed && (last == 109 || last == 124 || last == 75) then numbers.length + 2 else 0
    | [] => 0
  | _ => 0

/-- A text without orders to the terminal, after `skip` bytes of one. -/
def shownFrom (skip : Nat) : Bytes → Bytes
  | [] => []
  | b :: rest =>
    match skip with
    | n + 1 => shownFrom n rest
    | 0 =>
      if b = 27 ∧ 0 < orderLength rest then shownFrom (orderLength rest) rest else b :: shownFrom 0 rest

def shownWidth (s : Bytes) : Nat := (shownFrom 0 s).width

def wrapWidth : Nat := 30

def lineWidth (words : List Bytes) : Nat := words.foldl (fun n word => n + word.width) 0 + (words.length - 1)

structure Plan where
  words : List Bytes
  cost : Nat
  lines : List (List Bytes)

/-- The cost of a line is the square of what it lacks; a line that is too long costs extra. -/
def lineCost (limit : Nat) (line : List Bytes) : Nat :=
  let gap := (limit : Int) - lineWidth line
  gap.natAbs * gap.natAbs + if limit < lineWidth line then 100000 else 0

def better (best : Option Plan) (p : Plan) : Option Plan :=
  match best with
  | some b => if p.cost < b.cost then some p else best
  | none => some p

/-- The best plan for words of which all shorter endings have been planned, the longest first. -/
def planWord (limit : Nat) (word : Bytes) (endings : List Plan) : Plan :=
  let words := word :: ((endings.head?.map (·.words)).getD [])
  if lineWidth words ≤ limit then ⟨words, 0, [words]⟩
  else
    let plans := endings.zipIdx.map fun (rest, i) =>
      let line := words.take (i + 1)
      (⟨words, lineCost limit line + rest.cost, line :: rest.lines⟩ : Plan)
    (plans.foldl better none).getD ⟨words, 0, [words]⟩

/-- A text broken into lines of at most `limit` columns, or as many as its longest word has. -/
def wrap (limit : Nat) (s : Bytes) : List Bytes :=
  let words := Bytes.split Bytes.space (s.map fun b => if b = Bytes.newline then Bytes.space else b)
  let limit := (words.map Bytes.width).foldl max limit
  let plans := words.foldr (fun word endings => planWord limit word endings :: endings) []
  ((plans.head?.map (·.lines)).getD []).map (Bytes.join [Bytes.space])

/-- The lines of a cell, and the columns it asks for. A broken cell asks for the full width. -/
structure Cell where
  lines : List Bytes
  width : Nat

def Cell.ofText (s : Bytes) : Cell :=
  let widest := min wrapWidth (((Bytes.split Bytes.newline s).map shownWidth).foldl max 0)
  let lines := wrap widest s
  ⟨lines, (lines.map shownWidth).foldl max widest⟩

def groupsOfThree : Bytes → Bool
  | [] => true
  | 44 :: a :: b :: c :: rest => [a, b, c].all Bytes.isDigit && groupsOfThree rest
  | _ => false

/-- Whole digits, or digits in groups of three with commas. -/
def isWhole (s : Bytes) : Bool :=
  let first := s.takeWhile Bytes.isDigit
  first ≠ [] && (s.all Bytes.isDigit || (first.length ≤ 3 && groupsOfThree (s.drop first.length)))

def isNumber (s : Bytes) : Bool :=
  let body := match s with
    | 45 :: rest => rest
    | rest => rest
  let whole := body.takeWhile (· != 46)
  match body.drop whole.length with
  | [] => isWhole whole
  | _ :: decimals => isWhole whole && decimals ≠ [] && decimals.all Bytes.isDigit

def blanks (n : Nat) : Bytes := List.replicate n Bytes.space

def padLeft (width : Nat) (s : Bytes) : Bytes := blanks (width - shownWidth s) ++ s

def padRight (width : Nat) (s : Bytes) : Bytes := s ++ blanks (width - shownWidth s)

def centre (width : Nat) (s : Bytes) : Bytes :=
  let gap := width - shownWidth s
  blanks (gap / 2) ++ s ++ blanks (gap - gap / 2)

def align (width : Nat) (s : Bytes) : Bytes := if isNumber s.trim then padLeft width s else padRight width s

def ruler (widths : List Nat) : Bytes :=
  bytes "+" ++ (widths.flatMap fun w => List.replicate (w + 2) 45 ++ bytes "+") ++ bytes "\n"

def rowLine (place : Nat → Bytes → Bytes) (widths : List Nat) (cells : List Bytes) : Bytes :=
  bytes "|" ++ ((widths.zip cells).flatMap fun (w, s) => bytes " " ++ place w s ++ bytes " |") ++ bytes "\n"

/-- A row takes as many lines as its longest cell; the others are filled up with blanks. -/
def row (widths : List Nat) (cells : List Cell) : Bytes :=
  let height := (cells.map (·.lines.length)).foldl max 0
  (List.range height).flatMap fun i => rowLine align widths (cells.map fun cell => cell.lines[i]?.getD (bytes "  "))

def text (headings : List Bytes) (rows : List (List Bytes)) : Bytes :=
  let cells := rows.map fun r => r.map Cell.ofText
  let widths := headings.zipIdx.map fun (heading, i) =>
    (cells.map fun r => (r[i]?.map (·.width)).getD 0).foldl max (shownWidth heading)
  ruler widths ++ rowLine centre widths headings ++ ruler widths ++ (cells.flatMap (row widths)) ++ ruler widths

end Deadwood.Table
