import Deadwood.Log.Record
import Deadwood.Text.Quoted

/-! Log lines for a reader at a terminal. -/

namespace Deadwood.Log.Terminal

def needsQuotes (s : Bytes) : Bool :=
  s.isEmpty || s.any fun b => b == 32 || b == 61 || b == 34 || b == 9 || b == 10

def quoteIfNeeded (s : Bytes) : Bytes := if needsQuotes s then s.quote else s

def listText (items : List Bytes) : Bytes := bytes "[" ++ Bytes.join (bytes " ") items ++ bytes "]"

def boolText (b : Bool) : Bytes := if b then bytes "true" else bytes "false"

def timeText (t : Instant) : Bytes := t.civil.stamp ++ bytes "+0000"

def value : Value → Bytes
  | .text s | .error s | .policy s => quoteIfNeeded s
  | .int n => Bytes.ofInt n
  | .double x => x.toFixed 3
  | .bool b => boolText b
  | .duration d => d.text
  | .time t => timeText t
  | .absent => bytes "<nil>"
  | .digest d => quoteIfNeeded d.brief
  | .opcode op => quoteIfNeeded op.mnemonic
  | .ints ns => quoteIfNeeded (listText (ns.map Bytes.ofInt))
  | .texts ss => quoteIfNeeded (listText ss)

def messageWidth : Nat := 40

def paint (colour : Bool) (level : Level) (s : Bytes) : Bytes :=
  if colour then bytes "\x1b[" ++ Bytes.ofNat level.colour ++ bytes "m" ++ s ++ bytes "\x1b[0m" else s

def clock (t : Instant) : Bytes := t.civil.monthDay ++ bytes "|" ++ t.civil.clockMillis

def line (colour : Bool) (r : Record) : Bytes :=
  let message := if r.attributes = [] then r.message else r.message.padEnd messageWidth 32
  paint colour r.level r.level.aligned ++ bytes " [" ++ clock r.time ++ bytes "] " ++ message ++
    (r.attributes.flatMap fun a => bytes " " ++ paint colour r.level a.key ++ bytes "=" ++ value a.value) ++
    bytes "\n"

end Deadwood.Log.Terminal
