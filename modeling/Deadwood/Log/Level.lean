import Deadwood.Text.Bytes

/-! Levels of log records. Higher ranks are more severe; ranks between the named ones are allowed. -/

namespace Deadwood.Log

structure Level where
  rank : Int
  deriving DecidableEq, Repr

namespace Level

def trace : Level := ⟨-8⟩
def debug : Level := ⟨-4⟩
def info : Level := ⟨0⟩
def warn : Level := ⟨4⟩
def error : Level := ⟨8⟩
def crit : Level := ⟨12⟩

instance : LE Level := ⟨fun a b => a.rank ≤ b.rank⟩

instance (a b : Level) : Decidable (a ≤ b) := inferInstanceAs (Decidable (a.rank ≤ b.rank))

/-- The least level shown at a verbosity: 0 shows the critical ones only, 5 and above show all. -/
def ofVerbosity (n : Int) : Level :=
  if n ≤ 0 then crit
  else if n = 1 then error
  else if n = 2 then warn
  else if n = 3 then info
  else if n = 4 then debug
  else trace

def named : List (Level × Bytes) := [
  (trace, bytes "trace"), (debug, bytes "debug"), (info, bytes "info"), (warn, bytes "warn"),
  (error, bytes "error"), (crit, bytes "crit")]

def name (l : Level) : Bytes := ((named.find? (·.1 = l)).map (·.2)).getD (bytes "unknown")

def ofName? (s : Bytes) : Option Level := (named.find? (·.2 = s)).map (·.1)

def aligned (l : Level) : Bytes :=
  if l = trace then bytes "TRACE"
  else if l = debug then bytes "DEBUG"
  else if l = info then bytes "INFO "
  else if l = warn then bytes "WARN "
  else if l = error then bytes "ERROR"
  else if l = crit then bytes "CRIT "
  else bytes "unknown level"

def colour (l : Level) : Nat :=
  if l = trace then 34
  else if l = debug then 36
  else if l = info then 32
  else if l = warn then 33
  else if l = error then 31
  else if l = crit then 35
  else 0

end Level

end Deadwood.Log
