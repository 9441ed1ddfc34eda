import Deadwood.Number.Integer
import Deadwood.Text.Quoted

/-!
Flags on a command line. A flag begins with one or two dashes; its value follows an equals sign or is the next
argument. Switches need no value. The first argument that is no flag ends them, as does a lone double dash, which is
dropped.
-/

namespace Deadwood

inductive FlagEffect (σ : Type)
  | switch (set : Bool → σ → σ)
  | text (set : Bytes → σ → σ)
  | integer (set : Int → σ → σ)
  | natural (set : Nat → σ → σ)

structure Flag (σ : Type) where
  name : Bytes
  effect : FlagEffect σ

inductive UsageError
  | syntaxFault (argument : Bytes)
  | undefined (name : Bytes)
  | noValue (name : Bytes)
  | value (text name : Bytes)
  | range (text name : Bytes)
  | switch (text name : Bytes)
  deriving DecidableEq, Repr

namespace UsageError

def message : UsageError → Bytes
  | .syntaxFault argument => bytes "bad flag syntax: " ++ argument
  | .undefined name => bytes "flag provided but not defined: -" ++ name
  | .noValue name => bytes "flag needs an argument: -" ++ name
  | .value text name => bytes "invalid value " ++ text.quote ++ bytes " for flag -" ++ name ++ bytes ": parse error"
  | .range text name =>
    bytes "invalid value " ++ text.quote ++ bytes " for flag -" ++ name ++ bytes ": value out of range"
  | .switch text name =>
    bytes "invalid boolean value " ++ text.quote ++ bytes " for -" ++ name ++ bytes ": parse error"

end UsageError

namespace Flag

def dash : UInt8 := 45
def equals : UInt8 := 61

def truths : List Bytes := ["1", "t", "T", "TRUE", "true", "True"].map bytes
def falsehoods : List Bytes := ["0", "f", "F", "FALSE", "false", "False"].map bytes

def bool? (s : Bytes) : Option Bool :=
  if truths.contains s then some true else if falsehoods.contains s then some false else none

def largest : Nat := Integer.wordSize - 1

def apply {σ : Type} (f : Flag σ) (value : Bytes) (options : σ) : Except UsageError σ :=
  match f.effect with
  | .text set => .ok (set value options)
  | .switch set =>
    match bool? value with
    | some b => .ok (set b options)
    | none => .error (.switch value f.name)
  | .integer set =>
    match Integer.readSpaced? value with
    | some n => if Integer.fits n then .ok (set n options) else .error (.range value f.name)
    | none => .error (.value value f.name)
  | .natural set =>
    match (if (Integer.sign value).2 = value then Integer.readSpaced? value else none) with
    | some n => if n.toNat ≤ largest then .ok (set n.toNat options) else .error (.range value f.name)
    | none => .error (.value value f.name)

def isFlag (argument : Bytes) : Bool := 2 ≤ argument.length && argument.head? == some dash

def body : Bytes → Bytes
  | 45 :: 45 :: rest => rest
  | 45 :: rest => rest
  | rest => rest

def parts (body : Bytes) : Bytes × Option Bytes :=
  let name := body.takeWhile (· != equals)
  (name, if name.length < body.length then some (body.drop (name.length + 1)) else none)

def parse {σ : Type} (flags : List (Flag σ)) (options : σ) : List Bytes → Except UsageError (σ × List Bytes)
  | [] => .ok (options, [])
  | argument :: rest =>
    if !isFlag argument then .ok (options, argument :: rest)
    else if argument = [dash, dash] then .ok (options, rest)
    else if [none, some dash, some equals].contains (body argument).head? then .error (.syntaxFault argument)
    else
      let (name, value?) := parts (body argument)
      match flags.find? (·.name = name), value?, rest with
      | none, _, _ => .error (.undefined name)
      | some flag, some value, rest => do parse flags (← flag.apply value options) rest
      | some ⟨_, .switch set⟩, none, rest => parse flags (set true options) rest
      | some flag, none, value :: rest => do parse flags (← flag.apply value options) rest
      | some flag, none, [] => .error (.noValue flag.name)

end Flag

end Deadwood
