import Deadwood.CommandLine.Flag

/-! Commands and their flags. -/

namespace Deadwood

inductive Command
  | optimize (out : Bytes) (files : List Bytes)
  | draw (out format title : Bytes) (files : List Bytes)
  | dump (files : List Bytes)
  | stats (files : List Bytes)
  | showConfig (files : List Bytes)
  | help
  | unknown (name : Bytes)
  deriving DecidableEq, Repr

structure CommandOptions where
  out : Bytes := []
  format : Bytes := []
  title : Bytes := []
  help : Bool := false
  deriving DecidableEq, Repr

namespace CommandOptions

def outFlag : Flag CommandOptions := ⟨bytes "out", .text fun s o => { o with out := s }⟩
def formatFlag : Flag CommandOptions := ⟨bytes "format", .text fun s o => { o with format := s }⟩
def titleFlag : Flag CommandOptions := ⟨bytes "title", .text fun s o => { o with title := s }⟩

def helpFlags : List (Flag CommandOptions) :=
  [bytes "help", bytes "h"].map fun name => ⟨name, .switch fun b o => { o with help := b }⟩

end CommandOptions

structure CommandForm where
  name : Bytes
  flags : List (Flag CommandOptions)
  make : CommandOptions → List Bytes → Command

namespace Command

open CommandOptions

def forms : List CommandForm := [
  ⟨bytes "optimize", [outFlag], fun o files => .optimize o.out files⟩,
  ⟨bytes "cfg", [outFlag, formatFlag, titleFlag], fun o files => .draw o.out o.format o.title files⟩,
  ⟨bytes "dump", [], fun _ files => .dump files⟩,
  ⟨bytes "stats", [], fun _ files => .stats files⟩,
  ⟨bytes "dumpconfig", [], fun _ files => .showConfig files⟩]

def asksHelp (name : Bytes) : Bool := name == bytes "help" || name == bytes "h"

/-- The command in some arguments. Help is meant where there is none. -/
def parse : List Bytes → Except UsageError Command
  | [] => .ok .help
  | name :: arguments =>
    match forms.find? (·.name = name) with
    | none => .ok (if asksHelp name then .help else .unknown name)
    | some form => do
      let (options, files) ← Flag.parse (form.flags ++ helpFlags) {} arguments
      return if options.help || files.head?.any asksHelp then .help else form.make options files

def usage : Bytes :=
  bytes "usage: [flags] command [flags] [files]\n\ncommands:\n" ++
  bytes "  optimize    remove dead code from programs\n" ++
  bytes "  cfg         draw the control-flow graph of a program\n" ++
  bytes "  dump        print the blocks of a program with their reaching definitions\n" ++
  bytes "  stats       count instructions before and after\n" ++
  bytes "  dumpconfig  print the configuration\n"

end Command

end Deadwood
