import Deadwood.CommandLine.Batch
import Deadwood.CommandLine.Command
import Deadwood.Report.Dot
import Deadwood.Report.Dump
import Deadwood.Report.Summary

/-! What commands do, and the run of a whole command line. -/

namespace Deadwood

structure Workplace (m : Type → Type) where
  sys : System m
  console : Console
  options : Options

/-- Work that may fail. What it has counted is kept in any case. -/
abbrev Work (m : Type → Type) := ExceptT CommandError (StateT Tally m)

namespace Work

variable {m : Type → Type} [Monad m] {α : Type}

def perform (x : m α) : Work m α := ExceptT.lift (StateT.lift x)

def attempt (x : m (Except FileError α)) : Work m α := do
  match ← perform x with
  | .ok a => return a
  | .error e => throw (.file e)

def require (x : Except CommandError α) : Work m α := ExceptT.mk (pure x)

def outcome (x : Work m α) : Work m (Except CommandError α) := ExceptT.lift x.run

end Work

namespace Workplace

open Work

variable {m : Type → Type} [Monad m]

def config (w : Workplace m) : Work m Config := do
  let content ← if w.options.config = [] then pure (.ok []) else perform (w.sys.read w.options.config)
  require (w.options.configuration content)

def openSession (w : Workplace m) : Work m Session := do
  let (session, notices) := Session.start (← w.config)
  perform (w.console.report w.sys (← perform w.sys.now) notices)
  return { session with verbose := w.options.verbose, tally := ← get }

def program (w : Workplace m) (file : Bytes) : Work m Program := do
  require (Program.ofFile file (← perform (w.sys.read file)))

def deliver (w : Workplace m) (file text : Bytes) : Work m Unit :=
  if file = [] then perform (w.sys.print text) else attempt (w.sys.replace file text)

def single : List Bytes → Except CommandError Bytes
  | [file] => .ok file
  | files => .error (.notOneInput files.length)

def runBatch (w : Workplace m) (out : Bytes) (files : List Bytes) (session : Session) : Work m Unit := do
  let batch ← perform (Batch.run w.sys w.console out files session)
  set batch.session.tally
  match batch.error? files.length with
  | some e => throw e
  | none => return

/-- Several files need a directory for the results, and one process at a time may have it. -/
def optimize (w : Workplace m) (out : Bytes) (files : List Bytes) : Work m Unit := do
  if files = [] then throw .noInput
  let session ← w.openSession
  if out = [] then
    if 1 < files.length then throw .noOutput
    w.runBatch out files session
  else
    attempt (w.sys.makeDirectories out)
    match ← attempt (w.sys.lock (Path.join out (bytes "LOCK"))) with
    | none => throw (.occupied out)
    | some release =>
      let done ← outcome (w.runBatch out files session)
      perform release
      require done

def draw (w : Workplace m) (out format title : Bytes) (files : List Bytes) : Work m Unit := do
  let file ← require (single files)
  let format ← require ((GraphFormat.choose format out).mapError .graphFormat)
  let p ← w.program file
  let config ← w.config
  let start ← perform w.sys.now
  perform (w.console.report w.sys start (config.adjustments.map .adjusted))
  let graph ← require ((Graph.build config.settings.intrinsics config.settings.entry p).mapError (.flow .draw file))
  perform (w.console.report w.sys start [.ofGraph p graph])
  if format = .svg then throw .noRenderer
  w.deliver out (graph.dot (if title = [] then Path.base file else title))

def analyze (w : Workplace m) (file : Bytes) : Work m Analysis := do
  let p ← w.program file
  let session ← w.openSession
  let start ← perform w.sys.now
  let (outcome, session) := session.analyze p
  perform (w.console.report w.sys start outcome.notices)
  set session.tally
  require (outcome.answer.mapError (.flow .analyze file))

def dump (w : Workplace m) (files : List Bytes) : Work m Unit := do
  let a ← w.analyze (← require (single files))
  perform (w.sys.print (a.solved.dump ++ bytes "critical: " ++ Bytes.ofNat a.stats.after ++ bytes " of " ++
    Bytes.ofNat a.stats.before ++ bytes " instructions\n"))

def stats (w : Workplace m) (files : List Bytes) : Work m Unit := do
  if files = [] then throw .noInput
  let outcomes ← files.mapM fun file => outcome (w.analyze file)
  let analyses ← require (outcomes.mapM id)
  perform (w.sys.print (Analysis.table (files.zip analyses)))

def showConfig (w : Workplace m) (files : List Bytes) : Work m Unit := do
  let config ← w.config
  match files with
  | [] => perform (w.sys.print config.toml)
  | file :: _ => attempt (w.sys.replace file config.toml)

def run (w : Workplace m) : Command → Work m Unit
  | .optimize out files => w.optimize out files
  | .draw out format title files => w.draw out format title files
  | .dump files => w.dump files
  | .stats files => w.stats files
  | .showConfig files => w.showConfig files
  | .help | .unknown _ => perform (w.sys.print Command.usage)

end Workplace

namespace CommandLine

variable {m : Type → Type} [Monad m]

inductive Ending
  | success
  | failure
  | unknownCommand
  deriving DecidableEq, Repr

def Ending.code : Ending → UInt32
  | .success => 0
  | .failure => 1
  | .unknownCommand => 3

def showMetrics (sys : System m) (options : Options) (tally : Tally) : m Unit :=
  if options.metrics then tally.registry.lines.forM fun line => sys.warn (line ++ [Bytes.newline]) else pure ()

def fatal (sys : System m) (e : CommandError) : m Ending := do
  sys.print (bytes "Fatal: " ++ e.message ++ [Bytes.newline])
  return .failure

def misuse (sys : System m) (e : UsageError) : m Unit :=
  sys.print (bytes "Incorrect Usage: " ++ e.message ++ bytes "\n\n" ++ Command.usage)

def runCommand (w : Workplace m) (arguments : List Bytes) : m Ending := do
  match Command.parse arguments with
  | .ok (.unknown name) =>
    w.sys.warn (bytes "No help topic for '" ++ name ++ bytes "'\n")
    return .unknownCommand
  | parsed =>
    let work : Work m Unit := match parsed with
      | .ok command => w.run command
      | .error e => do
        Work.perform (misuse w.sys e)
        throw (.usage e)
    let (outcome, tally) ← work.run.run {}
    showMetrics w.sys w.options tally
    w.console.stopTrace w.sys w.options.trace
    match outcome with
    | .ok _ => return .success
    | .error e => fatal w.sys e

def run (sys : System m) (arguments : List Bytes) : m Ending := do
  match Flag.parse Options.flags {} arguments with
  | .error e =>
    misuse sys e
    fatal sys (.usage e)
  | .ok (options, rest) =>
    if options.help then
      sys.print Command.usage
      return .success
    else match ← Console.start sys options.log with
      | .error e =>
        showMetrics sys options {}
        fatal sys e
      | .ok console =>
        match ← console.startTrace sys options.trace with
        | .error e =>
          showMetrics sys options {}
          fatal sys e
        | .ok _ => runCommand ⟨sys, console, options⟩ rest

end CommandLine

end Deadwood
