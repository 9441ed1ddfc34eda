import Deadwood.CommandLine.Error
import Deadwood.Config.Load
import Deadwood.Text.Blank

/-! Options for all commands, and the configuration they lead to. -/

namespace Deadwood

structure Overrides where
  labels : Option Bytes := none
  intrinsics : Option Bytes := none
  entry : Option Bytes := none
  maxIterations : Option Int := none
  cacheSize : Option Int := none
  deriving DecidableEq, Repr

namespace Overrides

/-- A list of intrinsics without items asks for the usual ones. -/
def items? (text : Bytes) : Option (List Bytes) := if text.items = [] then none else some text.items

def apply (o : Overrides) (c : Config) : Except CommandError Config :=
  match o.labels.filter fun name => (LabelPolicy.ofName? name).isNone with
  | some name => .error (.policy name)
  | none => .ok {
      labels := o.labels.getD c.labels
      intrinsics := (o.intrinsics.map items?).getD c.intrinsics
      entry := o.entry.getD c.entry
      maxIterations := o.maxIterations.getD c.maxIterations
      cacheSize := o.cacheSize.getD c.cacheSize }

end Overrides

namespace Config

def ofFile (file : Bytes) : Except FileError Bytes → Except CommandError Config
  | .ok content => (usual.load file content).mapError (.config file)
  | .error e => .error (if isLayout file && e.operation = bytes "read" then .configInput file e else .file e)

end Config

/-- Where logs go and what they look like. The last three are limits on the size, number and age of log files. -/
structure LogOptions where
  verbosity : Int := 3
  format : Bytes := []
  file : Bytes := []
  rotate : Bool := false
  maxSize : Int := 100
  maxBackups : Int := 10
  rotateHours : Nat := 0
  deriving DecidableEq, Repr

structure Options where
  config : Bytes := []
  overrides : Overrides := {}
  verbose : Bool := false
  metrics : Bool := false
  log : LogOptions := {}
  trace : Bytes := []
  help : Bool := false
  deriving DecidableEq, Repr

namespace Options

def flags : List (Flag Options) := [
  ⟨bytes "config", .text fun s o => { o with config := s }⟩,
  ⟨bytes "labels", .text fun s o => { o with overrides.labels := some s }⟩,
  ⟨bytes "intrinsics", .text fun s o => { o with overrides.intrinsics := some s }⟩,
  ⟨bytes "entry", .text fun s o => { o with overrides.entry := some s }⟩,
  ⟨bytes "max-iterations", .integer fun n o => { o with overrides.maxIterations := some n }⟩,
  ⟨bytes "cache", .integer fun n o => { o with overrides.cacheSize := some n }⟩,
  ⟨bytes "debug.optimizer", .switch fun b o => { o with verbose := b }⟩,
  ⟨bytes "metrics", .switch fun b o => { o with metrics := b }⟩,
  ⟨bytes "verbosity", .integer fun n o => { o with log.verbosity := n }⟩,
  ⟨bytes "log.format", .text fun s o => { o with log.format := s }⟩,
  ⟨bytes "log.file", .text fun s o => { o with log.file := s }⟩,
  ⟨bytes "log.rotate", .switch fun b o => { o with log.rotate := b }⟩,
  ⟨bytes "log.maxsize", .integer fun n o => { o with log.maxSize := n }⟩,
  ⟨bytes "log.maxbackups", .integer fun n o => { o with log.maxBackups := n }⟩,
  ⟨bytes "log.rotatehours", .natural fun n o => { o with log.rotateHours := n }⟩,
  ⟨bytes "trace", .text fun s o => { o with trace := s }⟩,
  ⟨bytes "help", .switch fun b o => { o with help := b }⟩,
  ⟨bytes "h", .switch fun b o => { o with help := b }⟩]

def configuration (o : Options) (content : Except FileError Bytes) : Except CommandError Config := do
  o.overrides.apply (← if o.config = [] then .ok .usual else Config.ofFile o.config content)

end Options

end Deadwood
