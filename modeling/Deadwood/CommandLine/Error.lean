import Deadwood.CommandLine.Flag
import Deadwood.Config.LoadError
import Deadwood.Disk.Basic
import Deadwood.Flow.Error
import Deadwood.Program.Reader
import Deadwood.Report.GraphFormat

/-! Why a command fails. -/

namespace Deadwood

inductive Purpose
  | optimize
  | draw
  | analyze
  deriving DecidableEq, Repr

inductive CommandError
  | usage (e : UsageError)
  | file (e : FileError)
  | noInput
  | notOneInput (count : Nat)
  | noOutput
  | occupied (directory : Bytes)
  | logFormat (name : Bytes)
  | graphFormat (name : Bytes)
  | noRenderer
  | policy (name : Bytes)
  | config (path : Bytes) (e : LoadError)
  | configInput (path : Bytes) (e : FileError)
  | program (path : Bytes) (e : ReadError)
  | programInput (path : Bytes) (e : FileError)
  | flow (purpose : Purpose) (path : Bytes) (e : FlowError)

namespace Purpose

def name : Purpose → Bytes
  | .optimize => bytes "optimize"
  | .draw => bytes "build CFG of"
  | .analyze => bytes "analyze"

end Purpose

namespace CommandError

def parsing (path message : Bytes) : Bytes := bytes "parse " ++ path ++ bytes ": " ++ message

def message : CommandError → Bytes
  | .usage e => e.message
  | .file e => e.message
  | .noInput => bytes "no input files"
  | .notOneInput count => bytes "expected exactly one input file, have " ++ Bytes.ofNat count
  | .noOutput => bytes "--out is required when optimizing several files"
  | .occupied directory => bytes "output directory " ++ directory ++ bytes " is in use by another process"
  | .logFormat name => bytes "unknown log format: " ++ name
  | .graphFormat name => GraphFormat.unknownMessage name
  | .noRenderer => bytes "dot not found in PATH; install graphviz or choose --format=dot"
  | .policy name => LabelPolicy.unknownMessage name
  | .config path e => e.message path
  | .configInput path e => path ++ bytes ": yaml: input error: " ++ e.message
  | .program path e => parsing path e.message
  | .programInput path e => parsing path (bytes "reading program: " ++ e.message)
  | .flow purpose path e => purpose.name ++ bytes " " ++ path ++ bytes ": " ++ e.message

end CommandError

end Deadwood
