import Deadwood.Config.Basic

/-! The places of a configuration that a file can fill, and the names that files and messages have for them. -/

namespace Deadwood

inductive Slot
  | labels | intrinsics | entry | maxIterations | cacheSize
  deriving DecidableEq, Repr

namespace Slot

def all : List Slot := [.labels, .intrinsics, .entry, .maxIterations, .cacheSize]

def name : Slot → Bytes
  | .labels => bytes "Labels"
  | .intrinsics => bytes "Intrinsics"
  | .entry => bytes "EntryFunction"
  | .maxIterations => bytes "MaxIterations"
  | .cacheSize => bytes "CacheSize"

def type : Slot → Bytes
  | .labels => bytes "optimizer.LabelPolicy"
  | .intrinsics => bytes "[]string"
  | .entry => bytes "string"
  | .maxIterations | .cacheSize => bytes "int"

def ofName? (s : Bytes) : Option Slot := all.find? (·.name = s)

/-- Files laid out by indentation use the names in lower case. -/
def ofKey? (s : Bytes) : Option Slot := all.find? (·.name.lower = s)

def setInt (slot : Slot) (n : Int) (c : Config) : Config :=
  match slot with
  | .maxIterations => { c with maxIterations := n }
  | .cacheSize => { c with cacheSize := n }
  | _ => c

end Slot

namespace Config

def heading : Bytes := bytes "Optimizer"
def sectionType : Bytes := bytes "optimizer.Config"
def fileType : Bytes := bytes "utils.Config"

end Config

end Deadwood
