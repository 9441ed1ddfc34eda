import Deadwood.Config.Slot
import Deadwood.Config.Toml.Document
import Deadwood.Config.Yaml.Plain

/-! What can be wrong with a configuration file. -/

namespace Deadwood

inductive Misfit
  | type (what into need : Bytes)
  | range (source : Bytes)
  | overflow (source : Bytes)
  | date (source part : Bytes)
  | policy (name : Bytes)
  | mixed
  deriving DecidableEq, Repr

namespace Misfit

def message : Misfit → Bytes
  | .type what into need =>
    bytes "cannot unmarshal TOML " ++ what ++ bytes " into " ++ into ++
      (if need = [] then [] else bytes " (need " ++ need ++ bytes ")")
  | .range source => bytes "value " ++ source ++ bytes " is out of range for int"
  | .overflow source => bytes "strconv.ParseFloat: parsing " ++ source.quote ++ bytes ": value out of range"
  | .date source part => bytes "parsing time " ++ source.quote ++ bytes ": " ++ part ++ bytes " out of range"
  | .policy name => LabelPolicy.unknownMessage name
  | .mixed => bytes "array can't contain multiple types"

end Misfit

namespace Toml.Fault

def conflict (what name other : Bytes) : Bytes :=
  what ++ bytes " \x60" ++ name ++ bytes "' is in conflict with " ++ other

def tableKind (isList : Bool) : Bytes := if isList then bytes "array table" else bytes "table"

def message : Fault → Bytes
  | .unreadable => bytes "invalid TOML syntax"
  | .badEscape => bytes "invalid syntax"
  | .keyOverKey key first => conflict (bytes "key") key (bytes "line " ++ Bytes.ofNatHex first ++ bytes "d")
  | .keyOverTable key first => conflict (bytes "key") key (bytes "table in line " ++ Bytes.ofNat first)
  | .keyOverList key =>
    bytes "BUG: key \x60" ++ key ++ bytes "' is in conflict but it's unknown type \x60[]*ast.Table'"
  | .pathOverKey key first => conflict (bytes "key") key (bytes "line " ++ Bytes.ofNat first)
  | .tableOverKey isList name first => conflict (tableKind isList) name (bytes "line " ++ Bytes.ofNat first)
  | .tableOverTable isList name first => conflict (tableKind isList) name (bytes "table in line " ++ Bytes.ofNat first)
  | .tableOverList name first => conflict (bytes "table") name (bytes "array table in line " ++ Bytes.ofNat first)

end Toml.Fault

inductive TableFault
  | document (fault : Toml.Fault)
  | unknown (name owner link : Bytes)
  | misfit (place : Bytes) (why : Misfit)

namespace TableFault

def message : TableFault → Bytes
  | .document fault => fault.message
  | .unknown name type link =>
    bytes "field '" ++ name ++ bytes "' is not defined in " ++ type ++ bytes ", see https://godoc.org/" ++ link ++
      bytes " for available fields"
  | .misfit place why => (if place = [] then [] else bytes "(" ++ place ++ bytes ") ") ++ why.message

end TableFault

inductive LayoutFault
  | repeatedKey (key : Bytes) (first : Nat)
  | repeatedField (key owner : Bytes)
  | unknown (key owner : Bytes)
  | type (tag value into : Bytes)
  deriving DecidableEq, Repr

namespace LayoutFault

def shortened (s : Bytes) : Bytes := if 10 < s.length then s.take 7 ++ bytes "..." else s

def message : LayoutFault → Bytes
  | .repeatedKey key first =>
    bytes "mapping key " ++ key.quote ++ bytes " already defined at line " ++ Bytes.ofNat first
  | .repeatedField key owner => bytes "field " ++ key ++ bytes " already set in type " ++ owner
  | .unknown key owner => bytes "field " ++ key ++ bytes " not found in type " ++ owner
  | .type tag value into =>
    bytes "cannot unmarshal " ++ tag ++
      (if tag = Yaml.Tag.seq || tag = Yaml.Tag.map then value
        else bytes " \x60" ++ shortened value ++ bytes "\x60") ++ bytes " into " ++ into

end LayoutFault

inductive LoadError
  | table (line : Nat) (fault : TableFault)
  | unreadable (fault : Yaml.Fault)
  | layout (faults : List (Nat × LayoutFault))
  | policy (name : Bytes)

namespace LoadError

def atLine (line : Nat) (message : Bytes) : Bytes := bytes "line " ++ Bytes.ofNat line ++ bytes ": " ++ message

def message (file : Bytes) : LoadError → Bytes
  | .table line fault => file ++ bytes ", " ++ atLine line fault.message
  | .unreadable fault => file ++ bytes ": yaml: " ++ fault.message
  | .layout faults =>
    file ++ bytes ": yaml: unmarshal errors:" ++
      faults.flatMap fun (line, fault) => bytes "\n  " ++ atLine line fault.message
  | .policy name => file ++ bytes ": " ++ LabelPolicy.unknownMessage name

end LoadError

end Deadwood
