import Deadwood.Config.LoadError
import Deadwood.Number.Literal
import Deadwood.Time.Stamp

/-! Configuration in table files: read, and written. -/

namespace Deadwood

namespace Toml.Value

def kind : Value → Bytes
  | .datetime _ => bytes "datetime"
  | .float _ => bytes "float"
  | .integer _ => bytes "integer"
  | .boolean _ => bytes "boolean"
  | .text _ => bytes "string"
  | .array _ => bytes "array"

def dateFault? (source : Bytes) : Option Bytes :=
  let outcome :=
    if !source.contains 58 then Stamp.checkDate source
    else if !source.contains 45 then Stamp.checkClock source
    else Stamp.checkMoment 84 source
  match outcome with
  | .error (.range part) => some part
  | _ => none

/-- A value where another type is wanted. What cannot be a value at all is said first. -/
def misfit (v : Value) (into : Bytes) : Misfit :=
  match v with
  | .array _ => .type v.kind into (bytes "slice")
  | .float source =>
    let digits := source.filter (· != 95)
    if (Double.readFinite? digits).isNone then .overflow digits else .type v.kind into []
  | .datetime source =>
    match dateFault? source with
    | some part => .date source part
    | none => .type v.kind into []
  | v => .type v.kind into []

def policyName? : Value → Option Bytes
  | .datetime source | .float source | .integer source => some source
  | .boolean b => some (if b then bytes "true" else bytes "false")
  | .text s => some s
  | .array _ => none

def texts (kind : Option Bytes) : List Value → Except Misfit (List Bytes)
  | [] => .ok []
  | v :: rest =>
    if kind.any (· ≠ v.kind) then .error .mixed
    else match v with
      | .text s => (texts (some v.kind) rest).map (s :: ·)
      | v => .error (v.misfit Slot.entry.type)

end Toml.Value

namespace Slot

def setValue (slot : Slot) (v : Toml.Value) (c : Config) : Except Misfit Config :=
  match slot, v with
  | .labels, v =>
    match v.policyName? with
    | none => .error (.type v.kind slot.type [])
    | some name =>
      if (LabelPolicy.ofName? name).isSome then .ok { c with labels := name } else .error (.policy name)
  | .intrinsics, .array items => (Toml.Value.texts none items).map fun names => { c with intrinsics := some names }
  | .entry, .text s => .ok { c with entry := s }
  | .maxIterations, .integer source | .cacheSize, .integer source =>
    let digits := source.filter (· != 95)
    match (Integer.decimal? digits).filter Integer.fits with
    | none => .error (.range digits)
    | some n => .ok (slot.setInt n c)
  | slot, v => .error (v.misfit slot.type)

end Slot

namespace Config

def unknownTop (name : Bytes) : TableFault :=
  .unknown name fileType (bytes "github.com/tigerir/irdce/cmd/utils#Config")

def unknownSlot (name : Bytes) : TableFault :=
  .unknown name sectionType (bytes "github.com/tigerir/irdce/core/optimizer#Config")

def tableMisfit (t : Toml.Table) (into : Bytes) : LoadError :=
  .table t.line (.misfit [] (.type (bytes "table") into (bytes "struct or map")))

def listMisfit (first : Toml.Table) (place into : Bytes) : LoadError :=
  .table first.line (.misfit place (.type (bytes "array table") into (bytes "slice")))

def setField (c : Config) (name : Bytes) (f : Toml.Field) : Except LoadError Config :=
  match Slot.ofName? name with
  | none => .error (.table f.line (unknownSlot name))
  | some slot =>
    let place := sectionType ++ bytes "." ++ slot.name
    match f with
    | .value line v => (slot.setValue v c).mapError fun why => .table line (.misfit place why)
    | .table t => .error (tableMisfit t slot.type)
    | .tables first _ =>
      .error (if slot = .intrinsics then tableMisfit first Slot.entry.type else listMisfit first place slot.type)

def setTop (c : Config) (name : Bytes) (f : Toml.Field) : Except LoadError Config :=
  if name ≠ heading then .error (.table f.line (unknownTop name))
  else
    let place := fileType ++ bytes "." ++ heading
    match f with
    | .value line v => .error (.table line (.misfit place (v.misfit sectionType)))
    | .table t => t.fields.foldlM (fun c (name, f) => setField c name f) c
    | .tables first _ => .error (listMisfit first place sectionType)

def loadTables (c : Config) (content : Bytes) : Except LoadError Config :=
  match Toml.read content with
  | .error (line, fault) => .error (.table line (.document fault))
  | .ok t => t.fields.foldlM (fun c (name, f) => setTop c name f) c

/-- The configuration as a table file. A bound of zero is left out. -/
def toml (c : Config) : Bytes :=
  let line (slot : Slot) (value : Bytes) : Bytes := slot.name ++ bytes " = " ++ value ++ bytes "\n"
  bytes "[" ++ heading ++ bytes "]\n" ++ line .labels c.labels.quote ++
    line .intrinsics (bytes "[" ++ Bytes.join (bytes ", ") ((c.intrinsics.getD []).map Bytes.quote) ++ bytes "]") ++
    line .entry c.entry.quote ++
    (if c.maxIterations = 0 then [] else line .maxIterations (Bytes.ofInt c.maxIterations)) ++
    line .cacheSize (Bytes.ofInt c.cacheSize)

end Config

end Deadwood
