import Deadwood.Proofs.Config.Sections
import Deadwood.Config.Tables

/-!
The table of a file of one section, and what loading takes over from it. Lines with different keys are placed in their
order, each with its value.
-/

namespace Deadwood.Toml

open Grammar Syntax

variable {name key text : Bytes} {lines : List (Bytes × Bytes)} {settings : List (Bytes × Value)} {entries : List Entry}

def Holds (field : Bytes × Field) (setting : Bytes × Value) : Prop :=
  field.1 = setting.1 ∧ ∃ line, field.2 = .value line setting.2

theorem putField_of_fresh {fields : List (Bytes × Field)} (fresh : name ∉ fields.map (·.1)) (f : Field) :
    Table.putField name f fields = fields ++ [(name, f)] := by
  induction fields with
  | nil => rfl
  | cons field fields ih =>
      rw [List.map_cons, List.mem_cons, not_or] at fresh
      rw [Table.putField, if_neg (Ne.symm fresh.1), ih fresh.2, List.cons_append]

theorem find?_of_fresh {t : Table} (fresh : name ∉ t.fields.map (·.1)) : t.find? name = none := by
  have absent : t.fields.find? (·.1 = name) = none := by
    refine List.find?_eq_none.2 fun field member => ?_
    rw [decide_eq_true_eq]
    rintro rfl
    exact fresh (List.mem_map_of_mem member)
  rw [Table.find?, absent, Option.map_none]

theorem placeEntry_of_fresh (lineOf : Nat → Nat) {t : Table} {e : Entry} {setting : Bytes × Value}
    (sets : Sets e setting)
    (fresh : setting.1 ∉ t.fields.map (·.1)) :
    ∃ field, placeEntry lineOf false t e = .ok (.mk t.line t.isHeaded (t.fields ++ [field])) ∧ Holds field setting := by
  obtain ⟨term, left, rfl, means⟩ := sets
  refine ⟨(setting.1, .value (lineOf left) setting.2), ?_, rfl, _, rfl⟩
  have named : Key.name (.bare setting.1) = .ok setting.1 := rfl
  rw [placeEntry, named]
  show (placeTerm lineOf false setting.1 t term >>= _) = _
  rw [means]
  show t.add left (lineOf left) setting.1 setting.2 = _
  rw [Table.add, find?_of_fresh fresh]
  simp only [Table.put, putField_of_fresh fresh]

theorem exists_placeEntries (lineOf : Nat → Nat) (sets : List.Forall₂ Sets entries settings) (t : Table)
    (fresh : (t.fields.map (·.1) ++ settings.map (·.1)).Nodup) :
    ∃ fields, placeEntries lineOf false t entries = .ok (.mk t.line t.isHeaded (t.fields ++ fields)) ∧
      List.Forall₂ Holds fields settings := by
  induction sets generalizing t with
  | nil =>
      refine ⟨[], ?_, .nil⟩
      cases t
      simp [placeEntries, Table.line, Table.isHeaded, Table.fields]
  | @cons e setting entries settings set _ ih =>
      have new : setting.1 ∉ t.fields.map (·.1) := fun member =>
        (List.nodup_append.1 fresh).2.2 _ member _ List.mem_cons_self rfl
      obtain ⟨field, placed, holds⟩ := placeEntry_of_fresh lineOf set new
      obtain ⟨fields, placed', hold⟩ := ih (.mk t.line t.isHeaded (t.fields ++ [field])) (by
        have same : field.1 = setting.1 := holds.1
        simpa [Table.fields, same] using fresh)
      refine ⟨field :: fields, ?_, .cons holds hold⟩
      rw [placeEntries, placed]
      show placeEntries lineOf false _ entries = _
      rw [placed']
      simp [Table.fields, Table.line, Table.isHeaded]

theorem run_of_reads {α : Type} {r : Grammar α} {s : Bytes} {a : α} (read : Reads r s a []) :
    ∃ least, r.run s = (some a, least) := by
  obtain ⟨least, outcome⟩ := read s.length
  refine ⟨least, ?_⟩
  simp only [run, StateT.run, OptionT.run, outcome]
  rfl

theorem run_of_refuses {α : Type} {r : Grammar α} {s : Bytes} (refused : Refuses r s) :
    ∃ least, r.run s = (none, least) := by
  obtain ⟨least, outcome⟩ := refused s.length
  refine ⟨least, ?_⟩
  simp only [run, StateT.run, OptionT.run, outcome]
  rfl

theorem sections_entries (entries : List Entry) : sections (entries.map .entry) = (entries, []) := by
  induction entries with
  | nil => rfl
  | cons e entries ih => rw [List.map_cons, sections, ih]

theorem addSection_first {lineOf : Nat → Nat} {left : Nat} {inner : Table}
    (placed : placeEntries lineOf false (.empty (lineOf left) true) entries = .ok inner) :
    Table.addSection lineOf (.empty 1 true) ⟨headingOf name left, entries⟩ =
      .ok (.mk 1 true [(name, .table inner)]) := by
  show (placeEntries lineOf false (.empty (lineOf left) true) entries >>= fun inner =>
    pure (Table.put (.empty 1 true) name (.table inner))) = _
  rw [placed]
  rfl

theorem exists_read_section (bareName : IsBareName name) (assigned : List.Forall₂ Assigns lines settings)
    (distinct : (settings.map (·.1)).Nodup) (clean : Bytes.Clean (sectionText name lines ++ [10])) :
    ∃ line fields, Toml.read (sectionText name lines ++ [10]) =
        .ok (.mk 1 true [(name, .table (.mk line true fields))]) ∧ List.Forall₂ Holds fields settings := by
  obtain ⟨left, entries, read, sets⟩ := exists_reads_document bareName assigned
  obtain ⟨least, run⟩ := run_of_reads read
  let lineAt := lineOf (sectionText name lines ++ [10])
  obtain ⟨fields, placed, holds⟩ := exists_placeEntries lineAt sets (.empty (lineAt left) true)
    (by simpa [Table.empty, Table.fields] using distinct)
  refine ⟨lineAt left, fields, ?_, holds⟩
  rw [Toml.read, clean.scrubbed_eq, run]
  have added : Table.addSection lineAt (.empty 1 true) ⟨headingOf name left, entries⟩ = _ := addSection_first placed
  simp only [sections, sections_entries]
  show (Except.mapError _ (Table.addSection lineAt (.empty 1 true) ⟨headingOf name left, entries⟩ >>= pure)) = _
  rw [added]
  rfl

theorem exists_read_error (bareName : IsBareName name) (assigned : List.Forall₂ Assigns lines settings)
    (bareKey : IsBareName key) (breaks : Breaks text) (rest : Bytes)
    (clean : Bytes.Clean (sectionText name lines ++ 10 :: (lineText key text ++ 10 :: rest))) :
    ∃ line, Toml.read (sectionText name lines ++ 10 :: (lineText key text ++ 10 :: rest)) =
      .error (line, .unreadable) := by
  obtain ⟨least, run⟩ := run_of_refuses (refuses_document bareName assigned bareKey breaks rest)
  rw [Toml.read, clean.scrubbed_eq, run]
  exact ⟨_, rfl⟩

end Deadwood.Toml

namespace Deadwood.Config

open Toml

theorem ofName_name (slot : Slot) : Slot.ofName? slot.name = some slot := by
  cases slot <;> rfl

theorem setField_of_setValue {slot : Slot} {v : Value} {line : Nat} {c c' : Config} (set : slot.setValue v c = .ok c') :
    setField c slot.name (.value line v) = .ok c' := by
  rw [setField, ofName_name]
  simp only [set]
  rfl

theorem foldlM_setField {fields : List (Bytes × Field)} {settings : List (Slot × Value)} {c c' : Config}
    (holds : List.Forall₂ Holds fields (settings.map fun setting => (setting.1.name, setting.2)))
    (set : settings.foldlM (fun c setting => setting.1.setValue setting.2 c) c = .ok c') :
    fields.foldlM (fun c (name, f) => setField c name f) c = .ok c' := by
  induction settings generalizing fields c with
  | nil =>
      cases holds
      cases set
      rfl
  | cons setting settings ih =>
      cases holds with
      | @cons field _ fields _ first rest =>
          obtain ⟨name, f⟩ := field
          obtain ⟨rfl, line, rfl⟩ := first
          rw [List.foldlM_cons] at set ⊢
          obtain ⟨next, step, others⟩ := Except.bind_eq_ok.1 set
          dsimp only
          rw [setField_of_setValue step]
          exact ih rest others

end Deadwood.Config
