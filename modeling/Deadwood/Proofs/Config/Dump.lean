import Deadwood.Proofs.Config.Placing
import Deadwood.Proofs.Config.Sound
import Deadwood.Proofs.Text.Quoted

/-!
A configuration that has been written as a table file, and what loading makes of it. An absent list of intrinsics is
written as an empty one, and a name that is not portable makes the file unreadable; all else comes back.
-/

namespace Deadwood.Config

open Toml Toml.Syntax

def dumpedNames (c : Config) : List (Slot × Bytes × Value) := [
  (.labels, c.labels.quote, .text c.labels),
  (.intrinsics, written (c.intrinsics.getD []), .array ((c.intrinsics.getD []).map .text)),
  (.entry, c.entry.quote, .text c.entry)]

def dumpedNumbers (c : Config) : List (Slot × Bytes × Value) :=
  (if c.maxIterations = 0 then [] else
    [(.maxIterations, Bytes.ofInt c.maxIterations, .integer (Bytes.ofInt c.maxIterations))]) ++
  [(.cacheSize, Bytes.ofInt c.cacheSize, .integer (Bytes.ofInt c.cacheSize))]

def dumped (c : Config) : List (Slot × Bytes × Value) := c.dumpedNames ++ c.dumpedNumbers

def linesOf (places : List (Slot × Bytes × Value)) : List (Bytes × Bytes) :=
  places.map fun (slot, text, _) => (slot.name, text)

def settingsOf (places : List (Slot × Bytes × Value)) : List (Bytes × Value) :=
  places.map fun (slot, _, v) => (slot.name, v)

theorem settingsOf_eq (places : List (Slot × Bytes × Value)) :
    settingsOf places =
      (places.map fun place => (place.1, place.2.2)).map fun setting => (setting.1.name, setting.2) := by
  rw [settingsOf, List.map_map]
  rfl

theorem toml_eq (c : Config) : c.toml = sectionText heading (linesOf c.dumped) ++ [10] := by
  have newline : bytes "\n" = [10] := rfl
  have closing : bytes "]\n" = bytes "]" ++ [10] := rfl
  by_cases unbounded : c.maxIterations = 0
  · simp [toml, dumped, dumpedNames, dumpedNumbers, unbounded, linesOf, sectionText, linesText, lineText, newline, closing,
      written]
  · simp [toml, dumped, dumpedNames, dumpedNumbers, unbounded, linesOf, sectionText, linesText, lineText, newline, closing,
      written]

theorem isBareName_name (slot : Slot) : IsBareName slot.name := by
  cases slot <;> exact ⟨by decide +kernel, by decide +kernel⟩

theorem isBareName_heading : IsBareName heading := ⟨by decide +kernel, by decide +kernel⟩

theorem clean_written (names : List Bytes) : (written names).Clean := by
  cases names with
  | nil => exact Bytes.clean_of_ascii (by decide +kernel)
  | cons first names =>
      have others : (listed names).Clean := by
        refine Bytes.clean_flatMap fun name _ => ?_
        exact (Bytes.clean_of_ascii (s := [44, 32]) (by decide +kernel)).append (Bytes.clean_quote name)
      have whole := written_cons first names []
      rw [List.append_nil] at whole
      have closing : Bytes.Clean [93] := Bytes.clean_of_ascii (by decide +kernel)
      have ends := ((Bytes.clean_quote first).append others).append closing
      rw [whole]
      simpa using (Bytes.clean_of_ascii (s := [91]) (by decide +kernel)).append ends

theorem clean_ofInt (n : Int) : (Bytes.ofInt n).Clean := by
  refine Bytes.clean_of_ascii fun b member => ?_
  rcases (Bytes.ofInt_cases n).2 b member with digit | rfl
  · simp only [Bytes.isDigit, Bool.and_eq_true, decide_eq_true_eq] at digit
    grind
  · decide

theorem clean_dumped (c : Config) : ∀ place ∈ c.dumped, place.2.1.Clean := by
  intro place member
  simp only [dumped, dumpedNames, dumpedNumbers, List.mem_append, List.mem_cons, List.not_mem_nil, or_false] at member
  rcases member with (rfl | rfl | rfl) | bound | rfl
  · exact Bytes.clean_quote _
  · exact clean_written _
  · exact Bytes.clean_quote _
  · split_ifs at bound with unbounded
    · cases bound
    · rw [List.mem_singleton.1 bound]
      exact clean_ofInt _
  · exact clean_ofInt _

theorem clean_toml (c : Config) : c.toml.Clean := by
  have named (slot : Slot) : slot.name.Clean := by
    cases slot <;> exact Bytes.clean_of_ascii (by decide +kernel)
  have start : Bytes.Clean (bytes "[" ++ heading ++ bytes "]") := Bytes.clean_of_ascii (by decide +kernel)
  rw [toml_eq]
  refine (start.append (Bytes.clean_flatMap fun line member => ?_)).append (Bytes.clean_of_ascii (by decide +kernel))
  obtain ⟨place, among, rfl⟩ := List.mem_map.1 member
  have front := (Bytes.clean_of_ascii (s := [10]) (by decide +kernel)).append (named place.1)
  have equals : Bytes.Clean (bytes " = ") := Bytes.clean_of_ascii (by decide +kernel)
  have text := (front.append equals).append (clean_dumped c place among)
  simpa [lineText] using text

/-- Whether a table file can hold all names of a configuration. -/
def Portable (c : Config) : Prop := ∀ name ∈ c.entry :: c.intrinsics.getD [], name.isPortable = true

theorem Sound.policy_portable {c : Config} (sound : c.Sound) : c.labels.isPortable = true := by
  rcases sound.labels_cases with all | referenced
  · rw [all]
    decide
  · rw [referenced]
    decide

theorem assigns (slot : Slot) {text : Bytes} {v : Value} (stands : Stands text v) :
    Assigns (slot.name, text) (slot.name, v) :=
  ⟨rfl, isBareName_name slot, stands⟩

theorem assigns_dumpedNumbers (c : Config) :
    List.Forall₂ Assigns (linesOf c.dumpedNumbers) (settingsOf c.dumpedNumbers) := by
  rw [dumpedNumbers]
  split_ifs
  · exact .cons (assigns _ (stands_ofInt _)) .nil
  · exact .cons (assigns _ (stands_ofInt _)) (.cons (assigns _ (stands_ofInt _)) .nil)

theorem assigns_dumped {c : Config} (sound : c.Sound) (portable : c.Portable) :
    List.Forall₂ Assigns (linesOf c.dumped) (settingsOf c.dumped) := by
  have labels := stands_quote sound.policy_portable
  have intrinsics := stands_written fun name member => portable name (List.mem_cons_of_mem _ member)
  have entry := stands_quote (portable c.entry List.mem_cons_self)
  exact .cons (assigns _ labels) (.cons (assigns _ intrinsics) (.cons (assigns _ entry) (assigns_dumpedNumbers c)))

theorem distinct_dumped (c : Config) : ((settingsOf c.dumped).map (·.1)).Nodup := by
  by_cases unbounded : c.maxIterations = 0
  · simp only [settingsOf, dumped, dumpedNames, dumpedNumbers, if_pos unbounded, List.cons_append, List.nil_append,
      List.map_cons, List.map_nil]
    decide
  · simp only [settingsOf, dumped, dumpedNames, dumpedNumbers, if_neg unbounded, List.cons_append, List.nil_append,
      List.map_cons, List.map_nil]
    decide

def reloaded (c : Config) : Config := { c with intrinsics := some (c.intrinsics.getD []) }

theorem texts_map_text (kind : Option Bytes) (known : ∀ k ∈ kind, k = (Value.text []).kind) (names : List Bytes) :
    Value.texts kind (names.map .text) = .ok names := by
  induction names generalizing kind with
  | nil => rfl
  | cons name names ih =>
      have alike : kind.any (· ≠ (Value.text name).kind) = false := by
        cases kind with
        | none => rfl
        | some k =>
            rw [known k rfl]
            simp [Value.kind]
      have later := ih (some (Value.text name).kind) fun k same => (Option.some.inj same).symm
      rw [List.map_cons, Value.texts, alike, if_neg Bool.false_ne_true, later]
      rfl

theorem setValue_ofInt {slot : Slot} (numeric : slot = .maxIterations ∨ slot = .cacheSize) {n : Int}
    (fits : Integer.fits n = true) (c : Config) :
    slot.setValue (.integer (Bytes.ofInt n)) c = .ok (slot.setInt n c) := by
  have plain : (Bytes.ofInt n).filter (· != 95) = Bytes.ofInt n := by
    refine List.filter_eq_self.2 fun b member => ?_
    rcases (Bytes.ofInt_cases n).2 b member with digit | rfl
    · simp only [Bytes.isDigit, Bool.and_eq_true, decide_eq_true_eq] at digit
      grind
    · rfl
  have found : (Integer.decimal? (Bytes.ofInt n)).filter Integer.fits = some n := by
    rw [Integer.decimal_ofInt, Option.filter_some, if_pos fits]
  rcases numeric with rfl | rfl
  all_goals
    rw [Slot.setValue]
    simp only [plain, found]

theorem set_dumped {c : Config} (sound : c.Sound) :
    (c.dumped.map fun place => (place.1, place.2.2)).foldlM (fun c setting => setting.1.setValue setting.2 c) usual =
      .ok c.reloaded := by
  have labels (d : Config) : Slot.labels.setValue (.text c.labels) d = .ok { d with labels := c.labels } := by
    rw [Slot.setValue]
    simp only [Value.policyName?, sound.policy, if_true]
  have intrinsics (d : Config) : Slot.intrinsics.setValue (.array ((c.intrinsics.getD []).map .text)) d =
      .ok { d with intrinsics := some (c.intrinsics.getD []) } := by
    rw [Slot.setValue, texts_map_text none (by simp)]
    rfl
  have entry (d : Config) : Slot.entry.setValue (.text c.entry) d = .ok { d with entry := c.entry } := by
    rw [Slot.setValue]
  have cache (d : Config) := setValue_ofInt (.inr rfl) sound.cacheSize d
  have bound (d : Config) := setValue_ofInt (.inl rfl) sound.maxIterations d
  by_cases unbounded : c.maxIterations = 0
  · simp only [dumped, dumpedNames, dumpedNumbers, if_pos unbounded, List.cons_append, List.nil_append, List.map_cons,
      List.map_nil, List.foldlM_cons, List.foldlM_nil, labels, intrinsics, entry, cache]
    show Except.ok (Config.mk c.labels (some (c.intrinsics.getD [])) c.entry 0 c.cacheSize) = _
    rw [← unbounded]
    rfl
  · simp only [dumped, dumpedNames, dumpedNumbers, if_neg unbounded, List.cons_append, List.nil_append, List.map_cons,
      List.map_nil, List.foldlM_cons, List.foldlM_nil, labels, intrinsics, entry, bound, cache]
    rfl

theorem load_toml {c : Config} (sound : c.Sound) (portable : c.Portable) :
    usual.loadTables c.toml = .ok c.reloaded := by
  have clean := clean_toml c
  rw [toml_eq] at clean
  obtain ⟨line, fields, read, holds⟩ :=
    exists_read_section isBareName_heading (assigns_dumped sound portable) (distinct_dumped c) clean
  rw [settingsOf_eq] at holds
  have taken := foldlM_setField holds (set_dumped sound)
  rw [loadTables, toml_eq, read]
  show (setTop usual heading (.table (.mk line true fields)) >>= pure) = _
  rw [setTop, if_neg (by simp)]
  simp only [Table.fields]
  rw [taken]
  rfl

theorem load_error {c : Config} (front : List (Slot × Bytes × Value)) {back : List (Slot × Bytes × Value)}
    {slot : Slot} {text : Bytes} {v : Value}
    (split : c.dumped = front ++ (slot, text, v) :: back)
    (assigned : List.Forall₂ Assigns (linesOf front) (settingsOf front)) (breaks : Breaks text) :
    ∃ line, usual.loadTables c.toml = .error (.table line (.document .unreadable)) := by
  obtain ⟨rest, whole⟩ := sectionText_append heading (linesOf front) slot.name text (linesOf back)
  have file : c.toml = sectionText heading (linesOf front) ++ 10 :: (lineText slot.name text ++ 10 :: rest) := by
    rw [toml_eq, split, ← whole]
    simp [linesOf]
  have clean := clean_toml c
  rw [file] at clean
  obtain ⟨line, read⟩ :=
    exists_read_error isBareName_heading assigned (isBareName_name slot) breaks rest clean
  refine ⟨line, ?_⟩
  rw [loadTables, file, read]

theorem load_toml_error {c : Config} (sound : c.Sound) (portable : ¬c.Portable) :
    ∃ line, usual.loadTables c.toml = .error (.table line (.document .unreadable)) := by
  have labels := assigns .labels (stands_quote sound.policy_portable)
  by_cases listed : ∀ name ∈ c.intrinsics.getD [], name.isPortable = true
  · have entry : c.entry.isPortable = false := by
      rw [← Bool.not_eq_true]
      intro named
      refine portable fun name member => ?_
      rcases List.mem_cons.1 member with rfl | among
      · exact named
      · exact listed name among
    exact load_error (c.dumpedNames.take 2) rfl (.cons labels (.cons (assigns _ (stands_written listed)) .nil))
      (breaks_quote entry)
  · exact load_error (c.dumpedNames.take 1) rfl (.cons labels .nil) (breaks_written listed)

/-! Which configurations come back from the file they are written to. -/

theorem settings_reloaded (c : Config) : c.reloaded.settings = c.settings ↔ c.intrinsics.isSome := by
  cases present : c.intrinsics with
  | none =>
      refine ⟨fun same => ?_, fun none => by cases none⟩
      have listed := congrArg Settings.intrinsics same
      simp only [settings, reloaded, present] at listed
      cases listed
  | some names =>
      refine ⟨fun _ => rfl, fun _ => ?_⟩
      simp only [settings, reloaded, present, Option.getD_some]

/-- A configuration that options lead to comes back from the table file it is written to exactly if its names are
portable; otherwise the file cannot be read. It comes back as it was but for an absent list of intrinsics, which is
empty then, so that its settings are the same exactly if there was a list. -/
theorem written_configuration_reloads {arguments rest : List Bytes} {o : Options} {content : Except FileError Bytes}
    {c : Config} {file : Bytes} (parsed : Flag.parse Options.flags {} arguments = .ok (o, rest))
    (configured : o.configuration content = .ok c) (tables : isLayout file = false) :
    (c.Portable → usual.load file c.toml = .ok { c with intrinsics := some (c.intrinsics.getD []) }) ∧
      (¬c.Portable → ∃ line, usual.load file c.toml = .error (.table line (.document .unreadable))) ∧
      ((∃ c', usual.load file c.toml = .ok c' ∧ c'.settings = c.settings) ↔ c.intrinsics.isSome ∧ c.Portable) := by
  have sound := Options.sound_configuration parsed configured
  have loads : usual.load file c.toml = usual.loadTables c.toml := by rw [load, tables, if_neg Bool.false_ne_true]
  rw [loads]
  refine ⟨load_toml sound, load_toml_error sound, ?_⟩
  constructor
  · intro back
    obtain ⟨c', loaded, same⟩ := back
    by_cases portable : c.Portable
    · rw [load_toml sound portable] at loaded
      cases loaded
      exact ⟨(settings_reloaded c).1 same, portable⟩
    · obtain ⟨line, refused⟩ := load_toml_error sound portable
      rw [refused] at loaded
      cases loaded
  · intro both
    exact ⟨c.reloaded, load_toml sound both.2, (settings_reloaded c).2 both.1⟩

/-- A lone comma asks for the usual intrinsics; the file that is written for it asks for none. -/
theorem lone_comma_reloads_without_intrinsics :
    ∃ o c, Flag.parse Options.flags {} [bytes "--intrinsics", bytes ","] = .ok (o, []) ∧
      o.configuration (.ok []) = .ok c ∧ c.settings.intrinsics = usualIntrinsics ∧
      usual.load (bytes "d.toml") c.toml = .ok { usual with intrinsics := some [] } ∧
      ¬∃ c', usual.load (bytes "d.toml") c.toml = .ok c' ∧ c'.settings = c.settings := by
  have parsed : Flag.parse Options.flags {} [bytes "--intrinsics", bytes ","] =
      .ok ({ overrides := { intrinsics := some (bytes ",") } }, []) := by
    rfl
  have blank : Bytes.items (bytes ",") = [] := by
    show ([Bytes.trim [], Bytes.trim []].filter _) = []
    rw [Bytes.trimmed_nil.trim_eq]
    rfl
  have configured : Options.configuration { overrides := { intrinsics := some (bytes ",") } } (.ok []) =
      .ok { usual with intrinsics := none } := by
    rw [Options.configuration, if_pos rfl]
    simp only [Overrides.apply, Overrides.items?, blank, if_true, Option.map_some, Option.getD_some, Option.getD_none,
      Option.filter_none]
    rfl
  have tables : isLayout (bytes "d.toml") = false := by decide
  have reloads := written_configuration_reloads parsed configured tables
  have portable : Portable { usual with intrinsics := none } := by
    intro name member
    rw [List.mem_singleton.1 member]
    decide
  refine ⟨_, _, parsed, configured, rfl, reloads.1 portable, fun back => ?_⟩
  cases (reloads.2.2.1 back).1

end Deadwood.Config
