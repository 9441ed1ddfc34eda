import Deadwood.CommandLine.Options
import Deadwood.Proofs.Flow.Edges
import Mathlib.Tactic.Common

/-!
What holds of every configuration that flags and files lead to: its policy is known, and its numbers fit a word. Each
value that is taken over is checked where it is taken over, so that a step of any of the readers keeps this.
-/

namespace Deadwood

namespace Config

/-- What every way to make a configuration sees to. -/
structure Sound (c : Config) : Prop where
  policy : (LabelPolicy.ofName? c.labels).isSome
  maxIterations : Integer.fits c.maxIterations = true
  cacheSize : Integer.fits c.cacheSize = true

theorem Sound.labels_cases {c : Config} (sound : c.Sound) :
    c.labels = LabelPolicy.name .all ∨ c.labels = LabelPolicy.name .referenced := by
  have policy := sound.policy
  rw [LabelPolicy.ofName?] at policy
  split_ifs at policy with all referenced
  · exact .inl all
  · exact .inr referenced
  · cases policy


theorem sound_usual : usual.Sound := ⟨by decide, by decide, by decide⟩

end Config

theorem Except.foldlM_keeps {ε α β : Type} {P : β → Prop} {step : β → α → Except ε β} {items : List α} {b b' : β}
    (keeps : ∀ b item b', P b → step b item = .ok b' → P b') (start : P b) (folded : items.foldlM step b = .ok b') :
    P b' := by
  induction items generalizing b with
  | nil =>
      cases folded
      exact start
  | cons item items ih =>
      rw [List.foldlM_cons] at folded
      obtain ⟨next, stepped, rest⟩ := Except.bind_eq_ok.1 folded
      exact ih (keeps b item next start stepped) rest

theorem Except.mapError_eq_ok {ε ε' α : Type} {outcome : Except ε α} {change : ε → ε'} {a : α} :
    outcome.mapError change = .ok a ↔ outcome = .ok a := by
  cases outcome with
  | error e => simp [Except.mapError]
  | ok b => simp [Except.mapError]

namespace Config

theorem Sound.setInt {c : Config} (sound : c.Sound) (slot : Slot) {n : Int} (fits : Integer.fits n = true) :
    (slot.setInt n c).Sound := by
  cases slot
  · exact sound
  · exact sound
  · exact sound
  · exact { sound with maxIterations := fits }
  · exact { sound with cacheSize := fits }

theorem Sound.setValue {c c' : Config} {slot : Slot} {v : Toml.Value} (sound : c.Sound)
    (set : slot.setValue v c = .ok c') : c'.Sound := by
  unfold Slot.setValue at set
  split at set
  · split at set
    · cases set
    · split_ifs at set with known
      cases set
      exact { sound with policy := known }
  · obtain ⟨names, -, rfl⟩ := Except.map_eq_ok.1 set
    exact ⟨sound.policy, sound.maxIterations, sound.cacheSize⟩
  · cases set
    exact ⟨sound.policy, sound.maxIterations, sound.cacheSize⟩
  · dsimp only at set
    split at set
    · cases set
    · next n found =>
        cases set
        exact sound.setInt _ (Option.filter_eq_some_iff.1 found).2
  · dsimp only at set
    split at set
    · cases set
    · next n found =>
        cases set
        exact sound.setInt _ (Option.filter_eq_some_iff.1 found).2
  · cases set

theorem Sound.setField {c c' : Config} {name : Bytes} {f : Toml.Field} (sound : c.Sound)
    (set : c.setField name f = .ok c') : c'.Sound := by
  unfold Config.setField at set
  split at set
  · cases set
  · split at set
    · exact sound.setValue (Except.mapError_eq_ok.1 set)
    · cases set
    · cases set

theorem Sound.setTop {c c' : Config} {name : Bytes} {f : Toml.Field} (sound : c.Sound)
    (set : c.setTop name f = .ok c') : c'.Sound := by
  unfold Config.setTop at set
  split_ifs at set
  cases f with
  | value line v => cases set
  | table t => exact Except.foldlM_keeps (fun _ _ _ sound set => Sound.setField sound set) sound set
  | tables first others => cases set

theorem Sound.loadTables {c c' : Config} {content : Bytes} (sound : c.Sound) (loaded : c.loadTables content = .ok c') :
    c'.Sound := by
  unfold Config.loadTables at loaded
  split at loaded
  · cases loaded
  · exact Except.foldlM_keeps (fun _ _ _ sound set => Sound.setTop sound set) sound loaded

end Config

namespace Fill

open Yaml (Node Plain)

def Keeps {α : Type} (r : Fill α) : Prop := ∀ f a f', f.config.Sound → r f = .ok (a, f') → f'.config.Sound

variable {α β : Type} {r : Fill α}

theorem keeps_pure (a : α) : Keeps (pure a : Fill α) := by
  intro f _ f' sound run
  cases run
  exact sound

theorem keeps_get : Keeps (get : Fill Filling) := by
  intro f _ f' sound run
  cases run
  exact sound

theorem keeps_throw (e : LoadError) : Keeps (throw e : Fill α) := by
  intro f a f' sound run
  cases run

theorem keeps_modify {change : Filling → Filling} (keeps : ∀ f, f.config.Sound → (change f).config.Sound) :
    Keeps (modify change : Fill Unit) := by
  intro f _ f' sound run
  cases run
  exact keeps f sound

theorem Keeps.bind {next : α → Fill β} (first : Keeps r) (rest : ∀ a, Keeps (next a)) : Keeps (r >>= next) := by
  intro f b f' sound run
  obtain ⟨⟨a, between⟩, run', last⟩ := Except.bind_eq_ok.1 run
  exact rest a between b f' (first f a between sound run') last

theorem keeps_filterMapM {step : β → Fill (Option α)} (each : ∀ item, Keeps (step item)) (items : List β) :
    Keeps (items.filterMapM step) := by
  induction items with
  | nil =>
      rw [List.filterMapM_nil]
      exact keeps_pure []
  | cons item items ih =>
      rw [List.filterMapM_cons]
      refine (each item).bind fun found => ?_
      cases found with
      | none => exact ih
      | some a => exact ih.bind fun others => keeps_pure _

theorem keeps_foldlM {step : α → β → Fill α} (each : ∀ a item, Keeps (step a item)) (items : List β) (a : α) :
    Keeps (items.foldlM step a) := by
  induction items generalizing a with
  | nil => exact keeps_pure a
  | cons item items ih =>
      rw [List.foldlM_cons]
      exact (each a item).bind ih

theorem keeps_fail (fault : Yaml.Fault) : Keeps (fail fault : Fill α) := keeps_throw _

theorem keeps_fail_bind (fault : Yaml.Fault) (next : α → Fill β) : Keeps (fail fault >>= next) := by
  intro f b f' sound run
  cases run

theorem keeps_blame (faults : List (Nat × LayoutFault)) : Keeps (blame faults) := keeps_modify fun _ sound => sound

theorem keeps_count (trail : Trail) : Keeps (count trail) := by
  refine Keeps.bind (keeps_modify ?_) fun _ => keeps_get.bind fun f => ?_
  · exact fun _ sound => sound
  · split
    · exact keeps_fail _
    · exact keeps_pure ()

theorem keeps_enter (trail : Trail) (n : Node) : Keeps (enter trail n) := by
  refine (keeps_count trail).bind fun _ => ?_
  split
  · dsimp only
    split
    · exact keeps_fail_bind _ _
    · refine (keeps_count _).bind fun _ => ?_
      split
      · exact keeps_pure _
      · exact keeps_fail _
  · exact keeps_pure _

theorem keeps_scalar (tag value : Bytes) : Keeps (scalar tag value) := by
  unfold scalar
  split
  · exact keeps_fail _
  · split
    · split
      · exact keeps_pure _
      · exact keeps_fail _
    · exact keeps_pure _

theorem keeps_misfitCollection (n : Node) (into : Bytes) : Keeps (misfitCollection n into) := by
  unfold misfitCollection
  split
  · exact keeps_blame _
  · split
    · exact keeps_blame _
    · exact keeps_blame _
  · exact keeps_pure ()

theorem keeps_text (trail : Trail) (n : Node) : Keeps (text trail n) := by
  refine (keeps_enter trail n).bind fun entered => ?_
  dsimp only
  split
  · exact (keeps_scalar _ _).bind fun _ => keeps_pure _
  · exact (keeps_misfitCollection _ _).bind fun _ => keeps_pure none

theorem word_fits {plain : Plain} {n : Int} (word : plain.word? = some n) : Integer.fits n = true := by
  have least : Integer.fits Integer.least = true := by decide
  unfold Plain.word? at word
  split at word
  · split_ifs at word with fits
    cases word
    exact fits
  · cases word
  · split_ifs at word
    cases word
    exact least
  · split_ifs at word with _ fits
    · cases word
      exact fits
    · cases word
      exact least
  · cases word

theorem keeps_setScalar (slot : Slot) (line : Nat) (tag value : Bytes) : Keeps (setScalar slot line tag value) := by
  refine (keeps_scalar tag value).bind fun read => ?_
  dsimp only
  split
  · exact keeps_modify fun f sound => ⟨sound.policy, sound.maxIterations, sound.cacheSize⟩
  · exact keeps_pure ()
  · split
    · next known => exact keeps_modify fun f sound => ⟨known, sound.maxIterations, sound.cacheSize⟩
    · exact keeps_throw _
  · exact keeps_modify fun f sound => ⟨sound.policy, sound.maxIterations, sound.cacheSize⟩
  · exact keeps_blame _
  · split
    · next n word => exact keeps_modify fun f sound => sound.setInt _ (word_fits word)
    · exact keeps_blame _

theorem keeps_setSlot (slot : Slot) (trail : Trail) (n : Node) : Keeps (setSlot slot trail n) := by
  refine (keeps_enter trail n).bind fun entered => ?_
  dsimp only
  split
  · refine (keeps_filterMapM (keeps_text _) _).bind fun names => keeps_modify fun f sound => ?_
    exact ⟨sound.policy, sound.maxIterations, sound.cacheSize⟩
  · exact keeps_setScalar _ _ _ _
  · exact keeps_misfitCollection _ _

def Shape.Keeps (shape : Shape) : Prop := ∀ key, ∀ fill ∈ shape.place key, ∀ trail n, Fill.Keeps (fill trail n)

theorem keeps_entries {shape : Shape} (places : shape.Keeps) (trail : Trail) (items : List (Node × Node))
    (given : Option (List Bytes)) (filled : List Bytes) : Keeps (entries shape trail items given filled) := by
  induction items generalizing given filled with
  | nil => exact keeps_pure given
  | cons item items ih =>
      rw [entries]
      split
      · exact ih given filled
      · refine (keeps_text trail item.1).bind fun name => ?_
        split
        · exact ih given filled
        · split
          · exact ih given filled
          · dsimp only
            split
            · exact (keeps_blame _).bind fun _ => ih _ filled
            · next fill placed =>
                split
                · exact (keeps_blame _).bind fun _ => ih _ filled
                · exact (places _ fill placed trail item.2).bind fun _ => ih _ _

theorem keeps_textKeys (trail : Trail) (items : List (Node × Node)) : Keeps (textKeys trail items) := by
  refine keeps_filterMapM (fun item => (keeps_enter trail item.1).bind fun entered => ?_) items
  dsimp only
  split
  · exact (keeps_scalar _ _).bind fun _ => keeps_pure _
  · exact keeps_pure none

theorem keeps_mapping {shape : Shape} (places : shape.Keeps) (fuel : Nat) (trail : Trail) (given : Option (List Bytes))
    (n : Node) : Keeps (mapping shape fuel trail given n) := by
  induction fuel generalizing trail given n with
  | zero => exact keeps_fail _
  | succ fuel ih =>
      refine (keeps_enter trail n).bind fun entered => ?_
      dsimp only
      split
      · split
        · exact (keeps_blame _).bind fun _ => keeps_pure given
        · refine (keeps_entries places _ _ _ _).bind fun given' => ?_
          split
          · exact keeps_pure _
          · have merged (known : Option (List Bytes)) (sources : List Node) :
                Keeps (sources.foldlM (fun known source => do
                  if !(entered.1.find source).any Node.isMapping then fail .badMerge
                  mapping shape fuel entered.1 known source) known) := by
              refine keeps_foldlM (fun known source => ?_) _ _
              dsimp only
              split
              · exact keeps_fail_bind _ _
              · exact ih _ _ _
            split
            · exact (merged _ _).bind fun _ => keeps_pure _
            · exact (keeps_textKeys _ _).bind fun known => (merged _ _).bind fun _ => keeps_pure _
      · refine (keeps_scalar _ _).bind fun read => ?_
        split
        · exact (keeps_blame _).bind fun _ => keeps_pure given
        · exact keeps_pure given
      · exact (keeps_misfitCollection _ _).bind fun _ => keeps_pure given

theorem keeps_settings : settings.Keeps := by
  intro key fill member trail n
  obtain ⟨slot, -, rfl⟩ := Option.map_eq_some_iff.1 member
  exact keeps_setSlot slot trail n

theorem keeps_file (fuel : Nat) : (file fuel).Keeps := by
  intro key fill member trail n
  simp only [file] at member
  split_ifs at member
  · cases member
    exact (keeps_mapping keeps_settings fuel trail none n).bind fun _ => keeps_pure ()
  · cases member

end Fill

namespace Config

theorem Sound.loadLayout {c c' : Config} {content : Bytes} (sound : c.Sound) (loaded : c.loadLayout content = .ok c') :
    c'.Sound := by
  unfold Config.loadLayout at loaded
  split at loaded
  · cases loaded
  · cases loaded
    exact sound
  · next document _ =>
      obtain ⟨⟨given, f⟩, run, checked⟩ := Except.bind_eq_ok.1 loaded
      dsimp only at checked
      split_ifs at checked
      cases checked
      exact Fill.keeps_mapping (Fill.keeps_file _) _ _ none document.root _ given f sound run

theorem Sound.load {c c' : Config} {file content : Bytes} (sound : c.Sound) (loaded : c.load file content = .ok c') :
    c'.Sound := by
  unfold Config.load at loaded
  split_ifs at loaded
  · exact sound.loadLayout loaded
  · exact sound.loadTables loaded

theorem sound_ofFile {file : Bytes} {content : Except FileError Bytes} {c : Config}
    (loaded : ofFile file content = .ok c) :
    c.Sound := by
  cases content with
  | ok content => exact sound_usual.load (Except.mapError_eq_ok.1 loaded)
  | error e => cases loaded

end Config

namespace Overrides

structure Sound (o : Overrides) : Prop where
  maxIterations : ∀ n ∈ o.maxIterations, Integer.fits n = true
  cacheSize : ∀ n ∈ o.cacheSize, Integer.fits n = true

theorem Sound.apply {o : Overrides} {c c' : Config} (sound : o.Sound) (sound' : c.Sound)
    (applied : o.apply c = .ok c') :
    c'.Sound := by
  have chosen {n : Int} (given : Option Int) (fits : ∀ n ∈ given, Integer.fits n = true)
      (usual : Integer.fits n = true) :
      Integer.fits (given.getD n) = true := by
    cases given with
    | none => exact usual
    | some n => exact fits n rfl
  unfold Overrides.apply at applied
  split at applied
  · cases applied
  · next known =>
      cases applied
      refine ⟨?_, chosen _ sound.maxIterations sound'.maxIterations, chosen _ sound.cacheSize sound'.cacheSize⟩
      cases labels : o.labels with
      | none => exact sound'.policy
      | some name =>
          rw [labels] at known
          have accepted := Option.filter_eq_none_iff.1 known name rfl
          simpa [← Option.isSome_iff_ne_none] using accepted

end Overrides

/-- What a flag does keeps a property of the options, given that whole numbers are only taken if they fit. -/
def FlagEffect.Keeps {σ : Type} (P : σ → Prop) : FlagEffect σ → Prop
  | .switch set => ∀ b o, P o → P (set b o)
  | .text set => ∀ s o, P o → P (set s o)
  | .integer set => ∀ n o, Integer.fits n = true → P o → P (set n o)
  | .natural set => ∀ n o, P o → P (set n o)

namespace Flag

variable {σ : Type} {P : σ → Prop}

theorem apply_keeps {f : Flag σ} {value : Bytes} {o o' : σ} (keeps : f.effect.Keeps P) (start : P o)
    (applied : f.apply value o = .ok o') : P o' := by
  unfold apply at applied
  split at applied
  next set effect =>
    rw [effect] at keeps
    cases applied
    exact keeps value o start
  next set effect =>
    rw [effect] at keeps
    split at applied
    next b _ =>
      cases applied
      exact keeps b o start
    next => cases applied
  next set effect =>
    rw [effect] at keeps
    split at applied
    next n _ =>
      split_ifs at applied with fits
      cases applied
      exact keeps n o fits start
    next => cases applied
  next set effect =>
    rw [effect] at keeps
    split at applied
    next n _ =>
      split_ifs at applied
      cases applied
      exact keeps n.toNat o start
    next => cases applied

theorem parse_keeps {flags : List (Flag σ)} {arguments rest : List Bytes} {o o' : σ}
    (keeps : ∀ f ∈ flags, f.effect.Keeps P) (start : P o) (parsed : parse flags o arguments = .ok (o', rest)) :
    P o' := by
  fun_induction parse flags o arguments with
  | case1 | case2 | case3 =>
      cases parsed
      exact start
  | case4 | case5 | case9 => cases parsed
  | case6 options _ _ _ _ _ flag value rest found _ ih =>
      obtain ⟨next, applied, later⟩ := Except.bind_eq_ok.1 parsed
      exact ih next (apply_keeps (keeps flag (List.mem_of_find?_eq_some found)) start applied) later
  | case7 options _ _ _ _ _ name set rest found _ ih =>
      exact ih (keeps ⟨name, .switch set⟩ (List.mem_of_find?_eq_some found) true options start) parsed
  | case8 options _ _ _ _ _ flag value rest _ found _ ih =>
      obtain ⟨next, applied, later⟩ := Except.bind_eq_ok.1 parsed
      exact ih next (apply_keeps (keeps flag (List.mem_of_find?_eq_some found)) start applied) later

end Flag

namespace Options

theorem sound_parse {arguments rest : List Bytes} {o : Options}
    (parsed : Flag.parse flags {} arguments = .ok (o, rest)) :
    o.overrides.Sound := by
  have same (n : Int) : ∀ m ∈ some n, m = n := fun m given => (Option.some.inj given).symm
  have keeps : ∀ f ∈ flags, f.effect.Keeps fun o => (∀ n ∈ o.overrides.maxIterations, Integer.fits n = true) ∧
      ∀ n ∈ o.overrides.cacheSize, Integer.fits n = true := by
    simp only [flags, List.forall_mem_cons, FlagEffect.Keeps]
    refine ⟨?_, ?_, ?_, ?_, ?_, ?_, ?_, ?_, ?_, ?_, ?_, ?_, ?_, ?_, ?_, ?_, ?_, ?_, by simp⟩
    case refine_5 => exact fun n o fits sound => ⟨fun m given => same n m given ▸ fits, sound.2⟩
    case refine_6 => exact fun n o fits sound => ⟨sound.1, fun m given => same n m given ▸ fits⟩
    all_goals first | exact fun _ _ sound => sound | exact fun _ _ _ sound => sound
  have kept := Flag.parse_keeps keeps ⟨by simp, by simp⟩ parsed
  exact ⟨kept.1, kept.2⟩

theorem sound_configuration {arguments rest : List Bytes} {o : Options} {content : Except FileError Bytes} {c : Config}
    (parsed : Flag.parse flags {} arguments = .ok (o, rest)) (configured : o.configuration content = .ok c) :
    c.Sound := by
  rw [configuration] at configured
  split_ifs at configured
  · exact (sound_parse parsed).apply Config.sound_usual configured
  · obtain ⟨base, found, applied⟩ := Except.bind_eq_ok.1 configured
    exact (sound_parse parsed).apply (Config.sound_ofFile found) applied

end Options

end Deadwood
