import Deadwood.CommandLine.Run
import Deadwood.Proofs.CommandLine.Settling

/-! What becomes of files that are optimized into one directory. -/

namespace Deadwood

namespace Work

variable {α β : Type} {tally tally' : Tally} {w w' : World}

theorem run_bind (x : Work (StateM World) α) (f : α → Work (StateM World) β) (tally : Tally) (w : World) :
    (x >>= f).run.run tally w =
      match x.run.run tally w with
      | ((.ok a, tally), w) => (f a).run.run tally w
      | ((.error e, tally), w) => ((.error e, tally), w) := by
  rw [ExceptT.run_bind, StateT.run_bind]
  simp only [bind, StateT.bind]
  generalize x.run.run tally w = ran
  obtain ⟨⟨outcome, tally⟩, w⟩ := ran
  cases outcome <;> rfl

theorem of_bind {x : Work (StateM World) α} {f : α → Work (StateM World) β} {b : β}
    (ran : (x >>= f).run.run tally w = ((.ok b, tally'), w')) :
    ∃ a between w'', x.run.run tally w = ((.ok a, between), w'') ∧
      (f a).run.run between w'' = ((.ok b, tally'), w') := by
  rw [run_bind] at ran
  generalize x.run.run tally w = first at ran ⊢
  obtain ⟨⟨outcome, between⟩, w''⟩ := first
  cases outcome with
  | ok a => exact ⟨a, between, w'', rfl, ran⟩
  | error e => cases ran

theorem run_outcome (x : Work (StateM World) α) (tally : Tally) (w : World) :
    (outcome x).run.run tally w =
      ((.ok (x.run.run tally w).1.1, (x.run.run tally w).1.2), (x.run.run tally w).2) := rfl

theorem run_perform (x : StateM World α) (tally : Tally) (w : World) :
    (perform x).run.run tally w = ((.ok (x w).1, tally), (x w).2) := rfl

theorem run_require (x : Except CommandError α) (tally : Tally) (w : World) :
    (require x : Work (StateM World) α).run.run tally w = ((x, tally), w) := rfl

end Work

namespace Workplace

open Work

section

variable {m : Type → Type} [Monad m]

/-- What comes before the work: a session, and the directory, which is taken. Answers with what lets go of it. -/
def take (w : Workplace m) (out : Bytes) : Work m (Session × m Unit) := do
  let session ← w.openSession
  attempt (w.sys.makeDirectories out)
  match ← attempt (w.sys.lock (Path.join out (bytes "LOCK"))) with
  | none => throw (.occupied out)
  | some release => return (session, release)

theorem optimize_eq [LawfulMonad m] (w : Workplace m) {out : Bytes} {files : List Bytes} (named : out ≠ [])
    (listed : files ≠ []) :
    w.optimize out files = (do
      let (session, release) ← w.take out
      let done ← outcome (w.runBatch out files session)
      perform release
      require done) := by
  rw [optimize, take, if_neg listed]
  -- Both sides take the same steps as far as the lock.
  simp only [named, if_false, bind_assoc]
  congr 1
  funext session
  congr 1
  funext _
  congr 1
  funext taken
  cases taken with
  | none => simp
  | some release => simp

end

variable {order : Nat → List Nat} {processors : Nat} {console : Console} {options : Options} {out : Bytes}
  {files : List Bytes} {w w' : World} {tally tally' : Tally} {session : Session} {release : StateM World Unit}

theorem run_runBatch (session : Session) (tally : Tally) (w : World) :
    (runBatch ⟨World.system order processors, console, options⟩ out files session).run.run tally w =
      let (batch, w) := Batch.run (World.system order processors) console out files session w
      ((match batch.error? files.length with
        | some e => .error e
        | none => .ok (), batch.session.tally), w) := by
  rw [runBatch, run_bind, run_perform]
  simp only [run_bind]
  generalize Batch.run (World.system order processors) console out files session w = ran
  obtain ⟨batch, w⟩ := ran
  dsimp only
  cases batch.error? files.length <;> rfl

theorem fresh_of_openSession {place : Workplace (StateM World)}
    (opened : place.openSession.run.run tally w = ((.ok session, tally'), w')) :
    session.cache = .empty session.settings.cacheSize := by
  obtain ⟨config, _, _, -, rest⟩ := of_bind opened
  obtain ⟨_, _, _, -, rest⟩ := of_bind rest
  obtain ⟨_, _, _, -, rest⟩ := of_bind rest
  obtain ⟨_, _, _, -, rest⟩ := of_bind rest
  cases rest
  rfl

theorem exists_release {path : Bytes} (locked : (World.lock path w).1 = .ok (some release)) :
    ∃ place, release = World.release place := by
  rw [World.lock] at locked
  cases found : w.disk.target path with
  | error cause => simp [found] at locked
  | ok target =>
      obtain ⟨place, content⟩ := target
      simp only [found] at locked
      split at locked <;> cases locked
      exact ⟨place, rfl⟩

theorem of_take (taken : (take ⟨World.system order processors, console, options⟩ out).run.run tally w =
      ((.ok (session, release), tally'), w')) :
    session.cache = .empty session.settings.cacheSize ∧ ∀ w, (release w).2.disk = w.disk := by
  obtain ⟨opened, _, _, starts, rest⟩ := of_bind taken
  obtain ⟨_, _, _, -, rest⟩ := of_bind rest
  obtain ⟨answer, _, _, locks, rest⟩ := of_bind rest
  cases answer with
  | none => cases rest
  | some letGo =>
      cases rest
      obtain ⟨locked, _, before, performed, rest⟩ := of_bind locks
      rw [run_perform] at performed
      cases locked with
      | error e => cases rest
      | ok letGo =>
          cases rest
          have answered : (World.lock (Path.join out (bytes "LOCK")) _).1 = .ok (some release) :=
            Except.ok.inj (congrArg (·.1.1) performed)
          obtain ⟨place, rfl⟩ := exists_release answered
          exact ⟨fresh_of_openSession starts, fun _ => rfl⟩

theorem run_optimize (named : out ≠ []) (listed : files ≠ [])
    (taken : (take ⟨World.system order processors, console, options⟩ out).run.run tally w =
      ((.ok (session, release), tally'), w')) :
    ∃ counted after,
      (optimize ⟨World.system order processors, console, options⟩ out files).run.run tally w =
        ((match (Batch.run (World.system order processors) console out files session w').1.error? files.length with
          | some e => .error e
          | none => .ok (), counted), after) ∧
      after.disk = (Batch.run (World.system order processors) console out files session w').2.disk := by
  rw [optimize_eq _ named listed, run_bind, taken]
  simp only [run_bind, run_outcome, run_runBatch, run_perform, run_require]
  exact ⟨_, _, rfl, (of_take taken).2 _⟩

/-- Several files are optimized into a directory that has been taken, whatever the order in which the work on them gets
on. The error is that of the first of them that has one. But for the log, no place changes that is not the place of the
result of some file that can be optimized. Results whose files have the same name apart from directory and extension
share a place, and what is there in the end are these results lying one through another. So a result is there as it is
if no other one has its name, and all are there exactly if results with the same name are equal. -/
theorem optimize_weaves_namesakes {begun : World} (equipped : 0 < processors) (named : out ≠ []) (listed : files ≠ [])
    (taken : (take ⟨World.system order processors, console, options⟩ out).run.run tally w =
      ((.ok (session, release), tally'), begun))
    (apart : Batch.Apart console session.settings begun.disk out files) :
    let outcome := Batch.outcome session.settings begun.disk
    let Namesake := Batch.Namesake session.settings begun.disk files
    ∃ verdict counted after,
      (optimize ⟨World.system order processors, console, options⟩ out files).run.run tally w =
        ((verdict, counted), after) ∧
      (∀ e, verdict = .error e ↔ ∃ front file back, files = front ++ file :: back ∧ outcome file = .error e ∧
        ∀ earlier ∈ front, (outcome earlier).isOk) ∧
      (∀ place ∉ console.places begun.disk, after.disk.node? place ≠ begun.disk.node? place →
        ∃ file ∈ files, (outcome file).isOk ∧ Batch.place? begun.disk out file = some place) ∧
      (∀ file ∈ files, ∀ text, outcome file = .ok text →
        (∃ content, after.disk.read (Batch.target out file) = .ok content ∧
          Woven (fun text count => Namesake file text ∧ count = text.length) content) ∧
        ((∀ other, Namesake file other → other = text) → after.disk.read (Batch.target out file) = .ok text)) ∧
      ((∀ file ∈ files, ∀ text, outcome file = .ok text → after.disk.read (Batch.target out file) = .ok text) ↔
        ∀ file ∈ files, ∀ text, outcome file = .ok text → ∀ other, Namesake file other → other = text) := by
  intro outcome Namesake
  obtain ⟨counted, after, ran, same⟩ := run_optimize named listed taken
  have ends := Batch.run_ends equipped named order apart (of_take taken).1
  refine ⟨_, counted, after, ran, ?_, ?_, ?_, ?_⟩
  · intro e
    rw [← ends.error?_eq_some_iff]
    cases Batch.error? _ files.length <;> simp
  · intro place outside changed
    rw [same] at changed
    exact ends.mem_of_changed outside changed
  · intro file member text succeeds
    rw [same]
    exact ⟨ends.read_woven apart named member succeeds, ends.read_alone apart named member succeeds⟩
  · rw [same]
    exact ends.reads_iff apart named

def printing (n : Nat) : Program := ⟨[
  { name := bytes "main"
    returnType := bytes "void"
    body := [⟨.call, [⟨.function, bytes "puti"⟩, ⟨.constant, Bytes.ofNat n⟩], 5⟩] }]⟩

def homonyms : Disk where
  current := []
  nodes := [
    ([bytes "a"], .directory), ([bytes "a", bytes "x.ir"], .file (printing 1).text),
    ([bytes "b"], .directory), ([bytes "b", bytes "x.ir"], .file (printing 2).text)]

def homonymsTaken : Disk :=
  { homonyms with
    nodes := homonyms.nodes ++ [([bytes "o"], .directory), ([bytes "o", bytes "LOCK"], .file [])] }

def forgetful : Workplace (StateM World) :=
  ⟨World.system List.range, { logger := { style := .terminal false, threshold := some .info } },
    { overrides := { cacheSize := some 0 } }⟩

def forgetfulSettings : Settings := { Config.usual.settings with cacheSize := 0 }

theorem take_homonyms :
    ∃ session release tally begun, (forgetful.take (bytes "o")).run.run {} { disk := homonyms } =
      ((.ok (session, release), tally), begun) ∧ session.settings = forgetfulSettings ∧ begun.disk = homonymsTaken := by
  have opened : ((forgetful.take (bytes "o")).run.run {} { disk := homonyms }).1.1.toOption.map (·.1.settings) =
      some forgetfulSettings := by decide +kernel
  have taken : ((forgetful.take (bytes "o")).run.run {} { disk := homonyms }).2.disk = homonymsTaken := by
    decide +kernel
  obtain ⟨⟨⟨answer, tally⟩, begun⟩, ran⟩ :
    ∃ r, (forgetful.take (bytes "o")).run.run {} { disk := homonyms } = r := ⟨_, rfl⟩
  rw [ran] at opened taken
  cases answer with
  | error e => cases opened
  | ok answer => exact ⟨answer.1, answer.2, tally, begun, ran, Option.some.inj opened, taken⟩

theorem outcome_printing {d : Disk} {file : Bytes} {n : Nat} (found : d.read file = .ok (printing n).text)
    (read : Program.read (printing n).text = .ok (printing n))
    (kept : (Analysis.run forgetfulSettings (printing n)).map (·.optimized) = .ok (printing n)) :
    Batch.outcome forgetfulSettings d file = .ok (printing n).text := by
  obtain ⟨a, ran, same⟩ := Except.map_eq_ok.1 kept
  rw [Batch.outcome, found, Program.ofFile, read, Except.mapError, Except.bind, Analysis.shown, ran, ← same]
  rfl

theorem run_printing :
    ∀ n ∈ [1, 2], (Analysis.run forgetfulSettings (printing n)).map (·.optimized) = .ok (printing n) := by
  have settings : forgetfulSettings = ⟨.all, [[103, 101, 116, 105], [112, 117, 116, 105], [103, 101, 116, 99],
      [112, 117, 116, 99], [103, 101, 116, 102], [112, 117, 116, 102]], [109, 97, 105, 110], 0, 0⟩ := by decide +kernel
  have spelled (n : Nat) : printing n = ⟨[
      { name := [109, 97, 105, 110]
        returnType := [118, 111, 105, 100]
        body := [⟨.call, [⟨.function, [112, 117, 116, 105]⟩, ⟨.constant, Bytes.ofNat n⟩], 5⟩] }]⟩ := by
    rw [printing, show bytes "main" = [109, 97, 105, 110] by decide +kernel,
      show bytes "void" = [118, 111, 105, 100] by decide +kernel,
      show bytes "puti" = [112, 117, 116, 105] by decide +kernel]
  intro n member
  rw [settings, spelled]
  rcases List.mem_pair.1 member with rfl | rfl
  · rw [show Bytes.ofNat 1 = [49] by decide +kernel]
    cbv
  · rw [show Bytes.ofNat 2 = [50] by decide +kernel]
    cbv

theorem apart_homonyms :
    Batch.Apart forgetful.console forgetfulSettings homonymsTaken (bytes "o") [bytes "a/x.ir", bytes "b/x.ir"] := by
  have clear : ∀ file ∈ [bytes "a/x.ir", bytes "b/x.ir"], (Batch.place? homonymsTaken (bytes "o") file).isSome ∧
      ∀ place ∈ homonymsTaken.route file, ∀ other ∈ [bytes "a/x.ir", bytes "b/x.ir"],
        Batch.place? homonymsTaken (bytes "o") other ≠ some place := by
    decide +kernel
  constructor
  case writable => exact fun file member _ => (clear file member).1
  case unlogged =>
    rintro place - ⟨path, logged, -⟩
    cases logged
  case unread =>
    rintro file member place passed (⟨path, logged, -⟩ | ⟨other, member', -, found⟩)
    · cases logged
    · exact (clear file member).2 place passed other member' found
  case digests => exact .inl rfl

/-- Nothing goes wrong, yet a result is lost. -/
theorem homonym_lost :
    let files := [bytes "a/x.ir", bytes "b/x.ir"]
    ∃ counted after,
      (forgetful.optimize (bytes "o") files).run.run {} { disk := homonyms } = ((.ok (), counted), after) ∧
      ∃ file ∈ files, ∃ text, Batch.outcome forgetfulSettings homonymsTaken file = .ok text ∧
        after.disk.read (Batch.target (bytes "o") file) ≠ .ok text := by
  intro files
  have reads : ∀ n ∈ [1, 2], Program.read (printing n).text = .ok (printing n) := by decide +kernel
  have first : Batch.outcome forgetfulSettings homonymsTaken (bytes "a/x.ir") = .ok (printing 1).text :=
    outcome_printing (by decide +kernel) (reads 1 (by decide)) (run_printing 1 (by decide))
  have second : Batch.outcome forgetfulSettings homonymsTaken (bytes "b/x.ir") = .ok (printing 2).text :=
    outcome_printing (by decide +kernel) (reads 2 (by decide)) (run_printing 2 (by decide))
  have good : ∀ file ∈ files, (Batch.outcome forgetfulSettings homonymsTaken file).isOk := by
    intro file member
    rcases List.mem_pair.1 member with rfl | rfl
    · rw [first]
      rfl
    · rw [second]
      rfl
  have apart := apart_homonyms
  obtain ⟨session, release, tally, begun, ran, settings, disk⟩ := take_homonyms
  rw [← settings, ← disk] at first second good apart
  obtain ⟨verdict, counted, after, done, failed, -, -, all⟩ :=
    optimize_weaves_namesakes (by decide) (by decide) (by decide) ran apart
  cases verdict with
  | ok _ =>
      refine ⟨counted, after, done, ?_⟩
      rw [← settings, ← disk]
      by_contra kept
      push Not at kept
      have same := all.1 kept (bytes "a/x.ir") List.mem_cons_self (printing 1).text first (printing 2).text
        ⟨bytes "b/x.ir", List.mem_cons_of_mem _ List.mem_cons_self, by decide +kernel, second⟩
      exact absurd same (by decide +kernel)
  | error e =>
      obtain ⟨front, file, back, split, fails, -⟩ := (failed e).1 rfl
      have succeeds := good file (by rw [show files = front ++ file :: back from split]; simp)
      rw [fails] at succeeds
      cases succeeds

end Deadwood.Workplace
