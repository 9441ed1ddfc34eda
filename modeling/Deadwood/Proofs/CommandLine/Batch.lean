import Deadwood.Proofs.CommandLine.Logging
import Deadwood.Proofs.Disk.Naming
import Deadwood.Proofs.Disk.Weaving
import Deadwood.Proofs.Pool.Schedule
import Deadwood.Proofs.Session.Bookkeeping

/-!
The work on several files, in whatever order it gets on. As long as nothing that is written is in the way of what is
read, every file comes to what it comes to by itself. A place for results holds what has been put there of the results
that belong there, one through another.
-/

namespace Deadwood

theorem Cache.capacity_of_get? {κ α : Type} [DecidableEq κ] {c c' : Cache κ α} {key : κ} {value : α}
    (found : c.get? key = some (value, c')) : c'.capacity = c.capacity := by
  rw [Cache.insert_of_get? found]
  rfl

namespace Session

variable {s : Session} {requests : List Program} {p : Program}

theorem capacity_look (s : Session) (p : Program) : (s.look p).2.cache.capacity = s.cache.capacity := by
  rw [look]
  split
  · rfl
  · split
    · exact Cache.capacity_of_get? ‹_›
    · rfl

theorem capacity_compute (s : Session) (p : Program) : (s.compute p).2.cache.capacity = s.cache.capacity := by
  simp only [compute, analyze]
  split <;> rfl

theorem faithful_of_bare (bare : s.cache.capacity = 0) (requests : List Program) : s.Faithful requests := by
  have empty := s.cache.bounded
  rw [bare, Nat.le_zero, List.length_eq_zero_iff] at empty
  intro entry member
  rw [empty] at member
  cases member

theorem look_alone (read : ∀ p ∈ requests, ∃ source, Program.read source = .ok p)
    (apart : s.cache.capacity = 0 ∨ ∀ p ∈ requests, ∀ q ∈ requests, p.digest = q.digest → p.canonical = q.canonical)
    (present : p ∈ requests) (faithful : s.Faithful requests) :
    (∀ outcome, (s.look p).1 = some outcome → outcome.shown = Analysis.shown s.settings p) ∧
      (s.look p).2.settings = s.settings ∧ (s.look p).2.Faithful requests := by
  cases apart with
  | inr apart => exact look_shown read apart present faithful
  | inl bare =>
      -- A session that keeps nothing serves every request as if it were the only one.
      have alone : ∀ q ∈ [p], ∀ r ∈ [p], q.digest = r.digest → q.canonical = r.canonical := by
        intro q first r second _
        rw [List.mem_singleton.1 first, List.mem_singleton.1 second]
      have source : ∀ q ∈ [p], ∃ source, Program.read source = .ok q := by
        intro q same
        rw [List.mem_singleton.1 same]
        exact read p present
      obtain ⟨shown, settings, -⟩ := look_shown source alone (List.mem_singleton_self p) (faithful_of_bare bare [p])
      exact ⟨shown, settings, faithful_of_bare ((s.capacity_look p).trans bare) requests⟩

end Session

/-- How much of a text has been put, if it is what the work on a file comes to. -/
def Task.count? (text : Bytes) : Task (StateM World) → Option Nat
  | writing _ _ offset _ => some offset
  | finished none => some text.length
  | _ => none

namespace Task

variable {file text : Bytes}

theorem count?_ofProgram (read : Except CommandError Program) :
    (ofProgram read : Task (StateM World)).count? text = none := by
  cases read <;> rfl

theorem count?_ofAnswer (answer : Except FlowError Result) :
    (ofAnswer file answer : Task (StateM World)).count? text = none := by
  cases answer <;> rfl

theorem exists_of_isFinished {m : Type → Type} (task : Task m) (finished : task.isFinished) :
    ∃ failure, task = .finished failure := by
  cases task with
  | finished failure => exact ⟨failure, rfl⟩
  | _ => cases finished

end Task

namespace Batch

open World

/-- What a file comes to by itself: the text of its optimized program, or what is wrong. -/
def outcome (s : Settings) (d : Disk) (file : Bytes) : Except CommandError Bytes :=
  (Program.ofFile file (d.read file)).bind fun p =>
    ((Analysis.shown s p).map (·.1)).mapError (.flow .optimize file)

def place? (d : Disk) (out file : Bytes) : Option (List Bytes) := (d.target (target out file)).toOption.map (·.1)

def programs (d : Disk) (files : List Bytes) : List Program :=
  files.filterMap fun file => (Program.ofFile file (d.read file)).toOption

def written (s : Settings) (d : Disk) (out : Bytes) (files : List Bytes) : Set (List Bytes) :=
  {place | ∃ file ∈ files, (outcome s d file).isOk ∧ place? d out file = some place}

/-- Nothing that is written is in the way of what is read, nor the log in the way of a result, and digests tell the
programs apart if any results are kept. -/
structure Apart (c : Console) (s : Settings) (d : Disk) (out : Bytes) (files : List Bytes) : Prop where
  writable : ∀ file ∈ files, (outcome s d file).isOk → (place? d out file).isSome
  unlogged : ∀ place ∈ written s d out files, place ∉ c.places d
  unread : ∀ file ∈ files, ∀ place ∈ d.route file, place ∉ c.places d ∪ written s d out files
  digests : s.cacheSize = 0 ∨ ∀ p ∈ programs d files, ∀ q ∈ programs d files,
    p.digest = q.digest → p.canonical = q.canonical

def fault? (s : Settings) (d : Disk) (file : Bytes) : Option CommandError :=
  match outcome s d file with
  | .ok _ => none
  | .error e => some e

def failure? (s : Settings) (d : Disk) (files : List Bytes) (index : Nat) : Option CommandError :=
  files[index]?.bind (fault? s d)

/-- What the work on a file has at hand is what is in the file or what that comes to. -/
def Fits (s : Settings) (d : Disk) (out file : Bytes) : Task (StateM World) → Prop
  | .waiting => True
  | .read p | .missed p _ => Program.ofFile file (d.read file) = .ok p
  | .optimized result => outcome s d file = .ok result.program.text
  | .writing result put offset left => outcome s d file = .ok result.program.text ∧
      (∃ place, place? d out file = some place ∧ put = World.put place) ∧
      ∃ front, result.program.text = front ++ left.flatten ∧ front.length = offset
  | .finished failure => failure = fault? s d file

/-- The texts that are put at a place, and how much of each has been put. -/
def Put (s : Settings) (d : Disk) (out : Bytes) (files : List Bytes) (tasks : Nat → Task (StateM World))
    (place : List Bytes) (text : Bytes) (count : Nat) : Prop :=
  ∃ index file, files[index]? = some file ∧ place? d out file = some place ∧ outcome s d file = .ok text ∧
    (tasks index).count? text = some count

structure Progress (c : Console) (s : Settings) (d : Disk) (out : Bytes) (files : List Bytes) (processors : Nat)
    (b : Batch (StateM World)) (w : World) : Prop where
  settings : b.session.settings = s
  capacity : b.session.cache.capacity = s.cacheSize
  faithful : b.session.Faithful (programs d files)
  disk : d.Undisturbed (c.places d ∪ written s d out files) w.disk
  pool : ∃ events, b.pool.Sound files.length (Pool.width processors files.length) (failure? s d files) events
  unrefused : ∀ index, (b.pool.stage index).refusal? = none
  finished : ∀ index, 4 < (b.pool.stage index).age → (b.tasks index).isFinished
  fits : ∀ index file, files[index]? = some file → Fits s d out file (b.tasks index)
  nodes : ∀ place ∉ c.places d,
    w.disk.node? place = d.node? place ∧ (∀ text count, ¬ Put s d out files b.tasks place text count) ∨
      ∃ content, w.disk.node? place = some (.file content) ∧ Woven (Put s d out files b.tasks place) content

variable {order : Nat → List Nat} {processors : Nat} {c : Console} {s : Settings} {d : Disk} {out file : Bytes}
  {files : List Bytes}

theorem read_of_mem_programs {p : Program} (member : p ∈ programs d files) : ∃ source, Program.read source = .ok p := by
  obtain ⟨file, -, found⟩ := List.mem_filterMap.1 member
  cases content : d.read file with
  | error e => simp [content, Program.ofFile, Except.toOption] at found
  | ok source =>
      refine ⟨source, ?_⟩
      rw [content, Program.ofFile] at found
      cases read : Program.read source with
      | error e => simp [read, Except.mapError, Except.toOption] at found
      | ok q => simpa [read, Except.mapError, Except.toOption] using found

theorem place?_eq_some_iff {place : List Bytes} :
    place? d out file = some place ↔ ∃ held, d.target (target out file) = .ok (place, held) := by
  rw [place?]
  cases d.target (target out file) with
  | error cause => simp [Except.toOption]
  | ok found => simp [Except.toOption, Prod.ext_iff]

theorem fault?_of_ok {text : Bytes} (succeeds : outcome s d file = .ok text) : fault? s d file = none := by
  rw [fault?, succeeds]

theorem fault?_of_error {e : CommandError} (fails : outcome s d file = .error e) : fault? s d file = some e := by
  rw [fault?, fails]

theorem fits_ofAnswer {p : Program} (read : Program.ofFile file (d.read file) = .ok p) {o : Outcome Result}
    (shown : o.shown = Analysis.shown s p) : Fits s d out file (.ofAnswer file o.answer) := by
  rw [Outcome.shown] at shown
  cases answer : o.answer with
  | error e =>
      refine (fault?_of_error ?_).symm
      rw [outcome, read, Except.bind, ← shown, answer]
      rfl
  | ok result =>
      show outcome s d file = .ok result.program.text
      rw [outcome, read, Except.bind, ← shown, answer]
      rfl

theorem fits_ofProgram : Fits s d out file (.ofProgram (Program.ofFile file (d.read file))) := by
  cases read : Program.ofFile file (d.read file) with
  | error e =>
      refine (fault?_of_error ?_).symm
      rw [outcome, read]
      rfl
  | ok p => exact read

theorem mem_programs {p : Program} (member : file ∈ files) (read : Program.ofFile file (d.read file) = .ok p) :
    p ∈ programs d files :=
  List.mem_filterMap.2 ⟨file, member, by rw [read]; rfl⟩

theorem isOk_of_outcome {text : Bytes} (succeeds : outcome s d file = .ok text) : (outcome s d file).isOk := by
  rw [succeeds]
  rfl

theorem Apart.exists_place {text : Bytes} (apart : Apart c s d out files) (member : file ∈ files)
    (succeeds : outcome s d file = .ok text) :
    ∃ place held, place? d out file = some place ∧ d.target (target out file) = .ok (place, held) := by
  obtain ⟨place, found⟩ := Option.isSome_iff_exists.1 (apart.writable file member (isOk_of_outcome succeeds))
  obtain ⟨held, reached⟩ := place?_eq_some_iff.1 found
  exact ⟨place, held, found, reached⟩

theorem Apart.not_logged {text : Bytes} {place : List Bytes} (apart : Apart c s d out files) (member : file ∈ files)
    (succeeds : outcome s d file = .ok text) (found : place? d out file = some place) : place ∉ c.places d :=
  apart.unlogged place ⟨file, member, isOk_of_outcome succeeds, found⟩

/-! What each step of the work does. -/

section

variable {b : Batch (StateM World)} {total index : Nat} {w : World} {p : Program} {start : Instant} {result : Result}
  {put : Nat → Bytes → StateM World (Except FileError Unit)} {offset : Nat} {left : List Bytes}

theorem work_waiting (task : b.tasks index = .waiting) :
    b.work (system order processors) c out total index file w =
      (b.put index (.ofProgram (Program.ofFile file (w.disk.read file))), w) := by
  rw [work, task]
  rfl

theorem work_read (task : b.tasks index = .read p) :
    b.work (system order processors) c out total index file w =
      match b.session.look p with
      | (some outcome, session) =>
        ({ b with session }.put index (.ofAnswer file outcome.answer),
          (c.report (system order processors) w.time outcome.notices w).2)
      | (none, session) => ({ b with session }.put index (.missed p w.time), w) := by
  rw [work, task]
  show (match b.session.look p with
    | (some outcome, session) => answered (system order processors) c { b with session } index file w.time outcome
    | (none, session) => return { b with session }.put index (.missed p w.time)) w = _
  obtain ⟨found, session⟩ := b.session.look p
  cases found <;> rfl

theorem work_missed (task : b.tasks index = .missed p start) :
    b.work (system order processors) c out total index file w =
      ({ b with session := (b.session.compute p).2 }.put index (.ofAnswer file (b.session.compute p).1.answer),
        (c.report (system order processors) start (b.session.compute p).1.notices w).2) := by
  rw [work, task]
  rfl

theorem work_optimized (task : b.tasks index = .optimized result) :
    b.work (system order processors) c out total index file w =
      deliver (system order processors) out (b.tell (system order processors) c index total w).1 index file result
        (b.tell (system order processors) c index total w).2 := by
  rw [work, task]
  rfl

theorem work_writing {text : Bytes} (task : b.tasks index = .writing result put offset (text :: left)) :
    b.work (system order processors) c out total index file w =
      (b.put index (match (put offset text w).1 with
        | .error e => .finished (some (.file e))
        | .ok _ => .writing result put (offset + text.length) left), (put offset text w).2) := by
  rw [work, task]
  simp only [bind, StateT.bind]
  obtain ⟨answer, w⟩ := put offset text w
  cases answer <;> rfl

theorem work_written (task : b.tasks index = .writing result put offset []) :
    b.work (system order processors) c out total index file w =
      (b.put index (.finished none), (c.say (system order processors) .debug (bytes "Wrote optimized program")
        (Notice.field "file" (.text (target out file)) ++ Notice.field "removed" (.int result.stats.removed)) w).2) := by
  rw [work, task]
  rfl

theorem tell_eq (order : Nat → List Nat) (processors : Nat) (c : Console) (index total : Nat)
    (b : Batch (StateM World)) (w : World) :
    ∃ progress, (b.tell (system order processors) c index total w).1 = { b with progress } := by
  rw [tell]
  simp only [bind, StateT.bind, system]
  split
  · exact ⟨_, rfl⟩
  · exact ⟨_, rfl⟩

theorem deliver_eq (b : Batch (StateM World)) (index : Nat) (result : Result) (named : out ≠ []) :
    b.deliver (system order processors) out index file result w =
      match w.disk.target (target out file) with
      | .error cause => (b.put index (.finished (some (.file (.onOpen (target out file) cause)))), w)
      | .ok (place, _) =>
        (b.put index (.writing result (World.put place) 0 (Buffer.flushes [] result.program.pieces)),
          { w with disk := w.disk.set place (.file []) }) := by
  rw [deliver, if_neg named]
  simp only [bind, StateT.bind, system, create]
  cases w.disk.target (target out file) with
  | error cause => rfl
  | ok found => rfl

end

theorem turns_cons (sys : System (StateM World)) (b : Batch (StateM World)) (index : Nat) (indices : List Nat)
    (w : World) :
    b.turns sys c out files (index :: indices) w =
      (b.turn sys c out files index w).1.turns sys c out files indices (b.turn sys c out files index w).2 := rfl

theorem move_cases (processors total : Nat) (b : Batch (StateM World)) (index : Nat) :
    b.move processors total index = b ∨ ∃ move pool, (b.pool.stage index).next? = some move ∧
      b.pool.step total (Pool.width processors total) (fun i => (b.tasks i).failure?) ⟨index, move⟩ = some pool ∧
      b.move processors total index = { b with pool } := by
  rw [move]
  cases (b.pool.stage index).next? with
  | none => exact .inl rfl
  | some move =>
      dsimp only
      cases stepped :
          b.pool.step total (Pool.width processors total) (fun i => (b.tasks i).failure?) ⟨index, move⟩ with
      | none => exact .inl rfl
      | some pool => exact .inr ⟨move, pool, rfl, stepped, rfl⟩

variable {tasks tasks' : Nat → Task (StateM World)} {b : Batch (StateM World)} {w : World} {index : Nat}
  {place : List Bytes}

theorem put_congr (same : ∀ i file, files[i]? = some file → place? d out file = some place → ∀ text,
    outcome s d file = .ok text → (tasks' i).count? text = (tasks i).count? text) :
    Put s d out files tasks' place = Put s d out files tasks place := by
  funext text count
  apply propext
  constructor
  · rintro ⟨i, file, listed, found, succeeds, counted⟩
    exact ⟨i, file, listed, found, succeeds, by rw [← same i file listed found text succeeds, counted]⟩
  · rintro ⟨i, file, listed, found, succeeds, counted⟩
    exact ⟨i, file, listed, found, succeeds, by rw [same i file listed found text succeeds, counted]⟩

namespace Progress

variable (progress : Progress c s d out files processors b w)

include progress

theorem log {w' : World} (logged : w.disk.Undisturbed (c.places d) w'.disk) :
    Progress c s d out files processors b w' := by
  refine { progress with disk := progress.disk.trans (logged.mono Set.subset_union_left), nodes := ?_ }
  intro place outside
  rw [logged.elsewhere place outside]
  exact progress.nodes place outside

theorem after {α : Type} {x : StateM World α}
    (confined : ∀ base, c.places base ⊆ c.places d → Confined base (c.places d) x) :
    Progress c s d out files processors b (x w).2 :=
  progress.log (confined w.disk (Console.places_subset progress.disk.toShaped) w (Disk.Undisturbed.refl _ _))

theorem serve {session : Session} (settings : session.settings = s)
    (capacity : session.cache.capacity = b.session.cache.capacity) (faithful : session.Faithful (programs d files)) :
    Progress c s d out files processors { b with session } w :=
  { progress with settings, capacity := capacity.trans progress.capacity, faithful }

section

variable (running : (b.tasks index).isFinished = false) {task : Task (StateM World)}

include running

theorem finished_put (i : Nat) (late : 4 < (b.pool.stage i).age) : (Pool.put b.tasks index task i).isFinished := by
  have finished := progress.finished i late
  have other : i ≠ index := by
    rintro rfl
    rw [running] at finished
    cases finished
  rwa [Pool.put_ne other]

variable (listed : files[index]? = some file) (fits : Fits s d out file task)

include listed fits

omit running in
theorem fits_put (i : Nat) (other : Bytes) (listed' : files[i]? = some other) :
    Fits s d out other (Pool.put b.tasks index task i) := by
  by_cases same : i = index
  · subst same
    rw [listed] at listed'
    cases listed'
    rwa [Pool.put_self]
  · rw [Pool.put_ne same]
    exact progress.fits i other listed'

theorem keep (same : ∀ text, outcome s d file = .ok text → task.count? text = (b.tasks index).count? text) :
    Progress c s d out files processors (b.put index task) w := by
  refine { progress with
    finished := progress.finished_put running
    fits := progress.fits_put listed fits
    nodes := ?_ }
  intro place outside
  have puts : Put s d out files (Pool.put b.tasks index task) place = Put s d out files b.tasks place := by
    apply put_congr
    intro i other listed' _ text succeeds
    by_cases here : i = index
    · subst here
      rw [listed] at listed'
      cases listed'
      rw [Pool.put_self, same text succeeds]
    · rw [Pool.put_ne here]
  simpa only [Batch.put, puts] using progress.nodes place outside

theorem write (found : place? d out file = some place) (succeeds : (outcome s d file).isOk) {content : Bytes}
    (woven : Woven (Put s d out files (Pool.put b.tasks index task) place) content) :
    Progress c s d out files processors (b.put index task) { w with disk := w.disk.set place (.file content) } := by
  have member : file ∈ files := List.mem_of_getElem? listed
  have free : w.disk.node? place ≠ some .directory := by
    obtain ⟨held, target⟩ := place?_eq_some_iff.1 found
    obtain ⟨-, -, -, -, -, -, free, -⟩ := (Disk.target_eq_ok_iff _ _ _).1 target
    exact mt (progress.disk.directories place).1 free
  have inside : place ≠ [] := by
    rintro rfl
    exact free (Disk.node?_nil _)
  refine { progress with
    disk := progress.disk.set (.inr ⟨file, member, succeeds, found⟩) free
    finished := progress.finished_put running
    fits := progress.fits_put listed fits
    nodes := ?_ }
  intro other outside
  by_cases same : other = place
  · subst same
    exact .inr ⟨content, Disk.node?_set_self inside, woven⟩
  · have puts : Put s d out files (Pool.put b.tasks index task) other = Put s d out files b.tasks other := by
      apply put_congr
      intro i file' listed' found' text _
      have here : i ≠ index := by
        rintro rfl
        rw [listed] at listed'
        cases listed'
        rw [found] at found'
        cases found'
        exact same rfl
      rw [Pool.put_ne here]
    simpa only [Batch.put, Disk.node?_set_ne same, puts] using progress.nodes other outside

end

theorem fits_of_task (listed : files[index]? = some file) {task : Task (StateM World)} (found : b.tasks index = task) :
    Fits s d out file task := by
  subst found
  exact progress.fits index file listed

theorem tell (order : Nat → List Nat) (index total : Nat) :
    Progress c s d out files processors (b.tell (system order processors) c index total w).1
      (b.tell (system order processors) c index total w).2 := by
  have logged : Progress c s d out files processors b (b.tell (system order processors) c index total w).2 :=
    progress.after fun _ inside => confined_tell inside index total b
  obtain ⟨interval, same⟩ := tell_eq order processors c index total b w
  rw [same]
  exact { logged with }

section

variable (apart : Apart c s d out files) (listed : files[index]? = some file) (total : Nat)

include apart listed

theorem waiting (task : b.tasks index = .waiting) :
    let (b', w') := b.work (system order processors) c out total index file w
    Progress c s d out files processors b' w' := by
  -- What has been written so far is not on the way to the file.
  have same : w.disk.read file = d.read file := progress.disk.read (apart.unread file (List.mem_of_getElem? listed))
  rw [work_waiting task, same]
  apply progress.keep (by rw [task]; rfl) listed fits_ofProgram
  intro text _
  rw [task, Task.count?_ofProgram]
  rfl

theorem read {p : Program} (task : b.tasks index = .read p) :
    let (b', w') := b.work (system order processors) c out total index file w
    Progress c s d out files processors b' w' := by
  have read : Program.ofFile file (d.read file) = .ok p := progress.fits_of_task listed task
  have digests := apart.digests
  rw [← progress.capacity] at digests
  obtain ⟨shown, settings, faithful⟩ := Session.look_alone (fun _ => read_of_mem_programs) digests
    (mem_programs (List.mem_of_getElem? listed) read) progress.faithful
  have served := progress.serve (settings.trans progress.settings) (Session.capacity_look _ _) faithful
  rw [work_read task]
  cases looked : b.session.look p with
  | mk found session =>
      rw [looked] at shown served
      cases found with
      | none => exact served.keep (by simp only [task]; rfl) listed read (by simp only [task]; exact fun _ _ => rfl)
      | some o =>
          have fits : Fits s d out file (.ofAnswer file o.answer) := by
            apply fits_ofAnswer read
            rw [shown o rfl, progress.settings]
          have answered := served.keep (by simp only [task]; rfl) listed fits (by
            intro text _
            simp only [task, Task.count?_ofAnswer]
            rfl)
          exact answered.after fun _ inside => Console.confined_report inside _ _

omit apart in
theorem missed {p : Program} {start : Instant} (task : b.tasks index = .missed p start) :
    let (b', w') := b.work (system order processors) c out total index file w
    Progress c s d out files processors b' w' := by
  have read : Program.ofFile file (d.read file) = .ok p := progress.fits_of_task listed task
  obtain ⟨shown, settings, faithful⟩ := Session.compute_faithful (mem_programs (List.mem_of_getElem? listed) read)
    progress.faithful
  have served := progress.serve (settings.trans progress.settings) (Session.capacity_compute _ _) faithful
  have fits : Fits s d out file (.ofAnswer file (b.session.compute p).1.answer) := by
    apply fits_ofAnswer read
    rw [shown, progress.settings]
  rw [work_missed task]
  have answered := served.keep (by simp only [task]; rfl) listed fits (by
    intro text _
    simp only [task, Task.count?_ofAnswer]
    rfl)
  exact answered.after fun _ inside => Console.confined_report inside _ _

theorem optimized (named : out ≠ []) {result : Result} (task : b.tasks index = .optimized result) :
    let (b', w') := b.work (system order processors) c out total index file w
    Progress c s d out files processors b' w' := by
  have succeeds : outcome s d file = .ok result.program.text := progress.fits_of_task listed task
  obtain ⟨place, held, found, target⟩ := apart.exists_place (List.mem_of_getElem? listed) succeeds
  have told := progress.tell order index total
  have still : (b.tell (system order processors) c index total w).1.tasks index = .optimized result := by
    obtain ⟨interval, same⟩ := tell_eq order processors c index total b w
    rw [same, ← task]
  -- The directories are those of the start, so that the result still has its place.
  rw [work_optimized task, deliver_eq _ _ _ named, Disk.target_of_shaped told.disk.toShaped target]
  have fits : Fits s d out file
      (.writing result (World.put place) 0 (Buffer.flushes [] result.program.pieces)) := by
    refine ⟨succeeds, ⟨place, found, rfl⟩, [], ?_, rfl⟩
    rw [Buffer.flatten_flushes, Program.flatten_pieces]
    rfl
  apply told.write (by rw [still]; rfl) listed fits found (isOk_of_outcome succeeds)
  apply Woven.emptied result.program.text
  exact ⟨index, file, listed, found, succeeds, by rw [Pool.put_self]; rfl⟩

theorem writing {result : Result} {put : Nat → Bytes → StateM World (Except FileError Unit)} {offset : Nat}
    {text : Bytes} {left : List Bytes} (task : b.tasks index = .writing result put offset (text :: left)) :
    let (b', w') := b.work (system order processors) c out total index file w
    Progress c s d out files processors b' w' := by
  obtain ⟨succeeds, ⟨place, found, rfl⟩, front, split, rfl⟩ := progress.fits_of_task listed task
  rw [List.flatten_cons, ← List.append_assoc] at split
  have before : Put s d out files b.tasks place result.program.text front.length :=
    ⟨index, file, listed, found, succeeds, by rw [task]; rfl⟩
  obtain ⟨content, holds, woven⟩ : ∃ content, w.disk.node? place = some (.file content) ∧
      Woven (Put s d out files b.tasks place) content := by
    rcases progress.nodes place (apart.not_logged (List.mem_of_getElem? listed) succeeds found) with ⟨-, none⟩ | kept
    · exact (none _ _ before).elim
    · exact kept
  have same : w.disk.contentAt place = content := by rw [Disk.contentAt, holds]
  have fits : Fits s d out file (.writing result (World.put place) (front.length + text.length) left) :=
    ⟨succeeds, ⟨place, found, rfl⟩, front ++ text, split, List.length_append⟩
  have further : Woven (Put s d out files
      (Pool.put b.tasks index (.writing result (World.put place) (front.length + text.length) left)) place)
      (Bytes.splice content front.length text) := by
    apply woven.splice split
    · exact ⟨index, file, listed, found, succeeds, by rw [Pool.put_self]; rfl⟩
    · rintro other more ⟨i, file', listed', found', succeeds', counted⟩
      by_cases here : i = index
      · subst here
        rw [listed] at listed'
        cases listed'
        rw [succeeds] at succeeds'
        cases succeeds'
        rw [task] at counted
        exact .inr ⟨rfl, (Option.some.inj counted).symm⟩
      · exact .inl ⟨i, file', listed', found', succeeds', by rwa [Pool.put_ne here]⟩
  rw [work_writing task]
  simpa only [World.put, same] using progress.write (by rw [task]; rfl) listed fits found
    (isOk_of_outcome succeeds) further

omit apart in
theorem written {result : Result} {put : Nat → Bytes → StateM World (Except FileError Unit)} {offset : Nat}
    (task : b.tasks index = .writing result put offset []) :
    let (b', w') := b.work (system order processors) c out total index file w
    Progress c s d out files processors b' w' := by
  obtain ⟨succeeds, -, front, split, rfl⟩ := progress.fits_of_task listed task
  rw [List.flatten_nil, List.append_nil] at split
  rw [work_written task]
  have finished : Fits s d out file (.finished none) := (fault?_of_ok succeeds).symm
  have closed := progress.keep (by rw [task]; rfl) listed finished (by
    intro text succeeds'
    rw [succeeds] at succeeds'
    cases succeeds'
    rw [task, split]
    rfl)
  exact closed.after fun _ inside => Console.confined_say inside _ _ _

theorem work (named : out ≠ []) (running : (b.tasks index).isFinished = false) :
    let (b', w') := b.work (system order processors) c out total index file w
    Progress c s d out files processors b' w' := by
  cases task : b.tasks index with
  | waiting => exact progress.waiting apart listed total task
  | read p => exact progress.read apart listed total task
  | missed p start => exact progress.missed listed total task
  | optimized result => exact progress.optimized apart listed total named task
  | writing result put offset left =>
      cases left with
      | nil => exact progress.written listed total task
      | cons text left => exact progress.writing apart listed total task
  | finished failure =>
      rw [task] at running
      cases running

end

/-- A move in the pool asks for the error of a file only when the work on that is over. -/
theorem move (listed : files[index]? = some file)
    (idle : (b.pool.stage index).isCalled = false ∨ (b.tasks index).isFinished) :
    Progress c s d out files processors (b.move processors files.length index) w := by
  rcases move_cases processors files.length b index with same | ⟨move, pool, next, stepped, same⟩
  · rwa [same]
  · obtain ⟨events, sound⟩ := progress.pool
    obtain ⟨-, stage, follows, moved⟩ := Pool.State.step_cases stepped
    dsimp only at follows
    have stages : pool.stage = Pool.put b.pool.stage index stage := by rw [moved]
    have finished : 4 < stage.age → (b.tasks index).isFinished := by
      rw [follows.age_eq]
      intro late
      rcases idle with uncalled | finished
      · exact progress.finished index (Pool.Stage.late_of_uncalled (by omega) uncalled (progress.unrefused index))
      · exact finished
    have fault : move = .finish → (b.tasks index).failure? = failure? s d files index := by
      intro finishes
      obtain ⟨failure, task⟩ := (b.tasks index).exists_of_isFinished (finished (follows.late_of_finish finishes))
      rw [task, failure?, listed]
      exact progress.fits_of_task listed task
    rw [Pool.State.step_congr fault] at stepped
    rw [same]
    refine { progress with pool := ⟨_, sound.step stepped⟩, unrefused := ?_, finished := ?_ }
    · intro i
      dsimp only
      by_cases here : i = index
      · subst here
        rw [stages, Pool.put_self]
        exact follows.refusal?_eq_none (progress.unrefused i) next
      · rw [stages, Pool.put_ne here]
        exact progress.unrefused i
    · intro i
      dsimp only
      by_cases here : i = index
      · subst here
        rw [stages, Pool.put_self]
        exact finished
      · rw [stages, Pool.put_ne here]
        exact progress.finished i

variable (apart : Apart c s d out files) (named : out ≠ []) (order : Nat → List Nat)

include apart named

theorem turn (index : Nat) :
    Progress c s d out files processors (b.turn (system order processors) c out files index w).1
      (b.turn (system order processors) c out files index w).2 := by
  rw [Batch.turn]
  cases listed : files[index]? with
  | none => exact progress
  | some file =>
      by_cases running : (b.pool.stage index).isCalled && !(b.tasks index).isFinished
      · simp only [running, if_true]
        rw [Bool.and_eq_true, Bool.not_eq_true'] at running
        exact progress.work apart listed files.length named running.2
      · simp only [running]
        rw [Bool.and_eq_true, not_and_or, Bool.not_eq_true, Bool.not_eq_true', Bool.not_eq_false] at running
        exact progress.move listed running

theorem turns (indices : List Nat) :
    Progress c s d out files processors (b.turns (system order processors) c out files indices w).1
      (b.turns (system order processors) c out files indices w).2 := by
  induction indices generalizing b w with
  | nil => exact progress
  | cons index indices ih =>
      rw [turns_cons]
      exact ih (progress.turn apart named order index)

end Progress

end Batch

end Deadwood
