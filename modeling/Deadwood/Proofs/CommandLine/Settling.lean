import Deadwood.Proofs.CommandLine.Batch

/-!
The work on several files comes to an end. Once all files before it are done, each turn brings a file nearer to its
result and then to the end of what is to be written. What is there in the end is told by the files alone, but for how
results with one name lie through another.
-/

namespace Deadwood

namespace Task

variable {m : Type → Type}

/-- The steps as far as a result is there or known not to come. -/
def ahead : Task m → Nat
  | waiting => 4
  | read _ => 3
  | missed _ _ => 2
  | optimized _ => 1
  | writing _ _ _ _ | finished _ => 0

/-- The steps from there to the end of the work. -/
def due : Task m → Nat
  | writing _ _ _ left => left.length + 1
  | _ => 0

theorem ahead_ofProgram (read : Except CommandError Program) : (ofProgram read : Task m).ahead ≤ 3 := by
  cases read <;> simp [ofProgram, ahead]

theorem ahead_ofAnswer (file : Bytes) (answer : Except FlowError Result) :
    (ofAnswer file answer : Task m).ahead ≤ 1 := by
  cases answer <;> simp [ofAnswer, ahead]

theorem ahead_le (task : Task m) : task.ahead ≤ 4 := by
  cases task <;> simp [ahead]

theorem due_le (task : Task m) : task.due ≤ task.unwritten + 1 := by
  cases task <;> simp [due, unwritten]

end Task

namespace Batch

open World

def ahead (b : Batch (StateM World)) (index : Nat) : Nat := 4 - (b.pool.stage index).age + (b.tasks index).ahead

def due (b : Batch (StateM World)) (index : Nat) : Nat := 7 - (b.pool.stage index).age + (b.tasks index).due

variable {order : Nat → List Nat} {processors total index : Nat} {c : Console} {s : Settings} {d : Disk}
  {out file : Bytes} {files : List Bytes} {b : Batch (StateM World)} {w : World} {place : List Bytes}

theorem tasks_put (task : Task (StateM World)) : (b.put index task).tasks index = task := Pool.put_self _ _

theorem ahead_le (b : Batch (StateM World)) (index : Nat) : b.ahead index ≤ 8 := by
  have most := (b.tasks index).ahead_le
  rw [ahead]
  omega

theorem due_le (b : Batch (StateM World)) (there : b.ahead index = 0) :
    b.due index ≤ (b.tasks index).unwritten + 4 := by
  have writing := (b.tasks index).due_le
  rw [ahead] at there
  rw [due]
  omega

theorem work_advances (order : Nat → List Nat) (processors total : Nat) (c : Console) (file : Bytes) (w : World)
    (named : out ≠ []) (running : (b.tasks index).isFinished = false) :
    let b' := (b.work (system order processors) c out total index file w).1
    b'.pool = b.pool ∧ (b'.tasks index).ahead ≤ (b.tasks index).ahead - 1 ∧
      ((b.tasks index).ahead = 0 → (b'.tasks index).due < (b.tasks index).due) := by
  intro b'
  cases task : b.tasks index with
  | waiting =>
      simp only [b', work_waiting task, tasks_put]
      exact ⟨rfl, Task.ahead_ofProgram _, by simp [Task.ahead]⟩
  | read p =>
      simp only [b', work_read task]
      obtain ⟨found, session⟩ := b.session.look p
      cases found with
      | none => exact ⟨rfl, by simp [tasks_put, Task.ahead], by simp [Task.ahead]⟩
      | some o =>
          simp only [tasks_put]
          exact ⟨rfl, (Task.ahead_ofAnswer _ _).trans (by simp [Task.ahead]), by simp [Task.ahead]⟩
  | missed p start =>
      simp only [b', work_missed task, tasks_put]
      exact ⟨rfl, Task.ahead_ofAnswer _ _, by simp [Task.ahead]⟩
  | optimized result =>
      obtain ⟨interval, told⟩ := tell_eq order processors c index total b w
      simp only [b', work_optimized task, deliver_eq _ _ _ named, told]
      split <;> exact ⟨rfl, by simp [tasks_put, Task.ahead], by simp [Task.ahead]⟩
  | writing result put offset left =>
      cases left with
      | nil =>
          simp only [b', work_written task, tasks_put]
          exact ⟨rfl, by simp [Task.ahead], by simp [Task.due]⟩
      | cons text left =>
          simp only [b', work_writing task, tasks_put]
          split <;> exact ⟨rfl, by simp [Task.ahead], by simp [Task.due]⟩
  | finished failure =>
      rw [task] at running
      cases running

namespace Progress

variable (progress : Progress c s d out files processors b w)

include progress

theorem isFinished_of_late (idle : (b.pool.stage index).isCalled = false ∨ (b.tasks index).isFinished)
    (late : 3 < (b.pool.stage index).age) : (b.tasks index).isFinished := by
  rcases idle with uncalled | finished
  · exact progress.finished index (Pool.Stage.late_of_uncalled late uncalled (progress.unrefused index))
  · exact finished

variable (equipped : 0 < processors) (listed : files[index]? = some file)
  (earlier : ∀ i < index, b.pool.stage i = .ended)

include equipped listed earlier

theorem move_advances :
    let b' := b.move processors files.length index
    b'.tasks = b.tasks ∧ (∀ i, i ≠ index → b'.pool.stage i = b.pool.stage i) ∧
      min 7 ((b.pool.stage index).age + 1) ≤ (b'.pool.stage index).age := by
  intro b'
  obtain ⟨inside, -⟩ := List.getElem?_eq_some_iff.1 listed
  cases next : (b.pool.stage index).next? with
  | none =>
      have same : b' = b := by simp only [b', Batch.move, next]
      have last := Pool.Stage.age_of_next?_eq_none next (progress.unrefused index)
      rw [same]
      exact ⟨rfl, fun _ _ => rfl, by omega⟩
  | some move =>
      obtain ⟨events, sound⟩ := progress.pool
      obtain ⟨pool, stepped, older, others⟩ := sound.exists_next (Pool.width_pos equipped files.length) inside earlier
        next fun i => (b.tasks i).failure?
      have moved : b' = { b with pool } := by simp only [b', Batch.move, next, stepped]
      rw [moved]
      exact ⟨rfl, others, older ▸ Nat.min_le_right _ _⟩

theorem turn_advances (order : Nat → List Nat) (named : out ≠ []) :
    let b' := (b.turn (system order processors) c out files index w).1
    (∀ i, i ≠ index → b'.pool.stage i = b.pool.stage i) ∧ b'.ahead index ≤ b.ahead index - 1 ∧
      (b.ahead index = 0 → b'.due index ≤ b.due index - 1) := by
  intro b'
  by_cases running : (b.pool.stage index).isCalled && !(b.tasks index).isFinished
  · have worked : b' = (b.work (system order processors) c out files.length index file w).1 := by
      simp only [b', Batch.turn, listed, running, if_true]
    rw [Bool.and_eq_true, Bool.not_eq_true'] at running
    obtain ⟨pool, ahead, due⟩ := work_advances order processors files.length c file w named running.2
    have age := Pool.Stage.age_of_isCalled running.1
    rw [← worked] at pool ahead due
    rw [Batch.ahead, Batch.ahead, Batch.due, Batch.due, pool, age]
    exact ⟨fun _ _ => rfl, by omega, by omega⟩
  · have moved : b' = b.move processors files.length index := by
      simp only [b', Batch.turn, listed, running]
      rfl
    rw [Bool.and_eq_true, not_and_or, Bool.not_eq_true, Bool.not_eq_true', Bool.not_eq_false] at running
    obtain ⟨tasks, others, older⟩ := progress.move_advances equipped listed earlier
    rw [← moved] at tasks others older
    rw [Batch.ahead, Batch.ahead, Batch.due, Batch.due, tasks]
    by_cases late : 3 < (b.pool.stage index).age
    · obtain ⟨failure, finished⟩ := (b.tasks index).exists_of_isFinished (progress.isFinished_of_late running late)
      simp only [finished, Task.ahead, Task.due]
      exact ⟨others, by omega, by omega⟩
    · exact ⟨others, by omega, by omega⟩

variable (apart : Apart c s d out files) (named : out ≠ [])

include apart named

theorem turns_advance (order : Nat → List Nat) (number : Nat) {r : Batch (StateM World) × World}
    (ran : b.turns (system order processors) c out files (List.replicate number index) w = r) :
    Progress c s d out files processors r.1 r.2 ∧ (∀ i, i ≠ index → r.1.pool.stage i = b.pool.stage i) ∧
      r.1.ahead index ≤ b.ahead index - number ∧ (b.ahead index = 0 → r.1.due index ≤ b.due index - number) := by
  subst ran
  induction number generalizing b w with
  | zero => exact ⟨progress, fun _ _ => rfl, Nat.le_refl _, fun _ => Nat.le_refl _⟩
  | succ number ih =>
      have first := progress.turn apart named order index
      obtain ⟨others, ahead, due⟩ := progress.turn_advances equipped listed earlier order named
      rw [List.replicate_succ, turns_cons]
      generalize b.turn (system order processors) c out files index w = next at *
      obtain ⟨last, others', ahead', due'⟩ :=
        ih first fun i before => (others i (Nat.ne_of_lt before)).trans (earlier i before)
      refine ⟨last, fun i other => (others' i other).trans (others i other), by omega, by omega⟩

theorem settle_ends (order : Nat → List Nat) {r : Batch (StateM World) × World}
    (ran : b.settle (system order processors) c out files index w = r) :
    Progress c s d out files processors r.1 r.2 ∧ ∀ i ≤ index, r.1.pool.stage i = .ended := by
  obtain ⟨half, first⟩ : ∃ half, b.turns (system order processors) c out files (List.replicate 8 index) w = half :=
    ⟨_, rfl⟩
  have second : half.1.turns (system order processors) c out files
      (List.replicate ((half.1.tasks index).unwritten + 4) index) half.2 = r := by
    rw [Batch.settle] at ran
    simp only [bind, StateT.bind, first] at ran
    exact ran
  obtain ⟨reached, others, ahead, -⟩ := progress.turns_advance equipped listed earlier apart named order 8 first
  have there : half.1.ahead index = 0 := by
    have most := b.ahead_le index
    omega
  have still (i : Nat) (before : i < index) : half.1.pool.stage i = .ended :=
    (others i (Nat.ne_of_lt before)).trans (earlier i before)
  obtain ⟨last, others', -, due⟩ := reached.turns_advance equipped listed still apart named order _ second
  have enough := half.1.due_le there
  refine ⟨last, fun i upto => ?_⟩
  rcases Nat.lt_or_eq_of_le upto with before | rfl
  · exact (others' i (Nat.ne_of_lt before)).trans (still i before)
  · apply Pool.Stage.eq_ended_of_age
    have most := (r.1.pool.stage i).age_le
    have none := due there
    rw [Batch.due] at none
    omega

end Progress

structure Ends (c : Console) (s : Settings) (d : Disk) (out : Bytes) (files : List Bytes) (processors : Nat)
    (b : Batch (StateM World)) (w : World) : Prop extends Progress c s d out files processors b w where
  ended : ∀ i < files.length, b.pool.stage i = .ended

theorem progress_start (processors : Nat) {session : Session}
    (fresh : session.cache = .empty session.settings.cacheSize) (w : World) :
    Progress c session.settings w.disk out files processors { session } w := by
  constructor
  case settings => rfl
  case capacity => rw [fresh]; rfl
  case faithful =>
    intro entry member
    rw [fresh] at member
    cases member
  case disk => exact Disk.Undisturbed.refl _ _
  case pool => exact ⟨[], Pool.State.sound_start⟩
  case unrefused => exact fun _ => rfl
  case finished => exact fun _ late => absurd late (Nat.not_lt_zero _)
  case fits => exact fun _ _ _ => trivial
  case nodes =>
    refine fun place _ => .inl ⟨rfl, ?_⟩
    rintro text count ⟨index, file, -, -, -, counted⟩
    cases counted

theorem failure?_eq_some_iff (listed : files[index]? = some file) (e : CommandError) :
    failure? s d files index = some e ↔ outcome s d file = .error e := by
  rw [failure?, listed, Option.bind_some, fault?]
  cases outcome s d file <;> simp

theorem failure?_eq_none_iff (listed : files[index]? = some file) :
    failure? s d files index = none ↔ (outcome s d file).isOk := by
  rw [failure?, listed, Option.bind_some, fault?]
  cases outcome s d file <;> simp [Except.isOk, Except.toBool]

theorem read_of_outcome {text : Bytes} (succeeds : outcome s d file = .ok text) :
    ∃ content, d.read file = .ok content := by
  cases read : d.read file with
  | error e => simp [outcome, read, Program.ofFile, Except.bind] at succeeds
  | ok content => exact ⟨content, rfl⟩

theorem place?_eq_iff (named : out ≠ []) {file other text text' : Bytes} (succeeds : outcome s d file = .ok text)
    (succeeds' : outcome s d other = .ok text') {place place' : List Bytes} (found : place? d out file = some place)
    (found' : place? d out other = some place') :
    place = place' ↔ Path.optimizedName file = Path.optimizedName other := by
  obtain ⟨content, read⟩ := read_of_outcome succeeds
  obtain ⟨content', read'⟩ := read_of_outcome succeeds'
  obtain ⟨held, target⟩ := place?_eq_some_iff.1 found
  obtain ⟨held', target'⟩ := place?_eq_some_iff.1 found'
  exact Disk.place_eq_iff named (Disk.isFileName_of_read read) (Disk.isFileName_of_read read') target target'

variable (equipped : 0 < processors) (apart : Apart c s d out files) (named : out ≠ [])

include equipped apart named in
theorem Progress.settle_all (progress : Progress c s d out files processors b w) (order : Nat → List Nat) {number : Nat}
    (within : number ≤ files.length) {r : Batch (StateM World) × World}
    (ran : (List.range number).foldlM (fun b index => b.settle (system order processors) c out files index) b w = r) :
    Progress c s d out files processors r.1 r.2 ∧ ∀ i < number, r.1.pool.stage i = .ended := by
  induction number generalizing r with
  | zero =>
      subst ran
      exact ⟨progress, fun i inside => absurd inside (Nat.not_lt_zero i)⟩
  | succ number ih =>
      obtain ⟨mid, earlier⟩ : ∃ mid, (List.range number).foldlM
          (fun b index => b.settle (system order processors) c out files index) b w = mid := ⟨_, rfl⟩
      rw [List.range_succ, List.foldlM_append] at ran
      simp only [List.foldlM_cons, List.foldlM_nil, bind_pure] at ran
      simp only [bind, StateT.bind, earlier] at ran
      obtain ⟨first, before⟩ := ih (Nat.le_of_succ_le within) earlier
      obtain ⟨last, upto⟩ := first.settle_ends equipped (List.getElem?_eq_getElem within) before apart named order ran
      exact ⟨last, fun i inside => upto i (Nat.le_of_lt_succ inside)⟩

include equipped named in
theorem run_ends (order : Nat → List Nat) {session : Session} (apart : Apart c session.settings w.disk out files)
    (fresh : session.cache = .empty session.settings.cacheSize) :
    Ends c session.settings w.disk out files processors (run (system order processors) c out files session w).1
      (run (system order processors) c out files session w).2 := by
  have begun := (progress_start processors fresh w).turns apart named order (order files.length)
  obtain ⟨mid, taken⟩ : ∃ mid, turns (system order processors) c out files { session } (order files.length) w = mid :=
    ⟨_, rfl⟩
  rw [taken] at begun
  obtain ⟨progress, ended⟩ := begun.settle_all equipped apart named order (Nat.le_refl _) rfl
  have own : (system order processors).turns = order := rfl
  rw [run, own]
  simp only [bind, StateT.bind, taken]
  exact ⟨progress, ended⟩

namespace Ends

variable (ends : Ends c s d out files processors b w)

include ends

theorem task_eq (listed : files[index]? = some file) : b.tasks index = .finished (fault? s d file) := by
  obtain ⟨inside, -⟩ := List.getElem?_eq_some_iff.1 listed
  have late : 4 < (b.pool.stage index).age := by
    rw [ends.ended index inside]
    simp [Pool.Stage.age]
  obtain ⟨failure, finished⟩ := (b.tasks index).exists_of_isFinished (ends.finished index late)
  have fits : failure = fault? s d file := ends.fits_of_task listed finished
  rw [finished, fits]

theorem error?_eq_some_iff (e : CommandError) :
    b.error? files.length = some e ↔ ∃ front file back, files = front ++ file :: back ∧
      outcome s d file = .error e ∧ ∀ earlier ∈ front, (outcome s d earlier).isOk := by
  have errors : ∀ index < files.length, b.pool.errors index = failure? s d files index := by
    intro index inside
    obtain ⟨events, sound⟩ := ends.pool
    rw [sound.errors, ends.ended index inside]
    rfl
  rw [error?, Pool.firstError?_congr errors, Pool.firstError?_eq_some_iff]
  constructor
  · rintro ⟨index, inside, fails, earlier⟩
    have listed := List.getElem?_eq_getElem inside
    refine ⟨files.take index, files[index], files.drop (index + 1), ?_, (failure?_eq_some_iff listed e).1 fails, ?_⟩
    · rw [List.getElem_cons_drop, List.take_append_drop]
    · intro other member
      obtain ⟨i, before, rfl⟩ := List.mem_take_iff_getElem.1 member
      have known := List.getElem?_eq_getElem (show i < files.length by omega)
      exact (failure?_eq_none_iff known).1 (earlier i (by omega))
  · rintro ⟨front, file, back, rfl, fails, earlier⟩
    have listed : (front ++ file :: back)[front.length]? = some file := by simp
    refine ⟨front.length, by simp, (failure?_eq_some_iff listed e).2 fails, ?_⟩
    intro i before
    have known : (front ++ file :: back)[i]? = some front[i] := by
      rw [List.getElem?_append_left before, List.getElem?_eq_getElem before]
    exact (failure?_eq_none_iff known).2 (earlier _ (List.getElem_mem before))

theorem put_iff (place : List Bytes) (text : Bytes) (count : Nat) :
    Put s d out files b.tasks place text count ↔
      (∃ file ∈ files, place? d out file = some place ∧ outcome s d file = .ok text) ∧ count = text.length := by
  constructor
  · rintro ⟨index, file, listed, found, succeeds, counted⟩
    rw [ends.task_eq listed, fault?_of_ok succeeds] at counted
    exact ⟨⟨file, List.mem_of_getElem? listed, found, succeeds⟩, (Option.some.inj counted).symm⟩
  · rintro ⟨⟨file, member, found, succeeds⟩, rfl⟩
    obtain ⟨index, inside, rfl⟩ := List.getElem_of_mem member
    have listed := List.getElem?_eq_getElem inside
    refine ⟨index, _, listed, found, succeeds, ?_⟩
    rw [ends.task_eq listed, fault?_of_ok succeeds]
    rfl

theorem mem_of_changed (unlogged : place ∉ c.places d) (changed : w.disk.node? place ≠ d.node? place) :
    ∃ file ∈ files, (outcome s d file).isOk ∧ place? d out file = some place := by
  rcases ends.nodes place unlogged with ⟨same, -⟩ | ⟨content, -, text, count, put, -⟩
  · exact absurd same changed
  · obtain ⟨⟨file, member, found, succeeds⟩, -⟩ := (ends.put_iff place text count).1 put
    exact ⟨file, member, isOk_of_outcome succeeds, found⟩

end Ends

/-- The results of the files that have the name of one of them, apart from directory and extension. -/
def Namesake (s : Settings) (d : Disk) (files : List Bytes) (file text : Bytes) : Prop :=
  ∃ other ∈ files, Path.optimizedName other = Path.optimizedName file ∧ outcome s d other = .ok text

namespace Ends

variable (ends : Ends c s d out files processors b w)

include ends apart named

theorem read_woven {text : Bytes} (member : file ∈ files) (succeeds : outcome s d file = .ok text) :
    ∃ content, w.disk.read (target out file) = .ok content ∧
      Woven (fun text count => Namesake s d files file text ∧ count = text.length) content := by
  obtain ⟨place, held, found, reached⟩ := apart.exists_place member succeeds
  have put := (ends.put_iff place text text.length).2 ⟨⟨file, member, found, succeeds⟩, rfl⟩
  rcases ends.nodes place (apart.not_logged member succeeds found) with ⟨-, none⟩ | ⟨content, holds, woven⟩
  · exact absurd put (none _ _)
  · refine ⟨content, Disk.read_of_target (Disk.target_of_shaped ends.disk.toShaped reached) holds, ?_⟩
    apply woven.mono
    intro other count put
    obtain ⟨⟨file', member', found', succeeds'⟩, whole⟩ := (ends.put_iff place other count).1 put
    exact ⟨⟨file', member', (place?_eq_iff named succeeds' succeeds found' found).1 rfl, succeeds'⟩, whole⟩

theorem read_alone {text : Bytes} (member : file ∈ files) (succeeds : outcome s d file = .ok text)
    (alone : ∀ other, Namesake s d files file other → other = text) : w.disk.read (target out file) = .ok text := by
  obtain ⟨content, read, woven⟩ := ends.read_woven apart named member succeeds
  rw [read, woven.eq_of_same]
  rintro other count ⟨namesake, rfl⟩
  obtain rfl := alone other namesake
  exact ⟨rfl, rfl⟩

theorem reads_iff :
    (∀ file ∈ files, ∀ text, outcome s d file = .ok text → w.disk.read (target out file) = .ok text) ↔
      ∀ file ∈ files, ∀ text, outcome s d file = .ok text → ∀ other, Namesake s d files file other → other = text := by
  constructor
  · rintro kept file member text succeeds other ⟨file', member', names, succeeds'⟩
    have first := kept file' member' other succeeds'
    rw [target, names] at first
    exact Except.ok.inj (first.symm.trans (kept file member text succeeds))
  · intro alone file member text succeeds
    exact ends.read_alone apart named member succeeds (alone file member text succeeds)

end Ends

/-- Of two results that are written to one place at a time, the end of the longer one sticks out. -/
example (c : Console) (session : Session) (result : Result) :
    let write (text : Bytes) : Task (StateM World) := .writing result (World.put [bytes "x.opt.ir"]) 0 [text]
    let b : Batch (StateM World) :=
      { session, pool := { stage := fun _ => .called }, tasks := fun i => if i = 0 then write [1, 2, 3] else write [4] }
    let (_, w) := b.turns (system List.range) c (bytes "o") [bytes "a/x.ir", bytes "b/x.ir"] [0, 1] { disk := ⟨[], []⟩ }
    w.disk.contentAt [bytes "x.opt.ir"] = [4, 2, 3] := rfl

end Batch

end Deadwood
