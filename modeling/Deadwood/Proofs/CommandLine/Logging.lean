import Deadwood.CommandLine.Batch
import Deadwood.Proofs.Disk.Frame

/-! What logging does to files: nothing but to the log. -/

namespace Deadwood

variable {α β : Type} {d : Disk} {region : Set (List Bytes)} {turns : Nat → List Nat} {processors : Nat} {c : Console}

namespace World

/-- What some work does to files, it does at some places, given the disk it starts from. -/
def Confined (d : Disk) (region : Set (List Bytes)) (x : StateM World α) : Prop :=
  ∀ w, d.Undisturbed region w.disk → d.Undisturbed region (x w).2.disk

theorem Confined.pure (a : α) : Confined d region (pure a) := fun _ kept => kept

theorem Confined.bind {x : StateM World α} {f : α → StateM World β} (first : Confined d region x)
    (next : ∀ a, Confined d region (f a)) : Confined d region (x >>= f) :=
  fun w kept => next (x w).1 (x w).2 (first w kept)

theorem Confined.forM {f : α → StateM World Unit} (list : List α) (each : ∀ a ∈ list, Confined d region (f a)) :
    Confined d region (list.forM f) := by
  induction list with
  | nil => exact .pure ()
  | cons a list ih =>
      exact (each a List.mem_cons_self).bind fun _ => ih fun b member => each b (List.mem_cons_of_mem a member)

theorem confined_now : Confined d region (system turns processors).now := fun _ kept => kept

theorem confined_warn (text : Bytes) : Confined d region ((system turns processors).warn text) := fun _ kept => kept

theorem confined_change {path : Bytes} (inside : ∀ place held, d.target path = .ok (place, held) → place ∈ region)
    (f : Bytes → Bytes) : Confined d region (changeDisk (·.change path f)) := by
  intro w kept
  rw [changeDisk, Disk.change]
  cases found : w.disk.target path with
  | error cause => exact kept
  | ok outcome =>
      obtain ⟨place, content⟩ := outcome
      obtain ⟨-, -, -, -, -, -, free, -⟩ := (Disk.target_eq_ok_iff path place content).1 found
      exact kept.set (inside place _ (Disk.target_of_shaped kept.toShaped.symm found)) free

end World

namespace Console

open World

def places (c : Console) (d : Disk) : Set (List Bytes) :=
  {place | ∃ path ∈ c.file, ∃ held, d.target path = .ok (place, held)}

theorem places_subset {d' : Disk} (shaped : d.Shaped d') : c.places d' ⊆ c.places d := by
  rintro place ⟨path, named, held, found⟩
  exact ⟨path, named, _, Disk.target_of_shaped shaped.symm found⟩

variable (inside : c.places d ⊆ region)

include inside

theorem confined_emit (line : Bytes) : Confined d region (c.emit (system turns processors) line) := by
  rw [emit]
  split
  · exact .pure ()
  · split
    · rename_i path named
      apply Confined.bind
      · exact confined_change (fun place held found => inside ⟨path, named, held, found⟩) (· ++ line)
      · exact fun _ => .pure ()
    · exact confined_warn line

theorem confined_say (level : Log.Level) (message : Bytes) (arguments : List Log.Value) :
    Confined d region (c.say (system turns processors) level message arguments) :=
  confined_now.bind fun _ => confined_emit inside _

theorem confined_report (start : Instant) (notices : List Notice) :
    Confined d region (c.report (system turns processors) start notices) :=
  confined_now.bind fun _ => .forM notices fun _ _ => confined_emit inside _

end Console

namespace Batch

open World

theorem confined_tell (inside : c.places d ⊆ region) (index total : Nat) (b : Batch (StateM World)) :
    Confined d region (b.tell (system turns processors) c index total) := by
  apply confined_now.bind
  intro now
  dsimp only
  split
  · exact (Console.confined_say inside _ _ _).bind fun _ => .pure _
  · exact .pure _

end Batch

end Deadwood
