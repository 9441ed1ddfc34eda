import Deadwood.Disk.Basic
import Mathlib.Data.List.Basic

/-!
What a write to a file leaves as it was. Where a path leads depends on directories alone, and what is read under it on
the places it passes, so that writing files moves no path, and is seen only by readers of the places written.
-/

namespace Deadwood.Disk

variable {d d' d'' : Disk} {place other : List Bytes} {path content : Bytes} {node : DiskNode}

theorem node?_nil (d : Disk) : d.node? [] = some .directory := by
  rw [node?, if_pos rfl]

@[simp] theorem current_set (d : Disk) (place : List Bytes) (node : DiskNode) :
    (d.set place node).current = d.current := by
  rw [set]
  split_ifs <;> rfl

theorem find?_map_set (nodes : List (List Bytes × DiskNode)) (place other : List Bytes) (node : DiskNode) :
    ((nodes.map fun (p, old) => (p, if p = place then node else old)).find? (·.1 = other)).map (·.2) =
      (nodes.find? (·.1 = other)).map fun entry => if other = place then node else entry.2 := by
  induction nodes with
  | nil => split_ifs <;> rfl
  | cons entry nodes ih =>
      rw [List.map_cons, List.find?_cons, List.find?_cons]
      by_cases named : entry.1 = other
      · subst named
        split_ifs <;> simp_all
      · simpa [named] using ih

theorem node?_set_self (inside : place ≠ []) : (d.set place node).node? place = some node := by
  rw [set, if_neg inside]
  split_ifs with present
  · rw [node?, if_neg inside] at present ⊢
    rw [find?_map_set, Option.map_eq_some_iff]
    rw [Option.isSome_map] at present
    obtain ⟨entry, found⟩ := Option.isSome_iff_exists.1 present
    exact ⟨entry, found, if_pos rfl⟩
  · rw [node?, if_neg inside] at present ⊢
    rw [Option.isSome_map, Option.not_isSome_iff_eq_none] at present
    simp [List.find?_append, present]

theorem node?_set_ne (differs : other ≠ place) : (d.set place node).node? other = d.node? other := by
  rw [set]
  split_ifs with outside present
  · rfl
  · rw [node?, node?]
    congr 1
    rw [find?_map_set]
    simp only [if_neg differs]
  · rw [node?, node?]
    congr 2
    simp [List.find?_append, Ne.symm differs]

/-- Two disks with the same directories. -/
structure Shaped (d d' : Disk) : Prop where
  current : d'.current = d.current
  directories : ∀ place, d'.node? place = some .directory ↔ d.node? place = some .directory

theorem Shaped.refl (d : Disk) : Shaped d d := ⟨rfl, fun _ => Iff.rfl⟩

theorem Shaped.trans (first : Shaped d d') (second : Shaped d' d'') : Shaped d d'' :=
  ⟨second.current.trans first.current, fun place => (second.directories place).trans (first.directories place)⟩

theorem Shaped.symm (shaped : Shaped d d') : Shaped d' d :=
  ⟨shaped.current.symm, fun place => (shaped.directories place).symm⟩

theorem shaped_set (free : d.node? place ≠ some .directory) : Shaped d (d.set place (.file content)) := by
  refine ⟨current_set d place _, fun other => ?_⟩
  by_cases same : other = place
  · subst same
    have inside : other ≠ [] := by
      rintro rfl
      exact free (node?_nil d)
    simp [node?_set_self inside, free]
  · rw [node?_set_ne same]

theorem follow_ok_iff_of_shaped (shaped : Shaped d d') (place : List Bytes) (names : List Bytes) (last : List Bytes) :
    d'.follow place names = .ok last ↔ d.follow place names = .ok last := by
  induction names generalizing place with
  | nil => rw [follow, follow]
  | cons name names ih =>
      have same := shaped.directories (enter place name)
      rw [follow, follow, look, look]
      by_cases long : longestName < name.length
      · rw [if_pos long, if_pos long]
      · rw [if_neg long, if_neg long]
        by_cases directory : d.node? (enter place name) = some .directory
        · rw [directory, same.2 directory]
          exact ih _
        · have other := mt same.1 directory
          constructor
          · intro found
            split at found <;> simp_all
          · intro found
            split at found <;> simp_all

theorem approach_ok_iff_of_shaped (shaped : Shaped d d') (path : Bytes) (outcome : List Bytes × Option Bytes) :
    d'.approach path = .ok outcome ↔ d.approach path = .ok outcome := by
  rw [approach, approach, shaped.current]
  generalize (if path.head? = some Path.slash then [] else d.current) = start
  split_ifs
  · rfl
  · rfl
  · rfl
  · cases (names path).getLast? with
    | none => rfl
    | some last =>
        have same := follow_ok_iff_of_shaped shaped start (names path).dropLast
        dsimp only
        cases found : d.follow start (names path).dropLast with
        | ok place => rw [(same place).2 found]
        | error cause =>
            cases found' : d'.follow start (names path).dropLast with
            | ok place =>
                rw [(same place).1 found'] at found
                cases found
            | error cause' => simp

theorem target_of_approach {parent : List Bytes} {name : Bytes} (approached : d.approach path = .ok (parent, some name))
    (opens : endsInSlash path = false) (short : name.length ≤ longestName) :
    d.target path =
      if d.node? (enter parent name) = some .directory then .error .isDirectory
      else .ok (enter parent name, d.contentAt (enter parent name)) := by
  rw [target, approached, contentAt]
  simp only [bind, Except.bind, opens, look, if_neg (Nat.not_lt.2 short), Bool.false_eq_true, if_false]
  cases d.node? (enter parent name) with
  | none => rfl
  | some node => cases node <;> rfl

theorem target_eq_ok_iff (path : Bytes) (place : List Bytes) (content : Bytes) :
    d.target path = .ok (place, content) ↔ ∃ parent name, d.approach path = .ok (parent, some name) ∧
      endsInSlash path = false ∧ name.length ≤ longestName ∧ place = enter parent name ∧
      d.node? place ≠ some .directory ∧ content = d.contentAt place := by
  constructor
  · intro found
    cases approached : d.approach path with
    | error cause => simp [target, approached, bind, Except.bind] at found
    | ok outcome =>
        obtain ⟨parent, name⟩ := outcome
        cases name with
        | none => simp [target, approached, bind, Except.bind] at found
        | some name =>
            cases opens : endsInSlash path with
            | true => simp [target, approached, opens, bind, Except.bind] at found
            | false =>
                by_cases short : name.length ≤ longestName
                · rw [target_of_approach approached opens short] at found
                  split_ifs at found with directory
                  cases found
                  exact ⟨parent, name, rfl, rfl, short, rfl, directory, rfl⟩
                · simp [target, approached, opens, look, Nat.not_le.1 short, bind, Except.bind] at found
  · rintro ⟨parent, name, approached, opens, short, rfl, free, rfl⟩
    rw [target_of_approach approached opens short, if_neg free]

theorem target_of_shaped (shaped : Shaped d d') (found : d.target path = .ok (place, content)) :
    d'.target path = .ok (place, d'.contentAt place) := by
  obtain ⟨parent, name, approached, opens, short, rfl, free, -⟩ := (target_eq_ok_iff path place content).1 found
  apply (target_eq_ok_iff path _ _).2
  refine ⟨parent, name, (approach_ok_iff_of_shaped shaped path _).2 approached, opens, short, rfl, ?_, rfl⟩
  exact mt (shaped.directories _).1 free

theorem read_eq_ok_iff (path content : Bytes) :
    d.read path = .ok content ↔ ∃ parent name, d.approach path = .ok (parent, some name) ∧
      endsInSlash path = false ∧ name.length ≤ longestName ∧ d.node? (enter parent name) = some (.file content) := by
  constructor
  · intro found
    rw [read, find] at found
    cases approached : d.approach path with
    | error cause => simp [approached, bind, Except.bind] at found
    | ok outcome =>
        obtain ⟨parent, name⟩ := outcome
        cases name with
        | none => simp [approached, bind, Except.bind] at found
        | some name =>
            simp only [approached, bind, Except.bind, look] at found
            by_cases long : longestName < name.length
            · simp [long] at found
            · cases opens : endsInSlash path <;> cases holds : d.node? (enter parent name) with
              | none => simp [long, holds] at found
              | some node => cases node <;> simp_all
  · rintro ⟨parent, name, approached, opens, short, holds⟩
    rw [read, find, approached]
    simp [bind, Except.bind, look, Nat.not_lt.2 short, holds, opens]

theorem read_of_target (found : d.target path = .ok (place, content)) {text : Bytes}
    (holds : d.node? place = some (.file text)) : d.read path = .ok text := by
  obtain ⟨parent, name, approached, opens, short, rfl, -, -⟩ := (target_eq_ok_iff path place content).1 found
  exact (read_eq_ok_iff path text).2 ⟨parent, name, approached, opens, short, holds⟩

def origin (d : Disk) (path : Bytes) : List Bytes := if path.head? = some Path.slash then [] else d.current

def passed (place : List Bytes) : List Bytes → List (List Bytes)
  | [] => []
  | name :: names => enter place name :: passed (enter place name) names

def route (d : Disk) (path : Bytes) : List (List Bytes) := passed (d.origin path) (names path)

theorem passed_append (place : List Bytes) (front back : List Bytes) :
    passed place (front ++ back) = passed place front ++ passed (front.foldl enter place) back := by
  induction front generalizing place with
  | nil => rfl
  | cons name front ih => rw [List.cons_append, passed, passed, ih, List.foldl_cons, List.cons_append]

theorem follow_eq {start last : List Bytes} {path : List Bytes} (found : d.follow start path = .ok last) :
    last = path.foldl enter start := by
  induction path generalizing start with
  | nil =>
      rw [follow] at found
      cases found
      rfl
  | cons name path ih =>
      rw [follow] at found
      split at found <;> try cases found
      exact ih found

theorem follow_congr {start : List Bytes} {path : List Bytes}
    (same : ∀ place ∈ passed start path, d'.node? place = d.node? place) :
    d'.follow start path = d.follow start path := by
  induction path generalizing start with
  | nil => rw [follow, follow]
  | cons name path ih =>
      rw [passed, List.forall_mem_cons] at same
      rw [follow, follow, look, look, same.1, ih same.2]

theorem approach_congr (current : d'.current = d.current)
    (same : ∀ place ∈ d.route path, d'.node? place = d.node? place) : d'.approach path = d.approach path := by
  rw [route, origin] at same
  rw [approach, approach, current]
  generalize (if path.head? = some Path.slash then [] else d.current) = start at *
  split_ifs
  · rfl
  · rfl
  · rfl
  · cases ends : (names path).getLast? with
    | none => rfl
    | some last =>
        rw [← List.dropLast_append_getLast? last ends, passed_append, List.forall_mem_append] at same
        dsimp only
        rw [follow_congr same.1]

theorem enter_mem_route {parent : List Bytes} {name : Bytes} (approached : d.approach path = .ok (parent, some name)) :
    enter parent name ∈ d.route path := by
  rw [route, origin]
  rw [approach] at approached
  generalize (if path.head? = some Path.slash then [] else d.current) = start at *
  split_ifs at approached
  cases ends : (names path).getLast? with
  | none => simp [ends] at approached
  | some last =>
      rw [← List.dropLast_append_getLast? last ends, passed_append]
      cases followed : d.follow start (names path).dropLast with
      | error cause => simp [ends, followed] at approached
      | ok place =>
          simp only [ends, followed, Except.ok.injEq] at approached
          split_ifs at approached
          · cases approached
          · cases approached
            rw [← follow_eq followed]
            exact List.mem_append_right _ (List.mem_singleton_self (enter parent name))

theorem read_congr (current : d'.current = d.current) (same : ∀ place ∈ d.route path, d'.node? place = d.node? place) :
    d'.read path = d.read path := by
  have found : d'.find path = d.find path := by
    rw [find, find, approach_congr current same]
    cases approached : d.approach path with
    | error cause => rfl
    | ok outcome =>
        obtain ⟨parent, name⟩ := outcome
        cases name with
        | none => rfl
        | some name =>
            simp only [bind, Except.bind, look, same _ (enter_mem_route approached)]
  rw [read, read, found]

/-- Two disks that differ in files at some places only. -/
structure Undisturbed (places : Set (List Bytes)) (d d' : Disk) : Prop extends Shaped d d' where
  elsewhere : ∀ place ∉ places, d'.node? place = d.node? place

namespace Undisturbed

variable {places : Set (List Bytes)}

theorem refl (places : Set (List Bytes)) (d : Disk) : Undisturbed places d d := ⟨Shaped.refl d, fun _ _ => rfl⟩

theorem trans (first : Undisturbed places d d') (second : Undisturbed places d' d'') : Undisturbed places d d'' :=
  ⟨first.toShaped.trans second.toShaped, fun place outside =>
    (second.elsewhere place outside).trans (first.elsewhere place outside)⟩

theorem mono {more : Set (List Bytes)} (kept : Undisturbed places d d') (inside : places ⊆ more) :
    Undisturbed more d d' :=
  ⟨kept.toShaped, fun place outside => kept.elsewhere place (mt (@inside place) outside)⟩

theorem set (kept : Undisturbed places d d') (member : place ∈ places) (free : d'.node? place ≠ some .directory) :
    Undisturbed places d (d'.set place (.file content)) := by
  refine ⟨kept.toShaped.trans (shaped_set free), fun other outside => ?_⟩
  have differs : other ≠ place := by
    rintro rfl
    exact outside member
  rw [node?_set_ne differs, kept.elsewhere other outside]

theorem read (kept : Undisturbed places d d') (clear : ∀ place ∈ d.route path, place ∉ places) :
    d'.read path = d.read path :=
  read_congr kept.current fun place passed => kept.elsewhere place (clear place passed)

end Undisturbed

end Deadwood.Disk
