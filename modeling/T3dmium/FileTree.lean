import T3dmium.TreeWalk

/-! File systems: trees of directories and files, and how a path is followed in one. -/
namespace T3dmium.FileTree
open TreeWalk
variable {ν β : Type*}

inductive Node (β : Type*)
  | dir
  | file (content : β)

/-- What stands at each position, if anything. -/
abbrev DiskTree (ν β : Type*) := List ν → Option (Node β)

def isDir (t : DiskTree ν β) (pos : List ν) : Bool :=
  match t pos with
  | some .dir => true
  | some (.file _) | none => false

def isFile (t : DiskTree ν β) (pos : List ν) : Bool :=
  match t pos with
  | some (.file _) => true
  | some .dir | none => false

/-- Where a path leads: each place that it leaves must be a directory. -/
def lookup (t : DiskTree ν β) : List ν → List (Step ν) → Option (List ν)
  | pos, [] => some pos
  | pos, step :: steps => if isDir t pos then lookup t (step.apply pos) steps else none

/-- How far the directories along a path are there. -/
inductive Way (ν : Type*)
  | there
  | missing (pos : List ν)
  | blocked

def way (t : DiskTree ν β) : List ν → List (Step ν) → Way ν
  | _, [] => .there
  | pos, step :: steps =>
    match t (step.apply pos) with
    | some .dir => way t (step.apply pos) steps
    | some (.file _) => .blocked
    | none => .missing (step.apply pos)

/-- What stands somewhere stands in a directory. -/
def Closed (t : DiskTree ν β) : Prop := ∀ pos name, (t (pos ++ [name])).isSome = true → isDir t pos = true

variable {t : DiskTree ν β}

lemma isSome_of_isDir {pos : List ν} (h : isDir t pos = true) : (t pos).isSome = true := by
  rw [isDir] at h
  cases hnode : t pos with
  | none =>
    rw [hnode] at h
    cases h
  | some node => rfl

lemma exists_content {pos : List ν} (h : isFile t pos = true) : ∃ content, t pos = some (.file content) := by
  rw [isFile] at h
  cases hnode : t pos with
  | none =>
    rw [hnode] at h
    cases h
  | some node =>
    cases node with
    | dir =>
      rw [hnode] at h
      cases h
    | file content => exact ⟨content, rfl⟩

/-- A path that can be followed leads where the walk leads. -/
lemma lookup_eq_walk {pos loc : List ν} {steps : List (Step ν)} (h : lookup t pos steps = some loc) :
    loc = walk pos steps := by
  induction steps generalizing pos with
  | nil => exact (Option.some.inj h).symm
  | cons step steps ih =>
    rw [lookup] at h
    split_ifs at h
    exact ih h

/-- A missing directory is one the walk passes. -/
lemma way_missing {pos missing : List ν} {steps : List (Step ν)} (h : way t pos steps = .missing missing) :
    missing ∈ trail pos steps ∧ t missing = none := by
  induction steps generalizing pos with
  | nil => cases h
  | cons step steps ih =>
    rw [way] at h
    split at h
    · exact ⟨List.mem_cons_of_mem _ (ih h).1, (ih h).2⟩
    · cases h
    · rename_i hnone
      obtain rfl := Way.missing.inj h
      refine ⟨List.mem_cons_of_mem _ ?_, hnone⟩
      cases steps <;> exact List.mem_cons_self

lemma lookup_down {pos names loc : List ν} (h : lookup t pos (names.map .down) = some loc) :
    loc = pos ++ names := by
  rw [lookup_eq_walk h, walk_down]

lemma isDir_above (hclosed : Closed t) {above rest : List ν} (h : (t (above ++ rest)).isSome = true)
    (hne : rest ≠ []) : isDir t above = true := by
  induction rest using List.reverseRecOn with
  | nil => exact absurd rfl hne
  | append_singleton rest name ih =>
    rw [← List.append_assoc] at h
    have hdir := hclosed _ name h
    by_cases hrest : rest = []
    · rwa [hrest, List.append_nil] at hdir
    · exact ih (isSome_of_isDir hdir) hrest

/-- In a closed tree the way down to what stands there can be followed. -/
lemma lookup_of_closed (hclosed : Closed t) {pos names : List ν} (h : (t (pos ++ names)).isSome = true) :
    lookup t pos (names.map .down) = some (pos ++ names) := by
  induction names generalizing pos with
  | nil => rw [List.map_nil, lookup, List.append_nil]
  | cons name names ih =>
    have hdir := isDir_above hclosed h (List.cons_ne_nil name names)
    have hassoc : pos ++ name :: names = (pos ++ [name]) ++ names := by simp
    rw [hassoc] at h ⊢
    rw [List.map_cons, lookup, if_pos hdir]
    exact ih h

end T3dmium.FileTree
