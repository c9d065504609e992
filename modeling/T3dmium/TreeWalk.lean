import Mathlib

/-! Walks in a tree: a position is the list of names that leads to it from the root, and
the root is its own parent. -/
namespace T3dmium.TreeWalk

variable {ν : Type*}

inductive Step (ν : Type*)
  | down (name : ν)
  | here
  | up
  deriving DecidableEq

def Step.apply (pos : List ν) : Step ν → List ν
  | .down name => pos ++ [name]
  | .here => pos
  | .up => pos.dropLast

def walk (pos : List ν) (steps : List (Step ν)) : List ν := steps.foldl Step.apply pos

/-- The places a walk passes, its start and its end among them. -/
def trail : List ν → List (Step ν) → List (List ν)
  | pos, [] => [pos]
  | pos, step :: steps => pos :: trail (step.apply pos) steps

/-- From `depth` below some place, no step leads above that place. -/
def Stays : ℕ → List (Step ν) → Prop
  | _, [] => True
  | depth, .down _ :: steps => Stays (depth + 1) steps
  | depth, .here :: steps => Stays depth steps
  | 0, .up :: _ => False
  | depth + 1, .up :: steps => Stays depth steps

instance decidableStays : (depth : ℕ) → (steps : List (Step ν)) → Decidable (Stays depth steps)
  | _, [] => inferInstanceAs (Decidable True)
  | depth, .down _ :: steps => decidableStays (depth + 1) steps
  | depth, .here :: steps => decidableStays depth steps
  | 0, .up :: _ => inferInstanceAs (Decidable False)
  | depth + 1, .up :: steps => decidableStays depth steps

@[simp] lemma walk_nil (pos : List ν) : walk pos [] = pos := rfl

@[simp] lemma walk_cons (pos : List ν) (step : Step ν) (steps : List (Step ν)) :
    walk pos (step :: steps) = walk (step.apply pos) steps := rfl

lemma walk_append (pos : List ν) (s t : List (Step ν)) : walk pos (s ++ t) = walk (walk pos s) t :=
  List.foldl_append

/-- A walk that goes down only ends below its start, along its names. -/
lemma walk_down (pos names : List ν) : walk pos (names.map .down) = pos ++ names := by
  induction names generalizing pos with
  | nil => simp
  | cons name names ih =>
    rw [List.map_cons, walk_cons, ih, Step.apply, List.append_assoc, List.singleton_append]

lemma walk_mem_trail (pos : List ν) (steps : List (Step ν)) : walk pos steps ∈ trail pos steps := by
  induction steps generalizing pos with
  | nil => exact List.mem_singleton_self pos
  | cons step steps ih => exact List.mem_cons_of_mem _ (ih (step.apply pos))

lemma mem_trail_append {pos place : List ν} {steps : List (Step ν)} (more : List (Step ν))
    (h : place ∈ trail pos steps) : place ∈ trail pos (steps ++ more) := by
  induction steps generalizing pos with
  | nil =>
    rw [List.mem_singleton.mp h]
    cases more <;> exact List.mem_cons_self
  | cons step steps ih =>
    rcases List.mem_cons.mp h with rfl | h
    · exact List.mem_cons_self
    · exact List.mem_cons_of_mem _ (ih h)

/-- A walk down passes what lies between its ends. -/
lemma mem_trail_down {pos place names : List ν} :
    place ∈ trail pos (names.map .down) ↔ pos <+: place ∧ place <+: pos ++ names := by
  induction names generalizing pos with
  | nil =>
    rw [List.map_nil, trail, List.mem_singleton, List.append_nil]
    constructor
    · rintro rfl
      exact ⟨List.prefix_rfl, List.prefix_rfl⟩
    · exact fun h => h.2.eq_of_length (Nat.le_antisymm h.2.length_le h.1.length_le)
  | cons name names ih =>
    have hassoc : pos ++ [name] ++ names = pos ++ name :: names := by simp
    rw [List.map_cons, trail, List.mem_cons, Step.apply, ih, hassoc]
    constructor
    · rintro (rfl | ⟨hpos, hplace⟩)
      · exact ⟨List.prefix_rfl, List.prefix_append _ _⟩
      · exact ⟨(List.prefix_append _ _).trans hpos, hplace⟩
    · rintro ⟨⟨rest, rfl⟩, hplace⟩
      cases rest with
      | nil => exact Or.inl (List.append_nil pos)
      | cons next rest =>
        have hnext := (List.prefix_append_right_inj pos).mp hplace
        obtain rfl := (List.cons_prefix_cons.mp hnext).1
        refine Or.inr ⟨?_, hplace⟩
        exact (List.prefix_append_right_inj pos).mpr (List.prefix_append [_] rest)

/-- A walk that stays below a place ends below it. -/
theorem walk_of_stays {steps : List (Step ν)} {base below : List ν} (h : Stays below.length steps) :
    base <+: walk (base ++ below) steps := by
  induction steps generalizing below with
  | nil => exact List.prefix_append _ _
  | cons step steps ih =>
    cases step with
    | down name =>
      have hlonger : Stays (below ++ [name]).length steps := by
        rw [List.length_append]
        exact h
      rw [walk_cons, Step.apply, List.append_assoc]
      exact ih hlonger
    | here => exact ih h
    | up =>
      rcases List.eq_nil_or_concat' below with rfl | ⟨below, name, rfl⟩
      · exact absurd h (by simp [Stays])
      · have hshorter : Stays below.length steps := by
          rw [List.length_append] at h
          exact h
        rw [walk_cons, Step.apply, ← List.append_assoc, List.dropLast_concat]
        exact ih hshorter

end T3dmium.TreeWalk
