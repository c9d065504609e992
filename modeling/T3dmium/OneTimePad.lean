import Mathlib

/-! Texts covered symbol by symbol with a pad. As long as no pad covers two texts, other texts of
the same lengths have pads under which they are covered by the very same symbols. -/
namespace T3dmium.OneTimePad

/-- An operation that turns each symbol into any other under the right pad symbol. -/
structure Cover (α : Type*) where
  cover : α → α → α
  solve : α → α → α
  cover_solve : ∀ a c, cover a (solve a c) = c

/-- Two texts under one name, to be told apart or not. -/
structure Pair (ν α : Type*) where
  name : ν
  text : List α
  other : List α

section
variable {ν α : Type*} (m : Cover α)

def covered (pad : ℕ → α) (text : List α) : List α := text.mapIdx fun i a => m.cover a (pad i)

/-- Only as much of a pad counts as the text is long. -/
lemma covered_congr {pad pad' : ℕ → α} {text : List α} (h : ∀ i < text.length, pad i = pad' i) :
    covered m pad text = covered m pad' text := by
  refine List.ext_getElem? fun i => ?_
  rw [covered, covered, List.getElem?_mapIdx, List.getElem?_mapIdx]
  rcases Nat.lt_or_ge i text.length with hi | hi
  · rw [h i hi]
  · rw [List.getElem?_eq_none hi, Option.map_none, Option.map_none]

/-- The pad under which `other` looks like `text` does under `pad`. -/
def repad (pad : ℕ → α) (text other : List α) : ℕ → α := fun i =>
  match text[i]?, other[i]? with
  | some a, some b => m.solve b (m.cover a (pad i))
  | _, _ => pad i

lemma covered_repad (pad : ℕ → α) {text other : List α} (h : other.length = text.length) :
    covered m (repad m pad text other) other = covered m pad text := by
  refine List.ext_getElem? fun i => ?_
  rw [covered, covered, List.getElem?_mapIdx, List.getElem?_mapIdx]
  rcases Nat.lt_or_ge i text.length with hi | hi
  · have ha := List.getElem?_eq_getElem hi
    have hb := List.getElem?_eq_getElem (h.symm ▸ hi)
    simp only [repad, ha, hb, Option.map_some, m.cover_solve]
  · rw [List.getElem?_eq_none hi, List.getElem?_eq_none (h.symm ▸ hi), Option.map_none, Option.map_none]

lemma repad_of_le (pad : ℕ → α) {text : List α} {i : ℕ} (other : List α) (h : text.length ≤ i) :
    repad m pad text other i = pad i := by
  rw [repad, List.getElem?_eq_none h]

variable [DecidableEq ν]

/-- All pads at once: each name has the pad of its pair. -/
def repadAll (pads : ν → ℕ → α) (pairs : List (Pair ν α)) (name : ν) : ℕ → α :=
  match pairs.find? fun p => decide (p.name = name) with
  | some p => repad m (pads name) p.text p.other
  | none => pads name

variable {m} {pads : ν → ℕ → α} {pairs : List (Pair ν α)}

/-- A name that is used once finds its own pair. -/
lemma find?_name {p : Pair ν α} (hnodup : (pairs.map Pair.name).Nodup) (hp : p ∈ pairs) :
    (pairs.find? fun q => decide (q.name = p.name)) = some p := by
  induction pairs with
  | nil => exact absurd hp List.not_mem_nil
  | cons q pairs ih =>
    obtain ⟨hq, hrest⟩ := List.nodup_cons.mp hnodup
    rw [List.find?_cons]
    rcases List.mem_cons.mp hp with rfl | hp
    · rw [decide_eq_true rfl]
    · have hne : q.name ≠ p.name := fun he => hq (he ▸ List.mem_map_of_mem hp)
      rw [decide_eq_false hne]
      exact ih hrest hp

/-- Under the new pads the other texts look as the texts did. -/
theorem covered_repadAll {p : Pair ν α} (hnodup : (pairs.map Pair.name).Nodup) (hp : p ∈ pairs)
    (hlength : p.other.length = p.text.length) :
    covered m (repadAll m pads pairs p.name) p.other = covered m (pads p.name) p.text := by
  rw [repadAll, find?_name hnodup hp]
  exact covered_repad m _ hlength

/-- The pads change only where a text was covered. -/
theorem repadAll_changed {name : ν} {i : ℕ} (h : repadAll m pads pairs name i ≠ pads name i) :
    ∃ p ∈ pairs, p.name = name ∧ i < p.text.length := by
  rw [repadAll] at h
  cases hfind : pairs.find? fun p => decide (p.name = name) with
  | none =>
    rw [hfind] at h
    exact absurd rfl h
  | some p =>
    rw [hfind] at h
    have hname := List.find?_some hfind
    refine ⟨p, List.mem_of_find?_eq_some hfind, of_decide_eq_true hname, ?_⟩
    by_contra hle
    exact h (repad_of_le m _ _ (Nat.le_of_not_lt hle))

end
end T3dmium.OneTimePad
