import Mathlib

/-! Change feeds: a keyed collection whose rows carry the number of the write that
put them there, read incrementally by a replica that remembers one number. -/
namespace T3dmium

/-- The rows by key and the number of the last write. -/
structure Feed (κ ρ : Type*) where
  row : κ → Option ρ
  last : ℕ

namespace Feed
variable {κ ρ : Type*} (stamp : ρ → ℕ)

def Bounded (f : Feed κ ρ) : Prop := ∀ k r, f.row k = some r → stamp r ≤ f.last

/-- `f` turned into `f'` by writes: every row that differs carries a fresh number. -/
structure Advances (f f' : Feed κ ρ) : Prop where
  last_le : f.last ≤ f'.last
  fresh : ∀ k, f'.row k = f.row k ∨
    ∃ r, f'.row k = some r ∧ f.last < stamp r ∧ stamp r ≤ f'.last

/-- A reader's copy of the rows and the number it has read up to. -/
structure Replica (κ ρ : Type*) where
  row : κ → Option ρ
  cursor : ℕ

/-- What the replica lacks is numbered beyond its cursor. -/
structure Trails (f : Feed κ ρ) (m : Replica κ ρ) : Prop where
  cursor_le : m.cursor ≤ f.last
  missing : ∀ k, m.row k = f.row k ∨ ∃ r, f.row k = some r ∧ m.cursor < stamp r

/-- `m'` is `m` after reading the rows numbered beyond its cursor. -/
structure Reads (f : Feed κ ρ) (m m' : Replica κ ρ) : Prop where
  new : ∀ k r, f.row k = some r → m.cursor < stamp r → m'.row k = some r
  old : ∀ k, (∀ r, f.row k = some r → ¬ m.cursor < stamp r) → m'.row k = m.row k
  cursor_mono : m.cursor ≤ m'.cursor
  cursor_seen : m'.cursor = m.cursor ∨ ∃ k r, f.row k = some r ∧ m'.cursor = stamp r

variable {stamp} {f f' f'' : Feed κ ρ} {m m' : Replica κ ρ}

lemma Advances.refl (f : Feed κ ρ) : Advances stamp f f := ⟨le_refl _, fun _ => Or.inl rfl⟩

lemma Advances.trans (h : Advances stamp f f') (h' : Advances stamp f' f'') :
    Advances stamp f f'' := by
  refine ⟨h.last_le.trans h'.last_le, fun k => ?_⟩
  rcases h'.fresh k with hk | ⟨r, hr, hlt, hle⟩
  · rw [hk]
    exact (h.fresh k).imp_right fun ⟨r, hr, hlt, hle⟩ => ⟨r, hr, hlt, hle.trans h'.last_le⟩
  · exact Or.inr ⟨r, hr, h.last_le.trans_lt hlt, hle⟩

lemma Advances.bounded (h : Advances stamp f f') (hf : Bounded stamp f) : Bounded stamp f' := by
  intro k r hr
  rcases h.fresh k with hk | ⟨r', hr', -, hle⟩
  · exact (hf k r (hk ▸ hr)).trans h.last_le
  · rw [hr] at hr'
    cases hr'
    exact hle

/-- Writes leave the replica behind, but nothing below its cursor. -/
lemma Trails.advance (ht : Trails stamp f m) (h : Advances stamp f f') : Trails stamp f' m := by
  refine ⟨ht.cursor_le.trans h.last_le, fun k => ?_⟩
  rcases h.fresh k with hk | ⟨r, hr, hlt, -⟩
  · rw [hk]
    exact ht.missing k
  · exact Or.inr ⟨r, hr, ht.cursor_le.trans_lt hlt⟩

/-- Reading brings the replica level with the feed. -/
theorem Reads.row_eq (h : Reads stamp f m m') (ht : Trails stamp f m) (k : κ) :
    m'.row k = f.row k := by
  rcases ht.missing k with hk | ⟨r, hr, hlt⟩
  · by_cases hnew : ∃ r, f.row k = some r ∧ m.cursor < stamp r
    · obtain ⟨r, hr, hlt⟩ := hnew
      rw [h.new k r hr hlt, hr]
    · rw [h.old k fun r hr hlt => hnew ⟨r, hr, hlt⟩, hk]
  · rw [h.new k r hr hlt, hr]

theorem Reads.trails (h : Reads stamp f m m') (ht : Trails stamp f m) (hf : Bounded stamp f) :
    Trails stamp f m' := by
  refine ⟨?_, fun k => Or.inl (h.row_eq ht k)⟩
  rcases h.cursor_seen with hc | ⟨k, r, hr, hc⟩
  · rw [hc]
    exact ht.cursor_le
  · rw [hc]
    exact hf k r hr

/-- The part of a feed with keys in `p`, its rows shown through `φ`. -/
def select {ρ' : Type*} (p : κ → Bool) (φ : ρ → ρ') (f : Feed κ ρ) : Feed κ ρ' :=
  ⟨fun k => if p k then (f.row k).map φ else none, f.last⟩

variable {ρ' : Type*} {p : κ → Bool} {φ : ρ → ρ'} {stamp' : ρ' → ℕ}

lemma Bounded.select (hf : Bounded stamp f) (hφ : ∀ r, stamp' (φ r) = stamp r) :
    Bounded stamp' (f.select p φ) := by
  intro k r hr
  simp only [Feed.select, Option.ite_none_right_eq_some, Option.map_eq_some_iff] at hr
  obtain ⟨-, r', hr', rfl⟩ := hr
  rw [hφ]
  exact hf k r' hr'

lemma Advances.select (h : Advances stamp f f') (hφ : ∀ r, stamp' (φ r) = stamp r) :
    Advances stamp' (f.select p φ) (f'.select p φ) := by
  refine ⟨h.last_le, fun k => ?_⟩
  simp only [Feed.select]
  by_cases hk : p k = true
  · rw [if_pos hk, if_pos hk]
    rcases h.fresh k with he | ⟨r, hr, hlt, hle⟩
    · exact Or.inl (by rw [he])
    · exact Or.inr ⟨φ r, by rw [hr]; rfl, by rwa [hφ], by rwa [hφ]⟩
  · exact Or.inl (by rw [if_neg hk, if_neg hk])

end Feed
end T3dmium
