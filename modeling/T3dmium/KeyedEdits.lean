import Mathlib

/-! Edits of a partial map, each of one key. What a list of edits does at a key
depends on that key alone, so two maps may differ where no edit can tell. -/
namespace T3dmium

/-- `run` tells whether the edit succeeds, and what the key holds then. -/
structure Edit (κ β : Type*) where
  key : κ
  run : Option β → Bool × Option β

namespace Edit
variable {κ β : Type*} [DecidableEq κ]

def apply (e : Edit κ β) (m : κ → Option β) : Bool × (κ → Option β) :=
  ((e.run (m e.key)).1, Function.update m e.key (e.run (m e.key)).2)

lemma apply_self (e : Edit κ β) (m : κ → Option β) :
    (e.apply m).2 e.key = (e.run (m e.key)).2 := Function.update_self _ _ _

lemma apply_of_ne {e : Edit κ β} {k : κ} (h : k ≠ e.key) (m : κ → Option β) :
    (e.apply m).2 k = m k := Function.update_of_ne h _ _

/-- All edits in turn, also after one has failed. -/
def applyAll : List (Edit κ β) → (κ → Option β) → Bool × (κ → Option β)
  | [], m => (true, m)
  | e :: es, m => ((e.apply m).1 && (applyAll es (e.apply m).2).1, (applyAll es (e.apply m).2).2)

/-- The first edit of a key. -/
def firstAt (es : List (Edit κ β)) (k : κ) : Option (Edit κ β) := es.find? fun e => e.key = k

lemma firstAt_cons_self (e : Edit κ β) (es : List (Edit κ β)) : firstAt (e :: es) e.key = some e := by
  simp [firstAt]

lemma firstAt_cons_of_ne {e : Edit κ β} {k : κ} (h : k ≠ e.key) (es : List (Edit κ β)) :
    firstAt (e :: es) k = firstAt es k := by
  simp [firstAt, h.symm]

lemma exists_firstAt {es : List (Edit κ β)} {k : κ} (h : ∃ e ∈ es, e.key = k) :
    ∃ e ∈ es, firstAt es k = some e ∧ e.key = k := by
  induction es with
  | nil => simp at h
  | cons e es ih =>
    by_cases hk : k = e.key
    · subst hk
      exact ⟨e, List.mem_cons_self, firstAt_cons_self e es, rfl⟩
    · obtain ⟨e', he', rfl⟩ := h
      have hrest : e' ∈ es := (List.mem_cons.mp he').resolve_left fun h => hk (h ▸ rfl)
      obtain ⟨e'', hmem, hfirst, hkey⟩ := ih ⟨e', hrest, rfl⟩
      exact ⟨e'', List.mem_cons_of_mem _ hmem, by rw [firstAt_cons_of_ne hk, hfirst], hkey⟩

lemma applyAll_of_notMem {es : List (Edit κ β)} {k : κ} (h : ∀ e ∈ es, e.key ≠ k)
    (m : κ → Option β) : (applyAll es m).2 k = m k := by
  induction es generalizing m with
  | nil => rfl
  | cons e es ih =>
    rw [applyAll, ih fun e' he' => h e' (List.mem_cons_of_mem _ he')]
    exact apply_of_ne (h e List.mem_cons_self).symm m

lemma applyAll_append (es es' : List (Edit κ β)) (m : κ → Option β) :
    applyAll (es ++ es') m =
      ((applyAll es m).1 && (applyAll es' (applyAll es m).2).1, (applyAll es' (applyAll es m).2).2) := by
  induction es generalizing m with
  | nil => simp [applyAll]
  | cons e es ih => simp only [List.cons_append, applyAll, ih, Bool.and_assoc]

/-- The edits one after the other on what one key holds. -/
def through : List (Edit κ β) → Option β → Bool × Option β
  | [], v => (true, v)
  | e :: es, v => ((e.run v).1 && (through es (e.run v).2).1, (through es (e.run v).2).2)

lemma applyAll_snd (es : List (Edit κ β)) (m : κ → Option β) (k : κ) :
    (applyAll es m).2 k = (through (es.filter fun e => e.key = k) (m k)).2 := by
  induction es generalizing m with
  | nil => rfl
  | cons e es ih =>
    rw [applyAll, ih]
    by_cases hk : e.key = k
    · subst hk
      rw [List.filter_cons_of_pos (by simp), through, apply_self]
    · rw [List.filter_cons_of_neg (by simp [hk]), apply_of_ne (Ne.symm hk)]

/-- All edits succeed iff those of each key do. -/
lemma applyAll_fst_iff (es : List (Edit κ β)) (m : κ → Option β) :
    (applyAll es m).1 = true ↔ ∀ k, (through (es.filter fun e => e.key = k) (m k)).1 = true := by
  induction es generalizing m with
  | nil => simp [applyAll, through]
  | cons e es ih =>
    have hother : ∀ k, k ≠ e.key → through ((e :: es).filter fun e => e.key = k) (m k) =
        through (es.filter fun e => e.key = k) ((e.apply m).2 k) := by
      intro k hk
      rw [List.filter_cons_of_neg (by simp [Ne.symm hk]), apply_of_ne hk]
    have hown : (through ((e :: es).filter fun e' => e'.key = e.key) (m e.key)).1 =
        ((e.run (m e.key)).1 &&
          (through (es.filter fun e' => e'.key = e.key) ((e.apply m).2 e.key)).1) := by
      rw [List.filter_cons_of_pos (by simp), through, apply_self]
    rw [applyAll, Bool.and_eq_true, ih]
    constructor
    · rintro ⟨hfirst, hrest⟩ k
      by_cases hk : k = e.key
      · subst hk
        rw [hown, Bool.and_eq_true]
        exact ⟨hfirst, hrest e.key⟩
      · rw [hother k hk]
        exact hrest k
    · intro h
      have hfirst := h e.key
      rw [hown, Bool.and_eq_true] at hfirst
      refine ⟨hfirst.1, fun k => ?_⟩
      by_cases hk : k = e.key
      · subst hk
        exact hfirst.2
      · rw [← hother k hk]
        exact h k

/-- If all edits succeed, the first of each key succeeded on what the key held. -/
lemma firstAt_succeeds {es : List (Edit κ β)} {m : κ → Option β} (h : (applyAll es m).1 = true)
    {k : κ} {e : Edit κ β} (he : firstAt es k = some e) : (e.run (m k)).1 = true := by
  induction es generalizing m with
  | nil => simp [firstAt] at he
  | cons e' es ih =>
    simp only [applyAll, Bool.and_eq_true] at h
    by_cases hk : k = e'.key
    · subst hk
      rw [firstAt_cons_self] at he
      cases he
      exact h.1
    · rw [firstAt_cons_of_ne hk] at he
      have hrest := ih h.2 he
      rwa [apply_of_ne hk] at hrest

/-- No edit tells the two maps apart: where they differ, the first edit of the key
does the same to both. -/
def Alike (es : List (Edit κ β)) (m m' : κ → Option β) : Prop :=
  ∀ e ∈ es, m e.key = m' e.key ∨
    ∃ e', firstAt es e.key = some e' ∧ e'.run (m e.key) = e'.run (m' e.key)

lemma Alike.run_eq {e : Edit κ β} {es : List (Edit κ β)} {m m' : κ → Option β}
    (h : Alike (e :: es) m m') : e.run (m e.key) = e.run (m' e.key) := by
  rcases h e List.mem_cons_self with heq | ⟨e', hfirst, heq⟩
  · rw [heq]
  · rw [firstAt_cons_self] at hfirst
    cases hfirst
    exact heq

lemma Alike.tail {e : Edit κ β} {es : List (Edit κ β)} {m m' : κ → Option β}
    (h : Alike (e :: es) m m') : Alike es (e.apply m).2 (e.apply m').2 := by
  intro x hx
  by_cases hk : x.key = e.key
  · exact Or.inl (by rw [hk, apply_self, apply_self, h.run_eq])
  · rw [apply_of_ne hk, apply_of_ne hk]
    refine (h x (List.mem_cons_of_mem _ hx)).imp_right fun ⟨e', hfirst, heq⟩ => ?_
    exact ⟨e', by rwa [firstAt_cons_of_ne hk] at hfirst, heq⟩

/-- Then they succeed on both or on neither, with the same result. -/
theorem Alike.applyAll {es : List (Edit κ β)} {m m' : κ → Option β} (h : Alike es m m') :
    (Edit.applyAll es m).1 = (Edit.applyAll es m').1 ∧
      ∀ k, (∃ e ∈ es, e.key = k) ∨ m k = m' k →
        (Edit.applyAll es m).2 k = (Edit.applyAll es m').2 k := by
  induction es generalizing m m' with
  | nil => exact ⟨rfl, fun k hk => hk.resolve_left (by simp)⟩
  | cons e es ih =>
    obtain ⟨hok, hres⟩ := ih h.tail
    have hrun := h.run_eq
    have happly : (e.apply m).1 = (e.apply m').1 := by rw [apply, apply, hrun]
    refine ⟨by rw [Edit.applyAll, Edit.applyAll, hok, happly], fun k hk => hres k ?_⟩
    by_cases hek : k = e.key
    · subst hek
      exact Or.inr (by rw [apply_self, apply_self, hrun])
    · rw [apply_of_ne hek, apply_of_ne hek]
      refine hk.imp_left fun ⟨x, hx, hxk⟩ => ⟨x, ?_, hxk⟩
      exact (List.mem_cons.mp hx).resolve_left fun he => hek (he ▸ hxk.symm)

end Edit

/-- A partial copy of a map that has moved on from `pin`: it has the keys in `known`
as they are now and no others, which are still as in `pin`. -/
structure PartialCopy {κ β : Type*} (known : Set κ) (pin copy current : κ → Option β) : Prop where
  of_mem : ∀ k ∈ known, copy k = current k
  of_notMem : ∀ k ∉ known, copy k = none ∧ current k = pin k

end T3dmium
