import Mathlib

/-! Programs that ask for values and go on with the answers. What a program returns and asks depends on
the answers only. -/
namespace T3dmium

inductive Asking (ι ο α : Type)
  | returns (a : α)
  | asks (i : ι) (next : ο → Asking ι ο α)

namespace Asking
variable {ι ο α β γ : Type}

def bind : Asking ι ο α → (α → Asking ι ο β) → Asking ι ο β
  | returns a, g => g a
  | asks i next, g => asks i fun o => (next o).bind g

instance : Monad (Asking ι ο) where
  pure := returns
  bind := bind

def ask (i : ι) : Asking ι ο ο := asks i returns

/-- What the program returns where `f` answers. -/
def value (f : ι → ο) : Asking ι ο α → α
  | returns a => a
  | asks i next => (next (f i)).value f

/-- What it asks there, in order. -/
def asked (f : ι → ο) : Asking ι ο α → List ι
  | returns _ => []
  | asks i next => i :: (next (f i)).asked f

/-- What the program returns if it asks just what the list answers. -/
def follow [DecidableEq ι] : Asking ι ο α → List (ι × ο) → Option α
  | returns a, [] => some a
  | asks i next, (j, o) :: l => if i = j then (next o).follow l else none
  | _, _ => none

section
variable (f : ι → ο)

@[simp] lemma value_pure (a : α) : (pure a : Asking ι ο α).value f = a := rfl

@[simp] lemma value_ask (i : ι) : (ask i : Asking ι ο ο).value f = f i := rfl

@[simp] lemma value_bind (x : Asking ι ο α) (g : α → Asking ι ο β) :
    (x >>= g).value f = (g (x.value f)).value f := by
  change (x.bind g).value f = _
  induction x with
  | returns a => rfl
  | asks i next ih => exact ih (f i)

@[simp] lemma value_foldlM (g : β → γ → Asking ι ο β) (l : List γ) (b : β) :
    (l.foldlM g b).value f = l.foldl (fun b c => (g b c).value f) b := by
  induction l generalizing b with
  | nil => rfl
  | cons c l ih => rw [List.foldlM_cons, value_bind, ih, List.foldl_cons]

variable [DecidableEq ι]

lemma follow_asked (x : Asking ι ο α) :
    x.follow ((x.asked f).map fun i => (i, f i)) = some (x.value f) := by
  induction x with
  | returns a => rfl
  | asks i next ih =>
    rw [asked, List.map_cons, follow, if_pos rfl]
    exact ih (f i)

variable {f}

/-- A program that has been given right answers has asked what it asks, and returns what it returns. -/
lemma follow_eq_some {x : Asking ι ο α} {l : List (ι × ο)} {a : α} (h : x.follow l = some a)
    (hright : ∀ p ∈ l, p.2 = f p.1) : l = (x.asked f).map (fun i => (i, f i)) ∧ a = x.value f := by
  induction x generalizing l with
  | returns b =>
    cases l with
    | nil =>
      rw [follow, Option.some.injEq] at h
      exact ⟨rfl, h.symm⟩
    | cons p l => cases h
  | asks i next ih =>
    cases l with
    | nil => cases h
    | cons p l =>
      obtain ⟨j, o⟩ := p
      rw [follow] at h
      split_ifs at h with hij
      obtain rfl : o = f j := hright (j, o) List.mem_cons_self
      subst hij
      obtain ⟨hl, ha⟩ := ih (f i) h fun p hp => hright p (List.mem_cons_of_mem _ hp)
      rw [asked, value, List.map_cons, ← hl]
      exact ⟨rfl, ha⟩

end

end Asking
end T3dmium
