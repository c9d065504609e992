import Mathlib

/-! Code that leaves a trace of what it does and may raise, with `finally` and handlers,
and monitors that follow such a trace and stop at what they do not admit. -/
namespace T3dmium

structure Traced (β ε α : Type) where
  trace : List β
  result : Except ε α

namespace Traced
variable {β ε α γ : Type}

def bind (x : Traced β ε α) (f : α → Traced β ε γ) : Traced β ε γ :=
  match x.result with
  | .ok a => ⟨x.trace ++ (f a).trace, (f a).result⟩
  | .error e => ⟨x.trace, .error e⟩

instance : Monad (Traced β ε) where
  pure a := ⟨[], .ok a⟩
  bind := bind

def act (b : β) : Traced β ε Unit := ⟨[b], .ok ()⟩

/-- What leaves no trace. -/
def ofExcept (r : Except ε α) : Traced β ε α := ⟨[], r⟩

/-- `x`, and `b` if it does not raise. -/
def acting (x : Except ε Unit) (b : β) : Traced β ε Unit := ofExcept x >>= fun _ => act b

/-- `try: x` / `finally: cleanup` -/
def andFinally (x : Traced β ε α) (cleanup : Traced β ε Unit) : Traced β ε α :=
  ⟨x.trace ++ cleanup.trace, cleanup.result >>= fun _ => x.result⟩

/-- `try: x` / `except BaseException: cleanup; raise` -/
def onError (x : Traced β ε α) (cleanup : Traced β ε Unit) : Traced β ε α :=
  match x.result with
  | .ok _ => x
  | .error _ => x.andFinally cleanup

/-- `try: x` / `except caught: return other` -/
def orReturn (x : Traced β ε α) (caught : ε → Bool) (other : α) : Traced β ε α :=
  match x.result with
  | .ok _ => x
  | .error e => if caught e then ⟨x.trace, .ok other⟩ else x

/-! How code ends -/

@[simp] lemma result_pure (a : α) : (pure a : Traced β ε α).result = .ok a := rfl

@[simp] lemma result_ofExcept (r : Except ε α) : (ofExcept r : Traced β ε α).result = r := rfl

@[simp] lemma result_act (b : β) : (act b : Traced β ε Unit).result = .ok () := rfl

@[simp] lemma result_bind (x : Traced β ε α) (f : α → Traced β ε γ) :
    (x >>= f).result = x.result >>= fun a => (f a).result := by
  change (Traced.bind x f).result = _
  rw [Traced.bind]
  cases x.result <;> rfl

@[simp] lemma result_acting (r : Except ε Unit) (b : β) : (acting r b).result = r := by
  cases r <;> rfl

@[simp] lemma result_andFinally (x : Traced β ε α) (cleanup : Traced β ε Unit) :
    (x.andFinally cleanup).result = cleanup.result >>= fun _ => x.result := rfl

lemma result_orReturn (x : Traced β ε α) (caught : ε → Bool) (other : α) :
    (x.orReturn caught other).result = match x.result with
      | .ok a => .ok a
      | .error e => if caught e then .ok other else .error e := by
  obtain ⟨t, r⟩ := x
  cases r with
  | ok a => rfl
  | error e => cases h : caught e <;> simp [orReturn, h]

/-! Monitors -/

/-- The monitor `m` admits all that `x` does from `s` on, and where it ends `Q` holds of
how `x` ends. -/
def Sat {σ : Type} (m : σ → β → Option σ) (s : σ) (x : Traced β ε α) (Q : Except ε α → σ → Prop) :
    Prop :=
  ∃ s', x.trace.foldlM m s = some s' ∧ Q x.result s'

section
variable {σ : Type} {m : σ → β → Option σ} {s : σ} {x : Traced β ε α} {Q R : Except ε α → σ → Prop}

lemma Sat.imp (h : Sat m s x R) (hQ : ∀ r s', R r s' → Q r s') : Sat m s x Q := by
  obtain ⟨s', htrace, hs'⟩ := h
  exact ⟨s', htrace, hQ _ _ hs'⟩

lemma sat_ofExcept {r : Except ε α} (h : Q r s) : Sat m s (ofExcept r) Q := ⟨s, rfl, h⟩

lemma sat_pure {a : α} (h : Q (.ok a) s) : Sat m s (pure a) Q := ⟨s, rfl, h⟩

lemma sat_act {b : β} {s' : σ} {Q : Except ε Unit → σ → Prop} (hb : m s b = some s') (h : Q (.ok ()) s') :
    Sat m s (act b) Q := by
  refine ⟨s', ?_, h⟩
  rw [act, List.foldlM_cons, hb]
  rfl

lemma foldlM_append_eq {t t' : List β} {s' s'' : σ} (h : t.foldlM m s = some s')
    (h' : t'.foldlM m s' = some s'') : (t ++ t').foldlM m s = some s'' := by
  rw [List.foldlM_append, h]
  exact h'

lemma Sat.bind {f : α → Traced β ε γ} {Q : Except ε γ → σ → Prop} (h : Sat m s x R)
    (hok : ∀ a s', R (.ok a) s' → Sat m s' (f a) Q)
    (herror : ∀ e s', R (.error e) s' → Q (.error e) s') : Sat m s (x >>= f) Q := by
  obtain ⟨s', htrace, hs'⟩ := h
  change Sat m s (Traced.bind x f) Q
  rw [Traced.bind]
  cases hr : x.result with
  | error e => exact ⟨s', htrace, herror e s' (hr ▸ hs')⟩
  | ok a =>
    obtain ⟨s'', htrace', hs''⟩ := hok a s' (hr ▸ hs')
    exact ⟨s'', foldlM_append_eq htrace htrace', hs''⟩

lemma sat_act_bind {b : β} {t : σ} {f : Unit → Traced β ε γ} {Q : Except ε γ → σ → Prop}
    (hb : m s b = some t) (h : Sat m t (f ()) Q) : Sat m s (act b >>= f) Q := by
  refine (sat_act (Q := fun r t' => r = .ok () ∧ t' = t) hb ⟨rfl, rfl⟩).bind ?_ ?_
  · rintro _ t' ⟨-, rfl⟩
    exact h
  · rintro e t' ⟨he, -⟩
    cases he

lemma sat_ofExcept_bind {r : Except ε α} {f : α → Traced β ε γ} {Q : Except ε γ → σ → Prop}
    (hok : ∀ a, r = .ok a → Sat m s (f a) Q) (herror : ∀ e, r = .error e → Q (.error e) s) :
    Sat m s (ofExcept r >>= f) Q := by
  refine (sat_ofExcept (Q := fun r' t => r' = r ∧ t = s) ⟨rfl, rfl⟩).bind ?_ ?_
  · rintro a t ⟨hr, rfl⟩
    exact hok a hr.symm
  · rintro e t ⟨hr, rfl⟩
    exact herror e hr.symm

lemma sat_acting {r : Except ε Unit} {b : β} {t : σ} {Q : Except ε Unit → σ → Prop}
    (hb : m s b = some t) (hok : Q (.ok ()) t) (herror : ∀ e, r = .error e → Q (.error e) s) :
    Sat m s (acting r b) Q :=
  sat_ofExcept_bind (fun _ _ => sat_act hb hok) herror

lemma sat_acting_bind {r : Except ε Unit} {b : β} {t : σ} {f : Unit → Traced β ε γ}
    {Q : Except ε γ → σ → Prop} (hb : m s b = some t) (hok : r = .ok () → Sat m t (f ()) Q)
    (herror : ∀ e, r = .error e → Q (.error e) s) : Sat m s (acting r b >>= f) Q := by
  cases r with
  | ok a => exact sat_act_bind hb (hok rfl)
  | error e => exact ⟨s, rfl, herror e rfl⟩

/-- Whatever comes of the body, the clean-up runs, and may raise in its place. -/
lemma Sat.andFinally {cleanup : Traced β ε Unit} (h : Sat m s x R)
    (hcleanup : ∀ r s', R r s' → Sat m s' cleanup fun u s'' => Q (u >>= fun _ => r) s'') :
    Sat m s (x.andFinally cleanup) Q := by
  obtain ⟨s', htrace, hs'⟩ := h
  obtain ⟨s'', htrace', hs''⟩ := hcleanup _ s' hs'
  exact ⟨s'', foldlM_append_eq htrace htrace', hs''⟩

lemma Sat.onError {cleanup : Traced β ε Unit} (h : Sat m s x R)
    (hok : ∀ a s', R (.ok a) s' → Q (.ok a) s')
    (herror : ∀ e s', R (.error e) s' →
      Sat m s' cleanup fun u s'' => Q (u >>= fun _ => .error e) s'') :
    Sat m s (x.onError cleanup) Q := by
  obtain ⟨t, r⟩ := x
  cases r with
  | ok a =>
    obtain ⟨s', htrace, hs'⟩ := h
    exact ⟨s', htrace, hok a s' hs'⟩
  | error e =>
    obtain ⟨s', htrace, hs'⟩ := h
    obtain ⟨s'', htrace', hs''⟩ := herror e s' hs'
    exact ⟨s'', foldlM_append_eq htrace htrace', hs''⟩

lemma Sat.orReturn {caught : ε → Bool} {other : α} (h : Sat m s x R)
    (hok : ∀ a s', R (.ok a) s' → Q (.ok a) s')
    (hcaught : ∀ e s', R (.error e) s' → caught e = true → Q (.ok other) s')
    (herror : ∀ e s', R (.error e) s' → caught e = false → Q (.error e) s') :
    Sat m s (x.orReturn caught other) Q := by
  obtain ⟨t, r⟩ := x
  obtain ⟨s', htrace, hs'⟩ := h
  cases r with
  | ok a => exact ⟨s', htrace, hok a s' hs'⟩
  | error e =>
    cases he : caught e with
    | true =>
      simp only [Traced.orReturn, he, if_true]
      exact ⟨s', htrace, hcaught e s' hs' he⟩
    | false =>
      simp only [Traced.orReturn, he, Bool.false_eq_true, if_false]
      exact ⟨s', htrace, herror e s' hs' he⟩

end
end Traced
end T3dmium
