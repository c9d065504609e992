import Mathlib

/-! Scripts: code cut into statements, each of which runs whole or not at all, so
that a run can be stopped between any two of them. What an observer sees of the
state where a run is stopped is what was there before it, or what a whole run
leaves, if one statement at most shows. -/
namespace T3dmium

/-- `step act next` runs the statement `act`, and goes on by the state it met. -/
inductive Script (σ ε α : Type) where
  | ret (a : α)
  | raise (e : ε)
  | step (act : σ → σ) (next : σ → Script σ ε α)

namespace Script
variable {σ ε α β δ : Type}

def bind : Script σ ε α → (α → Script σ ε β) → Script σ ε β
  | ret a, f => f a
  | raise e, _ => raise e
  | step act next, f => step act fun s => bind (next s) f

instance : Monad (Script σ ε) where
  pure := ret
  bind := bind

def ofExcept : Except ε α → Script σ ε α
  | .ok a => ret a
  | .error e => raise e

/-- Code that counts as one statement. -/
def statement (x : σ → Except ε α × σ) : Script σ ε α :=
  step (fun s => (x s).2) fun s => ofExcept (x s).1

/-- `handler`, and then the exception that called for it. -/
def reraise (handler : Script σ ε Unit) (e : ε) : Script σ ε α := bind handler fun _ => raise e

/-- `try: x` / `except Exception: handler; raise` -/
def orElse : Script σ ε α → Script σ ε Unit → Script σ ε α
  | ret a, _ => ret a
  | raise e, handler => reraise handler e
  | step act next, handler => step act fun s => orElse (next s) handler

/-- The whole run. -/
def run : Script σ ε α → σ → Except ε α × σ
  | ret a, s => (.ok a, s)
  | raise e, s => (.error e, s)
  | step act next, s => run (next s) (act s)

/-- The state after `n` statements, or after the last. -/
def cut : Script σ ε α → ℕ → σ → σ
  | ret _, _, s => s
  | raise _, _, s => s
  | step _ _, 0, s => s
  | step act next, n + 1, s => cut (next s) n (act s)

/-! Whole runs -/

@[simp] lemma run_pure (a : α) (s : σ) : (pure a : Script σ ε α).run s = (.ok a, s) := rfl

lemma run_ofExcept (r : Except ε α) (s : σ) : (ofExcept r : Script σ ε α).run s = (r, s) := by
  cases r <;> rfl

@[simp] lemma run_statement (x : σ → Except ε α × σ) : (statement x).run = x := by
  funext s
  rw [statement, run, run_ofExcept]

lemma run_bind (x : Script σ ε α) (f : α → Script σ ε β) (s : σ) :
    (x >>= f).run s =
      match x.run s with
      | (.ok a, s') => (f a).run s'
      | (.error e, s') => (.error e, s') := by
  change (x.bind f).run s = _
  induction x generalizing s with
  | ret a => rfl
  | raise e => rfl
  | step act next ih => exact ih s (act s)

lemma run_orElse (x : Script σ ε α) (handler : Script σ ε Unit) (s : σ) :
    (x.orElse handler).run s =
      match x.run s with
      | (.ok a, s') => (.ok a, s')
      | (.error e, s') => (reraise handler e).run s' := by
  induction x generalizing s with
  | ret a => rfl
  | raise e => rfl
  | step act next ih => exact ih s (act s)

/-! Stopped runs -/

@[simp] lemma cut_zero (x : Script σ ε α) (s : σ) : x.cut 0 s = s := by
  cases x <;> rfl

/-- A run stopped late enough is whole. -/
lemma exists_cut_eq_run (x : Script σ ε α) (s : σ) : ∃ n, x.cut n s = (x.run s).2 := by
  induction x generalizing s with
  | ret a => exact ⟨0, rfl⟩
  | raise e => exact ⟨0, rfl⟩
  | step act next ih =>
    obtain ⟨n, hn⟩ := ih s (act s)
    exact ⟨n + 1, hn⟩

/-- A sequence is stopped in its first part, or in what follows it. -/
lemma cut_bind (x : Script σ ε α) (f : α → Script σ ε β) (n : ℕ) (s : σ) :
    (x >>= f).cut n s = x.cut n s ∨
      ∃ a s' m, x.run s = (.ok a, s') ∧ (x >>= f).cut n s = (f a).cut m s' := by
  change (x.bind f).cut n s = _ ∨ ∃ a s' m, _ ∧ (x.bind f).cut n s = _
  induction x generalizing n s with
  | ret a => exact Or.inr ⟨a, s, n, rfl, rfl⟩
  | raise e => exact Or.inl rfl
  | step act next ih =>
    cases n with
    | zero => exact Or.inl rfl
    | succ n => exact ih s n (act s)

lemma cut_reraise (handler : Script σ ε Unit) (e : ε) (n : ℕ) (s : σ) :
    (reraise handler e : Script σ ε α).cut n s = handler.cut n s := by
  change (handler.bind fun _ => raise e).cut n s = _
  induction handler generalizing n s with
  | ret a => rfl
  | raise e => rfl
  | step act next ih =>
    cases n with
    | zero => rfl
    | succ n => exact ih s n (act s)

lemma cut_orElse (x : Script σ ε α) (handler : Script σ ε Unit) (n : ℕ) (s : σ) :
    (x.orElse handler).cut n s = x.cut n s ∨
      ∃ e s' m, x.run s = (.error e, s') ∧ (x.orElse handler).cut n s = handler.cut m s' := by
  induction x generalizing n s with
  | ret a => exact Or.inl rfl
  | raise e => exact Or.inr ⟨e, s, n, rfl, cut_reraise handler e n s⟩
  | step act next ih =>
    cases n with
    | zero => exact Or.inl rfl
    | succ n => exact ih s n (act s)

/-! What shows of a stopped run -/

/-- No statement of the script shows. -/
def Quiet (obs : σ → δ) (x : Script σ ε α) : Prop := ∀ n s, obs (x.cut n s) = obs s

/-- Wherever the script is stopped, all of it shows or nothing. -/
def Atomic (obs : σ → δ) (x : Script σ ε α) : Prop :=
  ∀ n s, obs (x.cut n s) = obs s ∨ obs (x.cut n s) = obs (x.run s).2

/-- A run that raises does not show. -/
def FailsQuietly (obs : σ → δ) (x : Script σ ε α) : Prop :=
  ∀ s e s', x.run s = (.error e, s') → obs s' = obs s

section
variable {obs : σ → δ} {x : Script σ ε α} {f : α → Script σ ε β} {handler : Script σ ε Unit}

lemma quiet_pure (a : α) : Quiet obs (pure a : Script σ ε α) := fun _ _ => rfl

lemma quiet_ofExcept (r : Except ε α) : Quiet obs (ofExcept r : Script σ ε α) := by
  intro n s
  cases r <;> rfl

lemma quiet_statement {x : σ → Except ε α × σ} (h : ∀ s, obs (x s).2 = obs s) :
    Quiet obs (statement x) := by
  intro n s
  cases n with
  | zero => rfl
  | succ n => exact (quiet_ofExcept _ n _).trans (h s)

lemma Quiet.run (h : Quiet obs x) (s : σ) : obs (x.run s).2 = obs s := by
  obtain ⟨n, hn⟩ := exists_cut_eq_run x s
  rw [← hn]
  exact h n s

lemma Quiet.atomic (h : Quiet obs x) : Atomic obs x := fun n s => Or.inl (h n s)

lemma Quiet.bind (h : Quiet obs x) (hf : ∀ a, Quiet obs (f a)) : Quiet obs (x >>= f) := by
  intro n s
  rcases cut_bind x f n s with hcut | ⟨a, s', m, hrun, hcut⟩
  · rw [hcut, h n s]
  · have hobs := h.run s
    rw [hrun] at hobs
    rw [hcut, hf a m s', hobs]

lemma Quiet.foldlM {γ : Type} {f : β → γ → Script σ ε β} (h : ∀ b c, Quiet obs (f b c)) (l : List γ)
    (b : β) : Quiet obs (l.foldlM f b) := by
  induction l generalizing b with
  | nil => exact quiet_pure b
  | cons c l ih =>
    rw [List.foldlM_cons]
    exact (h b c).bind ih

lemma Quiet.reraise (h : Quiet obs handler) (e : ε) :
    Quiet obs (Script.reraise handler e : Script σ ε α) := by
  intro n s
  rw [cut_reraise, h n s]

/-- One statement alone may show what it likes. -/
lemma atomic_statement (x : σ → Except ε α × σ) : Atomic obs (statement x) := by
  intro n s
  cases n with
  | zero => exact Or.inl rfl
  | succ n =>
    rw [run_statement]
    exact Or.inr (quiet_ofExcept _ n _)

/-- Nothing shows before what is atomic. -/
lemma Quiet.bind_atomic (h : Quiet obs x) (hf : ∀ a, Atomic obs (f a)) : Atomic obs (x >>= f) := by
  intro n s
  rcases cut_bind x f n s with hcut | ⟨a, s', m, hrun, hcut⟩
  · rw [hcut]
    exact Or.inl (h n s)
  · have hobs := h.run s
    rw [hrun] at hobs
    rw [hcut, run_bind, hrun, ← hobs]
    exact hf a m s'

/-- Nothing shows after what is atomic. -/
lemma Atomic.bind_quiet (h : Atomic obs x) (hf : ∀ a, Quiet obs (f a)) : Atomic obs (x >>= f) := by
  intro n s
  have hrest : obs ((x >>= f).run s).2 = obs (x.run s).2 := by
    rw [run_bind]
    obtain ⟨r, s'⟩ := x.run s
    cases r with
    | ok a => exact (hf a).run s'
    | error e => rfl
  rw [hrest]
  rcases cut_bind x f n s with hcut | ⟨a, s', m, hrun, hcut⟩
  · rw [hcut]
    exact h n s
  · rw [hcut, hf a m s', hrun]
    exact Or.inr rfl

lemma Quiet.bind_failsQuietly (h : Quiet obs x) (hf : ∀ a, FailsQuietly obs (f a)) :
    FailsQuietly obs (x >>= f) := by
  intro s e s' hrun
  have hobs := h.run s
  rw [run_bind] at hrun
  generalize x.run s = p at hrun hobs
  obtain ⟨r, s''⟩ := p
  cases r with
  | ok a => exact (hf a s'' e s' hrun).trans hobs
  | error e' =>
    cases hrun
    exact hobs

/-- A handler without a trace keeps a script atomic whose failures leave none. -/
lemma Atomic.orElse (h : Atomic obs x) (hfails : FailsQuietly obs x) (hh : Quiet obs handler) :
    Atomic obs (x.orElse handler) := by
  intro n s
  have hrun := run_orElse x handler s
  rcases cut_orElse x handler n s with hcut | ⟨e, s', m, hx, hcut⟩
  · rw [hcut]
    refine (h n s).imp_right fun hobs => hobs.trans ?_
    rw [hrun]
    obtain ⟨r, s'⟩ := x.run s
    cases r with
    | ok a => rfl
    | error e => exact ((hh.reraise e).run s').symm
  · rw [hcut, hh m s']
    exact Or.inl (hfails s e s' hx)

end
/-! What holds wherever a run is stopped -/

/-- From `s` on, `I` holds wherever the script is stopped, and `Q` of how it ends. -/
def Spec (s : σ) (x : Script σ ε α) (I : σ → Prop) (Q : Except ε α → σ → Prop) : Prop :=
  (∀ n, I (x.cut n s)) ∧ Q (x.run s).1 (x.run s).2

section
variable {s : σ} {x : Script σ ε α} {f : α → Script σ ε β} {I J : σ → Prop}
  {Q R : Except ε α → σ → Prop}

lemma Spec.imp (h : Spec s x J R) (hI : ∀ s', J s' → I s') (hQ : ∀ r s', R r s' → Q r s') :
    Spec s x I Q := ⟨fun n => hI _ (h.1 n), hQ _ _ h.2⟩

lemma spec_ofExcept {r : Except ε α} (hI : I s) (hQ : Q r s) : Spec s (ofExcept r) I Q := by
  cases r with
  | ok a => exact ⟨fun _ => hI, hQ⟩
  | error e => exact ⟨fun _ => hI, hQ⟩

lemma spec_pure {a : α} (hI : I s) (hQ : Q (.ok a) s) : Spec s (pure a) I Q := ⟨fun _ => hI, hQ⟩

lemma spec_raise {e : ε} (hI : I s) (hQ : Q (.error e) s) : Spec s (raise e) I Q := ⟨fun _ => hI, hQ⟩

lemma spec_statement {x : σ → Except ε α × σ} (hI : I s) (hI' : I (x s).2) (hQ : Q (x s).1 (x s).2) :
    Spec s (statement x) I Q := by
  refine ⟨fun n => ?_, ?_⟩
  · cases n with
    | zero => exact hI
    | succ n => exact (spec_ofExcept (Q := fun _ _ => True) hI' trivial).1 n
  · rw [run_statement]
    exact hQ

lemma Spec.bind {Q : Except ε β → σ → Prop} (h : Spec s x I R)
    (hok : ∀ a s', R (.ok a) s' → Spec s' (f a) I Q)
    (herror : ∀ e s', R (.error e) s' → Q (.error e) s') : Spec s (x >>= f) I Q := by
  obtain ⟨hcut, hrun⟩ := h
  refine ⟨fun n => ?_, ?_⟩
  · rcases cut_bind x f n s with hn | ⟨a, s', m, hx, hn⟩
    · rw [hn]
      exact hcut n
    · rw [hx] at hrun
      rw [hn]
      exact (hok a s' hrun).1 m
  · rw [run_bind]
    generalize x.run s = p at hrun
    obtain ⟨r, s'⟩ := p
    cases r with
    | ok a => exact (hok a s' hrun).2
    | error e => exact herror e s' hrun

lemma spec_ofExcept_bind {r : Except ε α} {Q : Except ε β → σ → Prop} (hI : I s)
    (hok : ∀ a, r = .ok a → Spec s (f a) I Q) (herror : ∀ e, r = .error e → Q (.error e) s) :
    Spec s (ofExcept r >>= f) I Q := by
  cases r with
  | ok a => exact hok a rfl
  | error e => exact ⟨fun _ => hI, herror e rfl⟩

/-- A statement that does not raise, and what follows it. -/
lemma spec_statement_bind {x : σ → Except ε α × σ} {a : α} {s' : σ} {Q : Except ε β → σ → Prop}
    (hx : x s = (.ok a, s')) (hI : I s) (h : Spec s' (f a) I Q) : Spec s (statement x >>= f) I Q := by
  have hI' : I s' := by
    have h0 := h.1 0
    rwa [cut_zero] at h0
  refine Spec.bind (R := fun r t => r = .ok a ∧ t = s') ?_ ?_ ?_
  · refine spec_statement hI ?_ ?_ <;> rw [hx]
    · exact hI'
    · exact ⟨rfl, rfl⟩
  · rintro a' t ⟨ha, rfl⟩
    cases ha
    exact h
  · rintro e t ⟨he, -⟩
    cases he

end

end Script
end T3dmium
