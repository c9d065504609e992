import Mathlib

/-! Deterministic machines that answer one input after the other, and three ways
to reason about their runs: invariants, inputs that leave no trace, and inputs an
observer cannot tell were there. -/
namespace T3dmium

/-- `m i s` is the answer to `i` in state `s` and the state after it. -/
abbrev Machine (σ ι ο : Type*) := ι → σ → ο × σ

namespace Machine
variable {σ ι ο ν : Type*} (m : Machine σ ι ο)

/-- The answers to a sequence of inputs and the state after the last. -/
def run : List ι → σ → List ο × σ
  | [], s => ([], s)
  | i :: is, s => ((m i s).1 :: (run is (m i s).2).1, (run is (m i s).2).2)

def answers (is : List ι) (s : σ) : List ο := (run m is s).1

def final (is : List ι) (s : σ) : σ := (run m is s).2

@[simp] lemma answers_nil (s : σ) : answers m [] s = [] := rfl

@[simp] lemma final_nil (s : σ) : final m [] s = s := rfl

@[simp] lemma answers_cons (i : ι) (is : List ι) (s : σ) :
    answers m (i :: is) s = (m i s).1 :: answers m is (m i s).2 := rfl

@[simp] lemma final_cons (i : ι) (is : List ι) (s : σ) :
    final m (i :: is) s = final m is (m i s).2 := rfl

lemma final_append (is js : List ι) (s : σ) :
    final m (is ++ js) s = final m js (final m is s) := by
  induction is generalizing s with
  | nil => rfl
  | cons i is ih => simp [ih]

lemma answers_append (is js : List ι) (s : σ) :
    answers m (is ++ js) s = answers m is s ++ answers m js (final m is s) := by
  induction is generalizing s with
  | nil => rfl
  | cons i is ih => simp [ih]

@[simp] lemma answers_length (is : List ι) (s : σ) : (answers m is s).length = is.length := by
  induction is generalizing s with
  | nil => rfl
  | cons i is ih => simp [ih]

/-! Invariants -/

/-- `p` holds of every input at the state it meets. -/
def Throughout (p : ι → σ → Prop) : List ι → σ → Prop
  | [], _ => True
  | i :: is, s => p i s ∧ Throughout p is (m i s).2

variable {m}

lemma Throughout.append {p : ι → σ → Prop} {is js : List ι} {s : σ} :
    Throughout m p (is ++ js) s ↔ Throughout m p is s ∧ Throughout m p js (final m is s) := by
  induction is generalizing s with
  | nil => simp [Throughout]
  | cons i is ih => simp [Throughout, ih, and_assoc]

lemma throughout_of_forall {p : ι → σ → Prop} {is : List ι} (h : ∀ i ∈ is, ∀ s, p i s) (s : σ) :
    Throughout m p is s := by
  induction is generalizing s with
  | nil => trivial
  | cons i is ih =>
    exact ⟨h i List.mem_cons_self s, ih (fun j hj => h j (List.mem_cons_of_mem _ hj)) _⟩

/-- What every admitted step preserves holds after every admitted run. -/
theorem final_invariant {p : ι → σ → Prop} (I : σ → Prop)
    (hstep : ∀ i s, p i s → I s → I (m i s).2) {is : List ι} {s : σ}
    (hp : Throughout m p is s) (hs : I s) : I (final m is s) := by
  induction is generalizing s with
  | nil => exact hs
  | cons i is ih => exact ih hp.2 (hstep i s hp.1 hs)

/-- What the answer of every admitted step satisfies holds of the answers of every admitted
run. -/
theorem answers_of_invariant {p : ι → σ → Prop} (I : σ → Prop) (Q : ο → Prop)
    (hstep : ∀ i s, p i s → I s → I (m i s).2) (hanswer : ∀ i s, p i s → I s → Q (m i s).1)
    {is : List ι} {s : σ} (hp : Throughout m p is s) (hs : I s) : ∀ a ∈ answers m is s, Q a := by
  induction is generalizing s with
  | nil => exact fun a ha => absurd ha List.not_mem_nil
  | cons i is ih =>
    intro a ha
    rw [answers_cons] at ha
    rcases List.mem_cons.mp ha with rfl | ha
    · exact hanswer i s hp.1 hs
    · exact ih hp.2 (hstep i s hp.1 hs) a ha

/-- What the inputs of a run contribute, each at the state it meets. -/
def gathered {α : Type*} (m : Machine σ ι ο) (f : ι → σ → Set α) : List ι → σ → Set α
  | [], _ => ∅
  | i :: is, s => f i s ∪ gathered m f is (m i s).2

/-- An invariant of the state and of what has been gathered so far. -/
theorem gathered_invariant {α : Type*} {p : ι → σ → Prop} {f : ι → σ → Set α} (I : Set α → σ → Prop)
    (hstep : ∀ i s got, p i s → I got s → I (got ∪ f i s) (m i s).2) {is : List ι} {s : σ} {got : Set α}
    (hp : Throughout m p is s) (hs : I got s) : I (got ∪ gathered m f is s) (final m is s) := by
  induction is generalizing s got with
  | nil =>
    rw [gathered, Set.union_empty]
    exact hs
  | cons i is ih =>
    rw [gathered, ← Set.union_assoc]
    exact ih hp.2 (hstep i s got hp.1 hs)

/-! Inputs without a trace -/

/-- An input that leaves the state as it was can be taken out of a run: the other
answers and the final state stay. -/
theorem run_without {pre post : List ι} {i : ι} {s : σ}
    (h : (m i (final m pre s)).2 = final m pre s) :
    final m (pre ++ post) s = final m (pre ++ i :: post) s ∧
      answers m (pre ++ post) s = (answers m (pre ++ i :: post) s).eraseIdx pre.length := by
  constructor
  · rw [final_append, final_append, final_cons, h]
  · rw [answers_append, answers_append, answers_cons, h,
      List.eraseIdx_append_of_length_le (by simp)]
    simp

/-! Inputs an observer cannot see -/

/-- The answers given to the inputs selected by `own`. -/
def answersTo (m : Machine σ ι ο) (own : ι → Bool) : List ι → σ → List ο
  | [], _ => []
  | i :: is, s =>
    if own i then (m i s).1 :: answersTo m own is (m i s).2 else answersTo m own is (m i s).2

/-- Unwinding: if own inputs are answered, and move the view, by the view alone,
and other inputs do not move it, then all other inputs may be deleted. -/
theorem unwinding (own : ι → Bool) (view : σ → ν) (I : σ → Prop)
    (hinv : ∀ i s, I s → I (m i s).2)
    (hown : ∀ i s s', own i = true → I s → I s' → view s = view s' →
      (m i s).1 = (m i s').1 ∧ view (m i s).2 = view (m i s').2)
    (hother : ∀ i s, own i = false → I s → view (m i s).2 = view s)
    {s s' : σ} (hs : I s) (hs' : I s') (hv : view s = view s') (is : List ι) :
    answersTo m own is s = answers m (is.filter own) s' ∧
      view (final m is s) = view (final m (is.filter own) s') := by
  induction is generalizing s s' with
  | nil => exact ⟨rfl, hv⟩
  | cons i is ih =>
    cases ho : own i with
    | true =>
      obtain ⟨ha, hn⟩ := hown i s s' ho hs hs' hv
      obtain ⟨has, hvs⟩ := ih (hinv i s hs) (hinv i s' hs') hn
      simp [answersTo, ho, ha, has, hvs]
    | false =>
      have hn := (hother i s ho hs).trans hv
      obtain ⟨has, hvs⟩ := ih (hinv i s hs) hs' hn
      simp [answersTo, ho, has, hvs]

end Machine
end T3dmium
