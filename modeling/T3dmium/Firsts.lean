import Mathlib

/-! The distinct elements of a list in order of first appearance, and when a list of
events shows the same ones as those of its events that count. -/
namespace T3dmium.Firsts
variable {α : Type*} [DecidableEq α]

/-- What is new in `xs` after `seen`, each element once. -/
def fresh (seen xs : List α) : List α := (xs.filter fun x => decide (x ∉ seen)).eraseDups

lemma fresh_nil (xs : List α) : fresh [] xs = xs.eraseDups := by simp [fresh]

lemma filter_filter_ne (seen : List α) (x : α) (xs : List α) :
    ((xs.filter fun y => decide (y ∉ seen)).filter fun y => !y == x) =
      xs.filter fun y => decide (y ∉ x :: seen) := by
  rw [List.filter_filter]
  congr 1
  funext y
  by_cases h : y = x <;> simp [h]

lemma fresh_cons_of_mem {seen : List α} {x : α} (hx : x ∈ seen) (xs : List α) :
    fresh (x :: seen) xs = fresh seen xs := by
  have hfilter : (fun y => decide (y ∉ x :: seen)) = fun y => decide (y ∉ seen) := by
    funext y
    by_cases h : y = x
    · simp [h, hx]
    · simp [h]
  rw [fresh, fresh, hfilter]

lemma fresh_cons (seen : List α) (x : α) (xs : List α) :
    fresh seen (x :: xs) = (if x ∈ seen then [] else [x]) ++ fresh (x :: seen) xs := by
  by_cases hx : x ∈ seen
  · rw [if_pos hx, fresh_cons_of_mem hx, List.nil_append, fresh, fresh,
      List.filter_cons_of_neg (by simpa using hx)]
  · rw [if_neg hx, fresh, List.filter_cons_of_pos (by simpa using hx), List.eraseDups_cons,
      filter_filter_ne]
    rfl

/-- What is new begins with the first element that was not seen. -/
lemma fresh_of_find? {seen xs : List α} {x : α} (h : xs.find? (fun y => decide (y ∉ seen)) = some x) :
    fresh seen xs = x :: fresh (x :: seen) xs := by
  rw [← List.head?_filter] at h
  obtain ⟨rest, hrest⟩ := List.head?_eq_some_iff.mp h
  have hfilter := filter_filter_ne seen x xs
  rw [hrest, List.filter_cons_of_neg (by simp)] at hfilter
  rw [fresh, fresh, hrest, List.eraseDups_cons, hfilter]

lemma find?_of_fresh {seen xs rest : List α} {x : α} (h : fresh seen xs = x :: rest) :
    xs.find? (fun y => decide (y ∉ seen)) = some x := by
  cases hfind : xs.find? (fun y => decide (y ∉ seen)) with
  | none =>
    rw [← List.head?_filter, List.head?_eq_none_iff] at hfind
    rw [fresh, hfind] at h
    cases h
  | some y =>
    rw [fresh_of_find? hfind] at h
    rw [(List.cons.inj h).1]

/-- A scan that keeps what it has not kept before. -/
lemma foldl_eq_eraseDups (xs : List α) :
    xs.foldl (fun kept x => if x ∈ kept then kept else kept ++ [x]) [] = xs.eraseDups := by
  induction xs using List.reverseRecOn with
  | nil => rfl
  | append_singleton xs x ih =>
    rw [List.foldl_concat, ih, List.eraseDups_append]
    by_cases hx : x ∈ xs
    · simp [List.removeAll, hx]
    · simp [List.removeAll, hx, List.eraseDups_cons]

/-! Events that count and events that do not -/

/-- The names of the events that count. -/
def counted (events : List (Bool × α)) : List α := (events.filter Prod.fst).map Prod.snd

omit [DecidableEq α] in
lemma counted_append (a b : List (Bool × α)) : counted (a ++ b) = counted a ++ counted b := by
  simp [counted]

omit [DecidableEq α] in
lemma counted_flatMap {β : Type*} (f : β → List (Bool × α)) (xs : List β) :
    counted (xs.flatMap f) = xs.flatMap fun x => counted (f x) := by
  induction xs with
  | nil => rfl
  | cons x xs ih => rw [List.flatMap_cons, counted_append, ih, List.flatMap_cons]

/-- Every event that does not count names what was seen before, or what the next event
that counts and names something new will name. -/
def Harmless (seen : List α) : List (Bool × α) → Prop
  | [] => True
  | (counts, x) :: events =>
    (counts = true ∨ x ∈ seen ∨ (counted events).find? (fun y => decide (y ∉ seen)) = some x) ∧
      Harmless (x :: seen) events

lemma fresh_eq_iff (seen : List α) (events : List (Bool × α)) :
    fresh seen (events.map Prod.snd) = fresh seen (counted events) ↔ Harmless seen events := by
  induction events generalizing seen with
  | nil => simp [counted, Harmless]
  | cons event events ih =>
    obtain ⟨counts, x⟩ := event
    rw [Harmless, ← ih (x :: seen), List.map_cons, fresh_cons]
    cases counts with
    | true =>
      have hcounted : counted ((true, x) :: events) = x :: counted events := by simp [counted]
      rw [hcounted, fresh_cons, List.append_cancel_left_eq]
      simp
    | false =>
      have hcounted : counted ((false, x) :: events) = counted events := by simp [counted]
      rw [hcounted]
      by_cases hx : x ∈ seen
      · rw [if_pos hx, List.nil_append, ← fresh_cons_of_mem hx (counted events)]
        simp [hx]
      · rw [if_neg hx]
        constructor
        · intro h
          have hfind := find?_of_fresh h.symm
          rw [fresh_of_find? hfind] at h
          exact ⟨Or.inr (Or.inr hfind), (List.cons.inj h).2⟩
        · rintro ⟨hcase, htail⟩
          have hfind := (hcase.resolve_left Bool.false_ne_true).resolve_left hx
          rw [fresh_of_find? hfind, ← htail]
          rfl

/-- The events show what those that count show exactly where the others do no harm. -/
lemma eraseDups_eq_iff (events : List (Bool × α)) :
    (events.map Prod.snd).eraseDups = (counted events).eraseDups ↔ Harmless [] events := by
  rw [← fresh_nil, ← fresh_nil, fresh_eq_iff]

end T3dmium.Firsts
