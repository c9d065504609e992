import Mathlib

/-! Lists cut at a separator: prefixes and suffixes that end or begin at a
separator, against the lists of pieces. -/
namespace T3dmium.Separators
variable {α : Type*} [DecidableEq α] (sep : α)

omit [DecidableEq α] in
lemma intercalate_append {p q : List (List α)} (hp : p ≠ []) (hq : q ≠ []) :
    [sep].intercalate (p ++ q) = [sep].intercalate p ++ sep :: [sep].intercalate q := by
  induction p with
  | nil => exact absurd rfl hp
  | cons x p ih =>
    cases p with
    | nil => simp [List.intercalate_cons_of_ne_nil hq]
    | cons y p =>
      have htail := ih (List.cons_ne_nil y p)
      rw [List.cons_append, List.intercalate_cons_of_ne_nil (by simp), htail,
        List.intercalate_cons_of_ne_nil (List.cons_ne_nil y p)]
      simp

lemma splitOn_injective : Function.Injective (List.splitOn sep) := by
  intro s t h
  have hjoin := congrArg [sep].intercalate h
  rwa [List.intercalate_splitOn, List.intercalate_splitOn] at hjoin

omit [DecidableEq α] in
lemma mem_intercalate {x : α} {pieces : List (List α)} (h : x ∈ [sep].intercalate pieces) :
    x = sep ∨ ∃ piece ∈ pieces, x ∈ piece := by
  induction pieces with
  | nil => simp at h
  | cons piece pieces ih =>
    cases pieces with
    | nil => exact Or.inr ⟨piece, List.mem_cons_self, by simpa using h⟩
    | cons next pieces =>
      rw [List.intercalate_cons_of_ne_nil (List.cons_ne_nil _ _), List.mem_append,
        List.mem_append, List.mem_singleton] at h
      rcases h with (h | h) | h
      · exact Or.inr ⟨piece, List.mem_cons_self, h⟩
      · exact Or.inl h
      · rcases ih h with h | ⟨other, hother, hx⟩
        · exact Or.inl h
        · exact Or.inr ⟨other, List.mem_cons_of_mem _ hother, hx⟩

/-- What is no separator stands in a piece. -/
lemma mem_piece {s : List α} {x : α} (h : x ∈ s) (hx : x ≠ sep) : ∃ piece ∈ s.splitOn sep, x ∈ piece := by
  have hjoin : x ∈ [sep].intercalate (s.splitOn sep) := by rwa [List.intercalate_splitOn]
  exact (mem_intercalate sep hjoin).resolve_left hx

/-- Pieces at both ends are what a separator stands between. -/
lemma splitOn_eq_append {s : List α} {p q : List (List α)} (hp : p ≠ []) (hq : q ≠ [])
    (h : s.splitOn sep = p ++ q) :
    s = [sep].intercalate p ++ sep :: [sep].intercalate q := by
  have hjoin := congrArg [sep].intercalate h
  rwa [List.intercalate_splitOn, intercalate_append sep hp hq] at hjoin

/-- A text ends in `base` behind a separator iff its pieces properly end in those of `base`. -/
theorem cons_suffix_iff {base s : List α} :
    sep :: base <:+ s ↔
      base.splitOn sep <:+ s.splitOn sep ∧ (base.splitOn sep).length < (s.splitOn sep).length := by
  constructor
  · rintro ⟨x, rfl⟩
    have hx := List.length_pos_iff.mpr (List.splitOn_ne_nil sep x)
    rw [List.splitOn_append_cons_self]
    refine ⟨List.suffix_append _ _, ?_⟩
    rw [List.length_append]
    omega
  · rintro ⟨⟨p, hp⟩, hlt⟩
    have hne : p ≠ [] := by
      rintro rfl
      simp [← hp] at hlt
    refine ⟨[sep].intercalate p, ?_⟩
    rw [splitOn_eq_append sep hne (List.splitOn_ne_nil sep base) hp.symm, List.intercalate_splitOn]

/-- A text begins with `base` and a separator iff its pieces properly begin with those of `base`. -/
theorem concat_prefix_iff {base s : List α} :
    base ++ [sep] <+: s ↔
      base.splitOn sep <+: s.splitOn sep ∧ (base.splitOn sep).length < (s.splitOn sep).length := by
  constructor
  · rintro ⟨x, rfl⟩
    have hx := List.length_pos_iff.mpr (List.splitOn_ne_nil sep x)
    rw [List.append_assoc, List.singleton_append, List.splitOn_append_cons_self]
    refine ⟨List.prefix_append _ _, ?_⟩
    rw [List.length_append]
    omega
  · rintro ⟨⟨q, hq⟩, hlt⟩
    have hne : q ≠ [] := by
      rintro rfl
      simp [← hq] at hlt
    refine ⟨[sep].intercalate q, ?_⟩
    rw [splitOn_eq_append sep (List.splitOn_ne_nil sep base) hne hq.symm, List.intercalate_splitOn]
    simp

/-- A text is `base`, or begins with it and a separator, iff its pieces begin with those of `base`. -/
theorem eq_or_concat_prefix_iff {base s : List α} :
    base = s ∨ base ++ [sep] <+: s ↔ base.splitOn sep <+: s.splitOn sep := by
  rw [concat_prefix_iff]
  constructor
  · rintro (rfl | h)
    · exact List.prefix_rfl
    · exact h.1
  · intro h
    rcases h.length_le.lt_or_eq with hlt | heq
    · exact Or.inr ⟨h, hlt⟩
    · exact Or.inl (splitOn_injective sep (h.eq_of_length heq))

/-- A text that ends in a separator has an empty last piece. -/
lemma splitOn_concat (base : List α) : (base ++ [sep]).splitOn sep = base.splitOn sep ++ [[]] := by
  rw [List.splitOn_append_cons_self, List.splitOn_nil]

end T3dmium.Separators
