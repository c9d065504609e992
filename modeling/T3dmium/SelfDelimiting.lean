import Mathlib

/-! Self-delimiting codes: words that stay recognizable whatever follows them, so that
lists of words can be written up to a terminator. -/
namespace T3dmium

variable {α σ : Type*}

/-- A word followed by anything determines both the word and what follows. -/
def SelfDelimiting (enc : α → List σ) : Prop :=
  ∀ a b x y, enc a ++ x = enc b ++ y → a = b ∧ x = y

namespace SelfDelimiting
variable {enc : α → List σ}

/-- A reader that returns the unused suffix makes a code self-delimiting. -/
lemma of_reader (read : List σ → Option (α × List σ))
    (h : ∀ a x, read (enc a ++ x) = some (a, x)) : SelfDelimiting enc := by
  intro a b x y he
  have ha := h a x
  rw [he, h b y] at ha
  simp only [Option.some.injEq, Prod.mk.injEq] at ha
  exact ⟨ha.1.symm, ha.2.symm⟩

/-- Words that never start with the terminator can be listed up to it. -/
lemma terminated (h : SelfDelimiting enc) {t : σ} (ht : ∀ a, ∃ b w, enc a = b :: w ∧ b ≠ t) :
    SelfDelimiting fun l : List α => l.flatMap enc ++ [t] := by
  intro l m x y he
  simp only [List.append_assoc, List.singleton_append] at he
  induction l generalizing m with
  | nil =>
    cases m with
    | nil => simpa using he
    | cons b m =>
      obtain ⟨c, w, hb, hc⟩ := ht b
      simp only [List.flatMap_nil, List.flatMap_cons, hb, List.nil_append, List.cons_append,
        List.cons.injEq] at he
      exact (hc he.1.symm).elim
  | cons a l ih =>
    cases m with
    | nil =>
      obtain ⟨c, w, ha, hc⟩ := ht a
      simp only [List.flatMap_nil, List.flatMap_cons, ha, List.nil_append, List.cons_append,
        List.cons.injEq] at he
      exact (hc he.1).elim
    | cons b m =>
      simp only [List.flatMap_cons, List.append_assoc] at he
      obtain ⟨rfl, he'⟩ := h a b _ _ he
      obtain ⟨rfl, hxy⟩ := ih m he'
      exact ⟨rfl, hxy⟩

/-- A text is split where a symbol first occurs in one way only. -/
lemma split_at_first {t : σ} {v w x y : List σ} (hv : t ∉ v) (hw : t ∉ w)
    (h : v ++ t :: x = w ++ t :: y) : v = w ∧ x = y := by
  induction v generalizing w with
  | nil =>
    cases w with
    | nil => simpa using h
    | cons b w =>
      simp only [List.nil_append, List.cons_append, List.cons.injEq] at h
      exact (hw (h.1 ▸ List.mem_cons_self)).elim
  | cons a v ih =>
    cases w with
    | nil =>
      simp only [List.nil_append, List.cons_append, List.cons.injEq] at h
      exact (hv (h.1 ▸ List.mem_cons_self)).elim
    | cons b w =>
      simp only [List.cons_append, List.cons.injEq] at h
      have hh := ih (List.not_mem_of_not_mem_cons hv) (List.not_mem_of_not_mem_cons hw) h.2
      exact ⟨by rw [h.1, hh.1], hh.2⟩

end SelfDelimiting
end T3dmium
