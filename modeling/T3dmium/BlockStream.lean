import Mathlib

/-! Streams made of blocks of one width: what is taken off the front does not depend
on how many blocks there are behind it. -/
namespace T3dmium.BlockStream

variable {α : Type*}

/-- The first `n` blocks, one behind the other. -/
def blocks (block : ℕ → List α) : ℕ → List α
  | 0 => []
  | n + 1 => blocks block n ++ block n

/-- The first `length` units, out of no more blocks than it takes. -/
def stream (block : ℕ → List α) (width length : ℕ) : List α :=
  (blocks block ((length + width - 1) / width)).take length

variable {block : ℕ → List α} {width : ℕ}

lemma blocks_prefix (block : ℕ → List α) {m n : ℕ} (h : m ≤ n) :
    blocks block m <+: blocks block n := by
  induction n with
  | zero =>
    obtain rfl := Nat.le_zero.mp h
    exact List.prefix_rfl
  | succ n ih =>
    rcases Nat.le_succ_iff.mp h with h | rfl
    · exact (ih h).trans (List.prefix_append _ _)
    · exact List.prefix_rfl

lemma le_blocks (hpos : 0 < width) (length : ℕ) : length ≤ (length + width - 1) / width * width := by
  have hdiv := Nat.div_add_mod (length + width - 1) width
  have hmod := Nat.mod_lt (length + width - 1) hpos
  rw [Nat.mul_comm] at hdiv
  omega

section
variable (hwidth : ∀ n, (block n).length = width)
include hwidth

lemma blocks_length (n : ℕ) : (blocks block n).length = n * width := by
  induction n with
  | zero => simp [blocks]
  | succ n ih => rw [blocks, List.length_append, ih, hwidth, Nat.succ_mul]

/-- A unit stands in the block its position falls into. -/
lemma getElem?_blocks {i n : ℕ} (hi : i < n * width) :
    (blocks block n)[i]? = (block (i / width))[i % width]? := by
  induction n with
  | zero => simp at hi
  | succ n ih =>
    have hlength := blocks_length hwidth n
    rcases Nat.lt_or_ge i (n * width) with hlt | hge
    · rw [blocks, List.getElem?_append_left (by omega), ih hlt]
    · have hlast : i < (n + 1) * width := hi
      have hdiv : i / width = n := Nat.div_eq_of_lt_le hge hlast
      have hmod : i % width = i - n * width := by
        rw [Nat.mod_eq_sub_div_mul, hdiv]
      rw [blocks, List.getElem?_append_right (by omega), hlength, hdiv, hmod]

/-- However many blocks there are, as long as they are enough. -/
lemma take_blocks (hpos : 0 < width) {n length : ℕ} (h : length ≤ n * width) :
    (blocks block n).take length = stream block width length := by
  have henough := le_blocks hpos length
  rw [← blocks_length hwidth] at h henough
  rw [stream]
  rcases Nat.le_total n ((length + width - 1) / width) with hle | hle
  · obtain ⟨rest, hrest⟩ := blocks_prefix block hle
    rw [← hrest, List.take_append_of_le_length h]
  · obtain ⟨rest, hrest⟩ := blocks_prefix block hle
    rw [← hrest, List.take_append_of_le_length henough]

lemma getElem?_stream (hpos : 0 < width) {i length : ℕ} (hi : i < length) :
    (stream block width length)[i]? = (block (i / width))[i % width]? := by
  have henough := le_blocks hpos length
  rw [stream, List.getElem?_take_of_lt hi, getElem?_blocks hwidth (by omega)]

/-- A shorter stream is the front of a longer one. -/
lemma stream_prefix (hpos : 0 < width) {m n : ℕ} (h : m ≤ n) :
    stream block width m <+: stream block width n := by
  have henough := le_blocks hpos n
  rw [← take_blocks hwidth hpos (h.trans henough), stream]
  exact List.take_prefix_take_left h

end
end T3dmium.BlockStream
