import Mathlib

/-! Symbolic cryptography: messages are strings of bytes, secret names and terms of
hash, MAC and encoding operations. An adversary takes strings apart, joins them and
applies the operations; it inverts none but the encoding. -/
namespace T3dmium.Symbolic

inductive Atom (ν : Type*)
  | byte (b : UInt8)
  | name (n : ν)
  | hash (m : List (Atom ν))
  | mac (k m : List (Atom ν))
  | encoded (m : List (Atom ν))

abbrev Msg (ν : Type*) := List (Atom ν)

section
variable {ν : Type*}

/-- What an adversary can build who knows `known`. -/
inductive Derives (known : Set (Msg ν)) : Msg ν → Prop
  | known {m} : m ∈ known → Derives known m
  | nil : Derives known []
  | byte (b) : Derives known [.byte b]
  | append {m m'} : Derives known m → Derives known m' → Derives known (m ++ m')
  | left {m m'} : Derives known (m ++ m') → Derives known m
  | right {m m'} : Derives known (m ++ m') → Derives known m'
  | hash {m} : Derives known m → Derives known [.hash m]
  | mac {k m} : Derives known k → Derives known m → Derives known [.mac k m]
  | encode {m} : Derives known m → Derives known [.encoded m]
  | decode {m} : Derives known [.encoded m] → Derives known m

/-- The name can be read off the message: it occurs outside hashes and MACs. -/
inductive Exposes (n : ν) : Msg ν → Prop
  | name {m} : .name n ∈ m → Exposes n m
  | encoded {m m'} : .encoded m' ∈ m → Exposes n m' → Exposes n m

def bytes (bs : List UInt8) : Msg ν := bs.map .byte

lemma exposes_append {n : ν} {m m' : Msg ν} :
    Exposes n (m ++ m') ↔ Exposes n m ∨ Exposes n m' := by
  constructor
  · intro h
    cases h with
    | name h =>
      rcases List.mem_append.mp h with h | h
      · exact Or.inl (.name h)
      · exact Or.inr (.name h)
    | encoded h he =>
      rcases List.mem_append.mp h with h | h
      · exact Or.inl (.encoded h he)
      · exact Or.inr (.encoded h he)
  · intro h
    cases h with
    | inl h =>
      cases h with
      | name h => exact .name (List.mem_append_left _ h)
      | encoded h he => exact .encoded (List.mem_append_left _ h) he
    | inr h =>
      cases h with
      | name h => exact .name (List.mem_append_right _ h)
      | encoded h he => exact .encoded (List.mem_append_right _ h) he

@[simp] lemma not_exposes_nil (n : ν) : ¬ Exposes n [] := by
  intro h
  cases h with
  | name h => cases h
  | encoded h => cases h

@[simp] lemma exposes_name {n n' : ν} : Exposes n [.name n'] ↔ n = n' := by
  constructor
  · intro h
    cases h with
    | name h => simpa using h
    | encoded h => simp at h
  · intro h
    exact .name (by simp [h])

@[simp] lemma exposes_encoded {n : ν} {m : Msg ν} : Exposes n [.encoded m] ↔ Exposes n m := by
  constructor
  · intro h
    cases h with
    | name h => simp at h
    | encoded h he =>
      simp only [List.mem_singleton, Atom.encoded.injEq] at h
      rwa [← h]
  · intro h
    exact .encoded (List.mem_singleton_self _) h

lemma not_exposes_hash (n : ν) (m : Msg ν) : ¬ Exposes n [.hash m] := by
  intro h
  cases h with
  | name h => simp at h
  | encoded h => simp at h

lemma not_exposes_mac (n : ν) (k m : Msg ν) : ¬ Exposes n [.mac k m] := by
  intro h
  cases h with
  | name h => simp at h
  | encoded h => simp at h

lemma not_exposes_bytes (n : ν) (bs : List UInt8) : ¬ Exposes n (bytes bs) := by
  intro h
  cases h with
  | name h => simp [bytes] at h
  | encoded h => simp [bytes] at h

/-- A name that nothing known exposes stays unexposed in all that is built from it. -/
theorem Derives.not_exposes {known : Set (Msg ν)} {n : ν} (hk : ∀ m ∈ known, ¬ Exposes n m)
    {m : Msg ν} (h : Derives known m) : ¬ Exposes n m := by
  induction h with
  | known hm => exact hk _ hm
  | nil => exact not_exposes_nil n
  | byte b => exact not_exposes_bytes n [b]
  | append _ _ ih ih' =>
    rw [exposes_append]
    exact fun h => h.elim ih ih'
  | left _ ih => exact fun h => ih (exposes_append.mpr (Or.inl h))
  | right _ ih => exact fun h => ih (exposes_append.mpr (Or.inr h))
  | hash => exact not_exposes_hash n _
  | mac => exact not_exposes_mac n _ _
  | encode _ ih => rwa [exposes_encoded]
  | decode _ ih => rwa [exposes_encoded] at ih

lemma derives_bytes (known : Set (Msg ν)) (bs : List UInt8) : Derives known (bytes bs) := by
  induction bs with
  | nil => exact .nil
  | cons b bs ih => exact .append (.byte b) ih

/-- What the operations compute on byte strings. -/
structure Interpretation (ν : Type*) where
  name : ν → List UInt8
  hash : List UInt8 → List UInt8
  mac : List UInt8 → List UInt8 → List UInt8
  encode : List UInt8 → List UInt8

namespace Interpretation
variable (I : Interpretation ν)

mutual

def atom : Atom ν → List UInt8
  | .byte b => [b]
  | .name n => I.name n
  | .hash m => I.hash (eval m)
  | .mac k m => I.mac (eval k) (eval m)
  | .encoded m => I.encode (eval m)

/-- The byte string a message stands for. -/
def eval : Msg ν → List UInt8
  | [] => []
  | a :: m => atom a ++ eval m

end

@[simp] lemma eval_nil : I.eval [] = [] := by rw [eval]

@[simp] lemma eval_cons (a : Atom ν) (m : Msg ν) : I.eval (a :: m) = I.atom a ++ I.eval m := by
  rw [eval]

@[simp] lemma eval_append (m m' : Msg ν) : I.eval (m ++ m') = I.eval m ++ I.eval m' := by
  induction m with
  | nil => simp
  | cons a m ih => simp [ih]

@[simp] lemma atom_byte (b : UInt8) : I.atom (.byte b) = [b] := by rw [atom]

@[simp] lemma atom_name (n : ν) : I.atom (.name n) = I.name n := by rw [atom]

@[simp] lemma atom_hash (m : Msg ν) : I.atom (.hash m) = I.hash (I.eval m) := by rw [atom]

@[simp] lemma atom_mac (k m : Msg ν) : I.atom (.mac k m) = I.mac (I.eval k) (I.eval m) := by
  rw [atom]

@[simp] lemma atom_encoded (m : Msg ν) : I.atom (.encoded m) = I.encode (I.eval m) := by rw [atom]

@[simp] lemma eval_bytes (bs : List UInt8) : I.eval (bytes bs) = bs := by
  induction bs with
  | nil => simp [bytes]
  | cons b bs ih => simpa [bytes] using ih

end Interpretation
end
end T3dmium.Symbolic
