import Mathlib

/-! A connection that carries one request after the other: each is a head, as much as the
peer takes of what stands behind it, and then the next head. -/
namespace T3dmium
variable {η β σ : Type*}

/-- Reads a head off a stream, and takes something of it. -/
structure HeadReader (η β : Type*) where
  read : List β → Option (η × List β)
  consumes : ∀ s head rest, read s = some (head, rest) → rest.length < s.length

/-- What a peer makes of a head with `rest` behind it: how much of `rest` it takes before the
next head is read, or `none` where the connection ends, and its new state. -/
abbrev Peer (η β σ : Type*) := η → List β → σ → Option ℕ × σ

namespace HeadReader
variable (r : HeadReader η β)

/-- The heads a peer acts on, each with the stream behind it, and the peer's final state. -/
def session (p : Peer η β σ) (s : List β) (c : σ) : List (η × List β) × σ :=
  match _h : r.read s with
  | none => ([], c)
  | some (head, rest) =>
    match p head rest c with
    | (none, c') => ([(head, rest)], c')
    | (some n, c') =>
      let later := session p (rest.drop n) c'
      ((head, rest) :: later.1, later.2)
termination_by s.length
decreasing_by
  have hlt := r.consumes s head rest (by assumption)
  rw [List.length_drop]
  omega

/-- Where in the stream, and in which state, a peer looks for a head. -/
inductive Looks (p : Peer η β σ) (s : List β) (c : σ) : List β → σ → Prop
  | start : Looks p s c s c
  | next {s' rest : List β} {c' c'' : σ} {head : η} {n : ℕ} (h : Looks p s c s' c')
      (hread : r.read s' = some (head, rest)) (hpeer : p head rest c' = (some n, c'')) :
      Looks p s c (rest.drop n) c''

variable {r}

lemma session_none {p : Peer η β σ} {s : List β} {c : σ} (h : r.read s = none) :
    r.session p s c = ([], c) := by
  rw [session]
  split
  · rfl
  · rename_i hsome
    rw [h] at hsome
    cases hsome

lemma session_last {p : Peer η β σ} {s rest : List β} {c c' : σ} {head : η}
    (h : r.read s = some (head, rest)) (hp : p head rest c = (none, c')) :
    r.session p s c = ([(head, rest)], c') := by
  rw [session]
  split
  · rename_i hnone
    rw [h] at hnone
    cases hnone
  · rename_i hsome
    rw [h] at hsome
    cases hsome
    rw [hp]

lemma session_next {p : Peer η β σ} {s rest : List β} {c c' : σ} {head : η} {n : ℕ}
    (h : r.read s = some (head, rest)) (hp : p head rest c = (some n, c')) :
    r.session p s c = ((head, rest) :: (r.session p (rest.drop n) c').1,
      (r.session p (rest.drop n) c').2) := by
  rw [session]
  split
  · rename_i hnone
    rw [h] at hnone
    cases hnone
  · rename_i hsome
    rw [h] at hsome
    cases hsome
    rw [hp]

lemma Looks.trans {p : Peer η β σ} {s s' s'' : List β} {c c' c'' : σ} (h : r.Looks p s c s' c')
    (h' : r.Looks p s' c' s'' c'') : r.Looks p s c s'' c'' := by
  induction h' with
  | start => exact h
  | next _ hread hpeer ih => exact .next ih hread hpeer

/-- A peer looks where it starts, and behind its first request. -/
lemma Looks.first {p : Peer η β σ} {s s' : List β} {c c' : σ} (h : r.Looks p s c s' c') :
    (s' = s ∧ c' = c) ∨ ∃ head rest n c'', r.read s = some (head, rest) ∧
      p head rest c = (some n, c'') ∧ r.Looks p (rest.drop n) c'' s' c' := by
  induction h with
  | start => exact .inl ⟨rfl, rfl⟩
  | next _ hread hpeer ih =>
    obtain ⟨rfl, rfl⟩ | ⟨head, rest, n, c'', hfirst, hnext, hlooks⟩ := ih
    · exact .inr ⟨_, _, _, _, hread, hpeer, .start⟩
    · exact .inr ⟨head, rest, n, c'', hfirst, hnext, hlooks.next hread hpeer⟩

/-- Peers that make the same of every head the first one comes to have the same session. -/
theorem session_congr {p q : Peer η β σ} {s : List β} {c : σ}
    (h : ∀ s' c' head rest, r.Looks p s c s' c' → r.read s' = some (head, rest) →
      p head rest c' = q head rest c') : r.session p s c = r.session q s c := by
  induction hn : s.length using Nat.strong_induction_on generalizing s c with
  | _ n ih =>
    subst hn
    cases hread : r.read s with
    | none => rw [session_none hread, session_none hread]
    | some pair =>
      obtain ⟨head, rest⟩ := pair
      have hstep := h s c head rest .start hread
      cases hp : p head rest c with
      | mk next c' =>
        have hq : q head rest c = (next, c') := hstep ▸ hp
        cases next with
        | none => rw [session_last hread hp, session_last hread hq]
        | some n =>
          have hlt : (rest.drop n).length < s.length := by
            have hshort := r.consumes s head rest hread
            rw [List.length_drop]
            omega
          have hrest := ih _ hlt (s := rest.drop n) (c := c')
            (fun s' c'' head' rest' hlooks => h s' c'' head' rest'
              ((Looks.next .start hread hp).trans hlooks)) rfl
          rw [session_next hread hp, session_next hread hq, hrest]

end HeadReader
end T3dmium
