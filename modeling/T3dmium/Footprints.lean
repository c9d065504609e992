import Mathlib

/-! Steps on a map that read and write some of its keys only. Steps on other keys do not
disturb them: they can be left out, or be run before or after. -/
namespace T3dmium

section
variable {κ β ρ ι : Type*}

/-- The step reads and writes the keys in `S` alone. -/
structure Within (S : Set κ) (f : (κ → β) → ρ × (κ → β)) : Prop where
  frame : ∀ m, ∀ k ∉ S, (f m).2 k = m k
  reads : ∀ m m', (∀ k ∈ S, m k = m' k) → (f m).1 = (f m').1 ∧ ∀ k ∈ S, (f m).2 k = (f m').2 k

lemma Within.mono {S T : Set κ} {f : (κ → β) → ρ × (κ → β)} (h : Within S f) (hsub : S ⊆ T) :
    Within T f := by
  refine ⟨fun m k hk => h.frame m k fun hS => hk (hsub hS), fun m m' hm => ?_⟩
  obtain ⟨hresult, hkeys⟩ := h.reads m m' fun k hk => hm k (hsub hk)
  refine ⟨hresult, fun k hk => ?_⟩
  by_cases hS : k ∈ S
  · exact hkeys k hS
  · rw [h.frame m k hS, h.frame m' k hS, hm k hk]

lemma Within.agree_of_disjoint {S K : Set κ} {f : (κ → β) → ρ × (κ → β)} (h : Within S f)
    (hdisjoint : Disjoint K S) (m : κ → β) : ∀ k ∈ K, (f m).2 k = m k :=
  fun k hk => h.frame m k (Set.disjoint_left.mp hdisjoint hk)

/-- The step writes the keys in `writes` alone, and its result is read off those in `reads`. -/
structure Confined (reads writes : Set κ) (f : (κ → β) → ρ × (κ → β)) : Prop where
  frame : ∀ m, ∀ k ∉ writes, (f m).2 k = m k
  result : ∀ m m', (∀ k ∈ reads, m k = m' k) → (f m).1 = (f m').1

lemma Within.confined {S : Set κ} {f : (κ → β) → ρ × (κ → β)} (h : Within S f) : Confined S S f :=
  ⟨h.frame, fun m m' hm => (h.reads m m' hm).1⟩

open Classical in
/-- A step with these footprints that can be told apart at one key: it spoils the key where it may
write it, and fails where it may read it and finds it spoilt. -/
noncomputable def probe (reads writes : Set κ) (k : κ) (fresh spoilt : β) (m : κ → β) : Bool × (κ → β) :=
  (decide (k ∈ reads → m k = fresh), if k ∈ writes then Function.update m k spoilt else m)

lemma probe_confined (reads writes : Set κ) (k : κ) (fresh spoilt : β) :
    Confined reads writes (probe reads writes k fresh spoilt) := by
  constructor
  · intro m k' hk'
    simp only [probe]
    split_ifs with hk
    · have hne : k' ≠ k := by
        rintro rfl
        exact hk' hk
      simp [hne]
    · rfl
  · intro m m' hm
    refine decide_eq_decide.mpr (forall_congr' fun hk => ?_)
    rw [hm k hk]

lemma probe_spoils {reads writes : Set κ} {k : κ} {fresh spoilt : β} {m : κ → β}
    (h : k ∈ writes ∨ m k = spoilt) : (probe reads writes k fresh spoilt m).2 k = spoilt := by
  simp only [probe]
  split_ifs with hk
  · simp
  · exact h.resolve_left hk

lemma probe_fst {reads writes : Set κ} {k : κ} (hk : k ∈ reads) {fresh spoilt : β} (m : κ → β) :
    (probe reads writes k fresh spoilt m).1 = true ↔ m k = fresh := by
  simp [probe, hk]

/-- A step gives the same result after one on other keys. -/
lemma Within.result_after {S T : Set κ} {f g : (κ → β) → ρ × (κ → β)} (hf : Within S f)
    (hg : Within T g) (hdisjoint : Disjoint S T) (m : κ → β) : (f (g m).2).1 = (f m).1 :=
  (hf.reads _ _ (hg.agree_of_disjoint hdisjoint m)).1

lemma Within.commute {S T : Set κ} {f g : (κ → β) → ρ × (κ → β)} (hf : Within S f)
    (hg : Within T g) (hdisjoint : Disjoint S T) (m : κ → β) : (g (f m).2).2 = (f (g m).2).2 := by
  funext k
  by_cases hS : k ∈ S
  · rw [hg.frame _ k (Set.disjoint_left.mp hdisjoint hS)]
    exact ((hf.reads _ _ (hg.agree_of_disjoint hdisjoint m)).2 k hS).symm
  · rw [hf.frame _ k hS]
    by_cases hT : k ∈ T
    · exact (hg.reads _ _ (hf.agree_of_disjoint hdisjoint.symm m)).2 k hT
    · rw [hg.frame _ k hT, hg.frame _ k hT, hf.frame _ k hS]

/-! Runs -/

variable (step : ι → (κ → β) → ρ × (κ → β))

/-- The results of the steps, and the map after the last. -/
def runAll : List ι → (κ → β) → List (ι × ρ) × (κ → β)
  | [], m => ([], m)
  | i :: is, m => ((i, (step i m).1) :: (runAll is (step i m).2).1, (runAll is (step i m).2).2)

variable {step} {foot : ι → Set κ}

/-- Orders that differ in neighbours that may be exchanged. -/
inductive Reordered (apart : ι → ι → Prop) : List ι → List ι → Prop
  | refl (l : List ι) : Reordered apart l l
  | cons (i : ι) {l l' : List ι} (h : Reordered apart l l') : Reordered apart (i :: l) (i :: l')
  | swap {i j : ι} (l : List ι) (h : apart i j) : Reordered apart (i :: j :: l) (j :: i :: l)
  | trans {l l' l'' : List ι} (h : Reordered apart l l') (h' : Reordered apart l' l'') :
      Reordered apart l l''

/-- Steps on different keys give the same results and the same map in either order. -/
theorem Reordered.runAll {l l' : List ι} (hstep : ∀ i, Within (foot i) (step i))
    (h : Reordered (fun i j => Disjoint (foot i) (foot j)) l l') (m : κ → β) :
    (T3dmium.runAll step l m).1.Perm (T3dmium.runAll step l' m).1 ∧
      (T3dmium.runAll step l m).2 = (T3dmium.runAll step l' m).2 := by
  induction h generalizing m with
  | refl l => exact ⟨.refl _, rfl⟩
  | cons i _ ih => exact ⟨(ih _).1.cons _, (ih _).2⟩
  | @swap i j l hdisjoint =>
    have hcommute := (hstep i).commute (hstep j) hdisjoint m
    have hi := (hstep i).result_after (hstep j) hdisjoint m
    have hj := (hstep j).result_after (hstep i) hdisjoint.symm m
    simp only [T3dmium.runAll, hcommute, hi, hj]
    exact ⟨.swap _ _ _, trivial⟩
  | trans _ _ ih ih' => exact ⟨(ih m).1.trans (ih' m).1, (ih m).2.trans (ih' m).2⟩

end
end T3dmium
