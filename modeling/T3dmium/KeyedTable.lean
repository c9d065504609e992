import Mathlib

/-! Tables with a primary key. As in SQL a row may carry no key at all, and such
a row collides with no other and is found by no lookup. -/
namespace T3dmium

def UniqueKeys {κ : Type*} (keys : List (Option κ)) : Prop :=
  keys.Pairwise fun a b => a = none ∨ a ≠ b

structure KeyedTable (ρ κ : Type*) (key : ρ → Option κ) where
  rows : List ρ
  unique : UniqueKeys (rows.map key)

namespace KeyedTable
variable {ρ κ : Type*} {key : ρ → Option κ}

@[ext] lemma ext {s t : KeyedTable ρ κ key} (h : s.rows = t.rows) : s = t := by
  cases s
  cases t
  congr

def empty : KeyedTable ρ κ key := ⟨[], List.Pairwise.nil⟩

lemma rows_inj {t : KeyedTable ρ κ key} {a b : ρ} {k : κ} (ha : a ∈ t.rows) (hb : b ∈ t.rows)
    (hka : key a = some k) (hkb : key b = some k) : a = b := by
  obtain ⟨rows, hu⟩ := t
  induction rows with
  | nil => simp at ha
  | cons x xs ih =>
    simp only [UniqueKeys, List.map_cons, List.pairwise_cons] at hu
    have hx : ∀ y ∈ xs, key x = some k → key y = some k → False := by
      intro y hy hkx hky
      have hh := hu.1 (key y) (List.mem_map_of_mem hy)
      rw [hkx, hky] at hh
      simp at hh
    rcases List.mem_cons.mp ha with hax | hax
    · rcases List.mem_cons.mp hb with hbx | hbx
      · exact hax.trans hbx.symm
      · exact (hx b hbx (hax ▸ hka) hkb).elim
    · rcases List.mem_cons.mp hb with hbx | hbx
      · exact (hx a hax (hbx ▸ hkb) hka).elim
      · exact ih hu.2 hax hbx

variable [DecidableEq κ]

def find (t : KeyedTable ρ κ key) (k : κ) : Option ρ :=
  t.rows.find? fun r => decide (key r = some k)

lemma find_eq_some {t : KeyedTable ρ κ key} {k : κ} {r : ρ} :
    t.find k = some r ↔ r ∈ t.rows ∧ key r = some k := by
  constructor
  · intro h
    exact ⟨List.mem_of_find?_eq_some h, by simpa using List.find?_some h⟩
  · rintro ⟨hr, hk⟩
    cases h : t.find k with
    | none =>
      have hh := List.find?_eq_none.mp h r hr
      simp [hk] at hh
    | some r' =>
      have hm := List.mem_of_find?_eq_some h
      have hk' : key r' = some k := by simpa using List.find?_some h
      rw [rows_inj hm hr hk' hk]

lemma find_eq_none {t : KeyedTable ρ κ key} {k : κ} :
    t.find k = none ↔ ∀ r ∈ t.rows, key r ≠ some k := by
  simp [find]

@[simp] lemma find_empty (k : κ) : (empty : KeyedTable ρ κ key).find k = none := rfl

/-- Lookups determine membership of keyed rows, so tables that answer every
lookup alike hold the same rows. -/
lemma mem_rows_iff {t : KeyedTable ρ κ key} {r : ρ} {k : κ} (hk : key r = some k) :
    r ∈ t.rows ↔ t.find k = some r := by
  simp [find_eq_some, hk]

/-! `INSERT` -/

/-- Appends a row, or `none` when the key is taken. -/
def insert (t : KeyedTable ρ κ key) (r : ρ) : Option (KeyedTable ρ κ key) :=
  if h : ∀ x ∈ t.rows, key x = none ∨ key x ≠ key r then
    some ⟨t.rows ++ [r], by
      simp only [UniqueKeys, List.map_append, List.map_cons, List.map_nil]
      refine List.pairwise_append.mpr ⟨t.unique, List.pairwise_singleton _ _, ?_⟩
      intro a ha b hb
      obtain ⟨x, hx, rfl⟩ := List.mem_map.mp ha
      rw [List.mem_singleton.mp hb]
      exact h x hx⟩
  else none

def insertOrIgnore (t : KeyedTable ρ κ key) (r : ρ) : KeyedTable ρ κ key :=
  (t.insert r).getD t

lemma insert_rows {t t' : KeyedTable ρ κ key} {r : ρ} (h : t.insert r = some t') :
    t'.rows = t.rows ++ [r] := by
  unfold insert at h
  split_ifs at h
  cases h
  rfl

lemma insert_of_find_none {t : KeyedTable ρ κ key} {r : ρ} {k : κ} (hk : key r = some k)
    (hf : t.find k = none) : ∃ t', t.insert r = some t' := by
  have hn : ∀ x ∈ t.rows, key x = none ∨ key x ≠ key r := by
    intro x hx
    rw [hk]
    exact Or.inr (find_eq_none.mp hf x hx)
  exact ⟨_, dif_pos hn⟩

lemma insert_of_key_none (t : KeyedTable ρ κ key) {r : ρ} (hk : key r = none) :
    ∃ t', t.insert r = some t' := by
  have hn : ∀ x ∈ t.rows, key x = none ∨ key x ≠ key r := by
    intro x _
    cases hx : key x with
    | none => exact Or.inl rfl
    | some k => simp [hk]
  exact ⟨_, dif_pos hn⟩

lemma find_insert {t t' : KeyedTable ρ κ key} {r : ρ} (h : t.insert r = some t') (k : κ) :
    t'.find k = if key r = some k then some r else t.find k := by
  have hrows := insert_rows h
  split_ifs with hk
  · exact find_eq_some.mpr ⟨by simp [hrows], hk⟩
  · simp only [find, hrows, List.find?_append]
    simp [hk]

lemma find_insertOrIgnore {t : KeyedTable ρ κ key} {r : ρ} {k : κ} (hk : key r ≠ some k) :
    (t.insertOrIgnore r).find k = t.find k := by
  unfold insertOrIgnore
  cases h : t.insert r with
  | none => rfl
  | some t' => simp [find_insert h, hk]

lemma find_insertOrIgnore_self {t : KeyedTable ρ κ key} {r : ρ} {k : κ} (hk : key r = some k) :
    (t.insertOrIgnore r).find k = some ((t.find k).getD r) := by
  unfold insertOrIgnore
  cases hf : t.find k with
  | none =>
    obtain ⟨t', h⟩ := insert_of_find_none hk hf
    simp [h, find_insert h, hk]
  | some x =>
    have hx := find_eq_some.mp hf
    have hn : ¬ ∀ y ∈ t.rows, key y = none ∨ key y ≠ key r := by
      intro hall
      have hh := hall x hx.1
      rw [hx.2, hk] at hh
      simp at hh
    have hi : t.insert r = none := dif_neg hn
    simp [hi, hf]

/-! `INSERT … ON CONFLICT DO UPDATE` -/

/-- Overwrite the row with the same key where it stands, or append. -/
def upsertRows (key : ρ → Option κ) (r : ρ) : List ρ → List ρ
  | [] => [r]
  | x :: xs => if key r ≠ none ∧ key x = key r then r :: xs else x :: upsertRows key r xs

lemma mem_of_mem_upsertRows {r x : ρ} {xs : List ρ} (h : x ∈ upsertRows key r xs) : x = r ∨ x ∈ xs := by
  induction xs with
  | nil => exact Or.inl (List.mem_singleton.mp h)
  | cons y ys ih =>
    simp only [upsertRows] at h
    split_ifs at h
    · rcases List.mem_cons.mp h with rfl | h
      · exact Or.inl rfl
      · exact Or.inr (List.mem_cons_of_mem _ h)
    · rcases List.mem_cons.mp h with rfl | h
      · exact Or.inr List.mem_cons_self
      · rcases ih h with rfl | h
        · exact Or.inl rfl
        · exact Or.inr (List.mem_cons_of_mem _ h)

lemma map_key_upsertRows (r : ρ) (xs : List ρ) :
    (upsertRows key r xs).map key =
      if key r ≠ none ∧ key r ∈ xs.map key then xs.map key else xs.map key ++ [key r] := by
  induction xs with
  | nil => simp [upsertRows]
  | cons x xs ih =>
    simp only [upsertRows]
    by_cases hx : key r ≠ none ∧ key x = key r
    · simp [hx.1, hx.2]
    · rw [if_neg hx, List.map_cons, ih]
      by_cases hn : key r ≠ none
      · have hne : ¬ key r = key x := fun he => hx ⟨hn, he.symm⟩
        by_cases hm : key r ∈ xs.map key <;> simp [hn, hne, hm]
      · simp [hn]

def upsert (t : KeyedTable ρ κ key) (r : ρ) : KeyedTable ρ κ key where
  rows := upsertRows key r t.rows
  unique := by
    rw [map_key_upsertRows]
    split_ifs with h
    · exact t.unique
    · refine List.pairwise_append.mpr ⟨t.unique, List.pairwise_singleton _ _, ?_⟩
      intro a ha b hb
      rw [List.mem_singleton.mp hb]
      by_cases hn : key r = none
      · cases a <;> simp [hn]
      · exact Or.inr fun he => h ⟨hn, he ▸ ha⟩

lemma find?_upsertRows (r : ρ) (xs : List ρ) (k : κ) :
    (upsertRows key r xs).find? (fun x => decide (key x = some k)) =
      if key r = some k then some r else xs.find? fun x => decide (key x = some k) := by
  induction xs with
  | nil => simp [upsertRows]
  | cons x xs ih =>
    simp only [upsertRows]
    by_cases hx : key r ≠ none ∧ key x = key r
    · rw [if_pos hx]
      by_cases hk : key r = some k
      · simp [hk]
      · simp [hk, hx.2]
    · rw [if_neg hx, List.find?_cons, ih]
      by_cases hk : key r = some k
      · have hxk : ¬ key x = some k := fun he => hx ⟨by simp [hk], by rw [he, hk]⟩
        simp [hk, hxk]
      · by_cases hxk : key x = some k <;> simp [hk, hxk]

@[simp] lemma find_upsert (t : KeyedTable ρ κ key) (r : ρ) (k : κ) :
    (t.upsert r).find k = if key r = some k then some r else t.find k :=
  find?_upsertRows r t.rows k

/-- Rows selected by their key keep their order under an upsert of such a row. -/
lemma filter_upsertRows_pos {p : ρ → Bool} {r : ρ} (hr : p r = true)
    (hp : ∀ x, key r ≠ none → key x = key r → p x = true) (xs : List ρ) :
    (upsertRows key r xs).filter p = upsertRows key r (xs.filter p) := by
  induction xs with
  | nil => simp [upsertRows, hr]
  | cons x xs ih =>
    simp only [upsertRows]
    by_cases hx : key r ≠ none ∧ key x = key r
    · have hpx := hp x hx.1 hx.2
      simp [upsertRows, hx.1, hx.2, hr, hpx]
    · by_cases hpx : p x = true
      · rw [if_neg hx, List.filter_cons_of_pos hpx, List.filter_cons_of_pos hpx, ih]
        simp only [upsertRows]
        rw [if_neg hx]
      · rw [if_neg hx, List.filter_cons_of_neg hpx, List.filter_cons_of_neg hpx, ih]

lemma filter_upsertRows_neg {p : ρ → Bool} {r : ρ} (hr : p r = false)
    (hp : ∀ x, key r ≠ none → key x = key r → p x = false) (xs : List ρ) :
    (upsertRows key r xs).filter p = xs.filter p := by
  induction xs with
  | nil => simp [upsertRows, hr]
  | cons x xs ih =>
    simp only [upsertRows]
    by_cases hx : key r ≠ none ∧ key x = key r
    · have hpx := hp x hx.1 hx.2
      simp [hx.1, hx.2, hr, hpx]
    · rw [if_neg hx, List.filter_cons, List.filter_cons, ih]

/-! `UPDATE … WHERE key = k` -/

def modify (t : KeyedTable ρ κ key) (k : κ) (f : ρ → ρ) (hf : ∀ r, key (f r) = key r) :
    KeyedTable ρ κ key where
  rows := t.rows.map fun r => if key r = some k then f r else r
  unique := by
    have he : (t.rows.map fun r => if key r = some k then f r else r).map key = t.rows.map key := by
      rw [List.map_map]
      refine List.map_congr_left fun r _ => ?_
      by_cases h : key r = some k <;> simp [h, hf]
    rw [he]
    exact t.unique

lemma find_modify (t : KeyedTable ρ κ key) (k j : κ) (f : ρ → ρ) (hf : ∀ r, key (f r) = key r) :
    (t.modify k f hf).find j = if j = k then (t.find j).map f else t.find j := by
  simp only [find, modify, List.find?_map]
  have hc : ((fun r => decide (key r = some j)) ∘ fun r => if key r = some k then f r else r) =
      fun r => decide (key r = some j) := by
    funext r
    by_cases h : key r = some k <;> simp [h, hf]
  rw [hc]
  cases hx : t.rows.find? fun r => decide (key r = some j) with
  | none => simp
  | some x =>
    have hk : key x = some j := by simpa using List.find?_some hx
    by_cases hj : j = k <;> simp [hk, hj]

lemma modify_modify (t : KeyedTable ρ κ key) (k : κ) {f f' : ρ → ρ} (hf : ∀ r, key (f r) = key r)
    (hf' : ∀ r, key (f' r) = key r) :
    (t.modify k f hf).modify k f' hf' =
      t.modify k (fun r => f' (f r)) fun r => (hf' (f r)).trans (hf r) := by
  ext1
  simp only [modify, List.map_map]
  refine List.map_congr_left fun r _ => ?_
  by_cases h : key r = some k <;> simp [h, hf]

end KeyedTable
end T3dmium
