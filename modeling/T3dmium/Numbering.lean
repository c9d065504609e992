import T3dmium.ChangeFeed
import T3dmium.ServerSteps

/-! Sequence numbers: every group has its own counter, no stored row is numbered
beyond it, and every write is numbered above all earlier ones of its group. -/
namespace T3dmium

/-- The counter of a group; an unregistered one has issued no number. -/
def counter (g : String) (t : Tables) : ℕ := (selectSeq g t).getD 0

/-- The records of a group as a feed. -/
def groupFeed (g : String) (t : Tables) : Feed (String × String) RecordRow :=
  ⟨fun k => t.records.find ⟨g, k.1, k.2⟩, counter g t⟩

structure WellNumbered (t : Tables) : Prop where
  /-- a registered group has a counter -/
  counted : ∀ g row, t.groups.find g = some row → (selectSeq g t).isSome
  bounded : ∀ g, (groupFeed g t).Bounded RecordRow.seq

section
variable {std : Stdlib}

@[simp] lemma selectSeq_putRecord (g : String) (row : RecordRow) (t : Tables) :
    selectSeq g (putRecord row t) = selectSeq g t := rfl

lemma selectSeq_updateSeq (g g' : String) (n : ℕ) (t : Tables) :
    selectSeq g' (updateSeq g n t) =
      if g' = g then (selectSeq g' t).map fun _ => n else selectSeq g' t := by
  simp only [selectSeq, updateSeq, KeyedTable.find_modify]
  split_ifs
  · rw [Option.map_map, Option.map_map]
    rfl
  · rfl

@[simp] lemma find_putRecord (row : RecordRow) (t : Tables) (slot : Slot) :
    (putRecord row t).records.find slot =
      if row.slot = slot then some row else t.records.find slot := by
  simp [putRecord, RecordRow.key]

/-- A batch lets a slot be, or an accepted record for it has beaten what it held. -/
lemma batch_slot {g : String} {records : List Json} {p p' : Tables × PushResult}
    (h : records.foldlM (pushRecord std g) p = .ok p') (slot : Slot) :
    p'.1.records.find slot = p.1.records.find slot ∨ slot.groupId = g ∧ ∃ a ∈ p'.2.accepted,
      (bindText std.realText a.collection = .ok (some slot.collection) ∧
        bindText std.realText a.recordId = .ok (some slot.recordId)) ∧
      ∀ old, p.1.records.find slot = some old → old.version < a.version := by
  have hslot : p'.1.records.find slot = p.1.records.find slot ∨ slot.groupId = g ∧
      ∃ row a, p'.1.records.find slot = some row ∧ a ∈ p'.2.accepted ∧ a.version = row.version ∧
        (bindText std.realText a.collection = .ok (some slot.collection) ∧
          bindText std.realText a.recordId = .ok (some slot.recordId)) ∧
        ∀ old, p.1.records.find slot = some old → old.version < a.version := by
    refine batch_induction (fun q => q.1.records.find slot = p.1.records.find slot ∨
      slot.groupId = g ∧ ∃ row a, q.1.records.find slot = some row ∧ a ∈ q.2.accepted ∧
        a.version = row.version ∧ (bindText std.realText a.collection = .ok (some slot.collection) ∧
          bindText std.realText a.recordId = .ok (some slot.recordId)) ∧
        ∀ old, p.1.records.find slot = some old → old.version < a.version) ?_ h (.inl rfl)
    intro r _ q v hv hq
    cases hv with
    | conflict => exact hq
    | @accept k row hk hr hg hseq hold =>
      have hversion := hr.key_version hk
      simp only [Verdict.apply, PushResult.accept, find_putRecord]
      by_cases hs : row.slot = slot
      · subst hs
        refine .inr ⟨hg, row, _, if_pos rfl, List.mem_append_right _ List.mem_cons_self, hversion,
          hr.names hk, fun old hold' => ?_⟩
        rw [hversion]
        rcases hq with hsame | ⟨-, row', a, hrow', -, ha, -, hbeats⟩
        · exact hold old (hsame.trans hold')
        · exact (hbeats old hold').trans (ha ▸ hold row' hrow')
      · rw [if_neg hs]
        refine hq.imp_right ?_
        rintro ⟨hg, row', a, hrow', ha, hrest⟩
        exact ⟨hg, row', a, hrow', List.mem_append_left _ ha, hrest⟩
  refine hslot.imp_right ?_
  rintro ⟨hg, -, a, -, ha, -, hnames, hbeats⟩
  exact ⟨hg, a, ha, hnames, hbeats⟩

/-- Inside a batch for `g` only rows of `g` change, and they take the numbers from
the counter's on. -/
structure BatchSoFar (g : String) (t : Tables) (p : Tables × PushResult) : Prop where
  groups : p.1.groups = t.groups
  counters : p.1.seqCounter = t.seqCounter
  counter_le : counter g t ≤ p.2.serverSeq
  fresh : ∀ slot, p.1.records.find slot = t.records.find slot ∨
    ∃ row, p.1.records.find slot = some row ∧ slot.groupId = g ∧ counter g t < row.seq ∧
      row.seq ≤ p.2.serverSeq

lemma BatchSoFar.start (g : String) (t : Tables) : BatchSoFar g t (t, startResult g t) :=
  ⟨rfl, rfl, le_refl _, fun _ => Or.inl rfl⟩

lemma BatchSoFar.step {g : String} {t : Tables} {r : Json} {p : Tables × PushResult} {v : Verdict}
    (hv : Decides std g r p v) (h : BatchSoFar g t p) : BatchSoFar g t (v.apply p) := by
  cases hv with
  | conflict => exact ⟨h.groups, h.counters, h.counter_le, h.fresh⟩
  | @accept k row hk hr hg hseq hold =>
    have hle := h.counter_le
    refine ⟨h.groups, h.counters, hle.trans (Nat.le_succ _), fun slot => ?_⟩
    simp only [Verdict.apply, find_putRecord, PushResult.accept]
    split_ifs with he
    · subst he
      exact Or.inr ⟨row, rfl, hg, by omega, by omega⟩
    · refine (h.fresh slot).imp_right ?_
      rintro ⟨row', hrow, hg', hlt, hle'⟩
      exact ⟨row', hrow, hg', hlt, hle'.trans (Nat.le_succ _)⟩

lemma pushBatch_soFar {g : String} {records : List Json} {t : Tables} {p : Tables × PushResult}
    (h : pushBatch std g records t = .ok p) :
    ∃ t1, BatchSoFar g t (t1, p.2) ∧ p.1 = updateSeq g p.2.serverSeq t1 := by
  obtain ⟨t', s⟩ := p
  obtain ⟨t1, hfold, rfl⟩ := pushBatch_eq_ok.mp h
  refine ⟨t1, ?_, rfl⟩
  exact batch_induction (BatchSoFar g t) (fun _ _ _ _ hv hq => hq.step hv) hfold (.start g t)

/-- A push to a group with a counter moves its feed on, and no other group's. -/
theorem pushBatch_advances {g : String} {records : List Json} {t : Tables}
    {p : Tables × PushResult} (hg : (selectSeq g t).isSome)
    (h : pushBatch std g records t = .ok p) (g' : String) :
    (groupFeed g' t).Advances RecordRow.seq (groupFeed g' p.1) := by
  obtain ⟨t1, hb, ht1⟩ := pushBatch_soFar h
  obtain ⟨t', s⟩ := p
  obtain rfl : t' = updateSeq g s.serverSeq t1 := ht1
  have hsel : ∀ g'', selectSeq g'' t1 = selectSeq g'' t := fun g'' => by
    rw [selectSeq, hb.counters, selectSeq]
  have hcount : counter g' (updateSeq g s.serverSeq t1) =
      if g' = g then s.serverSeq else counter g' t := by
    simp only [counter, selectSeq_updateSeq, hsel]
    split_ifs with he
    · subst he
      obtain ⟨n, hn⟩ := Option.isSome_iff_exists.mp hg
      simp [hn]
    · rfl
  constructor
  · change counter g' t ≤ counter g' (updateSeq g s.serverSeq t1)
    rw [hcount]
    split_ifs with he
    · subst he
      exact hb.counter_le
    · exact le_refl _
  · intro k
    refine (hb.fresh ⟨g', k.1, k.2⟩).imp_right fun ⟨row, hrow, hgr, hlt, hle⟩ => ?_
    obtain rfl : g' = g := hgr
    refine ⟨row, hrow, hlt, ?_⟩
    change row.seq ≤ counter g' (updateSeq g' s.serverSeq t1)
    rw [hcount, if_pos rfl]
    exact hle

lemma registerGroup_feed {g a s : Json} {t t' : Tables} (h : registerGroup std g a s t = .ok t')
    (g' : String) : groupFeed g' t' = groupFeed g' t := by
  obtain ⟨k, a', s', groups, -, -, -, -, rfl⟩ := registerGroup_eq_ok.mp h
  have hc : counter g' ⟨groups, t.records, t.seqCounter.insertOrIgnore ⟨k, 0⟩⟩ = counter g' t := by
    simp only [counter, selectSeq]
    by_cases hk : k = some g'
    · have hkey : CounterRow.groupId ⟨k, 0⟩ = some g' := hk
      rw [KeyedTable.find_insertOrIgnore_self hkey]
      cases t.seqCounter.find g' <;> rfl
    · have hkey : CounterRow.groupId ⟨k, 0⟩ ≠ some g' := hk
      rw [KeyedTable.find_insertOrIgnore hkey]
  simp only [groupFeed, hc]

lemma registerGroup_counted {g a s : Json} {t t' : Tables}
    (h : registerGroup std g a s t = .ok t') (ht : WellNumbered t) {g' : String} {row : GroupRow}
    (hrow : t'.groups.find g' = some row) : (selectSeq g' t').isSome := by
  obtain ⟨k, a', s', groups, -, -, -, hins, rfl⟩ := registerGroup_eq_ok.mp h
  simp only [selectSeq, Option.isSome_map]
  by_cases hk : k = some g'
  · have hkey : CounterRow.groupId ⟨k, 0⟩ = some g' := hk
    rw [KeyedTable.find_insertOrIgnore_self hkey]
    rfl
  · have hkey : CounterRow.groupId ⟨k, 0⟩ ≠ some g' := hk
    rw [KeyedTable.find_insertOrIgnore hkey]
    rw [KeyedTable.find_insert hins, if_neg hk] at hrow
    simpa [selectSeq] using ht.counted g' row hrow

/-- Each request keeps the numbering and moves every group's feed on. -/
theorem handle_advances (std : Stdlib) {c : Conn Tables} (hc : c.Settled)
    (ht : WellNumbered c.tables) (req : Request) :
    WellNumbered (handle std req c).2.tables ∧ ∀ g,
      (groupFeed g c.tables).Advances RecordRow.seq (groupFeed g (handle std req c).2.tables) := by
  obtain ⟨-, h | ⟨op, hr, -, hstep⟩⟩ := handle_tableStep std hc req
  · rw [h]
    exact ⟨ht, fun g => .refl _⟩
  · generalize (handle std req c).2.tables = t' at hstep ⊢
    have hroute := route_store hr
    generalize hct : c.tables = t at ht hstep ⊢
    cases hstep with
    | same => exact ⟨ht, fun g => .refl _⟩
    | @register g a s _ _ hfree hreg =>
      refine ⟨⟨fun g' row hrow => registerGroup_counted hreg ht hrow, fun g' => ?_⟩, fun g' => ?_⟩
      · rw [registerGroup_feed hreg]
        exact ht.bounded g'
      · rw [registerGroup_feed hreg]
        exact .refl _
    | @push g records _ p hp =>
      -- a push reaches the store for a registered group only, which has a counter
      have hg : (selectSeq g t).isSome := by
        cases hroute with
        | push _ ha _ _ _ =>
          obtain ⟨-, -, row, hrow, -⟩ := authed_eq_some.mp ha
          exact ht.counted g row (hct ▸ hrow)
      have hadv := pushBatch_advances hg hp
      refine ⟨⟨fun g' row hrow => ?_, fun g' => (hadv g').bounded (ht.bounded g')⟩, hadv⟩
      rw [pushBatch_groups hp] at hrow
      obtain ⟨t1, hb, ht1⟩ := pushBatch_soFar hp
      rw [ht1, selectSeq_updateSeq, selectSeq, hb.counters, ← selectSeq]
      have hold := ht.counted g' row hrow
      split_ifs <;> simpa using hold

lemma wellNumbered_empty : WellNumbered Tables.empty where
  counted _ _ h := by cases h
  bounded _ _ _ h := by cases h

end
end T3dmium
