import T3dmium.Convergence
import T3dmium.Numbering

/-! Whole batches: a push is all or nothing, its answer accounts for every record of
it, and a batch cut in pieces has the effect of the whole. -/
namespace T3dmium

/-- What a slot holds once the rows `written` are: the last row for it, else what the table held. -/
def holding (t : Tables) (written : List RecordRow) (slot : Slot) : Option RecordRow :=
  (written.reverse.find? fun row => decide (row.slot = slot)).or (t.records.find slot)

/-- The records of a batch in turn, when the rows `before` have been written: each has the next
entry of `accepted`, and then its row is the next of `written`, in place of a lower version or none;
or the next of `conflicts`, with the version of the row that its slot holds. -/
inductive SharedOut (std : Stdlib) (g : String) (t : Tables) : List RecordRow → List Json →
    List Accepted → List Conflict → List RecordRow → Prop
  | nil {before : List RecordRow} : SharedOut std g t before [] [] [] []
  | accepted {before written : List RecordRow} {r : Json} {records : List Json} {accepted : List Accepted}
      {conflicts : List Conflict} {k : RecordKey} {row : RecordRow} (hk : readKey std r = .ok k)
      (hr : row.ReadFrom std r) (hg : row.groupId = g) (hseq : row.seq = counter g t + before.length + 1)
      (hnewer : ∀ old, holding t before row.slot = some old → old.version < row.version)
      (hrest : SharedOut std g t (before ++ [row]) records accepted conflicts written) :
      SharedOut std g t before (r :: records) (⟨k.coll, k.rid, k.ver⟩ :: accepted) conflicts (row :: written)
  | conflict {before written : List RecordRow} {r : Json} {records : List Json} {accepted : List Accepted}
      {conflicts : List Conflict} {k : RecordKey} {old : RecordRow} (hk : readKey std r = .ok k)
      (hold : holding t before old.slot = some old) (hg : old.groupId = g) (hn : k.Names std old)
      (hv : k.ver ≤ old.version) (hrest : SharedOut std g t before records accepted conflicts written) :
      SharedOut std g t before (r :: records) accepted (⟨k.coll, k.rid, k.ver, old.version⟩ :: conflicts)
        written

/-- The slot holds `row` after the batch, and held something else before. -/
def Changed (t t' : Tables) (slot : Slot) (row : RecordRow) : Prop :=
  t'.records.find slot = some row ∧ t.records.find slot ≠ some row

/-- What an answered batch of `g` did to the tables. -/
structure Accounted (std : Stdlib) (g : String) (records : List Json) (t t' : Tables)
    (s : PushResult) : Prop where
  /-- the rows of the accepted records, and no others, are in the table -/
  shared : ∃ written, SharedOut std g t [] records s.accepted s.conflicts written ∧
    ∀ slot, t'.records.find slot = holding t written slot
  groups : t'.groups = t.groups
  grown : counter g t' = counter g t + s.accepted.length
  serverSeq : s.serverSeq = counter g t'
  kept : ∀ slot, t'.records.find slot = none → t.records.find slot = none
  numbered : ∀ slot row, Changed t t' slot row → counter g t < row.seq ∧ row.seq ≤ counter g t'
  distinct : ∀ slot slot' row row', Changed t t' slot row → Changed t t' slot' row' →
    row.seq = row'.seq → slot = slot'

/-- A call of `upsert_records` raises and leaves the connection as it was, or returns
with everything committed. -/
inductive BatchOutcome (std : Stdlib) (g : String) (records : List Json) (c : Conn Tables) :
    Except PyError PushResult × Conn Tables → Prop
  | raised (e : PyError) : BatchOutcome std g records c (.error e, c)
  | returned {t' : Tables} {s : PushResult} (h : Accounted std g records c.tables t' s) :
      BatchOutcome std g records c (.ok s, ⟨t', none⟩)

section
variable {std : Stdlib} {g : String}

lemma holding_concat (t : Tables) (written : List RecordRow) (row : RecordRow) (slot : Slot) :
    holding t (written ++ [row]) slot = if row.slot = slot then some row else holding t written slot := by
  rw [holding, List.reverse_append, List.reverse_singleton, List.singleton_append, List.find?_cons]
  split_ifs with h
  · rw [decide_eq_true h]
    rfl
  · rw [decide_eq_false h]
    rfl

/-- The loop shares the records out: it looks a slot up where `written` was put. -/
lemma batch_sharedOut {t : Tables} {records : List Json} {before : List RecordRow}
    {p p' : Tables × PushResult} (hholds : ∀ slot, p.1.records.find slot = holding t before slot)
    (hseq : p.2.serverSeq = counter g t + before.length)
    (h : records.foldlM (pushRecord std g) p = .ok p') :
    ∃ accepted conflicts written, SharedOut std g t before records accepted conflicts written ∧
      p'.2.accepted = p.2.accepted ++ accepted ∧ p'.2.conflicts = p.2.conflicts ++ conflicts ∧
      ∀ slot, p'.1.records.find slot = holding t (before ++ written) slot := by
  induction records generalizing p before with
  | nil =>
    cases h
    refine ⟨[], [], [], .nil, (List.append_nil _).symm, (List.append_nil _).symm, ?_⟩
    rwa [List.append_nil]
  | cons r records ih =>
    obtain ⟨q, hq, h⟩ := bind_eq_ok.mp h
    obtain ⟨v, hv, rfl⟩ := pushRecord_eq_ok.mp hq
    cases hv with
    | @conflict k old hk hmem hg hn hle =>
      obtain ⟨accepted, conflicts, written, hshared, ha, hc, hfinal⟩ :=
        ih (p := Verdict.apply p (.conflict k old.version)) hholds hseq h
      have hold : holding t before old.slot = some old := by
        rw [← hholds]
        exact KeyedTable.find_eq_some.mpr ⟨hmem, rfl⟩
      refine ⟨accepted, _, written, .conflict hk hold hg hn hle hshared, ha, ?_, hfinal⟩
      rw [hc]
      exact List.append_assoc _ _ _
    | @accept k row hk hr hg hnumber hlower =>
      have hholds' : ∀ slot, (putRecord row p.1).records.find slot = holding t (before ++ [row]) slot := by
        intro slot
        rw [find_putRecord, holding_concat, hholds]
      have hseq' : (p.2.accept k).serverSeq = counter g t + (before ++ [row]).length := by
        rw [List.length_append, ← Nat.add_assoc, ← hseq]
        rfl
      obtain ⟨accepted, conflicts, written, hshared, ha, hc, hfinal⟩ := ih hholds' hseq' h
      refine ⟨_, conflicts, row :: written, .accepted hk hr hg ?_ ?_ hshared, ?_, hc, ?_⟩
      · rw [hnumber, hseq]
      · intro old hold
        exact hlower old ((hholds row.slot).trans hold)
      · rw [ha]
        exact List.append_assoc _ _ _
      · intro slot
        rw [hfinal slot, List.append_assoc]
        rfl

/-- Inside a batch that has begun at `t`. -/
structure Accounting (g : String) (t : Tables) (p : Tables × PushResult) : Prop where
  soFar : BatchSoFar g t p
  length : p.2.serverSeq = counter g t + p.2.accepted.length
  kept : ∀ slot, p.1.records.find slot = none → t.records.find slot = none
  distinct : ∀ slot slot' row row', Changed t p.1 slot row → Changed t p.1 slot' row' →
    row.seq = row'.seq → slot = slot'

lemma Accounting.start (g : String) (t : Tables) : Accounting g t (t, startResult g t) :=
  ⟨.start g t, rfl, fun _ h => h, fun _ _ _ _ h _ _ => absurd h.1 h.2⟩

lemma BatchSoFar.changed {t : Tables} {p : Tables × PushResult} (h : BatchSoFar g t p) {slot : Slot}
    {row : RecordRow} (hc : Changed t p.1 slot row) :
    counter g t < row.seq ∧ row.seq ≤ p.2.serverSeq := by
  rcases h.fresh slot with heq | ⟨row', hrow, -, hlt, hle⟩
  · exact absurd (heq ▸ hc.1) hc.2
  · obtain rfl : row' = row := Option.some.inj (hrow.symm.trans hc.1)
    exact ⟨hlt, hle⟩

lemma Accounting.step {t : Tables} {r : Json} {p : Tables × PushResult} {v : Verdict}
    (hv : Decides std g r p v) (h : Accounting g t p) : Accounting g t (v.apply p) := by
  have hsoFar := h.soFar.step hv
  cases hv with
  | conflict => exact ⟨hsoFar, h.length, h.kept, h.distinct⟩
  | @accept k row hk hr hg hseq hold =>
    -- a row elsewhere in the batch has a lower number than the one just put
    have hother : ∀ slot row', slot ≠ row.slot → Changed t (putRecord row p.1) slot row' →
        Changed t p.1 slot row' ∧ row'.seq < row.seq := by
      intro slot row' hne hc
      have hc' : Changed t p.1 slot row' := by
        refine ⟨?_, hc.2⟩
        have hfind := hc.1
        rwa [find_putRecord, if_neg hne.symm] at hfind
      have hle := (h.soFar.changed hc').2
      exact ⟨hc', by omega⟩
    have hself : ∀ row', Changed t (putRecord row p.1) row.slot row' → row' = row := by
      intro row' hc
      have hfind := hc.1
      rw [find_putRecord, if_pos rfl] at hfind
      exact (Option.some.inj hfind).symm
    refine ⟨hsoFar, ?_, fun slot hnone => ?_, fun slot slot' a b ha hb hab => ?_⟩
    · have hlength := h.length
      simp only [Verdict.apply, PushResult.accept, List.length_append, List.length_singleton]
      omega
    · simp only [Verdict.apply, find_putRecord] at hnone
      split_ifs at hnone with he
      exact h.kept slot hnone
    · by_cases hs : slot = row.slot <;> by_cases hs' : slot' = row.slot
      · rw [hs, hs']
      · subst hs
        obtain rfl := hself a ha
        have hlt := (hother slot' b hs' hb).2
        omega
      · subst hs'
        obtain rfl := hself b hb
        have hlt := (hother slot a hs ha).2
        omega
      · exact h.distinct slot slot' a b (hother slot a hs ha).1 (hother slot' b hs' hb).1 hab

lemma counter_updateSeq {t : Tables} (hg : (selectSeq g t).isSome) (n : ℕ) :
    counter g (updateSeq g n t) = n := by
  obtain ⟨m, hm⟩ := Option.isSome_iff_exists.mp hg
  simp [counter, selectSeq_updateSeq, hm]

theorem pushBatch_accounted {records : List Json} {t t' : Tables} {s : PushResult}
    (hg : (selectSeq g t).isSome) (h : pushBatch std g records t = .ok (t', s)) :
    Accounted std g records t t' s := by
  obtain ⟨t1, hfold, rfl⟩ := pushBatch_eq_ok.mp h
  obtain ⟨accepted, conflicts, written, hshared, ha, hc, hholds⟩ :=
    @batch_sharedOut std g t records [] _ _ (fun _ => rfl) rfl hfold
  have hacc : Accounting g t (t1, s) :=
    batch_induction (Accounting g t) (fun _ _ _ _ hv hq => hq.step hv) hfold (.start g t)
  have hsel : (selectSeq g t1).isSome := by rwa [selectSeq, hacc.soFar.counters, ← selectSeq]
  have hcount : counter g (updateSeq g s.serverSeq t1) = s.serverSeq := counter_updateSeq hsel _
  exact {
    shared := by
      obtain rfl : s.accepted = accepted := ha
      obtain rfl : s.conflicts = conflicts := hc
      exact ⟨written, hshared, hholds⟩
    groups := hacc.soFar.groups
    grown := hcount.trans hacc.length
    serverSeq := hcount.symm
    kept := hacc.kept
    numbered := fun slot row hr => by
      rw [hcount]
      exact hacc.soFar.changed hr
    distinct := hacc.distinct }

/-! Stores a server has reached -/

/-- A server answers requests, of those it is asked, and may be stopped and started again. -/
inductive Later (std : Stdlib) (asked : Request → Conn Tables → Prop) (c : Conn Tables) :
    Conn Tables → Prop
  | refl : Later std asked c c
  | request {d : Conn Tables} {req : Request} (hreq : asked req d) (h : Later std asked c d) :
      Later std asked c (handle std req d).2
  | restart {d : Conn Tables} (h : Later std asked c d) : Later std asked c ⟨d.durable, none⟩

/-- Where a server that starts on a new database can get. -/
def Reachable (std : Stdlib) : Conn Tables → Prop := Later std (fun _ _ => True) initSchema

/-- A property of the tables that requests keep holds later on. -/
lemma Later.invariant {asked : Request → Conn Tables → Prop} {c d : Conn Tables} (I : Tables → Prop)
    (hstep : ∀ req c, asked req c → c.Settled → I c.tables → I (handle std req c).2.tables)
    (h : Later std asked c d) (hc : c.Settled) (hI : I c.tables) : d.Settled ∧ I d.tables := by
  induction h with
  | refl => exact ⟨hc, hI⟩
  | request hreq _ ih => exact ⟨(handle_tableStep std ih.1 _).1, hstep _ _ hreq ih.1 ih.2⟩
  | restart _ ih => exact ⟨Conn.Idle.settled rfl, by rw [ih.1.durable]; exact ih.2⟩

lemma Reachable.wellNumbered {c : Conn Tables} (h : Reachable std c) :
    c.Settled ∧ WellNumbered c.tables :=
  Later.invariant WellNumbered (fun req _ _ hs hw => (handle_advances std hs hw req).1) h
    (Conn.Idle.settled rfl) wellNumbered_empty

/-- A group that is registered has a counter. -/
lemma Reachable.counted {c : Conn Tables} (h : Reachable std c) {row : GroupRow}
    (hg : c.tables.groups.find g = some row) : (selectSeq g c.tables).isSome :=
  h.wellNumbered.2.counted g row hg

/-- Every batch is written as a whole or not at all, and accounted for in the answer. -/
theorem upsertRecords_outcome (std : Stdlib) (g : String) (records : List Json) {c : Conn Tables}
    (hc : Reachable std c) (hidle : c.Idle) {row : GroupRow} (hg : c.tables.groups.find g = some row) :
    BatchOutcome std g records c (upsertRecords std g records c) := by
  have hcount := hc.counted hg
  obtain ⟨t, undo⟩ := c
  obtain rfl : undo = none := hidle
  rw [upsertRecords_idle]
  cases hp : pushBatch std g records t with
  | error e => exact .raised e
  | ok p => exact .returned (pushBatch_accounted hcount hp)

end

/-- The server of the sample runs, with its group `g` registered. -/
@[irreducible] def sampleStore : Conn Tables := (handle .sample samplePair initSchema).2

lemma sampleStore_reachable : Reachable .sample sampleStore := by
  rw [sampleStore]
  exact .request trivial .refl

lemma sampleStore_group : sampleStore.Idle ∧ sampleStore.tables.records = .empty ∧
    ∃ row, sampleStore.tables.groups.find "g" = some row := by
  obtain ⟨groups, hins, hrun⟩ := handle_register samplePair_pairOf (t := .empty) rfl
  refine ⟨?_, ?_, ?_⟩
  · rw [sampleStore, initSchema, hrun]
    rfl
  · rw [sampleStore, initSchema, hrun]
    rfl
  · obtain ⟨t, hpair, hg, -⟩ := samplePair_registers
    rw [sampleStore, hpair]
    exact ⟨_, hg⟩

theorem sampleBatch_outcome :
    BatchOutcome .sample "g" sampleBatch sampleStore (upsertRecords .sample "g" sampleBatch sampleStore) ∧
      (upsertRecords .sample "g" sampleBatch sampleStore).1.map
        (fun s => (s.accepted.map Accepted.version, s.conflicts.map Conflict.serverVersion)) =
          .ok ([1, 2], [2]) := by
  obtain ⟨hidle, -, row, hg⟩ := sampleStore_group
  refine ⟨upsertRecords_outcome .sample "g" _ sampleStore_reachable hidle hg, ?_⟩
  rw [sampleStore]
  decide +kernel

/-! Cutting a batch -/

section
variable {std : Stdlib} {g : String}

/-- The answers to two batches, read as one. -/
def PushResult.append (s s' : PushResult) : PushResult :=
  ⟨s.accepted ++ s'.accepted, s.conflicts ++ s'.conflicts, s'.serverSeq⟩

/-- A client uploads several batches, one call after the other. -/
inductive Uploaded (std : Stdlib) (g : String) :
    Conn Tables → List (List Json) → PushResult → Conn Tables → Prop
  | last {records : List Json} {s : PushResult} {c c' : Conn Tables}
      (h : upsertRecords std g records c = (.ok s, c')) : Uploaded std g c [records] s c'
  | more {records : List Json} {batches : List (List Json)} {s s' : PushResult}
      {c c' c'' : Conn Tables} (h : upsertRecords std g records c = (.ok s, c'))
      (hrest : Uploaded std g c' batches s' c'') :
      Uploaded std g c (records :: batches) (s.append s') c''

/-- The loop does not look at the entries it has collected. -/
lemma pushRecord_append (s0 : PushResult) (r : Json) (p : Tables × PushResult) :
    pushRecord std g (p.1, s0.append p.2) r =
      (pushRecord std g p r).map fun q => (q.1, s0.append q.2) := by
  have hverdict : verdict std g (p.1, s0.append p.2) r = verdict std g p r := rfl
  rw [pushRecord, pushRecord, hverdict]
  cases verdict std g p r with
  | error e => rfl
  | ok v =>
    cases v <;> simp [bind, Except.bind, Except.map, Verdict.apply, PushResult.append,
      PushResult.conflict, PushResult.accept]

/-- It does not look at the counter either, which is written at the end. -/
lemma pushRecord_updateSeq (n : ℕ) (r : Json) (p : Tables × PushResult) :
    pushRecord std g (updateSeq g n p.1, p.2) r =
      (pushRecord std g p r).map fun q => (updateSeq g n q.1, q.2) := by
  have hverdict : verdict std g (updateSeq g n p.1, p.2) r = verdict std g p r := rfl
  rw [pushRecord, pushRecord, hverdict]
  cases verdict std g p r with
  | error e => rfl
  | ok v => cases v <;> rfl

lemma foldlM_map_state {σ ι : Type} {f : σ → ι → Except PyError σ} {φ : σ → σ}
    (hstep : ∀ i s, f (φ s) i = (f s i).map φ) (is : List ι) (s : σ) :
    is.foldlM f (φ s) = (is.foldlM f s).map φ := by
  induction is generalizing s with
  | nil => rfl
  | cons i is ih =>
    rw [List.foldlM_cons, List.foldlM_cons, hstep]
    cases f s i with
    | error e => rfl
    | ok s' => exact ih s'

lemma updateSeq_updateSeq (m n : ℕ) (t : Tables) :
    updateSeq g n (updateSeq g m t) = updateSeq g n t := by
  simp only [updateSeq, KeyedTable.modify_modify]

/-- A batch runs as its two parts do, one after the other. -/
theorem pushBatch_append {t : Tables} (hg : (selectSeq g t).isSome) (b1 b2 : List Json) :
    pushBatch std g (b1 ++ b2) t = (do
      let p ← pushBatch std g b1 t
      let q ← pushBatch std g b2 p.1
      .ok (q.1, p.2.append q.2)) := by
  simp only [pushBatch, List.foldlM_append]
  cases hfold : b1.foldlM (pushRecord std g) (t, startResult g t) with
  | error e => rfl
  | ok p =>
    obtain ⟨t1, s1⟩ := p
    have hsoFar : BatchSoFar g t (t1, s1) :=
      batch_induction (BatchSoFar g t) (fun _ _ _ _ hv hq => hq.step hv) hfold (.start g t)
    have hsel : (selectSeq g t1).isSome := by rwa [selectSeq, hsoFar.counters, ← selectSeq]
    have hstart : startResult g (updateSeq g s1.serverSeq t1) = ⟨[], [], s1.serverSeq⟩ := by
      rw [startResult, ← counter, counter_updateSeq hsel]
    have hs1 : s1 = s1.append ⟨[], [], s1.serverSeq⟩ := by simp [PushResult.append]
    have hwhole : b2.foldlM (pushRecord std g) (t1, s1) =
        (b2.foldlM (pushRecord std g) (t1, ⟨[], [], s1.serverSeq⟩)).map
          fun q => (q.1, s1.append q.2) := by
      conv_lhs => rw [hs1]
      exact foldlM_map_state (pushRecord_append s1) b2 (t1, ⟨[], [], s1.serverSeq⟩)
    have hsecond : b2.foldlM (pushRecord std g) (updateSeq g s1.serverSeq t1, ⟨[], [], s1.serverSeq⟩) =
        (b2.foldlM (pushRecord std g) (t1, ⟨[], [], s1.serverSeq⟩)).map
          fun q => (updateSeq g s1.serverSeq q.1, q.2) :=
      foldlM_map_state (pushRecord_updateSeq s1.serverSeq) b2 (t1, ⟨[], [], s1.serverSeq⟩)
    simp only [bind, Except.bind, hstart, hwhole, hsecond]
    cases b2.foldlM (pushRecord std g) (t1, ⟨[], [], s1.serverSeq⟩) with
    | error e => rfl
    | ok q => simp only [Except.map, PushResult.append, updateSeq_updateSeq]

lemma upsertRecords_eq_ok {records : List Json} {c c' : Conn Tables} {s : PushResult} :
    upsertRecords std g records c = (.ok s, c') ↔
      c.Idle ∧ c'.Idle ∧ pushBatch std g records c.tables = .ok (c'.tables, s) := by
  obtain ⟨t, undo⟩ := c
  obtain ⟨t', undo'⟩ := c'
  cases undo with
  | some u =>
    rw [upsertRecords_open]
    simp [Conn.Idle]
  | none =>
    rw [upsertRecords_idle]
    cases pushBatch std g records t with
    | error e => simp
    | ok p => simp [Conn.Idle, Prod.ext_iff, and_comm, and_assoc, eq_comm]

theorem upsertRecords_append_iff {c c' : Conn Tables} (hg : (selectSeq g c.tables).isSome)
    {b1 b2 : List Json} {s : PushResult} :
    upsertRecords std g (b1 ++ b2) c = (.ok s, c') ↔
      ∃ s1 c1 s2, upsertRecords std g b1 c = (.ok s1, c1) ∧
        upsertRecords std g b2 c1 = (.ok s2, c') ∧ s = s1.append s2 := by
  simp only [upsertRecords_eq_ok, pushBatch_append hg, bind_eq_ok, Except.ok.injEq, Prod.mk.injEq]
  constructor
  · rintro ⟨hidle, hidle', ⟨t1, s1⟩, h1, ⟨t2, s2⟩, h2, rfl, rfl⟩
    exact ⟨s1, ⟨t1, none⟩, s2, ⟨hidle, rfl, h1⟩, ⟨rfl, hidle', h2⟩, rfl⟩
  · rintro ⟨s1, c1, s2, ⟨hidle, -, h1⟩, ⟨-, hidle', h2⟩, rfl⟩
    exact ⟨hidle, hidle', (c1.tables, s1), h1, (c'.tables, s2), h2, rfl, rfl⟩

lemma pushBatch_counted {records : List Json} {t t' : Tables} {s : PushResult}
    (hg : (selectSeq g t).isSome) (h : pushBatch std g records t = .ok (t', s)) :
    (selectSeq g t').isSome := by
  obtain ⟨t1, hb, ht1⟩ := pushBatch_soFar h
  obtain rfl : t' = updateSeq g s.serverSeq t1 := ht1
  rw [selectSeq_updateSeq, if_pos rfl, Option.isSome_map, selectSeq, hb.counters]
  exact hg

/-- Uploading batch by batch is uploading all the records at once. -/
theorem uploaded_iff {batches : List (List Json)} {c c' : Conn Tables} {s : PushResult}
    (hg : (selectSeq g c.tables).isSome) :
    Uploaded std g c batches s c' ↔
      batches ≠ [] ∧ upsertRecords std g batches.flatten c = (.ok s, c') := by
  induction batches generalizing c s with
  | nil => exact iff_of_false (fun h => nomatch h) fun h => h.1 rfl
  | cons records batches ih =>
    cases batches with
    | nil =>
      rw [List.flatten_cons, List.flatten_nil, List.append_nil]
      constructor
      · intro h
        cases h with
        | last h => exact ⟨List.cons_ne_nil _ _, h⟩
        | more h hrest => cases hrest
      · rintro ⟨-, h⟩
        exact .last h
    | cons records' batches =>
      have hcounted : ∀ {c1 s1}, upsertRecords std g records c = (.ok s1, c1) →
          (selectSeq g c1.tables).isSome := fun h =>
        pushBatch_counted hg (upsertRecords_eq_ok.mp h).2.2
      rw [List.flatten_cons, upsertRecords_append_iff hg]
      constructor
      · intro h
        cases h with
        | more h hrest =>
          exact ⟨List.cons_ne_nil _ _, _, _, _, h, ((ih (hcounted h)).mp hrest).2, rfl⟩
      · rintro ⟨-, s1, c1, s2, h1, h2, rfl⟩
        exact .more h1 ((ih (hcounted h1)).mpr ⟨List.cons_ne_nil _ _, h2⟩)

/-- Where an upload is cut makes no difference. -/
structure CutsFreely (std : Stdlib) (g : String) (c : Conn Tables) : Prop where
  /-- one batch does what its two parts do, and their lists are put together in its answer -/
  parts : ∀ b1 b2 s c', upsertRecords std g (b1 ++ b2) c = (.ok s, c') ↔
    ∃ s1 c1 s2, upsertRecords std g b1 c = (.ok s1, c1) ∧ upsertRecords std g b2 c1 = (.ok s2, c') ∧
      s.accepted = s1.accepted ++ s2.accepted ∧ s.conflicts = s1.conflicts ++ s2.conflicts ∧
      s.serverSeq = s2.serverSeq
  /-- so two ways to cut the same records into batches come to the same -/
  upload : ∀ batches batches' s c', batches.flatten = batches'.flatten → batches' ≠ [] →
    Uploaded std g c batches s c' → Uploaded std g c batches' s c'

theorem reachable_cutsFreely (std : Stdlib) (g : String) {c : Conn Tables} (hc : Reachable std c)
    {row : GroupRow} (hg : c.tables.groups.find g = some row) : CutsFreely std g c where
  parts b1 b2 s c' := by
    rw [upsertRecords_append_iff (hc.counted hg)]
    constructor
    · rintro ⟨s1, c1, s2, h1, h2, rfl⟩
      exact ⟨s1, c1, s2, h1, h2, rfl, rfl, rfl⟩
    · rintro ⟨s1, c1, s2, h1, h2, ha, hc, hs⟩
      obtain ⟨accepted, conflicts, serverSeq⟩ := s
      obtain rfl : accepted = s1.accepted ++ s2.accepted := ha
      obtain rfl : conflicts = s1.conflicts ++ s2.conflicts := hc
      obtain rfl : serverSeq = s2.serverSeq := hs
      exact ⟨s1, c1, s2, h1, h2, rfl⟩
  upload batches batches' s c' hflatten hne h := by
    have hcount := hc.counted hg
    rw [uploaded_iff hcount, ← hflatten]
    exact ⟨hne, ((uploaded_iff hcount).mp h).2⟩

end

theorem sampleStore_cutsFreely : CutsFreely .sample "g" sampleStore := by
  obtain ⟨-, -, row, hg⟩ := sampleStore_group
  exact reachable_cutsFreely .sample "g" sampleStore_reachable hg

end T3dmium
