import T3dmium.Numbering

/-! A device that pulls with a cursor while everybody else sends whatever requests
they like: right after a pull its mirror is what the server stores. -/
namespace T3dmium

/-- A device's copy of the records under one filter, by collection and id. -/
structure Device where
  mirror : String × String → Option PulledRecord
  cursor : ℤ

def Device.fresh : Device := ⟨fun _ => none, 0⟩

def PulledRecord.slot (r : PulledRecord) : String × String := (r.collection, r.recordId)

/-- Each record overwrites the mirror in turn. -/
def overwrite (mirror : String × String → Option PulledRecord) (records : List PulledRecord) :
    String × String → Option PulledRecord :=
  records.foldl (fun m r => Function.update m r.slot (some r)) mirror

def Device.receive (d : Device) (result : PullResult) : Device :=
  ⟨overwrite d.mirror result.records, result.serverSeq⟩

/-- Somebody's request, or a pull by the device. -/
inductive SyncEvent
  | request (req : Request)
  | pull

/-- The collections a filter admits. -/
def admits (filter : Option String) (collection : String) : Bool :=
  match filter with
  | none => true
  | some c => c == "" || collection == c

/-- Server and device; a pull answers with what the server returned. -/
def syncMachine (std : Stdlib) (g : String) (filter : Option String) :
    Machine (Conn Tables × Device) SyncEvent (Option (Except PyError PullResult))
  | .request req, (c, d) => (none, ((handle std req c).2, d))
  | .pull, (c, d) =>
    match queryRecords g filter d.cursor c with
    | (.ok result, c') => (some (.ok result), (c', d.receive result))
    | (.error e, c') => (some (.error e), (c', d))

/-- The stored records of a group under a filter, as a pull shows them. -/
def storedRecords (g : String) (filter : Option String) (t : Tables) :
    Feed (String × String) PulledRecord :=
  (groupFeed g t).select (fun k => admits filter k.1) RecordRow.pulled

section
variable {std : Stdlib}

lemma overwrite_of_mem {mirror : String × String → Option PulledRecord}
    {records : List PulledRecord} {r : PulledRecord} (hr : r ∈ records)
    (huniq : ∀ r' ∈ records, r'.slot = r.slot → r' = r) :
    overwrite mirror records r.slot = some r := by
  induction records using List.reverseRecOn with
  | nil => cases hr
  | append_singleton records x ih =>
    simp only [overwrite, List.foldl_append, List.foldl_cons, List.foldl_nil]
    by_cases hx : r.slot = x.slot
    · rw [hx, Function.update_self, huniq x (by simp) hx.symm]
    · rw [Function.update_of_ne hx]
      rcases List.mem_append.mp hr with hr | hr
      · exact ih hr fun r' hr' => huniq r' (List.mem_append_left _ hr')
      · rw [List.mem_singleton.mp hr] at hx
        exact (hx rfl).elim

lemma overwrite_of_notMem {mirror : String × String → Option PulledRecord}
    {records : List PulledRecord} {k : String × String} (hk : ∀ r ∈ records, r.slot ≠ k) :
    overwrite mirror records k = mirror k := by
  induction records generalizing mirror with
  | nil => rfl
  | cons x records ih =>
    change overwrite (Function.update mirror x.slot (some x)) records k = _
    rw [ih fun r hr => hk r (List.mem_cons_of_mem _ hr),
      Function.update_of_ne (hk x List.mem_cons_self).symm]

lemma mem_selectRecords {g : String} {filter : Option String} {since : ℤ} {t : Tables}
    {rows : List RecordRow} (h : selectRecords g filter since t = .ok rows) {row : RecordRow} :
    row ∈ rows ↔ t.records.find ⟨g, row.collection, row.recordId⟩ = some row ∧
      admits filter row.collection = true ∧ since < row.seq := by
  obtain ⟨n, hn, h⟩ := bind_eq_ok.mp h
  obtain ⟨-, rfl⟩ := bindInt_eq_ok.mp hn
  cases h
  rw [List.mem_insertionSort, List.mem_filter]
  have hslot : row ∈ t.records.rows ↔ t.records.find row.slot = some row :=
    KeyedTable.mem_rows_iff rfl
  constructor
  · rintro ⟨hmem, hm⟩
    simp only [RecordRow.matches, Bool.and_eq_true, beq_iff_eq, decide_eq_true_eq] at hm
    obtain ⟨⟨rfl, hs⟩, hf⟩ := hm
    exact ⟨hslot.mp hmem, hf, hs⟩
  · rintro ⟨hfind, hf, hs⟩
    obtain ⟨hmem, hkey⟩ := KeyedTable.find_eq_some.mp hfind
    simp only [RecordRow.key, RecordRow.slot, Option.some.injEq, Slot.mk.injEq] at hkey
    refine ⟨hmem, ?_⟩
    simp only [RecordRow.matches, Bool.and_eq_true, beq_iff_eq, decide_eq_true_eq]
    exact ⟨⟨hkey.1, hs⟩, hf⟩

/-- A pulled record is the stored record of its slot, numbered after `since`. -/
lemma mem_pullRecords {g : String} {filter : Option String} {since : ℤ} {t : Tables}
    {result : PullResult} (h : pullRecords g filter since t = .ok result) {r : PulledRecord} :
    r ∈ result.records ↔ (storedRecords g filter t).row r.slot = some r ∧ since < r.seq := by
  obtain ⟨rows, hrows, h⟩ := bind_eq_ok.mp h
  cases h
  have hstored : (storedRecords g filter t).row r.slot = some r ↔ admits filter r.collection = true ∧
      ∃ row, t.records.find ⟨g, r.collection, r.recordId⟩ = some row ∧ row.pulled = r := by
    simp only [storedRecords, Feed.select, groupFeed, PulledRecord.slot,
      Option.ite_none_right_eq_some, Option.map_eq_some_iff]
  rw [hstored, List.mem_map]
  constructor
  · rintro ⟨row, hrow, rfl⟩
    obtain ⟨hfind, hf, hs⟩ := (mem_selectRecords hrows).mp hrow
    exact ⟨⟨hf, row, hfind, rfl⟩, hs⟩
  · rintro ⟨⟨hf, row, hfind, rfl⟩, hs⟩
    exact ⟨row, (mem_selectRecords hrows).mpr ⟨hfind, hf, hs⟩, rfl⟩

lemma pullRecords_serverSeq {g : String} {filter : Option String} {since : ℤ} {t : Tables}
    {result : PullResult} (h : pullRecords g filter since t = .ok result) :
    result.serverSeq = since ∨ ∃ r ∈ result.records, result.serverSeq = r.seq := by
  obtain ⟨rows, hrows, h⟩ := bind_eq_ok.mp h
  cases h
  cases hl : (rows.map RecordRow.pulled).getLast? with
  | none => exact Or.inl rfl
  | some r => exact Or.inr ⟨r, List.mem_of_getLast? hl, rfl⟩

/-- A pull reads the feed from the cursor on. -/
lemma receive_reads {g : String} {filter : Option String} {t : Tables} {d : Device} {n : ℕ}
    {result : PullResult} (hn : d.cursor = n) (h : pullRecords g filter d.cursor t = .ok result) :
    ∃ n' : ℕ, (d.receive result).cursor = n' ∧
      (storedRecords g filter t).Reads PulledRecord.seq ⟨d.mirror, n⟩
        ⟨(d.receive result).mirror, n'⟩ := by
  have hmem : ∀ r, r ∈ result.records ↔
      (storedRecords g filter t).row r.slot = some r ∧ n < r.seq := fun r => by
    rw [mem_pullRecords h, hn, Nat.cast_lt]
  have hslot : ∀ k r, (storedRecords g filter t).row k = some r → r.slot = k := by
    intro k r hr
    simp only [storedRecords, Feed.select, groupFeed, Option.ite_none_right_eq_some,
      Option.map_eq_some_iff] at hr
    obtain ⟨-, row, hfind, rfl⟩ := hr
    obtain ⟨-, hkey⟩ := KeyedTable.find_eq_some.mp hfind
    simp only [RecordRow.key, RecordRow.slot, Option.some.injEq, Slot.mk.injEq] at hkey
    exact Prod.ext hkey.2.1 hkey.2.2
  have hnew : ∀ k r, (storedRecords g filter t).row k = some r → n < r.seq →
      (d.receive result).mirror k = some r := by
    intro k r hr hlt
    obtain rfl := hslot k r hr
    refine overwrite_of_mem ((hmem r).mpr ⟨hr, hlt⟩) fun r' hr' he => ?_
    have hr'' := ((hmem r').mp hr').1
    rw [he, hr] at hr''
    exact (Option.some.inj hr'').symm
  have hold : ∀ k, (∀ r, (storedRecords g filter t).row k = some r → ¬ n < r.seq) →
      (d.receive result).mirror k = d.mirror k := by
    intro k hk
    refine overwrite_of_notMem fun r hr he => ?_
    subst he
    exact hk r ((hmem r).mp hr).1 ((hmem r).mp hr).2
  rcases pullRecords_serverSeq h with hs | ⟨r, hr, hs⟩
  · exact ⟨n, hs.trans hn, hnew, hold, le_refl _, Or.inl rfl⟩
  · obtain ⟨hstored, hlt⟩ := (hmem r).mp hr
    exact ⟨r.seq, hs, hnew, hold, hlt.le, Or.inr ⟨r.slot, r, hstored, rfl⟩⟩

/-- Between events: nothing is pending, numbers are in order, and the device lacks
only what is numbered beyond its cursor. -/
structure InSync (g : String) (filter : Option String) (s : Conn Tables × Device) : Prop where
  settled : s.1.Settled
  numbered : WellNumbered s.1.tables
  trails : ∃ n : ℕ, s.2.cursor = n ∧
    (storedRecords g filter s.1.tables).Trails PulledRecord.seq ⟨s.2.mirror, n⟩

lemma inSync_fresh (g : String) (filter : Option String) : InSync g filter (initSchema, .fresh) where
  settled := Conn.Idle.settled rfl
  numbered := wellNumbered_empty
  trails := by
    refine ⟨0, rfl, Nat.zero_le _, fun k => Or.inl ?_⟩
    simp [storedRecords, Feed.select, groupFeed, Device.fresh, initSchema, Tables.empty]

/-- What one event does: the invariant stays, the cursor does not decrease, and a
pull that is answered makes the mirror equal to what is stored. -/
theorem syncMachine_step (std : Stdlib) {g : String} {filter : Option String}
    {s : Conn Tables × Device} (hs : InSync g filter s) (e : SyncEvent) :
    InSync g filter (syncMachine std g filter e s).2 ∧
      s.2.cursor ≤ (syncMachine std g filter e s).2.2.cursor ∧
      ∀ result, (syncMachine std g filter e s).1 = some (.ok result) →
        (syncMachine std g filter e s).2.2.mirror =
          (storedRecords g filter (syncMachine std g filter e s).2.1.tables).row := by
  obtain ⟨c, d⟩ := s
  obtain ⟨hset, hnum, n, hn, ht⟩ := hs
  cases e with
  | request req =>
    obtain ⟨hnum', hadv⟩ := handle_advances std hset hnum req
    exact ⟨⟨(handle_tableStep std hset req).1, hnum', n, hn,
      ht.advance ((hadv g).select fun _ => rfl)⟩, le_refl _, nofun⟩
  | pull =>
    simp only [syncMachine, queryRecords_apply]
    cases hp : pullRecords g filter d.cursor c.tables with
    | error e => exact ⟨⟨hset, hnum, n, hn, ht⟩, le_refl _, nofun⟩
    | ok result =>
      obtain ⟨n', hn', hreads⟩ := receive_reads hn hp
      have hbound : (storedRecords g filter c.tables).Bounded PulledRecord.seq :=
        (hnum.bounded g).select fun _ => rfl
      refine ⟨⟨hset, hnum, n', hn', hreads.trails ht hbound⟩, ?_, fun _ _ => ?_⟩
      · have hle := hreads.cursor_mono
        rw [hn, hn']
        exact Nat.cast_le.mpr hle
      · funext k
        exact hreads.row_eq ht k

/-- A cursor within SQLite's integers is bound, and the pull is answered. -/
lemma pull_answered (std : Stdlib) {g : String} {filter : Option String} {s : Conn Tables × Device}
    (hs : InSync g filter s) (hlt : counter g s.1.tables < 2 ^ 63) :
    ∃ result, (syncMachine std g filter .pull s).1 = some (.ok result) := by
  obtain ⟨c, d⟩ := s
  obtain ⟨-, -, n, hn, ht⟩ := hs
  have hle : n ≤ counter g c.tables := ht.cursor_le
  have hlt : counter g c.tables < 2 ^ 63 := hlt
  have hint : IsInt64 d.cursor := by
    rw [show d.cursor = n from hn]
    constructor <;> omega
  have hpull : ∃ result, pullRecords g filter d.cursor c.tables = .ok result :=
    ⟨_, bind_eq_ok.mpr ⟨_, bind_eq_ok.mpr ⟨_, bindInt_eq_ok.mpr ⟨hint, rfl⟩, rfl⟩, rfl⟩⟩
  obtain ⟨result, hpull⟩ := hpull
  exact ⟨result, by simp only [syncMachine, queryRecords_apply, hpull]⟩

/-- In every run a pull that is answered leaves the mirror equal to the stored
records under the filter, and no event moves the cursor back. A pull is answered
as long as the group's numbers fit a SQLite integer. -/
theorem pull_mirrors (std : Stdlib) (g : String) (filter : Option String)
    (events : List SyncEvent) (e : SyncEvent) :
    let s := (syncMachine std g filter).final events (initSchema, .fresh)
    let answer := (syncMachine std g filter e s).1
    let s' := (syncMachine std g filter e s).2
    s.2.cursor ≤ s'.2.cursor ∧
      (∀ result, answer = some (.ok result) →
        s'.2.mirror = (storedRecords g filter s'.1.tables).row) ∧
      (e = .pull → counter g s.1.tables < 2 ^ 63 → ∃ result, answer = some (.ok result)) := by
  intro s answer s'
  have hs : InSync g filter s := Machine.final_invariant (InSync g filter)
    (fun e s _ hs => (syncMachine_step std hs e).1)
    (Machine.throughout_of_forall (fun _ _ _ => trivial) _) (inSync_fresh g filter)
  obtain ⟨-, hcursor, hmirror⟩ := syncMachine_step std hs e
  exact ⟨hcursor, hmirror, by rintro rfl hlt; exact pull_answered std hs hlt⟩

end
end T3dmium
