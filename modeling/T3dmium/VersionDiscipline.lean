import T3dmium.Convergence
import T3dmium.PullSync

/-! Devices that push a slot only at the version after the one they last saw there.
The server's strict version test is then a compare-and-swap: no write replaces a
record its writer has not seen. -/
namespace T3dmium

/-- A record without its number, as its writer knows it too. -/
def PulledRecord.unnumbered (r : PulledRecord) : PulledRecord := { r with seq := 0 }

def RecordRow.copy (row : RecordRow) : PulledRecord := row.pulled.unnumbered

/-- An accepted write: its entry in the answer, what it replaced and what it stored. -/
structure Write where
  key : RecordKey
  replaced : Option RecordRow
  row : RecordRow

section
variable (std : Stdlib)

/-- The write a verdict makes. -/
def Verdict.write (p : Tables × PushResult) : Verdict → Option Write
  | .conflict _ _ => none
  | .accept k row => some ⟨k, p.1.records.find row.slot, row⟩

/-- The writes of a batch, in order. -/
def batchWrites (g : String) : List Json → Tables × PushResult → List Write
  | [], _ => []
  | r :: records, p =>
    match verdict std g p r with
    | .ok v => (v.write p).toList ++ batchWrites g records (v.apply p)
    | .error _ => []

end

/-- A write as the run remembers it, with what its writer last saw in the slot. -/
structure LogEntry (δ : Type) where
  device : δ
  base : Option PulledRecord
  write : Write

/-- The server and its devices: what each last read or had accepted, by slot. -/
structure World (δ : Type) where
  conn : Conn Tables
  seen : δ → String × String → Option PulledRecord
  log : List (LogEntry δ)

def World.start {δ : Type} (t : Tables) : World δ := ⟨⟨t, none⟩, fun _ _ => none, []⟩

inductive DeviceEvent (δ : Type)
  | push (d : δ) (records : List Json)
  | pull (d : δ) (filter : Option String) (since : ℤ)

def baseVersion (base : Option PulledRecord) : ℤ := base.elim 0 PulledRecord.version

def RecordRow.place (row : RecordRow) : String × String := (row.collection, row.recordId)

/-- How the answer of the push reports a write. -/
def Write.entry (w : Write) : Accepted := ⟨w.key.coll, w.key.rid, w.key.ver⟩

abbrev Write.slot (w : Write) : String × String := w.row.place

section
variable {δ : Type} [DecidableEq δ] (std : Stdlib) (g : String)

/-- A push or a pull; a device takes over what it reads and what is accepted. -/
def worldMachine : Machine (World δ) (DeviceEvent δ) Unit
  | .push d records, w =>
    match upsertRecords std g records w.conn with
    | (.error _, c) => ((), { w with conn := c })
    | (.ok _, c) =>
      let writes := batchWrites std g records (w.conn.tables, startResult g w.conn.tables)
      ((), ⟨c, Function.update w.seen d (overwrite (w.seen d) (writes.map (·.row.copy))),
        w.log ++ writes.map fun x => ⟨d, w.seen d x.slot, x⟩⟩)
  | .pull d filter since, w =>
    match queryRecords g filter since w.conn with
    | (.error _, c) => ((), { w with conn := c })
    | (.ok result, c) =>
      ((), { w with
        conn := c
        seen := Function.update w.seen d
          (overwrite (w.seen d) (result.records.map PulledRecord.unnumbered)) })

/-- A push offers every slot at the version after the one its device last saw. -/
def Disciplined : DeviceEvent δ → World δ → Prop
  | .push d records, w => ∀ r ∈ records, ∀ x, itemOf std r = .ok x →
      x.version = baseVersion (w.seen d x.slot) + 1
  | .pull _ _ _, _ => True

end

section
variable {std : Stdlib} {g : String}

lemma batchWrites_accepted {records : List Json} {p p' : Tables × PushResult}
    (h : records.foldlM (pushRecord std g) p = .ok p') :
    p'.2.accepted = p.2.accepted ++ (batchWrites std g records p).map Write.entry := by
  induction records generalizing p with
  | nil =>
    cases h
    simp [batchWrites]
  | cons r records ih =>
    obtain ⟨q, hq, h⟩ := bind_eq_ok.mp h
    obtain ⟨v, hv, hvq⟩ := bind_eq_ok.mp hq
    cases hvq
    rw [ih h, batchWrites, hv]
    cases v <;>
      simp [Verdict.apply, Verdict.write, PushResult.conflict, PushResult.accept, Write.entry]

/-- The store holds `x` in the slot, or a later version. -/
def Known (g : String) (t : Tables) (slot : String × String) (x : PulledRecord) : Prop :=
  ∃ row, t.records.find ⟨g, slot.1, slot.2⟩ = some row ∧ x.version ≤ row.version ∧
    (x.version = row.version → x = row.copy)

/-- The version a slot is at; an absent slot is at version 0. -/
def slotVersion (g : String) (t : Tables) (slot : String × String) : ℤ :=
  ((t.records.find ⟨g, slot.1, slot.2⟩).map RecordRow.version).getD 0

/-- What a push by a device that saw `seen` cannot break: nobody knows more than is
stored, and stored versions are positive. -/
structure Coherent (g : String) (seen : String × String → Option PulledRecord) (t : Tables) :
    Prop where
  known : ∀ slot x, seen slot = some x → Known g t slot x
  positive : ∀ (slot : String × String) row, t.records.find ⟨g, slot.1, slot.2⟩ = some row → 1 ≤ row.version

lemma Known.putRecord {t : Tables} {slot : String × String} {x : PulledRecord} {row : RecordRow}
    (h : Known g t slot x) (hold : ∀ old, t.records.find row.slot = some old → old.version < row.version) :
    Known g (putRecord row t) slot x := by
  obtain ⟨old, hf, hle, heq⟩ := h
  by_cases hs : row.slot = ⟨g, slot.1, slot.2⟩
  · have hlt := hold old (hs ▸ hf)
    exact ⟨row, by rw [find_putRecord, if_pos hs], by omega, fun he => by omega⟩
  · exact ⟨old, by rw [find_putRecord, if_neg hs, hf], hle, heq⟩

/-- Under the discipline an accepted record replaces exactly what its writer saw. -/
lemma accept_replaces {seen : String × String → Option PulledRecord} {t : Tables} {row : RecordRow}
    (hc : Coherent g seen t) (hg : row.groupId = g)
    (hver : row.version = baseVersion (seen row.place) + 1)
    (hold : ∀ old, t.records.find row.slot = some old → old.version < row.version) :
    (t.records.find row.slot).map RecordRow.copy = seen row.place ∧
      row.version = slotVersion g t row.place + 1 := by
  subst hg
  have hslot : row.slot = ⟨row.groupId, row.place.1, row.place.2⟩ := rfl
  rw [hslot] at hold ⊢
  cases hs : seen row.place with
  | none =>
    rw [hs] at hver
    have hv : row.version = 1 := by simpa [baseVersion] using hver
    have hf : t.records.find ⟨row.groupId, row.place.1, row.place.2⟩ = none := by
      cases hf : t.records.find ⟨row.groupId, row.place.1, row.place.2⟩ with
      | none => rfl
      | some old =>
        have hlt := hold old hf
        have hpos := hc.positive row.place old hf
        omega
    simp [slotVersion, hf, hv]
  | some x =>
    rw [hs] at hver
    obtain ⟨old, hf, hle, heq⟩ := hc.known _ x hs
    have hlt := hold old hf
    have hv : row.version = x.version + 1 := hver
    have he : x.version = old.version := by omega
    rw [slotVersion, hf, Option.map_some, heq he]
    refine ⟨rfl, ?_⟩
    simp only [Option.map_some, Option.getD_some]
    omega

lemma Coherent.slotVersion_nonneg {seen : String × String → Option PulledRecord} {t : Tables}
    (hc : Coherent g seen t) (slot : String × String) : 0 ≤ slotVersion g t slot := by
  unfold slotVersion
  cases hf : t.records.find ⟨g, slot.1, slot.2⟩ with
  | none => exact le_refl _
  | some row =>
    have hpos := hc.positive slot row hf
    simp only [Option.map_some, Option.getD_some]
    omega

lemma Coherent.putRecord {seen : String × String → Option PulledRecord} {t : Tables}
    {row : RecordRow} (hc : Coherent g seen t)
    (hnext : row.version = slotVersion g t row.place + 1)
    (hold : ∀ old, t.records.find row.slot = some old → old.version < row.version) :
    Coherent g seen (putRecord row t) where
  known slot x hs := (hc.known slot x hs).putRecord hold
  positive slot row' hf := by
    rw [find_putRecord] at hf
    split_ifs at hf
    · cases hf
      have hbase := hc.slotVersion_nonneg row.place
      omega
    · exact hc.positive slot row' hf

/-- The versions written to a slot, in order. -/
def versionsOf (writes : List Write) (slot : String × String) : List ℤ :=
  (writes.filter fun w => w.slot = slot).map fun w => w.row.version

/-- The writes so far took every slot through 1, 2, 3, … to the version it is at. -/
def Ledger (g : String) (writes : List Write) (t : Tables) : Prop :=
  ∀ slot, ∃ n : ℕ, versionsOf writes slot = (List.range n).map (fun i : ℕ => (i : ℤ) + 1) ∧
    slotVersion g t slot = n

/-- What is said of a write whose writer had seen `seen`. -/
structure Replaces (seen : String × String → Option PulledRecord) (w : Write) : Prop where
  replaced : w.replaced.map RecordRow.copy = seen w.slot
  version : w.row.version = baseVersion (seen w.slot) + 1

lemma slotVersion_putRecord {t : Tables} {row : RecordRow} (hg : row.groupId = g)
    (slot : String × String) :
    slotVersion g (putRecord row t) slot =
      if row.place = slot then row.version else slotVersion g t slot := by
  subst hg
  have hiff : row.slot = ⟨row.groupId, slot.1, slot.2⟩ ↔ row.place = slot := by
    simp [RecordRow.slot, RecordRow.place, Prod.ext_iff]
  simp only [slotVersion, find_putRecord, hiff]
  split_ifs <;> rfl

lemma Ledger.accept {writes : List Write} {t : Tables} {w : Write} (hl : Ledger g writes t)
    (hg : w.row.groupId = g) (hver : w.row.version = slotVersion g t w.slot + 1) :
    Ledger g (writes ++ [w]) (putRecord w.row t) := by
  intro slot
  obtain ⟨n, hn, hs⟩ := hl slot
  rw [slotVersion_putRecord hg, versionsOf, List.filter_append]
  by_cases he : w.slot = slot
  · have hv : w.row.version = n + 1 := by rw [hver, he, hs]
    refine ⟨n + 1, ?_, ?_⟩
    · rw [List.filter_cons_of_pos (by simpa using he), List.map_append, ← versionsOf, hn]
      simp [List.range_succ, hv]
    · rw [if_pos he, hv]
      simp
  · refine ⟨n, ?_, ?_⟩
    · rw [List.filter_cons_of_neg (by simpa using he)]
      simpa [versionsOf] using hn
    · rw [if_neg he]
      exact hs

/-- A disciplined batch: its writes replace what the device saw, keep everybody's
knowledge valid and continue the ledger. -/
theorem batch_replaces {seen : String × String → Option PulledRecord} {records : List Json}
    {p p' : Tables × PushResult} {writes : List Write}
    (h : records.foldlM (pushRecord std g) p = .ok p')
    (hdisc : ∀ r ∈ records, ∀ x, itemOf std r = .ok x → x.version = baseVersion (seen x.slot) + 1)
    (hc : Coherent g seen p.1) (hl : Ledger g writes p.1) :
    Coherent g seen p'.1 ∧ Ledger g (writes ++ batchWrites std g records p) p'.1 ∧
      (∀ slot x, Known g p.1 slot x → Known g p'.1 slot x) ∧
      ∀ w ∈ batchWrites std g records p, Replaces seen w ∧ Known g p'.1 w.slot w.row.copy := by
  induction records generalizing p writes with
  | nil =>
    cases h
    exact ⟨hc, by simpa [batchWrites] using hl, fun _ _ hk => hk, by simp [batchWrites]⟩
  | cons r records ih =>
    obtain ⟨q, hq, h⟩ := bind_eq_ok.mp h
    obtain ⟨v, hv, rfl⟩ := pushRecord_eq_ok.mp hq
    rw [batchWrites, verdict_eq_ok.mpr hv]
    have hdisc' := fun r' hr' => hdisc r' (List.mem_cons_of_mem r hr')
    cases hv with
    | @conflict k old hk hmem hg hn hver =>
      obtain ⟨hc', hl', hkn, hw⟩ := ih h hdisc' hc hl
      exact ⟨hc', hl', hkn, hw⟩
    | @accept k row hk hr hg hseq hold =>
      have hver := hdisc r List.mem_cons_self row.item (itemOf_readFrom hk hr)
      obtain ⟨hrep, hnext⟩ := accept_replaces hc hg hver hold
      have hstep : ∀ slot x, Known g p.1 slot x → Known g (putRecord row p.1) slot x :=
        fun slot x hk => hk.putRecord hold
      have hself : Known g (putRecord row p.1) row.place row.copy :=
        ⟨row, by simp [RecordRow.slot, RecordRow.place, hg], le_refl _, fun _ => rfl⟩
      obtain ⟨hc', hl', hkn, hw⟩ := ih h hdisc' (hc.putRecord hnext hold)
        (hl.accept (w := ⟨k, p.1.records.find row.slot, row⟩) hg hnext)
      refine ⟨hc', ?_, fun s x hk => hkn s x (hstep s x hk), ?_⟩
      · simpa [Verdict.write] using hl'
      · intro w hmem
        simp only [Verdict.write, Option.toList_some, List.singleton_append, List.mem_cons] at hmem
        rcases hmem with rfl | hmem
        · exact ⟨⟨hrep, hver⟩, hkn _ _ hself⟩
        · exact hw w hmem

lemma overwrite_eq_some {mirror : String × String → Option PulledRecord}
    {records : List PulledRecord} {k : String × String} {x : PulledRecord}
    (h : overwrite mirror records k = some x) :
    (x ∈ records ∧ x.slot = k) ∨ mirror k = some x := by
  induction records generalizing mirror with
  | nil => exact Or.inr h
  | cons r records ih =>
    have h : overwrite (Function.update mirror r.slot (some r)) records k = some x := h
    rcases ih h with ⟨hmem, hs⟩ | hm
    · exact Or.inl ⟨List.mem_cons_of_mem _ hmem, hs⟩
    · by_cases hk : k = r.slot
      · subst hk
        rw [Function.update_self] at hm
        cases hm
        exact Or.inl ⟨List.mem_cons_self, rfl⟩
      · rw [Function.update_of_ne hk] at hm
        exact Or.inr hm

lemma known_of_pull {filter : Option String} {since : ℤ} {t : Tables} {result : PullResult}
    (h : pullRecords g filter since t = .ok result) {r : PulledRecord} (hr : r ∈ result.records) :
    Known g t r.slot r.unnumbered := by
  obtain ⟨hstored, -⟩ := (mem_pullRecords h).mp hr
  simp only [storedRecords, Feed.select, groupFeed, Option.ite_none_right_eq_some,
    Option.map_eq_some_iff] at hstored
  obtain ⟨-, row, hf, rfl⟩ := hstored
  exact ⟨row, hf, le_refl _, fun _ => rfl⟩

variable {δ : Type} [DecidableEq δ]

/-- Between events: what any device saw is stored or superseded, and the log takes
every slot through its versions, each write replacing what its writer saw. -/
structure Swapping (g : String) (w : World δ) : Prop where
  idle : w.conn.Idle
  coherent : ∀ d, Coherent g (w.seen d) w.conn.tables
  ledger : Ledger g (w.log.map LogEntry.write) w.conn.tables
  replaces : ∀ e ∈ w.log, e.write.replaced.map RecordRow.copy = e.base ∧
    e.write.row.version = baseVersion e.base + 1

omit [DecidableEq δ] in
lemma swapping_start {t : Tables} (hnew : ∀ slot, storedItem g t slot = none) :
    Swapping g (World.start t : World δ) where
  idle := rfl
  coherent d := by
    refine ⟨nofun, fun slot row hf => ?_⟩
    have hn := hnew slot
    rw [storedItem, show t.records.find ⟨g, slot.1, slot.2⟩ = some row from hf] at hn
    cases hn
  ledger slot := by
    refine ⟨0, rfl, ?_⟩
    have hn := hnew slot
    rw [storedItem, Option.map_eq_none_iff] at hn
    rw [slotVersion, World.start, hn]
    rfl
  replaces _ h := by cases h

/-- A device that takes over known records knows no more than is stored. -/
lemma coherent_update {seen : δ → String × String → Option PulledRecord} {t : Tables} {d : δ}
    {copies : List PulledRecord} (hseen : ∀ d', Coherent g (seen d') t)
    (hnew : ∀ x ∈ copies, Known g t x.slot x) (d' : δ) :
    Coherent g (Function.update seen d (overwrite (seen d) copies) d') t := by
  refine ⟨fun slot x hx => ?_, (hseen d').positive⟩
  by_cases hd : d' = d
  · subst hd
    rw [Function.update_self] at hx
    rcases overwrite_eq_some hx with ⟨hmem, rfl⟩ | hold
    · exact hnew x hmem
    · exact (hseen d').known slot x hold
  · rw [Function.update_of_ne hd] at hx
    exact (hseen d').known slot x hx

theorem worldMachine_step {w : World δ} (hw : Swapping g w) {e : DeviceEvent δ}
    (he : Disciplined std e w) : Swapping g (worldMachine std g e w).2 := by
  obtain ⟨⟨t, undo⟩, seen, log⟩ := w
  obtain rfl : undo = none := hw.idle
  cases e with
  | push d records =>
    cases hp : pushBatch std g records t with
    | error e => simpa only [worldMachine, upsertRecords_idle, hp] using hw
    | ok p =>
      obtain ⟨t', s⟩ := p
      obtain ⟨t1, hfold, rfl⟩ := pushBatch_eq_ok.mp hp
      simp only [worldMachine, upsertRecords_idle, hp]
      -- the counter update leaves the records as the batch left them
      obtain ⟨hc, hl, hkn, hws⟩ := batch_replaces hfold he (hw.coherent d) hw.ledger
      have hseen : ∀ d', Coherent g (seen d') (updateSeq g s.serverSeq t1) := fun d' =>
        ⟨fun slot x hx => hkn slot x ((hw.coherent d').known slot x hx), hc.positive⟩
      have hledger : Ledger g (log.map LogEntry.write ++
          batchWrites std g records (t, startResult g t)) (updateSeq g s.serverSeq t1) := hl
      refine ⟨rfl, coherent_update hseen fun x hx => ?_, ?_, fun e hmem => ?_⟩
      · obtain ⟨wr, hwr, rfl⟩ := List.mem_map.mp hx
        exact (hws wr hwr).2
      · simpa [Function.comp_def] using hledger
      · rcases List.mem_append.mp hmem with hmem | hmem
        · exact hw.replaces e hmem
        · obtain ⟨wr, hwr, rfl⟩ := List.mem_map.mp hmem
          exact ⟨(hws wr hwr).1.replaced, (hws wr hwr).1.version⟩
  | pull d filter since =>
    cases hp : pullRecords g filter since t with
    | error e => simpa only [worldMachine, queryRecords_apply, hp] using hw
    | ok result =>
      simp only [worldMachine, queryRecords_apply, hp]
      refine ⟨rfl, coherent_update hw.coherent fun x hx => ?_, hw.ledger, hw.replaces⟩
      obtain ⟨r, hr, rfl⟩ := List.mem_map.mp hx
      have hk : Known g t r.slot r.unnumbered := known_of_pull hp hr
      exact hk

/-- Writes are compare-and-swaps: none replaced a record its writer had not seen. -/
structure NoUpdateLost (std : Stdlib) (g : String) (w : World δ) : Prop where
  /-- each accepted write replaced what its writer last saw, at the next version -/
  replaces : ∀ e ∈ w.log, e.write.replaced.map RecordRow.copy = e.base ∧
    e.write.row.version = baseVersion e.base + 1
  /-- the versions accepted for a slot are 1, 2, 3, … -/
  versions : ∀ slot, ∃ n : ℕ, versionsOf (w.log.map LogEntry.write) slot =
    (List.range n).map fun i : ℕ => (i : ℤ) + 1
  /-- the writes the next push would add to the log are those its answer accepts -/
  accepted : ∀ records result, (upsertRecords std g records w.conn).1 = .ok result →
    result.accepted = (batchWrites std g records
      (w.conn.tables, startResult g w.conn.tables)).map Write.entry

/-- Every disciplined run that starts without records loses no update. -/
theorem disciplined_run (std : Stdlib) (g : String) (events : List (DeviceEvent δ)) (t : Tables)
    (hnew : ∀ slot, storedItem g t slot = none)
    (hrun : (worldMachine std g).Throughout (Disciplined std) events (World.start t)) :
    NoUpdateLost std g ((worldMachine std g).final events (World.start t)) := by
  have hw : Swapping g ((worldMachine std g).final events (World.start t)) :=
    Machine.final_invariant (Swapping g) (fun e s he hs => worldMachine_step hs he) hrun
      (swapping_start hnew)
  generalize (worldMachine std g).final events (World.start t) = w at hw
  refine ⟨hw.replaces, fun slot => ?_, fun records result hres => ?_⟩
  · obtain ⟨n, hn, -⟩ := hw.ledger slot
    exact ⟨n, hn⟩
  · have hconn : w.conn = ⟨w.conn.tables, none⟩ := by rw [← hw.idle]
    rw [hconn, upsertRecords_idle] at hres
    cases hp : pushBatch std g records w.conn.tables with
    | error e =>
      rw [hp] at hres
      cases hres
    | ok p =>
      obtain ⟨t', s⟩ := p
      rw [hp] at hres
      cases hres
      obtain ⟨t1, hfold, -⟩ := pushBatch_eq_ok.mp hp
      simpa [startResult] using batchWrites_accepted hfold

end

/-- Two devices that have seen the first version race for the second; the one that loses looks again. -/
def sampleRace : List (DeviceEvent Bool) :=
  [.push false [sampleRecord 1 false], .pull true none 0, .push false [sampleRecord 2 true],
    .push true [sampleRecord 2 false], .pull true none 0, .push true [sampleRecord 3 false]]

theorem sampleRace_disciplined :
    NoUpdateLost .sample "g" ((worldMachine .sample "g").final sampleRace (World.start .empty)) ∧
      ((worldMachine .sample "g").final sampleRace (World.start .empty)).log.map
        (fun entry => (entry.device, entry.write.row.version)) = [(false, 1), (false, 2), (true, 3)] := by
  have hoffers : ∀ (d : Bool) (record : Json) (item : Item) (w : World Bool),
      itemOf .sample record = .ok item → item.version = baseVersion (w.seen d item.slot) + 1 →
        Disciplined .sample (.push d [record]) w := by
    intro d record item w hitem hversion r hr x hx
    rw [List.mem_singleton.mp hr, hitem] at hx
    cases hx
    exact hversion
  refine ⟨disciplined_run .sample "g" sampleRace .empty (fun _ => rfl) ⟨?_, trivial, ?_, ?_, trivial, ?_, trivial⟩,
    by decide +kernel⟩
  · exact hoffers false _ _ _ rfl rfl
  · exact hoffers false _ _ _ rfl (by decide +kernel)
  · exact hoffers true _ _ _ rfl (by decide +kernel)
  · exact hoffers true _ _ _ rfl (by decide +kernel)

end T3dmium
