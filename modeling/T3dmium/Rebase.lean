import T3dmium.Batches
import T3dmium.RoundTrip

/-! Rebasing a write that has lost: the next push at one version above the reported one. -/
namespace T3dmium

section
variable (std : Stdlib)

/-- `coll` and `rid` are bound to the slot. -/
def NamesSlot (coll rid : Json) (slot : Slot) : Prop :=
  bindText std.realText coll = .ok (some slot.collection) ∧
    bindText std.realText rid = .ok (some slot.recordId)

/-- A record for the slot with texts where the columns hold texts and an integer version. -/
structure RecordFor (slot : Slot) (version : ℤ) (r : Json) : Prop where
  collection : r.getItem "collection" = .ok (.text slot.collection)
  recordId : r.getItem "id" = .ok (.text slot.recordId)
  nonce : ∃ nonce, r.getItem "nonce" = .ok (.text nonce)
  ciphertext : ∃ ciphertext, r.getItem "ciphertext" = .ok (.text ciphertext)
  version : r.getItem "version" = .ok (.int version)
  alg : ∃ alg, r.get "alg" (.text "unknown") = .ok (.text alg)

end

/-- A push has reported a conflict for the slot, the server goes on to other requests, and
the record is pushed again at the next version. -/
structure Rebase (std : Stdlib) where
  conn : Conn Tables
  slot : Slot
  records : List Json
  answer : PushResult
  afterPush : Conn Tables
  conflict : Conflict
  beforeRetry : Conn Tables
  record : Json

namespace Rebase
variable {std : Stdlib} (e : Rebase std)

structure Proper : Prop where
  reachable : Reachable std e.conn
  answered : upsertRecords std e.slot.groupId e.records e.conn = (.ok e.answer, e.afterPush)
  reported : e.conflict ∈ e.answer.conflicts
  names : NamesSlot std e.conflict.collection e.conflict.recordId e.slot
  /-- the push itself has accepted no later write: those carry higher versions -/
  last : ∀ a ∈ e.answer.accepted, NamesSlot std a.collection a.recordId e.slot →
    a.version ≤ e.conflict.serverVersion
  /-- nor have the requests in between -/
  unwritten : Later std (fun req c => ¬ WritesSlot std e.slot req c) e.afterPush e.beforeRetry
  recordFor : RecordFor e.slot (e.conflict.serverVersion + 1) e.record

/-- The record is accepted, and the slot holds it. -/
def Succeeds : Prop :=
  ∃ s c', upsertRecords std e.slot.groupId [e.record] e.beforeRetry = (.ok s, c') ∧
    s.accepted = [⟨.text e.slot.collection, .text e.slot.recordId, e.conflict.serverVersion + 1⟩] ∧
    s.conflicts = [] ∧ ∃ row, c'.tables.records.find e.slot = some row ∧ row.ReadFrom std e.record

end Rebase

/-- A push of one record is accepted for the slot. -/
def Updatable (std : Stdlib) (slot : Slot) (c : Conn Tables) : Prop :=
  ∃ r s c', upsertRecords std slot.groupId [r] c = (.ok s, c') ∧
    ∃ a ∈ s.accepted, NamesSlot std a.collection a.recordId slot

/-- Whatever the server is asked, no push will ever be accepted for the slot. -/
def Stuck (std : Stdlib) (slot : Slot) (c : Conn Tables) : Prop :=
  ∀ d, Later std (fun _ _ => True) c d → ¬ Updatable std slot d

section
variable {std : Stdlib}

lemma NamesSlot.eq {coll rid : Json} {slot : Slot} {row : RecordRow}
    (h : NamesSlot std coll rid slot) (hg : row.groupId = slot.groupId)
    (hn : bindText std.realText coll = .ok (some row.collection) ∧
      bindText std.realText rid = .ok (some row.recordId)) : row.slot = slot := by
  have hc : row.collection = slot.collection := by simpa using hn.1.symm.trans h.1
  have hi : row.recordId = slot.recordId := by simpa using hn.2.symm.trans h.2
  rw [RecordRow.slot, hg, hc, hi]

/-! What a slot holds after a batch -/

/-- A reported version is the stored one, unless the batch has gone on to write above it. -/
lemma batch_reported {g : String} {records : List Json} {t : Tables} {p : Tables × PushResult}
    (h : records.foldlM (pushRecord std g) (t, startResult g t) = .ok p) {e : Conflict}
    (he : e ∈ p.2.conflicts) {slot : Slot} (hg : slot.groupId = g)
    (hn : NamesSlot std e.collection e.recordId slot) :
    ∃ row, p.1.records.find slot = some row ∧ (row.version = e.serverVersion ∨
      ∃ a ∈ p.2.accepted, NamesSlot std a.collection a.recordId slot ∧ e.serverVersion < a.version) := by
  refine batch_induction (fun q => ∀ e ∈ q.2.conflicts,
    NamesSlot std e.collection e.recordId slot → ∃ row, q.1.records.find slot = some row ∧
      (row.version = e.serverVersion ∨ ∃ a ∈ q.2.accepted,
        NamesSlot std a.collection a.recordId slot ∧ e.serverVersion < a.version)) ?_ h
    (fun e he => by cases he) e he hn
  intro r _ q v hv ih e he hn
  cases hv with
  | @conflict k old hk hold hgo hno hver =>
    rcases List.mem_append.mp he with he | he
    · exact ih e he hn
    · obtain rfl := List.mem_singleton.mp he
      obtain rfl : old.slot = slot := hn.eq (hgo.trans hg.symm) hno
      exact ⟨old, KeyedTable.find_eq_some.mpr ⟨hold, rfl⟩, Or.inl rfl⟩
  | @accept k row hk hr hgr hseq hold =>
    obtain ⟨row', hrow', hcase⟩ := ih e he hn
    simp only [Verdict.apply, find_putRecord, PushResult.accept]
    by_cases hs : row.slot = slot
    · subst hs
      refine ⟨row, if_pos rfl, Or.inr ?_⟩
      rcases hcase with heq | ⟨a, ha, hna, hlt⟩
      · have hlt := hold row' hrow'
        rw [heq, ← hr.key_version hk] at hlt
        exact ⟨_, List.mem_append_right _ List.mem_cons_self, hr.names hk, hlt⟩
      · exact ⟨a, List.mem_append_left _ ha, hna, hlt⟩
    · rw [if_neg hs]
      refine ⟨row', hrow', hcase.imp_right ?_⟩
      rintro ⟨a, ha, hna⟩
      exact ⟨a, List.mem_append_left _ ha, hna⟩

/-- The versions in the table have 64 bits. -/
def BoundedVersions (t : Tables) : Prop :=
  ∀ slot row, t.records.find slot = some row → IsInt64 row.version

lemma pushBatch_bounded {g : String} {records : List Json} {t t' : Tables} {s : PushResult}
    (h : pushBatch std g records t = .ok (t', s)) (ht : BoundedVersions t) : BoundedVersions t' := by
  obtain ⟨t1, hfold, rfl⟩ := pushBatch_eq_ok.mp h
  have hstep : ∀ r ∈ records, ∀ q v, Decides std g r q v → BoundedVersions q.1 →
      BoundedVersions (v.apply q).1 := by
    intro r _ q v hv hq
    cases hv with
    | conflict => exact hq
    | accept hk hr hg hseq hold =>
      intro slot row' hrow
      simp only [Verdict.apply, find_putRecord] at hrow
      split_ifs at hrow
      · obtain rfl := Option.some.inj hrow
        exact hr.int64
      · exact hq slot row' hrow
  exact batch_induction (fun q => BoundedVersions q.1) hstep hfold ht

lemma handle_bounded (std : Stdlib) {c : Conn Tables} (hc : c.Settled) (ht : BoundedVersions c.tables)
    (req : Request) : BoundedVersions (handle std req c).2.tables := by
  obtain ⟨-, h | ⟨op, -, -, hstep⟩⟩ := handle_tableStep std hc req
  · rw [h]
    exact ht
  · generalize (handle std req c).2.tables = t' at hstep ⊢
    cases hstep with
    | same => exact ht
    | register _ hreg =>
      obtain ⟨-, -, -, -, -, -, -, -, rfl⟩ := registerGroup_eq_ok.mp hreg
      exact ht
    | push hp => exact pushBatch_bounded hp ht

lemma Reachable.bounded {c : Conn Tables} (h : Reachable std c) : BoundedVersions c.tables :=
  (Later.invariant BoundedVersions (fun req _ _ hs ht => handle_bounded std hs ht req) h
    (Conn.Idle.settled rfl) fun _ _ hrow => nomatch hrow).2

/-! The retry -/

lemma RecordFor.readKey {slot : Slot} {version : ℤ} {r : Json} (h : RecordFor slot version r) :
    readKey std r = .ok ⟨.text slot.collection, .text slot.recordId, version⟩ := by
  simp only [T3dmium.readKey, h.collection, h.recordId, h.version, bind, Except.bind, Stdlib.int_int]

lemma RecordFor.readRow {slot : Slot} {version : ℤ} {r : Json} (h : RecordFor slot version r)
    (h64 : IsInt64 version) (seq : ℕ) : ∃ row : RecordRow, row.ReadFrom std r ∧
      row.slot = slot ∧ row.version = version ∧ row.seq = seq := by
  obtain ⟨nonce, hn⟩ := h.nonce
  obtain ⟨ciphertext, hct⟩ := h.ciphertext
  obtain ⟨alg, ha⟩ := h.alg
  obtain ⟨mark, hmark⟩ : ∃ mark, r.get "tombstone" .null = .ok mark := by
    cases r with
    | dict items => exact ⟨_, rfl⟩
    | _ => cases ha
  refine ⟨⟨slot.groupId, slot.collection, slot.recordId, nonce, ciphertext, version,
    if mark.truthy then 1 else 0, alg, seq⟩, ⟨?_, ?_, ?_, ?_, ?_, h64, ?_, ?_⟩, rfl, rfl, rfl⟩
  · simp only [TextField, h.collection, bind, Except.bind, bindText_text]
  · simp only [TextField, h.recordId, bind, Except.bind, bindText_text]
  · simp only [TextField, hn, bind, Except.bind, bindText_text]
  · simp only [TextField, hct, bind, Except.bind, bindText_text]
  · simp only [h.version, bind, Except.bind, Stdlib.int_int]
  · rw [hmark]
    rfl
  · simp only [ha, bind, Except.bind, bindText_text]

/-- A record at a higher version than the stored one is accepted and stored. -/
lemma upsertRecords_newer {slot : Slot} {version : ℤ} {r : Json} (hr : RecordFor slot version r)
    (h64 : IsInt64 version) {c : Conn Tables} (hidle : c.Idle)
    (hold : ∀ old, c.tables.records.find slot = some old → old.version < version) :
    ∃ s c', upsertRecords std slot.groupId [r] c = (.ok s, c') ∧
      s.accepted = [⟨.text slot.collection, .text slot.recordId, version⟩] ∧ s.conflicts = [] ∧
      ∃ row, c'.tables.records.find slot = some row ∧ row.ReadFrom std r := by
  obtain ⟨row, hrow, hslot, hver, hseq⟩ := hr.readRow h64 ((startResult slot.groupId c.tables).serverSeq + 1)
  have hpush : pushRecord std slot.groupId (c.tables, startResult slot.groupId c.tables) r = .ok _ :=
    pushRecord_eq_ok.mpr ⟨_, .accept hr.readKey hrow (congrArg Slot.groupId hslot) hseq
      (by rw [hslot, hver]; exact hold), rfl⟩
  have hbatch : pushBatch std slot.groupId [r] c.tables =
      .ok (updateSeq slot.groupId ((startResult slot.groupId c.tables).serverSeq + 1)
        (putRecord row c.tables),
        (startResult slot.groupId c.tables).accept
          ⟨.text slot.collection, .text slot.recordId, version⟩) := by
    refine pushBatch_eq_ok.mpr ⟨_, ?_, rfl⟩
    rw [List.foldlM_cons, hpush]
    rfl
  refine ⟨_, ⟨_, none⟩, upsertRecords_eq_ok.mpr ⟨hidle, rfl, hbatch⟩, rfl, rfl, row, ?_, hrow⟩
  change (putRecord row c.tables).records.find slot = some row
  rw [find_putRecord, if_pos hslot]

namespace Rebase.Proper
variable {e : Rebase std}

/-- The slot still holds the reported version when the record is pushed again. -/
lemma stored (he : e.Proper) : IsInt64 e.conflict.serverVersion ∧ ∃ row,
    e.beforeRetry.tables.records.find e.slot = some row ∧ row.version = e.conflict.serverVersion := by
  obtain ⟨-, hidle, hpush⟩ := upsertRecords_eq_ok.mp he.answered
  obtain ⟨t1, hfold, ht1⟩ := pushBatch_eq_ok.mp hpush
  obtain ⟨row, hrow, hver⟩ := batch_reported hfold he.reported rfl he.names
  have hafter : e.afterPush.tables.records.find e.slot = some row := by
    rw [ht1]
    exact hrow
  have hversion : row.version = e.conflict.serverVersion := by
    rcases hver with heq | ⟨a, ha, hna, hlt⟩
    · exact heq
    · exact absurd (he.last a ha hna) (not_le.mpr hlt)
  refine ⟨hversion ▸ pushBatch_bounded hpush he.reachable.bounded _ _ hafter, row, ?_, hversion⟩
  exact (Later.invariant (fun t => t.records.find e.slot = some row)
    (fun req c hno hs hfind => (handle_keepsSlot hs hno).trans hfind) he.unwritten
    hidle.settled hafter).2

lemma succeeds_iff (he : e.Proper) :
    e.Succeeds ↔ e.conflict.serverVersion + 1 < 2 ^ 63 ∧ e.beforeRetry.Idle := by
  obtain ⟨⟨hle, -⟩, row, hrow, hver⟩ := he.stored
  constructor
  · rintro ⟨s, c', hpush, -, -, row', -, hread⟩
    have hversion : e.conflict.serverVersion + 1 = row'.version :=
      hread.key_version he.recordFor.readKey
    rw [hversion]
    exact ⟨hread.int64.2, (upsertRecords_eq_ok.mp hpush).1⟩
  · rintro ⟨hlt, hidle⟩
    refine upsertRecords_newer he.recordFor ⟨by omega, hlt⟩ hidle fun old hold => ?_
    obtain rfl : row = old := Option.some.inj (hrow.symm.trans hold)
    rw [hver]
    exact lt_add_one _

end Rebase.Proper

/-! Slots that take no more writes -/

/-- A slot at the greatest version takes nothing from a batch. -/
lemma batch_refused {g : String} {records : List Json} {t : Tables} {p : Tables × PushResult}
    (h : records.foldlM (pushRecord std g) (t, startResult g t) = .ok p) {slot : Slot}
    (hg : slot.groupId = g) {old : RecordRow} (hold : t.records.find slot = some old)
    (hmax : old.version = 2 ^ 63 - 1) :
    ∀ a ∈ p.2.accepted, ¬ NamesSlot std a.collection a.recordId slot := by
  have hboth : p.1.records.find slot = some old ∧
      ∀ a ∈ p.2.accepted, ¬ NamesSlot std a.collection a.recordId slot := by
    refine batch_induction (fun q => q.1.records.find slot = some old ∧
      ∀ a ∈ q.2.accepted, ¬ NamesSlot std a.collection a.recordId slot) ?_ h
      ⟨hold, fun a ha => nomatch ha⟩
    intro r _ q v hv ⟨hfind, hno⟩
    cases hv with
    | conflict => exact ⟨hfind, hno⟩
    | @accept k row hk hr hgr hseq hlt =>
      have hs : row.slot ≠ slot := by
        rintro rfl
        have hver := hlt old hfind
        have h64 := hr.int64.2
        omega
      refine ⟨(find_putRecord row q.1 slot).trans ((if_neg hs).trans hfind), fun a ha hna => ?_⟩
      rcases List.mem_append.mp ha with ha | ha
      · exact hno a ha hna
      · obtain rfl := List.mem_singleton.mp ha
        exact hs (hna.eq (hgr.trans hg.symm) (hr.names hk))
  exact hboth.2

lemma not_writesSlot_of_max {slot : Slot} {c : Conn Tables} {old : RecordRow}
    (hold : c.tables.records.find slot = some old) (hmax : old.version = 2 ^ 63 - 1) {g : String}
    (hg : slot.groupId = g) {records : List Json} {s : PushResult} {c' : Conn Tables}
    (hpush : upsertRecords std g records c = (.ok s, c')) :
    ∀ a ∈ s.accepted, ¬ NamesSlot std a.collection a.recordId slot := by
  obtain ⟨-, -, hbatch⟩ := upsertRecords_eq_ok.mp hpush
  obtain ⟨t1, hfold, -⟩ := pushBatch_eq_ok.mp hbatch
  exact batch_refused hfold hg hold hmax

/-- A record of the slot with nothing in it. -/
def blankRecord (slot : Slot) (version : ℤ) : Json :=
  .object [("collection", .text slot.collection), ("id", .text slot.recordId), ("nonce", .text ""),
    ("ciphertext", .text ""), ("version", .int version)]

lemma blankRecord_recordFor (slot : Slot) (version : ℤ) :
    RecordFor slot version (blankRecord slot version) := by
  refine ⟨?_, ?_, ⟨"", ?_⟩, ⟨"", ?_⟩, ?_, "unknown", ?_⟩ <;> simp [blankRecord, List.lookup]

lemma stuck_of_max {slot : Slot} {c : Conn Tables} (hc : c.Settled) {old : RecordRow}
    (hold : c.tables.records.find slot = some old) (hmax : old.version = 2 ^ 63 - 1) :
    Stuck std slot c := by
  intro d hd hupdate
  obtain ⟨r, s, c', hpush, a, ha, hna⟩ := hupdate
  have hkept := (Later.invariant (fun t => t.records.find slot = some old)
    (fun req c _ hs hfind => (handle_keepsSlot hs ?_).trans hfind) hd hc hold).2
  · exact not_writesSlot_of_max hkept hmax rfl hpush a ha hna
  · rintro ⟨records, s, c', -, hpush, a, ha, hna⟩
    exact not_writesSlot_of_max hfind hmax rfl hpush a ha hna

/-- Below the greatest version there is room for one more. -/
lemma exists_newer {slot : Slot} {t : Tables} (ht : BoundedVersions t)
    (hmax : ∀ old, t.records.find slot = some old → old.version ≠ 2 ^ 63 - 1) :
    ∃ version, IsInt64 version ∧ ∀ old, t.records.find slot = some old → old.version < version := by
  cases hfind : t.records.find slot with
  | none => exact ⟨0, by decide, fun old hold => nomatch hold⟩
  | some old =>
    obtain ⟨hle, hlt⟩ := ht slot old hfind
    have hne := hmax old hfind
    refine ⟨old.version + 1, ⟨by omega, by omega⟩, fun old' hold => ?_⟩
    obtain rfl := Option.some.inj hold
    exact lt_add_one _

/-- A slot takes no more writes iff it has come to the greatest version. -/
lemma stuck_iff {slot : Slot} {c : Conn Tables} (hc : Reachable std c) :
    Stuck std slot c ↔ ∃ old, c.tables.records.find slot = some old ∧ old.version = 2 ^ 63 - 1 := by
  have hsettled := hc.wellNumbered.1
  constructor
  · intro hstuck
    by_contra hmax
    obtain ⟨version, h64, hold⟩ := @exists_newer slot _ hc.bounded
      fun old hold he => hmax ⟨old, hold, he⟩
    -- a restart ends whatever transaction is open
    have hnot := hstuck _ (.restart .refl)
    rw [hsettled.durable] at hnot
    obtain ⟨s, c', hpush, haccepted, -⟩ := upsertRecords_newer (blankRecord_recordFor slot version) h64
      (c := ⟨c.tables, none⟩) rfl hold
    exact hnot ⟨_, s, c', hpush, _, haccepted ▸ List.mem_cons_self, bindText_text _ _, bindText_text _ _⟩
  · intro ⟨old, hold, hmax⟩
    exact stuck_of_max hsettled hold hmax

/-- A reported conflict can be rebased iff the reported version is not the greatest and no
transaction has been left open, and a slot can be written again iff it does not hold the greatest. -/
theorem rebase_iff (std : Stdlib) :
    (∀ e : Rebase std, e.Proper →
      (e.Succeeds ↔ e.conflict.serverVersion + 1 < 2 ^ 63 ∧ e.beforeRetry.Idle)) ∧
    ∀ c, Reachable std c → ∀ slot, ¬ Stuck std slot c ↔
      ∀ old, c.tables.records.find slot = some old → old.version < 2 ^ 63 - 1 := by
  refine ⟨fun e he => he.succeeds_iff, fun c hc slot => ?_⟩
  rw [stuck_iff hc]
  constructor
  · intro hnot old hold
    have h64 := (hc.bounded slot old hold).2
    have hne : old.version ≠ 2 ^ 63 - 1 := fun he => hnot ⟨old, hold, he⟩
    omega
  · rintro hall ⟨old, hold, hmax⟩
    have hlt := hall old hold
    omega

end

/-! A sample slot, pushed twice at one version in the same batch -/

def sampleSlot : Slot := ⟨"g", "bookmarks", "bm-1"⟩

def sampleRow (version : ℤ) : RecordRow :=
  { groupId := "g", collection := "bookmarks", recordId := "bm-1", nonce := "", ciphertext := "",
    version := version, tombstone := 0, alg := "unknown",
    seq := (startResult "g" sampleStore.tables).serverSeq + 1 }

def sampleAnswer (version : ℤ) : PushResult :=
  ⟨[⟨.text "bookmarks", .text "bm-1", version⟩], [⟨.text "bookmarks", .text "bm-1", version, version⟩],
    (startResult "g" sampleStore.tables).serverSeq + 1⟩

def sampleRebase (version : ℤ) : Rebase .sample where
  conn := sampleStore
  slot := sampleSlot
  records := [blankRecord sampleSlot version, blankRecord sampleSlot version]
  answer := sampleAnswer version
  afterPush := ⟨updateSeq "g" (sampleRow version).seq (putRecord (sampleRow version) sampleStore.tables), none⟩
  conflict := ⟨.text "bookmarks", .text "bm-1", version, version⟩
  beforeRetry := ⟨updateSeq "g" (sampleRow version).seq (putRecord (sampleRow version) sampleStore.tables), none⟩
  record := blankRecord sampleSlot (version + 1)

lemma sampleRow_readFrom {version : ℤ} (h64 : IsInt64 version) :
    (sampleRow version).ReadFrom .sample (blankRecord sampleSlot version) := by
  constructor
  case int64 => exact h64
  all_goals simp [TextField, blankRecord, sampleSlot, sampleRow, List.lookup, bind, Except.bind, Except.map,
    Json.truthy]

lemma sampleRebase_answered {version : ℤ} (h64 : IsInt64 version) :
    upsertRecords .sample "g" (sampleRebase version).records sampleStore =
      (.ok (sampleAnswer version), (sampleRebase version).afterPush) := by
  obtain ⟨hidle, hempty, -⟩ := sampleStore_group
  have hkey := @RecordFor.readKey .sample _ _ _ (blankRecord_recordFor sampleSlot version)
  have hread := sampleRow_readFrom h64
  have haccept : Decides .sample "g" (blankRecord sampleSlot version)
      (sampleStore.tables, startResult "g" sampleStore.tables) (.accept ⟨.text "bookmarks", .text "bm-1", version⟩
        (sampleRow version)) := by
    refine .accept hkey hread rfl rfl fun old hold => ?_
    rw [hempty] at hold
    cases hold
  have hstored : sampleRow version ∈ (putRecord (sampleRow version) sampleStore.tables).records.rows :=
    (KeyedTable.find_eq_some.mp ((find_putRecord (sampleRow version) _ _).trans (if_pos rfl))).1
  have hfirst : pushRecord .sample "g" _ _ = .ok _ := pushRecord_eq_ok.mpr ⟨_, haccept, rfl⟩
  have hsecond : pushRecord .sample "g" (putRecord (sampleRow version) sampleStore.tables,
      (startResult "g" sampleStore.tables).accept ⟨.text "bookmarks", .text "bm-1", version⟩)
      (blankRecord sampleSlot version) = .ok (_, sampleAnswer version) :=
    pushRecord_eq_ok.mpr ⟨_, .conflict hkey hstored rfl (hread.names hkey) (le_refl version), rfl⟩
  refine upsertRecords_eq_ok.mpr ⟨hidle, rfl, pushBatch_eq_ok.mpr ⟨_, ?_, rfl⟩⟩
  calc [blankRecord sampleSlot version, blankRecord sampleSlot version].foldlM
        (pushRecord .sample "g") (sampleStore.tables, startResult "g" sampleStore.tables)
      = [blankRecord sampleSlot version].foldlM (pushRecord .sample "g") _ := by
        rw [List.foldlM_cons, hfirst]
        rfl
    _ = .ok _ := by
        rw [List.foldlM_cons]
        exact bind_eq_ok.mpr ⟨_, hsecond, rfl⟩

lemma sampleRebase_proper {version : ℤ} (h64 : IsInt64 version) : (sampleRebase version).Proper where
  reachable := sampleStore_reachable
  answered := sampleRebase_answered h64
  reported := List.mem_cons_self
  names := ⟨bindText_text _ _, bindText_text _ _⟩
  last a ha _ := by
    obtain rfl := List.mem_singleton.mp ha
    exact le_refl version
  unwritten := .refl
  recordFor := blankRecord_recordFor _ _

theorem sampleRebase_succeeds :
    (sampleRebase 7).Succeeds ∧ ¬ Stuck .sample sampleSlot sampleStore := by
  obtain ⟨-, hempty, -⟩ := sampleStore_group
  refine ⟨((rebase_iff .sample).1 (sampleRebase 7) (sampleRebase_proper (by decide))).mpr
    ⟨by change (7 + 1 : ℤ) < 2 ^ 63; norm_num, rfl⟩, ((rebase_iff .sample).2 sampleStore sampleStore_reachable sampleSlot).mpr ?_⟩
  intro old hold
  rw [hempty] at hold
  cases hold

/-- Accepted once, the greatest version can neither be rebased upon nor ever be replaced. -/
theorem sampleRebase_fails :
    (sampleRebase 9223372036854775807).Proper ∧ (sampleRebase 9223372036854775807).beforeRetry.Idle ∧
      ¬ (sampleRebase 9223372036854775807).Succeeds ∧
      Stuck .sample sampleSlot (sampleRebase 9223372036854775807).afterPush := by
  have h64 : IsInt64 9223372036854775807 := by
    unfold IsInt64
    norm_num
  have hproper := sampleRebase_proper h64
  refine ⟨hproper, rfl, ?_, ?_⟩
  · rw [hproper.succeeds_iff]
    rintro ⟨hlt, -⟩
    change (9223372036854775807 + 1 : ℤ) < 2 ^ 63 at hlt
    norm_num at hlt
  · have hfind : (sampleRebase 9223372036854775807).afterPush.tables.records.find sampleSlot =
        some (sampleRow 9223372036854775807) := (find_putRecord _ _ _).trans (if_pos rfl)
    refine stuck_of_max (Conn.Idle.settled rfl) hfind ?_
    change (9223372036854775807 : ℤ) = 2 ^ 63 - 1
    norm_num

end T3dmium
