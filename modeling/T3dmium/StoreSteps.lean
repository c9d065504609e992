import T3dmium.Store

/-! What the store operations do to the tables, transactions aside: each runs a
pure function of the tables, or fails and leaves them as they were. -/
namespace T3dmium

section
variable (std : Stdlib)

/-- What is decided about one record of a batch. -/
inductive Verdict
  | conflict (k : RecordKey) (serverVersion : ℤ)
  | accept (k : RecordKey) (row : RecordRow)

/-- The tables and the result so far, after a verdict. -/
def Verdict.apply (p : Tables × PushResult) : Verdict → Tables × PushResult
  | .conflict k serverVersion => (p.1, p.2.conflict k serverVersion)
  | .accept k row => (putRecord row p.1, p.2.accept k)

def verdict (groupId : String) (p : Tables × PushResult) (r : Json) : Except PyError Verdict := do
  let k ← readKey std r
  let ex ← selectVersion std groupId k.coll k.rid p.1
  match ex.filter (k.ver ≤ ·) with
  | some serverVersion => .ok (.conflict k serverVersion)
  | none =>
    let row ← readRow std groupId k r (p.2.serverSeq + 1)
    .ok (.accept k row)

def pushRecord (groupId : String) (p : Tables × PushResult) (r : Json) :
    Except PyError (Tables × PushResult) := do
  let v ← verdict std groupId p r
  .ok (v.apply p)

def startResult (groupId : String) (t : Tables) : PushResult :=
  ⟨[], [], (selectSeq groupId t).getD 0⟩

def pushBatch (groupId : String) (records : List Json) (t : Tables) :
    Except PyError (Tables × PushResult) := do
  let p ← records.foldlM (pushRecord std groupId) (t, startResult groupId t)
  .ok (updateSeq groupId p.2.serverSeq p.1, p.2)

lemma upsertRecord_apply (groupId : String) (s : PushResult) (r : Json) (t u : Tables) :
    upsertRecord std groupId s r ⟨t, some u⟩ =
      match pushRecord std groupId (t, s) r with
      | .ok p => (.ok p.2, ⟨p.1, some u⟩)
      | .error e => (.error e, ⟨t, some u⟩) := by
  simp only [upsertRecord, pushRecord, verdict, Sql.bind_apply, Sql.lift_apply, Sql.select_apply]
  cases readKey std r with
  | error e => rfl
  | ok k =>
    simp only [bind, Except.bind]
    cases selectVersion std groupId k.coll k.rid t with
    | error e => rfl
    | ok ex =>
      simp only
      cases ex.filter (k.ver ≤ ·) with
      | some v => rfl
      | none =>
        simp only [Sql.lift_apply]
        cases readRow std groupId k r (s.serverSeq + 1) <;> rfl

lemma upsertLoop_apply (groupId : String) (records : List Json) (s : PushResult) (t u : Tables) :
    match records.foldlM (pushRecord std groupId) (t, s) with
    | .ok p => records.foldlM (upsertRecord std groupId) s ⟨t, some u⟩ = (.ok p.2, ⟨p.1, some u⟩)
    | .error e => ∃ t', records.foldlM (upsertRecord std groupId) s ⟨t, some u⟩ =
        (.error e, ⟨t', some u⟩) := by
  induction records generalizing s t with
  | nil => rfl
  | cons r records ih =>
    have hr := upsertRecord_apply std groupId s r t u
    simp only [List.foldlM_cons]
    cases hp : pushRecord std groupId (t, s) r with
    | error e =>
      rw [hp] at hr
      exact ⟨t, Sql.bind_error hr⟩
    | ok p =>
      rw [hp] at hr
      rw [Sql.bind_ok hr]
      exact ih p.2 p.1

/-- A push runs its batch or changes nothing, and leaves no transaction open. -/
theorem upsertRecords_idle (groupId : String) (records : List Json) (t : Tables) :
    upsertRecords std groupId records ⟨t, none⟩ =
      match pushBatch std groupId records t with
      | .ok p => (.ok p.2, ⟨p.1, none⟩)
      | .error e => (.error e, ⟨t, none⟩) := by
  have hloop := upsertLoop_apply std groupId records (startResult groupId t) t t
  simp only [startResult] at hloop
  simp only [upsertRecords, pushBatch, Sql.orRollback, Sql.bind_apply, Sql.begin_idle,
    Sql.select_apply, startResult]
  cases hp : records.foldlM (pushRecord std groupId) (t, ⟨[], [], (selectSeq groupId t).getD 0⟩) with
  | error e =>
    rw [hp] at hloop
    obtain ⟨t', ht'⟩ := hloop
    rw [ht']
    rfl
  | ok p =>
    rw [hp] at hloop
    simp only at hloop
    rw [hloop]
    rfl

lemma upsertRecords_open (groupId : String) (records : List Json) (t u : Tables) :
    upsertRecords std groupId records ⟨t, some u⟩ = (.error .operationalError, ⟨u, none⟩) := rfl

/-! `create_group` -/

/-- Both inserts of a registration. -/
def registerGroup (groupId authHash pairingSalt : Json) (t : Tables) : Except PyError Tables := do
  let t ← insertGroup std groupId authHash pairingSalt t
  insertCounter std groupId t

/-- `create_group` answers from the row it finds, or registers the group and commits;
a failing insert leaves the transaction open. -/
theorem createGroup_apply (groupId authHash pairingSalt : Json) (c : Conn Tables) :
    createGroup std groupId authHash pairingSalt c =
      match selectAuthHash std groupId c.tables with
      | .error e => (.error e, c)
      | .ok (some stored) => (compareDigestJson stored authHash, c)
      | .ok none =>
        match registerGroup std groupId authHash pairingSalt c.tables with
        | .ok t => (.ok true, ⟨t, none⟩)
        | .error e => (.error e, c.opened) := by
  simp only [createGroup, Sql.bind_apply, Sql.select_apply]
  cases hs : selectAuthHash std groupId c.tables with
  | error e => rfl
  | ok row =>
    cases row with
    | some stored => rfl
    | none =>
      simp only [registerGroup, bind, Except.bind]
      cases hg : insertGroup std groupId authHash pairingSalt c.tables with
      | error e => rw [Sql.dml_error hg]
      | ok t =>
        rw [Sql.dml_ok hg]
        simp only
        cases hb : bindText std.realText groupId with
        | error e =>
          simp only [selectAuthHash, hb, bind, Except.bind] at hs
          cases hs
        | ok g =>
          have hc : insertCounter std groupId t =
              .ok { t with seqCounter := t.seqCounter.insertOrIgnore ⟨g, 0⟩ } := by
            simp only [insertCounter, hb, bind, Except.bind]
          rw [Sql.dml_ok hc, hc]
          rfl

lemma getGroupAuthHash_apply (groupId : String) (c : Conn Tables) :
    getGroupAuthHash std groupId c =
      (.ok ((c.tables.groups.find groupId).map GroupRow.authHash), c) := by
  simp [getGroupAuthHash, selectAuthHash, bind, Except.bind]

/-- The answer to a query on given tables. -/
def pullRecords (groupId : String) (collection : Option String) (since : ℤ) (t : Tables) :
    Except PyError PullResult := do
  let rows ← selectRecords groupId collection since t
  .ok ⟨rows.map RecordRow.pulled,
    ((rows.map RecordRow.pulled).getLast?.map fun r => (r.seq : ℤ)).getD since⟩

lemma queryRecords_apply (groupId : String) (collection : Option String) (since : ℤ)
    (c : Conn Tables) :
    queryRecords groupId collection since c =
      (pullRecords groupId collection since c.tables, c) := by
  simp only [queryRecords, Sql.bind_apply, Sql.select_apply, pullRecords]
  cases selectRecords groupId collection since c.tables <;> rfl

end

/-! Records of a batch -/

section
variable {std : Stdlib}

/-- `r[field]`, bound to a TEXT column, is `s`. -/
def TextField (std : Stdlib) (r : Json) (field s : String) : Prop :=
  (r.getItem field >>= bindText std.realText) = .ok (some s)

/-- `row` holds what `r` says, its group and number aside. -/
structure RecordRow.ReadFrom (std : Stdlib) (r : Json) (row : RecordRow) : Prop where
  collection : TextField std r "collection" row.collection
  recordId : TextField std r "id" row.recordId
  nonce : TextField std r "nonce" row.nonce
  ciphertext : TextField std r "ciphertext" row.ciphertext
  version : (r.getItem "version" >>= std.int) = .ok row.version
  int64 : IsInt64 row.version
  tombstone : ((r.get "tombstone" .null).map fun v => if v.truthy then (1 : ℤ) else 0) = .ok row.tombstone
  alg : (r.get "alg" (.text "unknown") >>= bindText std.realText) = .ok (some row.alg)

lemma readKey_ok {r : Json} {k : RecordKey} (h : readKey std r = .ok k) :
    r.getItem "collection" = .ok k.coll ∧ r.getItem "id" = .ok k.rid ∧
      (r.getItem "version" >>= std.int) = .ok k.ver := by
  simp only [readKey, bind_eq_ok] at h
  obtain ⟨coll, hc, rid, hi, v, hv, ver, hver, h⟩ := h
  cases h
  exact ⟨hc, hi, bind_eq_ok.mpr ⟨v, hv, hver⟩⟩

lemma readRow_eq_ok {groupId : String} {r : Json} {k : RecordKey} {seq : ℕ} {row : RecordRow}
    (hk : readKey std r = .ok k) :
    readRow std groupId k r seq = .ok row ↔
      row.ReadFrom std r ∧ row.groupId = groupId ∧ row.seq = seq := by
  obtain ⟨hc, hi, hv⟩ := readKey_ok hk
  constructor
  · intro h
    simp only [readRow, recordRow, bind_eq_ok, notNull_eq_ok, bindInt_eq_ok] at h
    obtain ⟨nonce, hn, ct, hct, tombstone, ht, alg, ha, _, hbc, _, hbi, _, hbn, _, hbct, _,
      ⟨h64, rfl⟩, _, hba, c, rfl, i, rfl, n, rfl, x, rfl, a, rfl, h⟩ := h
    cases h
    refine ⟨⟨?_, ?_, ?_, ?_, hv, h64, ?_, ?_⟩, rfl, rfl⟩
    · exact bind_eq_ok.mpr ⟨_, hc, hbc⟩
    · exact bind_eq_ok.mpr ⟨_, hi, hbi⟩
    · exact bind_eq_ok.mpr ⟨_, hn, hbn⟩
    · exact bind_eq_ok.mpr ⟨_, hct, hbct⟩
    · rw [ht]
      rfl
    · exact bind_eq_ok.mpr ⟨_, ha, hba⟩
  · rintro ⟨h, rfl, rfl⟩
    obtain ⟨c, hc', hbc⟩ := bind_eq_ok.mp h.collection
    obtain ⟨i, hi', hbi⟩ := bind_eq_ok.mp h.recordId
    obtain ⟨n, hn, hbn⟩ := bind_eq_ok.mp h.nonce
    obtain ⟨ct, hct, hbct⟩ := bind_eq_ok.mp h.ciphertext
    obtain ⟨a, ha, hba⟩ := bind_eq_ok.mp h.alg
    have hver : k.ver = row.version := Except.ok.inj (hv.symm.trans h.version)
    cases ht : r.get "tombstone" .null with
    | error e =>
      have hh := h.tombstone
      rw [ht] at hh
      cases hh
    | ok t =>
      have hh := h.tombstone
      rw [ht] at hh
      have htomb : (if t.truthy then (1 : ℤ) else 0) = row.tombstone := Except.ok.inj hh
      rw [hc] at hc'
      rw [hi] at hi'
      cases hc'
      cases hi'
      simp only [readRow, recordRow, bind_eq_ok, notNull_eq_ok, bindInt_eq_ok]
      exact ⟨n, hn, ct, hct, t, ht, a, ha, _, hbc, _, hbi, _, hbn, _, hbct, _,
        ⟨hver ▸ h.int64, rfl⟩, _, hba, _, rfl, _, rfl, _, rfl, _, rfl, _, rfl, by rw [hver, htomb]⟩

/-- `k` is bound to the slot of `row`. -/
def RecordKey.Names (std : Stdlib) (k : RecordKey) (row : RecordRow) : Prop :=
  bindText std.realText k.coll = .ok (some row.collection) ∧
    bindText std.realText k.rid = .ok (some row.recordId)

lemma RecordRow.ReadFrom.names {r : Json} {k : RecordKey} {row : RecordRow}
    (h : row.ReadFrom std r) (hk : readKey std r = .ok k) : k.Names std row := by
  obtain ⟨hc, hi, -⟩ := readKey_ok hk
  obtain ⟨c, hc', hbc⟩ := bind_eq_ok.mp h.collection
  obtain ⟨i, hi', hbi⟩ := bind_eq_ok.mp h.recordId
  rw [hc] at hc'
  rw [hi] at hi'
  cases hc'
  cases hi'
  exact ⟨hbc, hbi⟩

/-- Group and number are not read off the record. -/
lemma RecordRow.ReadFrom.renumber {r : Json} {row : RecordRow} (h : row.ReadFrom std r) (g : String)
    (n : ℕ) : RecordRow.ReadFrom std r { row with groupId := g, seq := n } :=
  ⟨h.collection, h.recordId, h.nonce, h.ciphertext, h.version, h.int64, h.tombstone, h.alg⟩

lemma RecordRow.ReadFrom.key_version {r : Json} {k : RecordKey} {row : RecordRow}
    (h : row.ReadFrom std r) (hk : readKey std r = .ok k) : k.ver = row.version :=
  Except.ok.inj ((readKey_ok hk).2.2.symm.trans h.version)

/-- When each verdict is passed: a record loses to a stored row, or is stored over
lower versions under the next number. -/
inductive Decides (std : Stdlib) (groupId : String) (r : Json) (p : Tables × PushResult) :
    Verdict → Prop
  | conflict {k old} (hk : readKey std r = .ok k) (hold : old ∈ p.1.records.rows)
      (hg : old.groupId = groupId) (hn : k.Names std old) (hv : k.ver ≤ old.version) :
      Decides std groupId r p (.conflict k old.version)
  | accept {k row} (hk : readKey std r = .ok k) (hr : row.ReadFrom std r)
      (hg : row.groupId = groupId) (hseq : row.seq = p.2.serverSeq + 1)
      (hold : ∀ old, p.1.records.find row.slot = some old → old.version < row.version) :
      Decides std groupId r p (.accept k row)

lemma selectVersion_names {groupId : String} {k : RecordKey} {row : RecordRow} {t : Tables}
    (hn : k.Names std row) (hg : row.groupId = groupId) :
    selectVersion std groupId k.coll k.rid t =
      .ok ((t.records.find row.slot).map RecordRow.version) := by
  subst hg
  simp only [selectVersion, hn.1, hn.2, bind, Except.bind, Option.bind, RecordRow.slot]

theorem verdict_eq_ok {groupId : String} {r : Json} {p : Tables × PushResult} {v : Verdict} :
    verdict std groupId p r = .ok v ↔ Decides std groupId r p v := by
  constructor
  · intro h
    simp only [verdict, bind_eq_ok] at h
    obtain ⟨k, hk, ex, hex, h⟩ := h
    cases hf : ex.filter (k.ver ≤ ·) with
    | some sv =>
      rw [hf] at h
      cases h
      obtain ⟨rfl, hv⟩ := Option.filter_eq_some_iff.mp hf
      simp only [selectVersion, bind_eq_ok] at hex
      obtain ⟨c, hc, i, hi, hfind⟩ := hex
      have hfind := Except.ok.inj hfind
      simp only [Option.bind_eq_some_iff, Option.map_eq_some_iff] at hfind
      obtain ⟨c, rfl, i, rfl, old, hold, rfl⟩ := hfind
      obtain ⟨hmem, hkey⟩ := KeyedTable.find_eq_some.mp hold
      simp only [RecordRow.key, RecordRow.slot, Option.some.injEq, Slot.mk.injEq] at hkey
      obtain ⟨rfl, rfl, rfl⟩ := hkey
      exact .conflict hk hmem rfl ⟨hc, hi⟩ (by simpa using hv)
    | none =>
      rw [hf] at h
      obtain ⟨row, hrow, h⟩ := bind_eq_ok.mp h
      cases h
      obtain ⟨hr, hg, hseq⟩ := (readRow_eq_ok hk).mp hrow
      refine .accept hk hr hg hseq ?_
      intro old hold
      rw [selectVersion_names (hr.names hk) hg, hold] at hex
      cases hex
      have hv : ¬ k.ver ≤ old.version := by simpa [Option.filter] using hf
      rw [hr.key_version hk] at hv
      exact not_le.mp hv
  · intro h
    simp only [verdict, bind_eq_ok]
    cases h with
    | @conflict k old hk hold hg hn hv =>
      refine ⟨k, hk, _, selectVersion_names hn hg, ?_⟩
      have hf : p.1.records.find old.slot = some old := KeyedTable.find_eq_some.mpr ⟨hold, rfl⟩
      rw [hf]
      simp [Option.filter, hv]
    | @accept k row hk hr hg hseq hold =>
      refine ⟨k, hk, _, selectVersion_names (hr.names hk) hg, ?_⟩
      have hf : ((p.1.records.find row.slot).map RecordRow.version).filter (k.ver ≤ ·) = none := by
        cases hfind : p.1.records.find row.slot with
        | none => rfl
        | some old =>
          have hlt := hold old hfind
          rw [← hr.key_version hk] at hlt
          simp [Option.filter, hlt]
      rw [hf]
      exact bind_eq_ok.mpr ⟨row, (readRow_eq_ok hk).mpr ⟨hr, hg, hseq⟩, rfl⟩

/-- A record that can be stored is accepted or loses to a row. -/
lemma exists_verdict {r : Json} {row : RecordRow} (h : row.ReadFrom std r) (groupId : String)
    (p : Tables × PushResult) : ∃ v, Decides std groupId r p v := by
  have hr := h.renumber groupId (p.2.serverSeq + 1)
  obtain ⟨coll, hcoll, -⟩ := bind_eq_ok.mp h.collection
  obtain ⟨rid, hrid, -⟩ := bind_eq_ok.mp h.recordId
  obtain ⟨ver, hver, hint⟩ := bind_eq_ok.mp h.version
  have hk : readKey std r = .ok ⟨coll, rid, row.version⟩ := by
    simp only [readKey, hcoll, hrid, hver, hint, bind, Except.bind]
  by_cases hold : ∃ old, p.1.records.find ⟨groupId, row.collection, row.recordId⟩ = some old ∧
      row.version ≤ old.version
  · obtain ⟨old, hfind, hle⟩ := hold
    obtain ⟨hmem, hkey⟩ := KeyedTable.find_eq_some.mp hfind
    have hslot := Slot.mk.inj (Option.some.inj hkey)
    have hnames := h.names hk
    exact ⟨_, .conflict hk hmem hslot.1 ⟨hslot.2.1 ▸ hnames.1, hslot.2.2 ▸ hnames.2⟩ hle⟩
  · refine ⟨_, .accept hk hr rfl rfl fun old hfind => ?_⟩
    by_contra hle
    exact hold ⟨old, hfind, not_lt.mp hle⟩

theorem pushRecord_eq_ok {groupId : String} {r : Json} {p p' : Tables × PushResult} :
    pushRecord std groupId p r = .ok p' ↔ ∃ v, Decides std groupId r p v ∧ v.apply p = p' := by
  simp only [pushRecord, bind_eq_ok, verdict_eq_ok, Except.ok.injEq]

/-- What every record of a batch preserves, the batch preserves. -/
theorem batch_induction {groupId : String} (P : Tables × PushResult → Prop) {records : List Json}
    {p p' : Tables × PushResult}
    (hstep : ∀ r ∈ records, ∀ q v, Decides std groupId r q v → P q → P (v.apply q))
    (h : records.foldlM (pushRecord std groupId) p = .ok p') (hp : P p) : P p' := by
  induction records generalizing p with
  | nil =>
    cases h
    exact hp
  | cons r records ih =>
    obtain ⟨q, hq, h⟩ := bind_eq_ok.mp h
    obtain ⟨v, hv, rfl⟩ := pushRecord_eq_ok.mp hq
    have hP := hstep r List.mem_cons_self p v hv hp
    exact ih (fun r' hr' => hstep r' (List.mem_cons_of_mem _ hr')) h hP

lemma pushBatch_eq_ok {groupId : String} {records : List Json} {t t' : Tables} {s : PushResult} :
    pushBatch std groupId records t = .ok (t', s) ↔
      ∃ t1, records.foldlM (pushRecord std groupId) (t, startResult groupId t) = .ok (t1, s) ∧
        t' = updateSeq groupId s.serverSeq t1 := by
  simp only [pushBatch, bind_eq_ok, Except.ok.injEq, Prod.mk.injEq, Prod.exists]
  constructor
  · rintro ⟨t1, s', h, rfl, rfl⟩
    exact ⟨t1, h, rfl⟩
  · rintro ⟨t1, h, rfl⟩
    exact ⟨t1, s, h, rfl, rfl⟩

/-- A batch of records that can be stored goes through. -/
lemma pushBatch_total {groupId : String} {records : List Json}
    (h : ∀ r ∈ records, ∃ row : RecordRow, row.ReadFrom std r) (t : Tables) :
    ∃ p, pushBatch std groupId records t = .ok p := by
  have hfold : ∀ p, ∃ p', records.foldlM (pushRecord std groupId) p = .ok p' := by
    intro p
    induction records generalizing p with
    | nil => exact ⟨p, rfl⟩
    | cons r records ih =>
      obtain ⟨row, hrow⟩ := h r List.mem_cons_self
      obtain ⟨v, hv⟩ := exists_verdict hrow groupId p
      obtain ⟨p', hp'⟩ := ih (fun r' hr' => h r' (List.mem_cons_of_mem _ hr')) (v.apply p)
      exact ⟨p', bind_eq_ok.mpr ⟨_, pushRecord_eq_ok.mpr ⟨v, hv, rfl⟩, hp'⟩⟩
  obtain ⟨p', hp'⟩ := hfold (t, startResult groupId t)
  exact ⟨_, bind_eq_ok.mpr ⟨p', hp', rfl⟩⟩

lemma pushBatch_groups {groupId : String} {records : List Json} {t : Tables}
    {p : Tables × PushResult} (h : pushBatch std groupId records t = .ok p) :
    p.1.groups = t.groups := by
  obtain ⟨t', s⟩ := p
  obtain ⟨t1, hfold, rfl⟩ := pushBatch_eq_ok.mp h
  have hstep : ∀ r ∈ records, ∀ q v, Decides std groupId r q v →
      q.1.groups = t.groups → (v.apply q).1.groups = t.groups := by
    intro r _ q v hv hq
    cases hv <;> exact hq
  have hkept : (t1, s).1.groups = t.groups :=
    batch_induction (fun q => q.1.groups = t.groups) hstep hfold rfl
  exact hkept

end
end T3dmium
