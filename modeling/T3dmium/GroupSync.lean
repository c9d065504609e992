import T3dmium.Replay
import T3dmium.RoundTrip

/-! A group in sync, end to end: devices seal records and push them, the server
arbitrates, and a device that pulls opens for every item the latest version that any
of them got across. -/
namespace T3dmium

section
variable {std : Stdlib} {keys : GroupKeys}

/-- `r` is `p` as the server shows it, and opens to what was sealed. -/
structure Opens (p : ProducedRecord std keys) (r : PulledRecord) : Prop where
  collection : p.collection = .ofString r.collection
  recordId : p.recordId = .ofString r.recordId
  version : r.version = p.version
  tombstone : r.tombstone = p.tombstone
  body : decryptRecord std keys r.toJson = .ok p.body

/-- The batch is routed to the store under the group's name, and answered. -/
def Uploads (std : Stdlib) (keys : GroupKeys) (records : List Json) (req : Request)
    (c : Conn Tables) : Prop :=
  (route std req c).1 = .ok (.store (.upsertRecords keys.groupId records)) ∧
    ∃ resp, (handle std req c).1 = .ok resp

/-- Whoever uploads to the group has sealed what he uploads. -/
def SealsUploads (std : Stdlib) (keys : GroupKeys) : SyncEvent → Conn Tables × Device → Prop
  | .request req, s => ∀ records, Uploads std keys records req s.1 →
      ∀ r ∈ records, ∃ p : ProducedRecord std keys, p.record = r
  | .pull, _ => True

/-- The sealed records that an event gets across. -/
def delivers (std : Stdlib) (keys : GroupKeys) :
    SyncEvent → Conn Tables × Device → Set (ProducedRecord std keys)
  | .request req, s => {p | ∃ records, Uploads std keys records req s.1 ∧ p.record ∈ records}
  | .pull, _ => ∅

/-- What got across in a run from a fresh server. -/
def delivered (std : Stdlib) (keys : GroupKeys) (filter : Option String) (events : List SyncEvent) :
    Set (ProducedRecord std keys) :=
  (syncMachine std keys.groupId filter).gathered (delivers std keys) events (initSchema, .fresh)

/-- Every mirrored record is a latest one of those that got across for its item, and
every item of the filter with such a record is mirrored. -/
structure MirrorsLatest (filter : Option String) (sent : Set (ProducedRecord std keys))
    (mirror : String × String → Option PulledRecord) : Prop where
  opens : ∀ slot r, mirror slot = some r → r.slot = slot ∧ admits filter slot.1 = true ∧
    ∃ p ∈ sent, Opens p r
  latest : ∀ p ∈ sent, ∃ collection recordId, p.collection = .ofString collection ∧
    p.recordId = .ofString recordId ∧ (admits filter collection = true →
      ∃ r, mirror (collection, recordId) = some r ∧ p.version ≤ r.version)

def RowsOpen (sent : Set (ProducedRecord std keys)) (t : Tables) : Prop :=
  ∀ slot row, t.records.find slot = some row → slot.groupId = keys.groupId →
    ∃ p ∈ sent, Opens p row.pulled

/-- The rows of the group are sealed records that got across, and no earlier than any
other of their slot. -/
structure StoresLatest (sent : Set (ProducedRecord std keys)) (t : Tables) : Prop where
  opens : RowsOpen sent t
  latest : ∀ p ∈ sent, Superseded std keys.groupId [p.record] t

/-! One record -/

/-- What a device computes of a pulled record. -/
lemma decryptRecord_pulled (r : PulledRecord) :
    decryptRecord std keys r.toJson =
      b64uDec (.ofString r.nonce) >>= fun nonce => b64uDec (.ofString r.ciphertext) >>= fun blob =>
        aeadDecrypt std keys.kEnc keys.kMac nonce blob
          (recordAad std (.text r.collection) (.text r.recordId) (.int r.version)
            (.bool r.tombstone)) := by
  apply decryptRecord_object <;> simp [PulledRecord.toJson, List.lookup, Json.text]

/-- A text field that the server reads off a sealed record is the field itself. -/
lemma textField_eq {p : ProducedRecord std keys} {name text : String} {s : PyStr}
    (hs : p.record.getItem name = .ok (.str s)) (h : TextField std p.record name text) :
    s = .ofString text := by
  rw [TextField, hs] at h
  obtain ⟨t, hst, ht⟩ := bindText_str h
  rw [hst, Option.some.inj ht]

lemma RecordRow.ReadFrom.opens {p : ProducedRecord std keys} {row : RecordRow}
    (h : row.ReadFrom std p.record) : Opens p row.pulled := by
  have hcollection : p.collection = .ofString row.collection :=
    textField_eq (by simp [p.record_eq, wireRecord, List.lookup]) h.collection
  have hrecordId : p.recordId = .ofString row.recordId :=
    textField_eq (by simp [p.record_eq, wireRecord, List.lookup]) h.recordId
  have hnonce : .ofString (b64u p.usedNonce) = PyStr.ofString row.nonce :=
    textField_eq (by simp [p.record_eq, wireRecord, List.lookup, Json.text]) h.nonce
  have hblob : .ofString (b64u p.blob) = PyStr.ofString row.ciphertext :=
    textField_eq (by simp [p.record_eq, wireRecord, List.lookup, Json.text]) h.ciphertext
  have hversion : row.version = p.version := by
    have hv := h.version
    simp only [p.record_eq, wireRecord, Json.getItem_object, List.lookup, bind, Except.bind] at hv
    simpa using hv.symm
  have htombstone : (row.tombstone != 0) = p.tombstone := by
    have ht := h.tombstone
    simp only [p.record_eq, wireRecord] at ht
    cases hp : p.tombstone <;> simp [hp, List.lookup, Except.map] at ht <;> simp [← ht]
  refine ⟨hcollection, hrecordId, hversion, htombstone, ?_⟩
  have hopen := decryptRecord_record p
  rw [p.record_eq, decryptRecord_wireRecord, hcollection, hrecordId] at hopen
  rw [decryptRecord_pulled, ← hopen]
  change (b64uDec (.ofString row.nonce) >>= fun nonce => b64uDec (.ofString row.ciphertext) >>= _) = _
  rw [← hnonce, ← hblob, b64uDec_b64u, b64uDec_b64u, ← hversion, ← htombstone]
  rfl

/-! One request -/

lemma StoresLatest.of_find {sent : Set (ProducedRecord std keys)} {t t' : Tables}
    (h : StoresLatest sent t) (hgrow : VersionsGrow t t')
    (hfind : ∀ slot, slot.groupId = keys.groupId → t'.records.find slot = t.records.find slot) :
    StoresLatest sent t' where
  opens slot row hrow hg := h.opens slot row (hfind slot hg ▸ hrow) hg
  latest p hp := (h.latest p hp).grow hgrow

lemma StoresLatest.upload {sent : Set (ProducedRecord std keys)} {records : List Json} {t : Tables}
    {q : Tables × PushResult} (h : StoresLatest sent t)
    (hsealed : ∀ r ∈ records, ∃ p : ProducedRecord std keys, p.record = r)
    (hq : pushBatch std keys.groupId records t = .ok q) :
    StoresLatest (sent ∪ {p | p.record ∈ records}) q.1 := by
  obtain ⟨t', s⟩ := q
  obtain ⟨t1, hfold, rfl⟩ := pushBatch_eq_ok.mp hq
  constructor
  case opens =>
    have hrows : RowsOpen (sent ∪ {p | p.record ∈ records}) t1 :=
      batch_induction (fun q => RowsOpen (sent ∪ {p | p.record ∈ records}) q.1) ?_ hfold ?_
    · exact hrows
    · intro r hr q v hv ih slot row hrow hg
      cases hv with
      | conflict => exact ih slot row hrow hg
      | @accept k new hk hread hgroup hseq hold =>
        simp only [Verdict.apply, find_putRecord] at hrow
        split_ifs at hrow with hslot
        · obtain ⟨p, rfl⟩ := hsealed r hr
          cases hrow
          exact ⟨p, Or.inr hr, hread.opens⟩
        · exact ih slot row hrow hg
    · intro slot row hrow hg
      obtain ⟨p, hp, hopens⟩ := h.opens slot row hrow hg
      exact ⟨p, Or.inl hp, hopens⟩
  case latest =>
    have hseq : VersionsGrow t1 (updateSeq keys.groupId s.serverSeq t1) := .of_records_eq rfl
    rintro p (hp | hp)
    · exact ((h.latest p hp).grow (fold_versionsGrow hfold)).grow hseq
    · intro r hr
      rw [List.mem_singleton.mp hr]
      exact (fold_superseded hfold).grow hseq p.record hp

/-- A batch that reaches the store is answered, or raises and leaves the tables as they were. -/
lemma handle_batch {c : Conn Tables} (hc : c.Settled) {req : Request} {g : String}
    {records : List Json} (hr : (route std req c).1 = .ok (.store (.upsertRecords g records))) :
    (∃ q, pushBatch std g records c.tables = .ok q ∧ handle std req c =
      (.ok ⟨if q.2.conflicts.isEmpty then 200 else 409, q.2.toJson⟩, ⟨q.1, none⟩)) ∨
    (∃ e, (handle std req c).1 = .error e) ∧ (handle std req c).2.tables = c.tables := by
  obtain ⟨t, undo⟩ := c
  cases undo with
  | some u =>
    rw [handle_push_open hr]
    exact Or.inr ⟨⟨_, rfl⟩, hc u rfl⟩
  | none =>
    cases hq : pushBatch std g records t with
    | ok q => exact Or.inl ⟨q, rfl, handle_push hr hq⟩
    | error e =>
      have hrun := upsertRecords_idle std g records t
      rw [hq] at hrun
      rw [handle_eq, hr]
      simp only [Action.run, StoreOp.run]
      rw [Sql.bind_error hrun]
      exact Or.inr ⟨⟨e, rfl⟩, rfl⟩

lemma Uploads.eq {records records' : List Json} {req : Request} {c : Conn Tables}
    (h : Uploads std keys records req c) (h' : Uploads std keys records' req c) : records' = records := by
  have hroute := h'.1
  rw [h.1] at hroute
  cases hroute
  rfl

/-- An answered batch is accepted, or some of it conflicts. -/
lemma Uploads.status {records : List Json} {req : Request} {c : Conn Tables} (hc : c.Settled)
    (h : Uploads std keys records req c) :
    ∃ resp, (handle std req c).1 = .ok resp ∧ (resp.status = 200 ∨ resp.status = 409) := by
  obtain ⟨hroute, resp, hresp⟩ := h
  obtain ⟨q, -, hrun⟩ | ⟨⟨e, he⟩, -⟩ := handle_batch hc hroute
  · refine ⟨_, congrArg Prod.fst hrun, ?_⟩
    cases q.2.conflicts.isEmpty
    · exact Or.inr rfl
    · exact Or.inl rfl
  · rw [he] at hresp
    cases hresp

/-- What the server keeps after a request, if members seal what they upload. -/
lemma StoresLatest.request {sent : Set (ProducedRecord std keys)} {c : Conn Tables} {d : Device}
    {req : Request} (hc : c.Settled) (h : StoresLatest sent c.tables)
    (hsealed : SealsUploads std keys (.request req) (c, d)) :
    StoresLatest (sent ∪ delivers std keys (.request req) (c, d)) (handle std req c).2.tables := by
  by_cases hup : ∃ records, Uploads std keys records req c
  · obtain ⟨records, hup⟩ := hup
    have hdelivers : delivers std keys (.request req) (c, d) = {p | p.record ∈ records} := by
      ext p
      constructor
      · rintro ⟨records', hup', hp⟩
        exact hup.eq hup' ▸ hp
      · exact fun hp => ⟨records, hup, hp⟩
    obtain ⟨q, hq, hrun⟩ | ⟨⟨e, he⟩, -⟩ := handle_batch hc hup.1
    · rw [hdelivers, hrun]
      exact h.upload (hsealed records hup) hq
    · obtain ⟨resp, hresp⟩ := hup.2
      rw [he] at hresp
      cases hresp
  · have hdelivers : delivers std keys (.request req) (c, d) = ∅ := by
      ext p
      constructor
      · rintro ⟨records, hup', -⟩
        exact hup ⟨records, hup'⟩
      · exact fun hp => hp.elim
    rw [hdelivers, Set.union_empty]
    refine h.of_find (handle_versionsGrow hc req) fun slot hg => ?_
    refine handle_keepsSlot hc ?_
    rintro ⟨records, s, c', hroute, hrun, -⟩
    rw [hg] at hroute hrun
    refine hup ⟨records, hroute, ?_⟩
    obtain ⟨q, -, hanswer⟩ | ⟨⟨e, he⟩, -⟩ := handle_batch hc hroute
    · exact ⟨_, congrArg Prod.fst hanswer⟩
    · rw [handle_eq, hroute] at he
      simp only [Action.run, StoreOp.run] at he
      rw [Sql.bind_ok hrun] at he
      cases he

/-! Runs -/

/-- A pull leaves the server as it is. -/
lemma pull_server (g : String) (filter : Option String) (s : Conn Tables × Device) :
    (syncMachine std g filter .pull s).2.1 = s.1 := by
  obtain ⟨c, d⟩ := s
  simp only [syncMachine, queryRecords_apply]
  cases pullRecords g filter d.cursor c.tables <;> rfl

lemma storesLatest_empty : StoresLatest (∅ : Set (ProducedRecord std keys)) Tables.empty where
  opens slot row hrow := by cases hrow
  latest p hp := hp.elim

/-- Server and device after a run in which members seal what they upload. -/
theorem run_storesLatest (std : Stdlib) (keys : GroupKeys) (filter : Option String)
    (events : List SyncEvent)
    (hsealed : (syncMachine std keys.groupId filter).Throughout (SealsUploads std keys) events
      (initSchema, .fresh)) :
    let s := (syncMachine std keys.groupId filter).final events (initSchema, .fresh)
    InSync keys.groupId filter s ∧ StoresLatest (delivered std keys filter events) s.1.tables := by
  intro s
  have hstep : ∀ e s (got : Set (ProducedRecord std keys)), SealsUploads std keys e s →
      InSync keys.groupId filter s ∧ StoresLatest got s.1.tables →
      InSync keys.groupId filter (syncMachine std keys.groupId filter e s).2 ∧
        StoresLatest (got ∪ delivers std keys e s) (syncMachine std keys.groupId filter e s).2.1.tables := by
    intro e s got hseals ⟨hsync, hlatest⟩
    refine ⟨(syncMachine_step std hsync e).1, ?_⟩
    cases e with
    | request req => exact hlatest.request hsync.settled hseals
    | pull =>
      rw [delivers, Set.union_empty, pull_server]
      exact hlatest
  have hrun := Machine.gathered_invariant
    (fun got s => InSync keys.groupId filter s ∧ StoresLatest got s.1.tables) hstep hsealed
    ⟨inSync_fresh keys.groupId filter, storesLatest_empty⟩
  rw [Set.empty_union] at hrun
  exact hrun

lemma readKey_sealed (p : ProducedRecord std keys) :
    readKey std p.record = .ok ⟨.str p.collection, .str p.recordId, p.version⟩ := by
  rw [p.record_eq]
  simp [readKey, wireRecord, List.lookup, bind, Except.bind]

lemma mem_storedRecords {g : String} {filter : Option String} {t : Tables} {slot : String × String}
    {r : PulledRecord} :
    (storedRecords g filter t).row slot = some r ↔ admits filter slot.1 = true ∧
      ∃ row, t.records.find ⟨g, slot.1, slot.2⟩ = some row ∧ row.pulled = r := by
  simp only [storedRecords, Feed.select, groupFeed, Option.ite_none_right_eq_some,
    Option.map_eq_some_iff]

lemma StoresLatest.mirrors {sent : Set (ProducedRecord std keys)} {t : Tables}
    (h : StoresLatest sent t) (filter : Option String) :
    MirrorsLatest filter sent (storedRecords keys.groupId filter t).row := by
  constructor
  case opens =>
    intro slot r hr
    obtain ⟨hadmits, row, hrow, rfl⟩ := mem_storedRecords.mp hr
    obtain ⟨-, hkey⟩ := KeyedTable.find_eq_some.mp hrow
    simp only [RecordRow.key, RecordRow.slot, Option.some.injEq, Slot.mk.injEq] at hkey
    exact ⟨Prod.ext hkey.2.1 hkey.2.2, hadmits, h.opens _ row hrow rfl⟩
  case latest =>
    intro p hp
    obtain ⟨k, row, hk, hfind, hg, hnames, hle⟩ := h.latest p hp p.record (List.mem_singleton.mpr rfl)
    rw [readKey_sealed] at hk
    cases hk
    obtain ⟨c, hc, hcrow⟩ := bindText_str hnames.1
    obtain ⟨i, hi, hirow⟩ := bindText_str hnames.2
    cases hcrow
    cases hirow
    refine ⟨row.collection, row.recordId, hc, hi, fun hadmits => ⟨row.pulled, ?_, hle⟩⟩
    rw [RecordRow.slot, hg] at hfind
    exact mem_storedRecords.mpr ⟨hadmits, row, hfind, rfl⟩

/-- In every run in which members seal what they upload, a pull that is answered leaves
the device with a latest version of every item of its filter, each of which opens to
what its author sealed. -/
theorem group_syncs (std : Stdlib) (keys : GroupKeys) (filter : Option String)
    (events : List SyncEvent) (result : PullResult)
    (hsealed : (syncMachine std keys.groupId filter).Throughout (SealsUploads std keys) events
      (initSchema, .fresh))
    (hanswer : (syncMachine std keys.groupId filter .pull
      ((syncMachine std keys.groupId filter).final events (initSchema, .fresh))).1 =
        some (.ok result)) :
    MirrorsLatest filter (delivered std keys filter events)
      (syncMachine std keys.groupId filter .pull
        ((syncMachine std keys.groupId filter).final events (initSchema, .fresh))).2.2.mirror := by
  obtain ⟨hsync, hlatest⟩ := run_storesLatest std keys filter events hsealed
  generalize (syncMachine std keys.groupId filter).final events (initSchema, .fresh) = s
    at hsync hlatest hanswer
  obtain ⟨-, -, hmirror⟩ := syncMachine_step std hsync .pull
  rw [hmirror result hanswer, pull_server]
  exact hlatest.mirrors filter

/-- The first pull of a device binds zero and is answered. -/
lemma pull_fresh (g : String) (filter : Option String) {s : Conn Tables × Device}
    (hs : s.2 = .fresh) : ∃ result, (syncMachine std g filter .pull s).1 = some (.ok result) := by
  obtain ⟨c, d⟩ := s
  obtain rfl : d = .fresh := hs
  obtain ⟨result, hresult⟩ : ∃ result, pullRecords g filter 0 c.tables = .ok result :=
    ⟨_, bind_eq_ok.mpr ⟨_, bind_eq_ok.mpr ⟨_, bindInt_eq_ok.mpr ⟨by decide, rfl⟩, rfl⟩, rfl⟩⟩
  exact ⟨result, by simp only [syncMachine, queryRecords_apply, Device.fresh, hresult]⟩

/-- What `http.server` adds to a request does not reach the store. -/
lemma serve_snd {req : Request} (h : (requestLine req).length ≤ maxRequestLine) (c : Conn Tables) :
    (serve std req c).2 = (handle std req c).2 := by
  rw [serve, if_neg (not_lt.mpr h), Sql.bind_apply]
  obtain ⟨r, c'⟩ := handle std req c
  cases r <;> rfl

/-- The push of a proper exchange is answered. -/
lemma Exchange.Proper.uploads {e : Exchange std} (hinv : std.Inverse) (he : e.Proper)
    (hidle : e.conn.Idle) : Uploads std e.writer.keys [e.record.record]
      (clientRequest std e.writer.keys .post "/v1/records"
        (some (SyncClient.pushPayload [e.record.record]))) e.conn := by
  obtain ⟨root, hroot⟩ := he.keys
  obtain ⟨row, hrow, hhash⟩ := he.paired
  have hroute := route_clientPush hinv (GroupKeys.groupId_ne_empty hroot) hrow hhash
    (by simpa using he.plain_record) (by simpa using e.record.hasFields)
    (by simp [maxRecordsPerBatch]) he.fits
  refine ⟨hroute, ?_⟩
  obtain ⟨q, -, hrun⟩ | ⟨-, htables⟩ := handle_batch hidle.settled hroute
  · exact ⟨_, congrArg Prod.fst hrun⟩
  · -- a batch that raises would leave the slot at an earlier version
    obtain ⟨-, -, hfind⟩ := he.push_stores hinv hidle
    rw [Exchange.afterPush, SyncClient.push, SyncClient.request,
      serve_snd (requestLine_push _ _), htables] at hfind
    exact absurd (he.newer e.row hfind) (lt_irrefl _)

lemma requestLine_pair (keys : GroupKeys) (payload : Option Json) :
    (requestLine (clientRequest std keys .post "/v1/pair" payload)).length ≤ maxRequestLine := by
  change ("POST" ++ " " ++ "/v1/pair" ++ " HTTP/1.1\r\n").length ≤ maxRequestLine
  decide

lemma pairing_noUpload (hinv : std.Inverse) (keys keys' : GroupKeys) (payload : Option Json)
    (records : List Json) (c : Conn Tables) :
    ¬ Uploads std keys' records (clientRequest std keys .post "/v1/pair" payload) c := by
  rintro ⟨hroute, -⟩
  cases route_store hroute with
  | push hreach =>
    have hpath := hreach.path_eq
    have hurl := hreach.urlparse_eq
    rw [show (clientRequest std keys .post "/v1/pair" payload).target = "/v1/pair" from rfl,
      urlparse_pair hinv] at hurl
    cases hurl
    exact absurd hpath (by decide)

end

/-! A client pairs its group and pushes one record -/

def pairingOf (keys : GroupKeys) : Request :=
  clientRequest .sample keys .post "/v1/pair" (some (SyncClient.pairPayload .sample ⟨keys, none⟩))

def uploadOf {keys : GroupKeys} (p : ProducedRecord .sample keys) : Request :=
  clientRequest .sample keys .post "/v1/records" (some (SyncClient.pushPayload [p.record]))

def pairThenPush (keys : GroupKeys) (p : ProducedRecord .sample keys) : List SyncEvent :=
  [.request (pairingOf keys), .request (uploadOf p)]

section
variable {root : Bytes} {keys : GroupKeys} {p : ProducedRecord .sample keys} {collection recordId : String}

lemma pairThenPush_uploads (hkeys : GroupKeys.init .sample root = .ok keys)
    (hc : p.collection = .ofString collection) (hi : p.recordId = .ofString recordId)
    (hne : collection ≠ "") (hversion : 0 ≤ p.version ∧ p.version < 2 ^ 63)
    (hfits : (Stdlib.sample.dumpBody (SyncClient.pushPayload [p.record])).length ≤ maxBody) :
    Uploads .sample keys [p.record] (uploadOf p) (handle .sample (pairingOf keys) initSchema).2 := by
  obtain ⟨t, hpair, hrecords, hgroup⟩ := pair_initSchema hkeys
  rw [SyncClient.pair, SyncClient.request, serve_snd (requestLine_pair _ _)] at hpair
  rw [pairingOf, hpair]
  let e : Exchange .sample := ⟨⟨keys, none⟩, ⟨keys, none⟩, collection, recordId, p, ⟨t, none⟩, [], none, 0⟩
  have he : e.Proper := {
    keys := ⟨root, hkeys⟩
    equal := rfl
    collection_eq := hc
    recordId_eq := hi
    nonempty := hne
    version := hversion
    fits := hfits
    paired := ⟨_, hgroup, rfl⟩
    newer := by
      intro old hold
      rw [show e.conn.tables.records = .empty from hrecords] at hold
      cases hold
    unwritten := trivial
    filtered := Or.inl rfl
    since_lt := by
      change (0 : ℤ) < ((counter keys.groupId t + 1 : ℕ) : ℤ)
      omega }
  have hidle : e.conn.Idle := rfl
  have hup := he.uploads sample_inverse hidle
  exact hup

/-- The run meets the condition, and gets the record across. -/
lemma pairThenPush_delivers (filter : Option String)
    (hup : Uploads .sample keys [p.record] (uploadOf p)
      (handle .sample (pairingOf keys) initSchema).2) :
    (syncMachine .sample keys.groupId filter).Throughout (SealsUploads .sample keys)
        (pairThenPush keys p) (initSchema, .fresh) ∧
      p ∈ delivered .sample keys filter (pairThenPush keys p) := by
  constructor
  · refine ⟨fun records h => (pairing_noUpload sample_inverse _ _ _ _ _ h).elim, ?_, trivial⟩
    intro records h r hr
    obtain rfl := hup.eq h
    exact ⟨p, (List.mem_singleton.mp hr).symm⟩
  · exact Or.inr (Or.inl ⟨[p.record], hup, List.mem_singleton.mpr rfl⟩)

end

lemma sample_uploads : Uploads .sample sampleGroupKeys [(sampleProduced "bookmarks").record]
    (uploadOf (sampleProduced "bookmarks")) (handle .sample (pairingOf sampleGroupKeys) initSchema).2 :=
  pairThenPush_uploads sampleGroupKeys_init rfl rfl (by decide)
    ⟨zero_le_one, by change (1 : ℤ) < 2 ^ 63; norm_num⟩ (sampleExchange_fits (by decide))

theorem sampleGroup_syncs :
    sampleProduced "bookmarks" ∈ delivered .sample sampleGroupKeys none
        (pairThenPush sampleGroupKeys (sampleProduced "bookmarks")) ∧
      MirrorsLatest none (delivered .sample sampleGroupKeys none
        (pairThenPush sampleGroupKeys (sampleProduced "bookmarks")))
        (syncMachine .sample sampleGroupKeys.groupId none .pull
          ((syncMachine .sample sampleGroupKeys.groupId none).final
            (pairThenPush sampleGroupKeys (sampleProduced "bookmarks"))
            (initSchema, .fresh))).2.2.mirror := by
  obtain ⟨hseals, hmem⟩ := pairThenPush_delivers none sample_uploads
  obtain ⟨result, hresult⟩ := pull_fresh sampleGroupKeys.groupId none
    (s := (syncMachine .sample sampleGroupKeys.groupId none).final
      (pairThenPush sampleGroupKeys (sampleProduced "bookmarks")) (initSchema, .fresh)) rfl
  exact ⟨hmem, group_syncs .sample sampleGroupKeys none _ result hseals hresult⟩

end T3dmium
