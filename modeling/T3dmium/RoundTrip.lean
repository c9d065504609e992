import T3dmium.ClientSteps
import T3dmium.Hijack
import T3dmium.PullSync
import T3dmium.Record

/-! A record from one device to another: encrypted, pushed, stored, pulled and
decrypted. -/
namespace T3dmium

section
variable (std : Stdlib)

/-- A push that is answered with an accepted record of the slot. -/
def WritesSlot (slot : Slot) (req : Request) (c : Conn Tables) : Prop :=
  ∃ records s c', (route std req c).1 = .ok (.store (.upsertRecords slot.groupId records)) ∧
    upsertRecords std slot.groupId records c = (.ok s, c') ∧
    ∃ a ∈ s.accepted, bindText std.realText a.collection = .ok (some slot.collection) ∧
      bindText std.realText a.recordId = .ok (some slot.recordId)

end

/-- `writer` pushes a record, requests of anybody follow, and `reader` pulls. -/
structure Exchange (std : Stdlib) where
  writer : SyncClient
  reader : SyncClient
  collection : String
  recordId : String
  record : ProducedRecord std writer.keys
  conn : Conn Tables
  between : List Request
  filter : Option String
  since : ℤ

namespace Exchange
variable {std : Stdlib} (e : Exchange std)

def slot : Slot := ⟨e.writer.keys.groupId, e.collection, e.recordId⟩

/-- The number the push gives to its record. -/
def newSeq : ℕ := counter e.writer.keys.groupId e.conn.tables + 1

def afterPush : Conn Tables := (e.writer.push std [e.record.record] e.conn).2

def beforePull : Conn Tables := (server std).final e.between e.afterPush

def pulled : Except ClientError Json := (e.reader.pull std e.filter e.since e.beforePull).1

/-- The keys fit each other and the server, the push is in bounds, nothing else is
written to the slot and the pull asks for it. -/
structure Proper : Prop where
  keys : ∃ root, GroupKeys.init std root = .ok e.writer.keys
  equal : e.reader.keys = e.writer.keys
  collection_eq : e.record.collection = .ofString e.collection
  recordId_eq : e.record.recordId = .ofString e.recordId
  nonempty : e.collection ≠ ""
  version : 0 ≤ e.record.version ∧ e.record.version < 2 ^ 63
  fits : (std.dumpBody (SyncClient.pushPayload [e.record.record])).length ≤ maxBody
  paired : ∃ row, e.conn.tables.groups.find e.writer.keys.groupId = some row ∧
    row.authHash = e.writer.keys.authHash std
  newer : ∀ old, e.conn.tables.records.find e.slot = some old → old.version < e.record.version
  unwritten : (server std).Throughout (fun r c => ¬ WritesSlot std e.slot r c) e.between e.afterPush
  filtered : e.filter = none ∨ e.filter = some e.collection
  since_lt : e.since < e.newSeq

def pullLine : String :=
  requestLine (clientRequest std e.reader.keys .get (pullPath std e.filter e.since) none)

/-- The pull returns a record of the slot that decrypts to what was encrypted. -/
def Returns : Prop :=
  ∃ result records r, e.pulled = .ok result ∧ result.getItem "records" = .ok (.list records) ∧
    r ∈ records ∧ r.getItem "collection" = .ok (.text e.collection) ∧
    r.getItem "id" = .ok (.text e.recordId) ∧
    decryptRecord std e.reader.keys r = .ok e.record.body

end Exchange

section
variable {std : Stdlib}

/-! The slot between push and pull -/

lemma pushBatch_keepsSlot {g : String} {records : List Json} {t : Tables} {p : Tables × PushResult}
    (h : pushBatch std g records t = .ok p) {slot : Slot}
    (hno : g = slot.groupId → ∀ a ∈ p.2.accepted,
      ¬ (bindText std.realText a.collection = .ok (some slot.collection) ∧
        bindText std.realText a.recordId = .ok (some slot.recordId))) :
    p.1.records.find slot = t.records.find slot := by
  obtain ⟨t', s⟩ := p
  obtain ⟨t1, hfold, rfl⟩ := pushBatch_eq_ok.mp h
  rcases batch_slot hfold slot with hkept | ⟨hg, a, ha, hn, -⟩
  · exact hkept
  · exact (hno hg.symm a ha hn).elim

lemma handle_keepsSlot {c : Conn Tables} (hc : c.Settled) {req : Request} {slot : Slot}
    (hno : ¬ WritesSlot std slot req c) :
    (handle std req c).2.tables.records.find slot = c.tables.records.find slot := by
  rw [handle_eq]
  cases hr : (route std req c).1 with
  | error e => rfl
  | ok action =>
    cases action with
    | send r => rfl
    | store op =>
      change (op.run std c).2.tables.records.find slot = _
      cases op with
      | createGroup g a s => rw [(op_tableStep hc _).2.records_eq rfl]
      | queryRecords g collection since => rw [queryRecords_run]
      | upsertRecords g records =>
        rw [upsertRecords_run]
        obtain ⟨t, undo⟩ := c
        cases undo with
        | some u =>
          obtain rfl := hc u rfl
          rw [upsertRecords_open]
        | none =>
          have hrun := upsertRecords_idle std g records t
          cases hp : pushBatch std g records t with
          | error e =>
            rw [hp] at hrun
            rw [hrun]
          | ok p =>
            rw [hp] at hrun
            rw [hrun]
            refine pushBatch_keepsSlot hp fun hg a ha hn => hno ?_
            subst hg
            exact ⟨records, _, _, hr, hrun, a, ha, hn⟩

/-! The record on the wire -/

lemma ProducedRecord.plain {keys : GroupKeys} (p : ProducedRecord std keys)
    (hc : p.collection.Unpaired) (hi : p.recordId.Unpaired) : p.record.Plain := by
  rw [p.record_eq]
  refine .object (by simp) fun q hq => ?_
  simp only [List.mem_cons, List.not_mem_nil, or_false] at hq
  rcases hq with rfl | rfl | rfl | rfl | rfl | rfl | rfl
  · exact .str hc
  · exact .str hi
  all_goals first | exact .text _ | exact .int _ | exact .bool _

lemma ProducedRecord.hasFields {keys : GroupKeys} (p : ProducedRecord std keys) :
    hasFields p.record recordFields = .ok true := by
  rw [p.record_eq]
  simp [wireRecord, T3dmium.hasFields, recordFields, List.lookup, bind, Except.bind]

/-! The record at the server -/

/-- The row the push writes. -/
def Exchange.row (e : Exchange std) : RecordRow :=
  ⟨e.writer.keys.groupId, e.collection, e.recordId, b64u e.record.usedNonce, b64u e.record.blob,
    e.record.version, if e.record.tombstone then 1 else 0, aeadAlg, e.newSeq⟩

namespace Exchange.Proper
variable {e : Exchange std}

lemma record_eq (he : e.Proper) : e.record.record =
    .object [("collection", .text e.collection), ("id", .text e.recordId),
      ("nonce", .text (b64u e.record.usedNonce)), ("ciphertext", .text (b64u e.record.blob)),
      ("version", .int e.record.version), ("tombstone", .bool e.record.tombstone),
      ("alg", .text aeadAlg)] := by
  rw [e.record.record_eq, he.collection_eq, he.recordId_eq]
  rfl

lemma readKey_record (he : e.Proper) :
    readKey std e.record.record = .ok ⟨.text e.collection, .text e.recordId, e.record.version⟩ := by
  rw [he.record_eq]
  simp [readKey, List.lookup, bind, Except.bind]

lemma readFrom_record (he : e.Proper) : e.row.ReadFrom std e.record.record := by
  have h64 : IsInt64 e.record.version := ⟨by have := he.version.1; omega, he.version.2⟩
  rw [he.record_eq]
  constructor
  case int64 => exact h64
  case tombstone => cases ht : e.record.tombstone <;> simp [ht, Exchange.row, List.lookup, Except.map]
  all_goals simp [TextField, Exchange.row, List.lookup, bind, Except.bind]

lemma plain_record (he : e.Proper) : e.record.record.Plain :=
  e.record.plain (he.collection_eq ▸ unpaired_ofString _) (he.recordId_eq ▸ unpaired_ofString _)

lemma requestLine_push (keys : GroupKeys) (payload : Option Json) :
    (requestLine (clientRequest std keys .post "/v1/records" payload)).length ≤ maxRequestLine := by
  change ("POST" ++ " " ++ "/v1/records" ++ " HTTP/1.1\r\n").length ≤ maxRequestLine
  decide

lemma push_stores (hinv : std.Inverse) (he : e.Proper) (hidle : e.conn.Idle) :
    e.afterPush.Settled ∧ e.afterPush.tables.groups = e.conn.tables.groups ∧
      e.afterPush.tables.records.find e.slot = some e.row := by
  obtain ⟨root, hroot⟩ := he.keys
  obtain ⟨row, hrow, hhash⟩ := he.paired
  have hplain : ∀ r ∈ [e.record.record], r.Plain := by simpa using he.plain_record
  have hfields : ∀ r ∈ [e.record.record], hasFields r recordFields = .ok true := by
    simpa using e.record.hasFields
  have hroute := route_clientPush hinv (GroupKeys.groupId_ne_empty hroot) hrow hhash hplain hfields
    (by simp [maxRecordsPerBatch]) he.fits
  have hconn : e.conn = ⟨e.conn.tables, none⟩ := by
    rw [← show e.conn.undo = none from hidle]
  have hpushed : pushRecord std e.slot.groupId (e.conn.tables, startResult e.slot.groupId e.conn.tables)
      e.record.record = .ok _ :=
    pushRecord_eq_ok.mpr ⟨_, .accept he.readKey_record he.readFrom_record rfl rfl he.newer, rfl⟩
  obtain ⟨s, hbatch⟩ : ∃ s, pushBatch std e.slot.groupId [e.record.record] e.conn.tables =
      .ok (updateSeq e.slot.groupId e.newSeq (putRecord e.row e.conn.tables), s) := by
    refine ⟨(startResult e.slot.groupId e.conn.tables).accept
      ⟨.text e.collection, .text e.recordId, e.record.version⟩, pushBatch_eq_ok.mpr ⟨_, ?_, rfl⟩⟩
    rw [List.foldlM_cons, hpushed]
    rfl
  rw [hconn] at hroute
  have hserve := serve_of_le (requestLine_push _ _) (handle_push hroute hbatch)
  have hafter : e.afterPush =
      ⟨updateSeq e.slot.groupId e.newSeq (putRecord e.row e.conn.tables), none⟩ := by
    rw [afterPush, SyncClient.push, SyncClient.request, hconn, hserve]
  rw [hafter]
  refine ⟨Conn.Idle.settled rfl, rfl, ?_⟩
  change (putRecord e.row e.conn.tables).records.find e.slot = _
  simp [putRecord, RecordRow.key, RecordRow.slot, Exchange.row, Exchange.slot]

/-- Whatever comes in between, the pull finds the group and the row. -/
lemma kept (hinv : std.Inverse) (he : e.Proper) (hidle : e.conn.Idle) :
    (∃ row, e.beforePull.tables.groups.find e.reader.keys.groupId = some row ∧
      row.authHash = e.reader.keys.authHash std) ∧
      e.beforePull.tables.records.find e.slot = some e.row := by
  obtain ⟨row, hrow, hhash⟩ := he.paired
  obtain ⟨hsettled, hgroups, hfind⟩ := he.push_stores hinv hidle
  have hstep : ∀ r c, ¬ WritesSlot std e.slot r c →
      (c.Settled ∧ c.tables.groups.find e.writer.keys.groupId = some row ∧
        c.tables.records.find e.slot = some e.row) →
      ((server std r c).2.Settled ∧
        (server std r c).2.tables.groups.find e.writer.keys.groupId = some row ∧
        (server std r c).2.tables.records.find e.slot = some e.row) := by
    intro r c hr h
    obtain ⟨hs, hg, hf⟩ := h
    exact ⟨(handle_tableStep std hs r).1, handle_groupsKept hs r _ _ hg,
      (handle_keepsSlot hs hr).trans hf⟩
  have hgroup : e.afterPush.tables.groups.find e.writer.keys.groupId = some row := by rw [hgroups, hrow]
  obtain ⟨-, hgroup, hslot⟩ :=
    Machine.final_invariant _ hstep he.unwritten ⟨hsettled, hgroup, hfind⟩
  rw [he.equal]
  exact ⟨⟨row, hgroup, hhash⟩, hslot⟩

lemma filter_eq (he : e.Proper) : e.filter.filter (· ≠ "") = e.filter := by
  rcases he.filtered with h | h
  · rw [h]
    rfl
  · rw [h]
    simp [Option.filter, he.nonempty]

lemma decrypt_row (he : e.Proper) :
    decryptRecord std e.reader.keys e.row.pulled.toJson = .ok e.record.body := by
  have hnonce : e.row.pulled.toJson.getItem "nonce" =
      .ok (.str (.ofString (b64u e.record.usedNonce))) := by
    simp [PulledRecord.toJson, List.lookup, Json.text, RecordRow.pulled, Exchange.row]
  have hblob : e.row.pulled.toJson.getItem "ciphertext" =
      .ok (.str (.ofString (b64u e.record.blob))) := by
    simp [PulledRecord.toJson, List.lookup, Json.text, RecordRow.pulled, Exchange.row]
  have hcollection : e.row.pulled.toJson.getItem "collection" = .ok (.str e.record.collection) := by
    rw [he.collection_eq]
    simp [PulledRecord.toJson, List.lookup, Json.text, RecordRow.pulled, Exchange.row]
  have hid : e.row.pulled.toJson.getItem "id" = .ok (.str e.record.recordId) := by
    rw [he.recordId_eq]
    simp [PulledRecord.toJson, List.lookup, Json.text, RecordRow.pulled, Exchange.row]
  have hversion : e.row.pulled.toJson.getItem "version" = .ok (.int e.record.version) := by
    simp [PulledRecord.toJson, List.lookup, RecordRow.pulled, Exchange.row]
  have htombstone : e.row.pulled.toJson.getItem "tombstone" = .ok (.bool e.record.tombstone) := by
    cases ht : e.record.tombstone <;>
      simp [PulledRecord.toJson, List.lookup, RecordRow.pulled, Exchange.row, ht]
  rw [decryptRecord_object hnonce hblob hcollection hid hversion htombstone, b64uDec_b64u, b64uDec_b64u,
    he.equal]
  exact aeadDecrypt_aeadEncrypt e.record.aeadEncrypt_eq

end Exchange.Proper

lemma plain_result (result : PullResult) : result.toJson.Plain := by
  have hrecord : ∀ r : PulledRecord, r.toJson.Plain := by
    intro r
    refine .object (by simp) fun p hp => ?_
    simp only [List.mem_cons, List.not_mem_nil, or_false] at hp
    rcases hp with rfl | rfl | rfl | rfl | rfl | rfl | rfl | rfl
    all_goals first | exact .text _ | exact .int _ | exact .bool _
  refine .object (by simp) fun p hp => ?_
  simp only [List.mem_cons, List.not_mem_nil, or_false] at hp
  rcases hp with rfl | rfl
  · refine .list fun v hv => ?_
    obtain ⟨r, -, rfl⟩ := List.mem_map.mp hv
    exact hrecord r
  · exact .int _

/-- The pull returns the record, provided that no transaction was left open before the
push and that the request line and `since` of the pull are in bounds. -/
theorem pull_returns (std : Stdlib) (hinv : std.Inverse) (e : Exchange std) (he : e.Proper)
    (hidle : e.conn.Idle) (hsince : IsInt64 e.since) (hline : e.pullLine.length ≤ maxRequestLine) :
    e.Returns := by
  obtain ⟨⟨row, hrow, hhash⟩, hfind⟩ := he.kept hinv hidle
  obtain ⟨root, hroot⟩ := he.keys
  have hgroup : e.reader.keys.groupId ≠ "" := he.equal ▸ GroupKeys.groupId_ne_empty hroot
  have hsmall : e.since.natAbs ≤ 2 ^ 64 := by
    obtain ⟨h1, h2⟩ := hsince
    omega
  have hroute := route_clientPull hinv hgroup hrow hhash e.filter hsmall
  rw [he.filter_eq] at hroute
  have hsel : ∃ result, pullRecords e.reader.keys.groupId e.filter e.since e.beforePull.tables =
      .ok result := ⟨_, by rw [pullRecords, selectRecords, bindInt, if_pos hsince]; rfl⟩
  obtain ⟨result, hresult⟩ := hsel
  have hmem : e.row.pulled ∈ result.records := by
    have hadmits : admits e.filter e.collection = true := by
      rcases he.filtered with h | h <;> simp [h, admits]
    rw [mem_pullRecords hresult]
    refine ⟨?_, he.since_lt⟩
    change (if admits e.filter e.collection = true then
      (e.beforePull.tables.records.find ⟨e.reader.keys.groupId, e.collection, e.recordId⟩).map
        RecordRow.pulled else none) = _
    rw [if_pos hadmits, he.equal]
    exact congrArg (Option.map RecordRow.pulled) hfind
  have hserve := serve_of_le hline (handle_pull hroute hresult)
  have hpulled : e.pulled = .ok result.toJson := by
    rw [Exchange.pulled, SyncClient.pull, SyncClient.request, hserve]
    exact readAnswer_ok hinv [] (plain_result result)
  refine ⟨result.toJson, _, e.row.pulled.toJson, hpulled, ?_, List.mem_map_of_mem hmem, ?_, ?_,
    he.decrypt_row⟩
  all_goals simp [PullResult.toJson, PulledRecord.toJson, List.lookup, RecordRow.pulled, Exchange.row]

lemma pullLine_eq (e : Exchange std) :
    e.pullLine = "GET" ++ " " ++ pullPath std e.filter e.since ++ " HTTP/1.1\r\n" := rfl

lemma pullLine_length_unfiltered {e : Exchange std} (hfilter : e.filter = none)
    (hsince : (toString e.since).length ≤ 30) : e.pullLine.length ≤ maxRequestLine := by
  rw [pullLine_eq, hfilter, pullPath_none]
  generalize toString e.since = digits at hsince
  simp only [String.length_append, show "GET".length = 3 by decide, show " ".length = 1 by decide,
    show "/v1/records?since=".length = 18 by decide, show "".length = 0 by decide,
    show " HTTP/1.1\r\n".length = 11 by decide]
  unfold maxRequestLine
  omega

/-- Every character of a collection takes one of the request line at least. -/
lemma pullLine_length_filtered (hinv : std.Inverse) {e : Exchange std} {collection : String}
    (hfilter : e.filter = some collection) (hne : collection ≠ "")
    (hlong : maxRequestLine ≤ collection.length) : maxRequestLine < e.pullLine.length := by
  have hquote := length_le_percentQuote collection
  rw [pullLine_eq, hfilter, pullPath_some hinv hne]
  generalize toString e.since = digits
  simp only [String.length_append, show "GET".length = 3 by decide]
  omega

lemma push_length_le {keys : GroupKeys} (p : ProducedRecord std keys) {collection recordId : String}
    (hc : p.collection = .ofString collection) (hi : p.recordId = .ofString recordId) :
    (std.dumpBody (SyncClient.pushPayload [p.record])).length ≤
      12 * collection.length + 12 * recordId.length + 48 * p.usedNonce.length +
        48 * (p.body.length + 32) + (decimal p.version).length + 1200 := by
  have hrecord_eq : p.record = .object
      [("collection", .text collection), ("id", .text recordId), ("nonce", .text (b64u p.usedNonce)),
        ("ciphertext", .text (b64u p.blob)), ("version", .int p.version),
        ("tombstone", .bool p.tombstone), ("alg", .text aeadAlg)] := by
    rw [p.record_eq, hc, hi]
    rfl
  have hblob := b64u_length_le p.blob
  have hnonce := b64u_length_le p.usedNonce
  rw [p.blob_length] at hblob
  have hpayload : (std.dumpBody (SyncClient.pushPayload [p.record])).length ≤ _ :=
    dumps_object_length_le std.floatRepr [("records", .list [p.record])]
  have hrecords := dumps_elements_length_le std.floatRepr [p.record]
  have hrecord := dumps_object_length_le std.floatRepr
    [("collection", .text collection), ("id", .text recordId), ("nonce", .text (b64u p.usedNonce)),
      ("ciphertext", .text (b64u p.blob)), ("version", .int p.version),
      ("tombstone", .bool p.tombstone), ("alg", .text aeadAlg)]
  have h1 := dumps_text_length_le std.floatRepr collection
  have h2 := dumps_text_length_le std.floatRepr recordId
  have h3 := dumps_text_length_le std.floatRepr (b64u p.usedNonce)
  have h4 := dumps_text_length_le std.floatRepr (b64u p.blob)
  have h5 := dumps_text_length_le std.floatRepr aeadAlg
  have h6 : (dumps std.floatRepr .default (.bool p.tombstone)).length ≤ 5 := by
    cases p.tombstone <;> simp [ascii]
  rw [← hrecord_eq] at hrecord
  simp only [List.map_cons, List.map_nil, List.sum_cons, List.sum_nil, dumps_int,
    show "collection".length = 10 by decide, show "id".length = 2 by decide,
    show "nonce".length = 5 by decide, show "ciphertext".length = 10 by decide,
    show "version".length = 7 by decide, show "tombstone".length = 9 by decide,
    show "alg".length = 3 by decide, show "records".length = 7 by decide,
    show aeadAlg.length = 24 by decide] at hrecord hpayload hrecords h5
  omega

/-! Pulls out of bounds -/

lemma not_returns_of_line {e : Exchange std} (hline : maxRequestLine < e.pullLine.length) :
    ¬ e.Returns := by
  rintro ⟨result, records, r, hpulled, -⟩
  rw [Exchange.pulled, SyncClient.pull, SyncClient.request, serve_of_lt hline] at hpulled
  simp [readAnswer] at hpulled

/-- SQLite integers have 64 bits. -/
lemma not_returns_of_since (hinv : std.Inverse) {e : Exchange std} (he : e.Proper)
    (hidle : e.conn.Idle) (hsince : ¬ IsInt64 e.since) (hsmall : e.since.natAbs ≤ 2 ^ 64)
    (hline : e.pullLine.length ≤ maxRequestLine) : ¬ e.Returns := by
  obtain ⟨⟨row, hrow, hhash⟩, -⟩ := he.kept hinv hidle
  obtain ⟨root, hroot⟩ := he.keys
  have hgroup : e.reader.keys.groupId ≠ "" := he.equal ▸ GroupKeys.groupId_ne_empty hroot
  have hroute := route_clientPull hinv hgroup hrow hhash e.filter hsmall
  have hraise : pullRecords e.reader.keys.groupId (e.filter.filter (· ≠ "")) e.since
      e.beforePull.tables = .error .overflowError := by
    rw [pullRecords, selectRecords, bindInt, if_neg hsince]
    rfl
  rintro ⟨result, records, r, hpulled, -⟩
  have hserve := serve_error hline (handle_pull_error hroute hraise)
  rw [Exchange.pulled, SyncClient.pull, SyncClient.request, hserve] at hpulled
  simp [readAnswer] at hpulled

end

/-! A sample exchange through a server that has just paired the group -/

def sampleGroupKeys : GroupKeys :=
  match GroupKeys.init .sample [1] with
  | .ok keys => keys
  | .error _ => ⟨[], [], [], [], ""⟩

lemma sampleGroupKeys_init : GroupKeys.init .sample [1] = .ok sampleGroupKeys := by
  obtain ⟨keys, hkeys⟩ := GroupKeys.init_ok .sample [1]
  rw [sampleGroupKeys, hkeys]

def sampleClient : SyncClient := ⟨sampleGroupKeys, none⟩

def sampleServer : Conn Tables := (sampleClient.pair .sample initSchema).2

def sampleProduced (collection : String) : ProducedRecord .sample sampleGroupKeys where
  collection := .ofString collection
  recordId := .ofString "1"
  plaintext := [104, 105]
  version := 1
  tombstone := false
  nonce := some (List.replicate nonceLen 0)
  urandom := []
  record :=
    match encryptRecord .sample sampleGroupKeys (.ofString collection) (.ofString "1") [104, 105] 1 false
      (some (List.replicate nonceLen 0)) [] with
    | .ok record => record
    | .error _ => .null
  produced := by
    obtain ⟨record, hrecord⟩ := encryptRecord_exists .sample sampleGroupKeys (.ofString collection)
      (.ofString "1") (by norm_num : ([104, 105] : Bytes).length ≤ 2 ^ 69) 1 false
      (some (List.replicate nonceLen 0)) []
    rw [hrecord]

def sampleExchange (collection : String) (filter : Option String) (since : ℤ) : Exchange .sample where
  writer := sampleClient
  reader := sampleClient
  collection := collection
  recordId := "1"
  record := sampleProduced collection
  conn := sampleServer
  between := []
  filter := filter
  since := since

/-- A new server takes the pairing of a client without salt. -/
lemma pair_initSchema {root : Bytes} {keys : GroupKeys} (hkeys : GroupKeys.init .sample root = .ok keys) :
    ∃ t, (SyncClient.pair .sample ⟨keys, none⟩ initSchema).2 = ⟨t, none⟩ ∧ t.records = .empty ∧
      t.groups.find keys.groupId = some ⟨some keys.groupId, keys.authHash .sample, none⟩ := by
  obtain ⟨group, hname, hlen⟩ := GroupKeys.groupId_eq hkeys
  have hgroup := b64u_length_le group
  have hhash := b64u_length_le (Stdlib.sample.sha256 keys.kAuth).bytes
  rw [Digest.length_eq] at hhash
  have hfits : (Stdlib.sample.dumpBody (SyncClient.pairPayload .sample ⟨keys, none⟩)).length ≤
      maxBody := by
    have hobject : (Stdlib.sample.dumpBody (SyncClient.pairPayload .sample ⟨keys, none⟩)).length ≤ _ :=
      dumps_object_length_le Stdlib.sample.floatRepr [("group_id", .text keys.groupId),
        ("auth_hash", .text (keys.authHash .sample))]
    have hname' := dumps_text_length_le Stdlib.sample.floatRepr keys.groupId
    have hhash' := dumps_text_length_le Stdlib.sample.floatRepr (keys.authHash .sample)
    rw [hname] at hname'
    rw [GroupKeys.authHash] at hhash'
    simp only [List.map_cons, List.map_nil, List.sum_cons, List.sum_nil,
      show "group_id".length = 8 from rfl, show "auth_hash".length = 9 from rfl, hname,
      GroupKeys.authHash] at hobject
    unfold maxBody
    omega
  exact pair_registers sample_inverse hfits rfl

lemma sampleServer_paired :
    sampleServer.Idle ∧ sampleServer.tables.records = .empty ∧
      sampleServer.tables.groups.find sampleGroupKeys.groupId =
        some ⟨some sampleGroupKeys.groupId, sampleGroupKeys.authHash .sample, none⟩ := by
  obtain ⟨t, hserver, hrecords, hfind⟩ := pair_initSchema sampleGroupKeys_init
  rw [sampleServer, sampleClient, hserver]
  exact ⟨rfl, hrecords, hfind⟩

lemma sampleExchange_fits {collection : String} (hlen : collection.length ≤ 65536) :
    (Stdlib.sample.dumpBody (SyncClient.pushPayload [(sampleProduced collection).record])).length ≤
      maxBody := by
  have hle := push_length_le (sampleProduced collection) rfl rfl
  have hbody : (sampleProduced collection).body.length = 2 := rfl
  have hnonce : (sampleProduced collection).usedNonce.length = 24 := rfl
  have hversion : (decimal (sampleProduced collection).version).length = 1 := by
    change (decimal 1).length = 1
    decide
  have hid : "1".length = 1 := by decide
  unfold maxBody
  omega

lemma sampleExchange_proper {collection : String} (hne : collection ≠ "")
    (hlen : collection.length ≤ 65536) {filter : Option String}
    (hfilter : filter = none ∨ filter = some collection) {since : ℤ} (hsince : since < 1) :
    (sampleExchange collection filter since).Proper := by
  obtain ⟨-, hrecords, hgroups⟩ := sampleServer_paired
  exact {
    keys := ⟨[1], sampleGroupKeys_init⟩
    equal := rfl
    collection_eq := rfl
    recordId_eq := rfl
    nonempty := hne
    version := ⟨zero_le_one, by change (1 : ℤ) < 2 ^ 63; norm_num⟩
    fits := sampleExchange_fits hlen
    paired := ⟨_, hgroups, rfl⟩
    newer := by
      intro old hold
      change sampleServer.tables.records.find _ = some old at hold
      rw [hrecords] at hold
      cases hold
    unwritten := trivial
    filtered := hfilter
    since_lt := by
      change since < ((counter sampleGroupKeys.groupId sampleServer.tables + 1 : ℕ) : ℤ)
      omega }

theorem samplePull_returns : (sampleExchange "bookmarks" none 0).Returns := by
  have hproper : (sampleExchange "bookmarks" none 0).Proper :=
    sampleExchange_proper (by decide) (by decide) (Or.inl rfl) (by decide)
  have hline := pullLine_length_unfiltered (e := sampleExchange "bookmarks" none 0) rfl
    (by change (toString (0 : ℤ)).length ≤ 30; decide)
  exact pull_returns .sample sample_inverse _ hproper sampleServer_paired.1
    (by change IsInt64 0; decide) hline

/-- A collection can be stored under a name that no request line can hold. -/
def longCollection : String := .ofList (List.replicate 65536 'a')

/-- The filtered pull of such a collection is refused, and a `since` below 64 bits
gets no answer. -/
theorem samplePull_lost :
    ((sampleExchange longCollection (some longCollection) 0).Proper ∧
        ¬ (sampleExchange longCollection (some longCollection) 0).Returns) ∧
      (sampleExchange "bookmarks" none (-2 ^ 63 - 1)).Proper ∧
        ¬ (sampleExchange "bookmarks" none (-2 ^ 63 - 1)).Returns := by
  have hreplicate : ∀ n, (String.ofList (List.replicate n 'a')).length = n := by simp
  have hlength : longCollection.length = 65536 := hreplicate 65536
  have hne : longCollection ≠ "" := by
    intro he
    rw [he] at hlength
    cases hlength
  have hshort : (sampleExchange "bookmarks" none (-2 ^ 63 - 1)).Proper :=
    sampleExchange_proper (by decide) (by decide) (Or.inl rfl) (by norm_num)
  have hline := pullLine_length_unfiltered (e := sampleExchange "bookmarks" none (-2 ^ 63 - 1)) rfl
    (by change (toString (-2 ^ 63 - 1 : ℤ)).length ≤ 30; decide)
  refine ⟨⟨sampleExchange_proper hne hlength.le (Or.inr rfl) (by decide), ?_⟩, hshort, ?_⟩
  · exact not_returns_of_line (pullLine_length_filtered sample_inverse rfl hne hlength.ge)
  · exact not_returns_of_since sample_inverse hshort sampleServer_paired.1
      (by change ¬ IsInt64 (-2 ^ 63 - 1); decide)
      (by change (-2 ^ 63 - 1 : ℤ).natAbs ≤ 2 ^ 64; norm_num) hline

end T3dmium
