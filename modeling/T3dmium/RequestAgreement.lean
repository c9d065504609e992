import T3dmium.RoundTrip

/-! Client and server read a request alike: what is signed is what is checked, and
what is asked for is what is done. -/
namespace T3dmium

/-- The server takes a request of the client for the call `op`. -/
structure Understood (std : Stdlib) (keys : GroupKeys) (method : Method) (path : String)
    (payload : Option Json) (op : StoreOp) (c : Conn Tables) : Prop where
  /-- `http.server` hands the request on. -/
  served : serve std (clientRequest std keys method path payload) c =
    (handle std (clientRequest std keys method path payload) >>= fun resp =>
      pure ⟨resp.status, std.dumpBody resp.obj⟩) c
  /-- The transcript that is rebuilt is the one that was signed, and is accepted. -/
  verified : ∃ parsed body,
    Reaches std (clientRequest std keys method path payload) method "/v1/records" parsed body ∧
      (method = .get → body = []) ∧
      transcript std method.command parsed.signedPath body =
        transcript std method.command path (payload.elim [] std.dumpBody) ∧
      (verifyRequest std keys.groupId keys.authToken
        (keys.authProof std method.command path (payload.elim [] std.dumpBody)) method.command
        parsed.signedPath body c).1 = .ok true
  called : (route std (clientRequest std keys method path payload) c).1 = .ok (.store op)

/-- An `encrypt_record` output whose names come back from JSON as they were. -/
def Pushable (std : Stdlib) (record : Json) : Prop :=
  ∃ (keys : GroupKeys) (p : ProducedRecord std keys), p.record = record ∧
    p.collection.Unpaired ∧ p.recordId.Unpaired

section
variable {std : Stdlib} {keys : GroupKeys} {c : Conn Tables} {row : GroupRow}

lemma serve_handle {req : Request} (h : (requestLine req).length ≤ maxRequestLine)
    (c : Conn Tables) : serve std req c =
      (handle std req >>= fun resp => pure ⟨resp.status, std.dumpBody resp.obj⟩) c := by
  rw [serve, if_neg (not_lt.mpr h)]

lemma verifyRequest_client (hrow : c.tables.groups.find keys.groupId = some row)
    (hhash : row.authHash = keys.authHash std) (method path : String) (body : Bytes) :
    (verifyRequest std keys.groupId keys.authToken (keys.authProof std method path body) method path
      body c).1 = .ok true := by
  rw [verifyRequest_apply, hrow]
  exact checkProof_eq_true.mpr ⟨keys.kAuth, b64uDec_b64u _, hhash.symm, rfl⟩

variable {client : SyncClient}

lemma push_agrees (hinv : std.Inverse) (hgroup : client.keys.groupId ≠ "")
    (hrow : c.tables.groups.find client.keys.groupId = some row)
    (hhash : row.authHash = client.keys.authHash std) {records : List Json}
    (hrecords : ∀ r ∈ records, Pushable std r) (hcount : records.length ≤ maxRecordsPerBatch)
    (hlen : (std.dumpBody (SyncClient.pushPayload records)).length ≤ maxBody) :
    Understood std client.keys .post "/v1/records" (some (SyncClient.pushPayload records))
      (.upsertRecords client.keys.groupId records) c := by
  have hplain : ∀ r ∈ records, r.Plain := by
    intro r hr
    obtain ⟨_, p, rfl, hc, hi⟩ := hrecords r hr
    exact p.plain hc hi
  have hfields : ∀ r ∈ records, hasFields r recordFields = .ok true := by
    intro r hr
    obtain ⟨_, p, rfl, -, -⟩ := hrecords r hr
    exact p.hasFields
  have hreach : Reaches std (clientRequest std client.keys .post "/v1/records"
      (some (SyncClient.pushPayload records))) .post "/v1/records" ⟨"/v1/records", ""⟩
      (std.dumpBody (SyncClient.pushPayload records)) :=
    ⟨rfl, urlparse_records hinv, rfl, fun _ => readBody_client hinv _ _ _ hlen⟩
  constructor
  case served => exact serve_handle (Exchange.Proper.requestLine_push _ _) c
  case verified =>
    exact ⟨_, _, hreach, nofun, rfl, verifyRequest_client hrow hhash _ _ _⟩
  case called => exact route_clientPush hinv hgroup hrow hhash hplain hfields hcount hlen

lemma pull_agrees (hinv : std.Inverse) (hgroup : client.keys.groupId ≠ "")
    (hrow : c.tables.groups.find client.keys.groupId = some row)
    (hhash : row.authHash = client.keys.authHash std) {collection : Option String}
    (hne : collection ≠ some "") {since : ℤ} (hsince : IsInt64 since)
    (hline : (requestLine (clientRequest std client.keys .get (pullPath std collection since)
      none)).length ≤ maxRequestLine) :
    Understood std client.keys .get (pullPath std collection since) none
      (.queryRecords client.keys.groupId collection since) c := by
  have hsmall : since.natAbs ≤ 2 ^ 64 := by
    obtain ⟨h1, h2⟩ := hsince
    omega
  have hfilter : collection.filter (· ≠ "") = collection := by
    cases collection with
    | none => rfl
    | some name =>
      have hname : name ≠ "" := fun h => hne (congrArg some h)
      simp [Option.filter, hname]
  have hreach : Reaches std (clientRequest std client.keys .get (pullPath std collection since) none)
      .get "/v1/records" ⟨"/v1/records", pullQuery std collection since⟩ [] :=
    ⟨rfl, urlparse_pull hinv collection since, rfl, nofun⟩
  have hroute := route_clientPull hinv hgroup hrow hhash collection hsmall
  rw [hfilter] at hroute
  constructor
  case served => exact serve_handle hline c
  case verified =>
    refine ⟨_, _, hreach, fun _ => rfl, ?_, ?_⟩
    · rw [signedPath_pull]
      rfl
    · rw [signedPath_pull]
      exact verifyRequest_client hrow hhash _ _ _
  case called => exact hroute

/-- Client and server agree on every push and pull of a paired group. -/
theorem requests_agree (std : Stdlib) (hinv : std.Inverse) (client : SyncClient) (root : Bytes)
    (hkeys : GroupKeys.init std root = .ok client.keys) (c : Conn Tables) (row : GroupRow)
    (hrow : c.tables.groups.find client.keys.groupId = some row)
    (hhash : row.authHash = client.keys.authHash std) :
    (∀ records : List Json, (∀ r ∈ records, Pushable std r) → records.length ≤ 1000 →
      (std.dumpBody (SyncClient.pushPayload records)).length ≤ maxBody →
      Understood std client.keys .post "/v1/records" (some (SyncClient.pushPayload records))
        (.upsertRecords client.keys.groupId records) c) ∧
    (∀ (collection : Option String) (since : ℤ), collection ≠ some "" → IsInt64 since →
      (requestLine (clientRequest std client.keys .get (pullPath std collection since) none)).length ≤
        maxRequestLine →
      Understood std client.keys .get (pullPath std collection since) none
        (.queryRecords client.keys.groupId collection since) c) :=
  have hgroup := GroupKeys.groupId_ne_empty hkeys
  ⟨fun _ hrecords hcount hlen => push_agrees hinv hgroup hrow hhash hrecords hcount hlen,
    fun _ _ hne hsince hline => pull_agrees hinv hgroup hrow hhash hne hsince hline⟩

lemma dumpBody_wireRecord {collection collection' : PyStr} (h : utf16 collection = utf16 collection')
    (recordId : PyStr) (nonce blob : Bytes) (version : ℤ) (tombstone : Bool) :
    std.dumpBody (SyncClient.pushPayload
        [wireRecord collection recordId nonce blob version tombstone]) =
      std.dumpBody (SyncClient.pushPayload
        [wireRecord collection' recordId nonce blob version tombstone]) := by
  have hrecord : dumps std.floatRepr .default
        (wireRecord collection recordId nonce blob version tombstone) =
      dumps std.floatRepr .default (wireRecord collection' recordId nonce blob version tombstone) := by
    have hname : itemText std.floatRepr ("collection", .str collection) =
        itemText std.floatRepr ("collection", .str collection') := by
      simp only [itemText, dumps_str, quoted, h]
    rw [wireRecord, wireRecord, dumps_object, dumps_object]
    simp only [List.map_cons, hname]
  simp only [Stdlib.dumpBody, SyncClient.pushPayload, dumps_object, List.map_cons, List.map_nil,
    itemText, dumps_elements, hrecord]

/-- A deletion mark is sent as the same bytes under names with the same code units. -/
lemma dumpBody_tombstoneOf (keys : GroupKeys) {collection collection' : PyStr}
    (h : utf16 collection = utf16 collection') (recordId : PyStr) (version : ℤ) (nonce : Bytes) :
    std.dumpBody (SyncClient.pushPayload
        [(ProducedRecord.tombstoneOf std keys collection recordId version nonce).record]) =
      std.dumpBody (SyncClient.pushPayload
        [(ProducedRecord.tombstoneOf std keys collection' recordId version nonce).record]) := by
  simp only [ProducedRecord.tombstoneOf, recordAad_congr h rfl (Json.truthy_bool true)]
  exact dumpBody_wireRecord h _ _ _ _ _

lemma clientRequest_congr {payload payload' : Json}
    (h : std.dumpBody payload = std.dumpBody payload') (keys : GroupKeys) (method : Method)
    (path : String) : clientRequest std keys method path (some payload) =
      clientRequest std keys method path (some payload') := by
  simp only [clientRequest, Option.elim_some, Option.map_some, h]

/-- The server finds the name without surrogate pairs in the body. -/
lemma not_agrees_of_units (hinv : std.Inverse) (hgroup : client.keys.groupId ≠ "")
    (hrow : c.tables.groups.find client.keys.groupId = some row)
    (hhash : row.authHash = client.keys.authHash std) {collection collection' : PyStr}
    (h : utf16 collection = utf16 collection') (hne : collection ≠ collection')
    (hread : collection'.Unpaired) {version : ℤ} {nonce : Bytes}
    (hlen : (std.dumpBody (SyncClient.pushPayload [(ProducedRecord.tombstoneOf std client.keys
      collection' (.ofString "1") version nonce).record])).length ≤ maxBody) :
    ¬ Understood std client.keys .post "/v1/records"
      (some (SyncClient.pushPayload [(ProducedRecord.tombstoneOf std client.keys collection
        (.ofString "1") version nonce).record]))
      (.upsertRecords client.keys.groupId [(ProducedRecord.tombstoneOf std client.keys collection
        (.ofString "1") version nonce).record]) c := by
  intro hagree
  have hpushable : ∀ r ∈ [(ProducedRecord.tombstoneOf std client.keys collection' (.ofString "1")
      version nonce).record], Pushable std r := by
    intro r hr
    rw [List.mem_singleton.mp hr]
    exact ⟨_, _, rfl, hread, unpaired_ofString _⟩
  have hother := push_agrees hinv hgroup hrow hhash hpushable
    (by rw [List.length_singleton]; decide) hlen
  have hcalls := hagree.called
  rw [clientRequest_congr (dumpBody_tombstoneOf client.keys h _ version nonce), hother.called] at hcalls
  have hrecord : (ProducedRecord.tombstoneOf std client.keys collection' (.ofString "1") version
      nonce).record = (ProducedRecord.tombstoneOf std client.keys collection (.ofString "1") version
      nonce).record := by
    simpa only [Except.ok.injEq, Action.store.injEq, StoreOp.upsertRecords.injEq, true_and,
      List.cons.injEq, and_true] using hcalls
  have hnames := congrArg (fun r : Json => r.getItem "collection") hrecord
  simp [ProducedRecord.tombstoneOf, wireRecord] at hnames
  exact hne hnames.symm

end

/-! A sample client at a server that has just paired it -/

lemma samplePushable (collection : String) :
    Pushable .sample (sampleProduced collection).record :=
  ⟨_, sampleProduced collection, rfl, unpaired_ofString _, unpaired_ofString _⟩

theorem sampleRequests_agree :
    Understood .sample sampleGroupKeys .post "/v1/records"
        (some (SyncClient.pushPayload [(sampleProduced "a&b").record]))
        (.upsertRecords sampleGroupKeys.groupId [(sampleProduced "a&b").record]) sampleServer ∧
      Understood .sample sampleGroupKeys .get (pullPath .sample (some "a&b#c%d") 7) none
        (.queryRecords sampleGroupKeys.groupId (some "a&b#c%d") 7) sampleServer := by
  obtain ⟨-, -, hrow⟩ := sampleServer_paired
  have hagree := requests_agree .sample sample_inverse sampleClient [1] sampleGroupKeys_init
    sampleServer _ hrow rfl
  constructor
  · refine hagree.1 _ ?_ (by decide) (sampleExchange_fits (by decide))
    intro r hr
    rw [List.mem_singleton.mp hr]
    exact samplePushable "a&b"
  · have hpath : pullPath .sample (some "a&b#c%d") 7 = "/v1/records?since=7&collection=a%26b%23c%25d" := by
      decide +kernel
    refine hagree.2 (some "a&b#c%d") 7 (by decide) (by decide) ?_
    rw [hpath]
    decide +kernel

/-- The two halves of U+1F600. -/
def halves : PyStr := [.surrogate 61, .surrogate 1536]

def sampleMark (collection : PyStr) : ProducedRecord .sample sampleGroupKeys :=
  .tombstoneOf .sample sampleGroupKeys collection (.ofString "1") 1 (List.replicate nonceLen 0)

/-- A name that spells out a surrogate pair is stored as the one character it stands for. -/
theorem sampleMark_disagrees :
    GroupKeys.init .sample [1] = .ok sampleClient.keys ∧
      (∃ row, sampleServer.tables.groups.find sampleClient.keys.groupId = some row ∧
        row.authHash = sampleClient.keys.authHash .sample) ∧
      (Stdlib.sample.dumpBody (SyncClient.pushPayload [(sampleMark halves).record])).length ≤ maxBody ∧
      ¬ Understood .sample sampleClient.keys .post "/v1/records"
        (some (SyncClient.pushPayload [(sampleMark halves).record]))
        (.upsertRecords sampleClient.keys.groupId [(sampleMark halves).record]) sampleServer := by
  obtain ⟨-, -, hrow⟩ := sampleServer_paired
  have hunits : utf16 halves = utf16 (.ofString "😀") := by decide
  have hfits : (Stdlib.sample.dumpBody
      (SyncClient.pushPayload [(sampleMark (.ofString "😀")).record])).length ≤ maxBody := by
    have hle := push_length_le (sampleMark (.ofString "😀")) rfl rfl
    have hbody : (sampleMark (.ofString "😀")).body.length = 0 := rfl
    have hnonce : (sampleMark (.ofString "😀")).usedNonce.length = 24 := rfl
    have hversion : (decimal (sampleMark (.ofString "😀")).version).length = 1 := by
      change (decimal 1).length = 1
      decide
    have hname : "😀".length = 1 := by decide
    have hid : "1".length = 1 := by decide
    rw [hbody, hnonce, hversion, hname, hid] at hle
    exact hle.trans (by decide)
  refine ⟨sampleGroupKeys_init, ⟨_, hrow, rfl⟩, ?_, ?_⟩
  · exact (congrArg List.length (dumpBody_tombstoneOf sampleGroupKeys hunits _ _ _)).trans_le hfits
  · have hgroup : sampleClient.keys.groupId ≠ "" := GroupKeys.groupId_ne_empty sampleGroupKeys_init
    have hne : halves ≠ .ofString "😀" := by decide
    exact not_agrees_of_units sample_inverse hgroup hrow rfl hunits hne (unpaired_ofString _) hfits

end T3dmium
