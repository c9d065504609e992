import T3dmium.Crypto
import T3dmium.Store

/-! The HTTP handler. A request is routed, checked and turned into at most one
store operation; the answer is what the operation returns. -/
namespace T3dmium

def maxBody : ℕ := 8 * 1024 * 1024
def maxRecordsPerBatch : ℕ := 1000

inductive Method
  | get
  | post
  deriving DecidableEq

/-- `self.command` -/
def Method.command : Method → String
  | .get => "GET"
  | .post => "POST"

/-- A request as `http.server` hands it over: `target` is `self.path`, `rfile`
what can be read after the headers. -/
structure Request where
  method : Method
  target : String
  contentLength : Option String
  syncGroup : Option String
  syncToken : Option String
  syncProof : Option String
  rfile : Bytes
  deriving DecidableEq

/-- A status and the object that is sent as JSON. -/
structure Response where
  status : ℕ
  obj : Json

/-- The call a handler makes to the store once its checks are through. -/
inductive StoreOp
  | createGroup (groupId authHash pairingSalt : Json)
  | upsertRecords (groupId : String) (records : List Json)
  | queryRecords (groupId : String) (collection : Option String) (since : ℤ)

/-- How a handler goes on: it answers, or it calls the store. -/
inductive Action
  | send (r : Response)
  | store (op : StoreOp)

def sendError (status : ℕ) (error : String) : Response := ⟨status, .object [("error", .text error)]⟩

def Accepted.toJson (a : Accepted) : Json :=
  .object [("collection", a.collection), ("id", a.recordId), ("version", .int a.version)]

def Conflict.toJson (c : Conflict) : Json :=
  .object [("collection", c.collection), ("id", c.recordId), ("your_version", .int c.yourVersion),
    ("server_version", .int c.serverVersion)]

def PushResult.toJson (s : PushResult) : Json :=
  .object [("accepted", .list (s.accepted.map Accepted.toJson)),
    ("conflicts", .list (s.conflicts.map Conflict.toJson)), ("server_seq", .int s.serverSeq)]

def PulledRecord.toJson (r : PulledRecord) : Json :=
  .object [("collection", .text r.collection), ("id", .text r.recordId), ("nonce", .text r.nonce),
    ("ciphertext", .text r.ciphertext), ("version", .int r.version), ("tombstone", .bool r.tombstone),
    ("alg", .text r.alg), ("seq", .int r.seq)]

def PullResult.toJson (s : PullResult) : Json :=
  .object [("records", .list (s.records.map PulledRecord.toJson)), ("server_seq", .int s.serverSeq)]

section
variable (std : Stdlib)

/-- The checks of `verify_request` against a stored hash. -/
def checkProof (stored tokenB64 proofB64 method path : String) (body : Bytes) :
    Except PyError Bool :=
  match b64uDec (.ofString tokenB64) with
  | .error _ => .ok false
  | .ok kAuth => do
    let presentedHash := b64u (std.sha256 kAuth).bytes
    if ← compareDigest stored presentedHash then
      let expectedProof := b64u (std.hmacSha256 kAuth (transcript std method path body)).bytes
      match compareDigest expectedProof proofB64 with
      | .ok b => .ok b
      | .error _ => .ok false
    else .ok false

def verifyRequest (groupId tokenB64 proofB64 method path : String) (body : Bytes) :
    Sql Tables Bool := do
  let stored ← getGroupAuthHash std groupId
  match stored with
  | none => pure false
  | some stored => Sql.lift (checkProof std stored tokenB64 proofB64 method path body)

/-- `int(self.headers.get("Content-Length", 0) or 0)` -/
def declaredLength : Option String → Except PyError ℤ
  | none => .ok 0
  | some s => if s = "" then .ok 0 else std.intOfStr (.ofString s)

/-- `None` when the body is too large. `rfile.read` reads to the end for -1 and refuses every other
negative length. -/
def readBody (req : Request) : Except PyError (Option Bytes) := do
  let length ← declaredLength std req.contentLength
  if (maxBody : ℤ) < length then .ok none
  else if length < -2 ^ 63 then .error .overflowError
  else if length < -1 then .error .valueError
  else if length = -1 then .ok (some req.rfile)
  else .ok (some (req.rfile.take length.toNat))

/-- The path a proof is checked against. -/
def ParsedUrl.signedPath (parsed : ParsedUrl) : String :=
  if parsed.query = "" then parsed.path else parsed.path ++ "?" ++ parsed.query

def authed (req : Request) (parsed : ParsedUrl) (body : Bytes) : Sql Tables (Option String) := do
  let groupId := req.syncGroup.getD ""
  let token := req.syncToken.getD ""
  let proof := req.syncProof.getD ""
  if groupId = "" then pure none
  else
    let ok ← verifyRequest std groupId token proof req.method.command parsed.signedPath body
    pure (if ok then some groupId else none)

def pairPayload (body : Bytes) : Except PyError (Json × Json × Json) := do
  let payload ← std.loads body
  let groupId ← payload.getItem "group_id"
  let authHash ← payload.getItem "auth_hash"
  .ok (payload, groupId, authHash)

def handlePair (body : Bytes) : Except PyError Action :=
  match pairPayload std body with
  | .error _ => .ok (.send (sendError 400 "invalid pair payload"))
  | .ok (payload, groupId, authHash) => do
    let pairingSalt ← payload.get "pairing_salt" .null
    .ok (.store (.createGroup groupId authHash pairingSalt))

def recordFields : List String := ["collection", "id", "nonce", "ciphertext", "version"]

/-- `all(k in r for k in keys)` -/
def hasFields (r : Json) : List String → Except PyError Bool
  | [] => .ok true
  | k :: ks => do if ← r.contains k then hasFields r ks else .ok false

/-- Whether the loop over the batch meets a malformed record. -/
def malformed : List Json → Except PyError Bool
  | [] => .ok false
  | r :: rs => do if ← hasFields r recordFields then malformed rs else .ok true

/-- What `_handle_push` does for an authenticated group. -/
def pushAction (groupId : String) (body : Bytes) : Except PyError Action :=
  match (do (← std.loads body).getItem "records") with
  | .error _ => .ok (.send (sendError 400 "invalid records payload"))
  | .ok (.list records) => do
    if maxRecordsPerBatch < records.length then .ok (.send (sendError 400 "bad batch"))
    else if ← malformed records then .ok (.send (sendError 400 "malformed record"))
    else .ok (.store (.upsertRecords groupId records))
  | .ok _ => .ok (.send (sendError 400 "bad batch"))

def handlePush (req : Request) (parsed : ParsedUrl) (body : Bytes) : Sql Tables Action := do
  let groupId ← authed std req parsed body
  match groupId with
  | none => pure (.send (sendError 403 "authentication failed"))
  | some groupId => Sql.lift (pushAction std groupId body)

/-- `int(q.get("since", ["0"])[0])`, or 0 where that is a `ValueError`. -/
def pullSince (q : List (String × List String)) : Except PyError ℤ :=
  match std.intOfStr (.ofString (((q.lookup "since").bind List.head?).getD "0")) with
  | .error .valueError => .ok 0
  | since => since

/-- What `_handle_pull` does for an authenticated group. -/
def pullAction (groupId : String) (parsed : ParsedUrl) : Except PyError Action := do
  let q := std.parseQs parsed.query
  let collection := (q.lookup "collection").bind List.head?
  let since ← pullSince std q
  .ok (.store (.queryRecords groupId collection since))

def handlePull (req : Request) (parsed : ParsedUrl) : Sql Tables Action := do
  let groupId ← authed std req parsed []
  match groupId with
  | none => pure (.send (sendError 403 "authentication failed"))
  | some groupId => Sql.lift (pullAction std groupId parsed)

def doPOST (req : Request) : Sql Tables Action := do
  let parsed ← Sql.lift (std.urlparse req.target)
  let body ← Sql.lift (readBody std req)
  match body with
  | none => pure (.send (sendError 413 "request too large"))
  | some body =>
    if parsed.path = "/v1/pair" then Sql.lift (handlePair std body)
    else if parsed.path = "/v1/records" then handlePush std req parsed body
    else pure (.send (sendError 404 "not found"))

def doGET (req : Request) : Sql Tables Action := do
  let parsed ← Sql.lift (std.urlparse req.target)
  if parsed.path = "/v1/records" then handlePull std req parsed
  else if parsed.path = "/v1/health" then pure (.send ⟨200, .object [("status", .text "ok")]⟩)
  else pure (.send (sendError 404 "not found"))

/-- The handler up to its store call. -/
def route (req : Request) : Sql Tables Action :=
  match req.method with
  | .get => doGET std req
  | .post => doPOST std req

/-- The store call and the answer made of its result. -/
def StoreOp.run : StoreOp → Sql Tables Response
  | .createGroup groupId authHash pairingSalt => do
    let ok ← T3dmium.createGroup std groupId authHash pairingSalt
    pure (if ok then ⟨200, .object [("group_id", groupId), ("paired", .bool true)]⟩
      else sendError 409 "group exists with different secret")
  | .upsertRecords groupId records => do
    let result ← T3dmium.upsertRecords std groupId records
    pure ⟨if result.conflicts.isEmpty then 200 else 409, result.toJson⟩
  | .queryRecords groupId collection since => do
    let result ← T3dmium.queryRecords groupId collection since
    pure ⟨200, result.toJson⟩

def Action.run : Action → Sql Tables Response
  | .send r => pure r
  | .store op => op.run std

/-- One request, from its headers to its answer; an exception ends it unanswered. -/
def handle (req : Request) : Sql Tables Response := route std req >>= Action.run std

end

/-- A `POST` whose length field is that of its body. -/
def Request.post (target : String) (body : Bytes) (group token proof : String) : Request :=
  ⟨.post, target, some (toString body.length), some group, some token, some proof, body⟩

end T3dmium
