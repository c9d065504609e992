import T3dmium.Handler

/-! The reference client: signed requests, and what it makes of the answers. -/
namespace T3dmium

structure SyncClient where
  keys : GroupKeys
  pairingSalt : Option Bytes

/-- What a client operation can raise: a `SyncError`, a connection closed without an
answer, or an exception on the answer itself. -/
inductive ClientError
  | syncError (status : ℕ) (message : Json)
  | remoteDisconnected
  | raised (e : PyError)

/-- A status line and the bytes after the headers. -/
structure HttpResponse where
  status : ℕ
  raw : Bytes

def requestLine (req : Request) : String :=
  req.method.command ++ " " ++ req.target ++ " HTTP/1.1\r\n"

def maxRequestLine : ℕ := 65536

section
variable (std : Stdlib)

/-- The server's end: `http.server` refuses a longer request line by itself. -/
def serve (req : Request) : Sql Tables HttpResponse :=
  if maxRequestLine < (requestLine req).length then pure ⟨414, std.errorPage 414⟩
  else do
    let resp ← handle std req
    pure ⟨resp.status, std.dumpBody resp.obj⟩

/-- The request `_request` signs. -/
def clientRequest (keys : GroupKeys) (method : Method) (path : String) (payload : Option Json) :
    Request :=
  let body := payload.elim [] std.dumpBody
  ⟨method, path, payload.map fun _ => toString body.length, some keys.groupId,
    some keys.authToken, some (keys.authProof std method.command path body), body⟩

/-- `json.loads(raw).get("error", …)`, or the text of the answer. -/
def errorMessage (raw : Bytes) : Json :=
  match (do (← std.loads raw).get "error" (.text (std.decodeReplace raw))) with
  | .ok message => message
  | .error _ => .text (std.decodeReplace raw)

/-- What `_request` returns or raises once the exchange is over. -/
def readAnswer (softStatuses : List ℕ) :
    Except PyError HttpResponse → Except ClientError Json
  | .error _ => .error .remoteDisconnected
  | .ok r =>
    if 200 ≤ r.status ∧ r.status < 300 then
      if r.raw = [] then .ok (.dict [])
      else
        match std.loads r.raw with
        | .ok v => .ok v
        | .error e => .error (.raised e)
    else
      match (if r.status ∈ softStatuses then std.loads r.raw else .error .valueError) with
      | .ok v => .ok v
      | .error _ => .error (.syncError r.status (errorMessage std r.raw))

/-- `/v1/records?since=…[&collection=…]`; an empty collection is no filter. -/
def pullPath (collection : Option String) (since : ℤ) : String :=
  "/v1/records?since=" ++ toString since ++
    match collection with
    | none => ""
    | some c => if c = "" then "" else "&collection=" ++ std.quote c

namespace SyncClient
variable (client : SyncClient)

def request (method : Method) (path : String) (payload : Option Json) (softStatuses : List ℕ)
    (c : Conn Tables) : Except ClientError Json × Conn Tables :=
  let answer := serve std (clientRequest std client.keys method path payload) c
  (readAnswer std softStatuses answer.1, answer.2)

def pairPayload : Json :=
  .object ([("group_id", .text client.keys.groupId), ("auth_hash", .text (client.keys.authHash std))] ++
    (client.pairingSalt.map fun salt => ("pairing_salt", Json.text (b64u salt))).toList)

def pair : Conn Tables → Except ClientError Json × Conn Tables :=
  client.request std .post "/v1/pair" (some (client.pairPayload std)) []

def pushPayload (records : List Json) : Json := .object [("records", .list records)]

/-- A conflict report is returned, not raised. -/
def push (records : List Json) : Conn Tables → Except ClientError Json × Conn Tables :=
  client.request std .post "/v1/records" (some (pushPayload records)) [409]

def pull (collection : Option String) (since : ℤ) :
    Conn Tables → Except ClientError Json × Conn Tables :=
  client.request std .get (pullPath std collection since) none []

end SyncClient
end
end T3dmium
