import T3dmium.RoundTrip

/-! What a pairing shows. `_request` puts the token of the group into every request, also
into the one that registers its hash. -/
namespace T3dmium

/-- What `_request` hands to `urlopen`. -/
structure HttpRequest where
  method : String
  url : String
  headers : List (String × String)
  data : Option Bytes
  deriving DecidableEq

/-- `base_url.rstrip("/")` -/
def trimmedUrl (baseUrl : String) : String := .ofList (baseUrl.toList.rdropWhile (· = '/'))

section
variable (std : Stdlib)

def httpRequest (baseUrl : String) (keys : GroupKeys) (method : Method) (path : String)
    (payload : Option Json) : HttpRequest :=
  let body := payload.elim [] std.dumpBody
  { method := method.command
    url := trimmedUrl baseUrl ++ path
    headers :=
      [("X-Sync-Group", keys.groupId), ("X-Sync-Token", keys.authToken),
        ("X-Sync-Proof", keys.authProof std method.command path body),
        ("Content-Type", "application/json"), ("Connection", "close")]
    data := payload.map std.dumpBody }

def SyncClient.pairRequest (client : SyncClient) (baseUrl : String) : HttpRequest :=
  httpRequest std baseUrl client.keys .post "/v1/pair" (some (client.pairPayload std))

/-- What the server reads of a request is what the client puts into it. -/
lemma clientRequest_eq (baseUrl : String) (keys : GroupKeys) (method : Method) (path : String)
    (payload : Option Json) :
    let sent := httpRequest std baseUrl keys method path payload
    clientRequest std keys method path payload =
      ⟨method, path, sent.data.map fun body => toString body.length,
        sent.headers.lookup "X-Sync-Group", sent.headers.lookup "X-Sync-Token",
        sent.headers.lookup "X-Sync-Proof", sent.data.getD []⟩ := by
  cases payload <;> rfl

end

section
variable {std : Stdlib} {a b : SyncClient}

/-- The key itself can be read off a pairing. -/
lemma pairRequest_token (client : SyncClient) (baseUrl : String) :
    ∃ token, (client.pairRequest std baseUrl).headers.lookup "X-Sync-Token" = some token ∧
      b64uDec (.ofString token) = .ok client.keys.kAuth :=
  ⟨client.keys.authToken, rfl, b64uDec_b64u _⟩

lemma kAuth_eq_of_pairRequest {baseUrl : String}
    (h : a.pairRequest std baseUrl = b.pairRequest std baseUrl) : a.keys.kAuth = b.keys.kAuth := by
  obtain ⟨token, htoken, hkey⟩ := @pairRequest_token std a baseUrl
  obtain ⟨token', htoken', hkey'⟩ := @pairRequest_token std b baseUrl
  rw [h, htoken'] at htoken
  obtain rfl := Option.some.inj htoken
  exact Except.ok.inj (hkey.symm.trans hkey')

lemma pairPayload_eq (hgroup : a.keys.groupId = b.keys.groupId)
    (hhash : a.keys.authHash std = b.keys.authHash std) (hsalt : a.pairingSalt = b.pairingSalt) :
    a.pairPayload std = b.pairPayload std := by
  rw [SyncClient.pairPayload, SyncClient.pairPayload, hgroup, hhash, hsalt]

/-- Two hierarchies with one public name and hash pair alike iff they share the key. -/
theorem pairRequest_eq_iff (std : Stdlib) (baseUrl : String) (a b : SyncClient)
    (hgroup : a.keys.groupId = b.keys.groupId) (hhash : a.keys.authHash std = b.keys.authHash std)
    (hsalt : a.pairingSalt = b.pairingSalt) :
    a.pairRequest std baseUrl = b.pairRequest std baseUrl ↔ a.keys.kAuth = b.keys.kAuth := by
  constructor
  · exact kAuth_eq_of_pairRequest
  · intro hkey
    have hpayload := @pairPayload_eq std a b hgroup hhash hsalt
    have htoken : a.keys.authToken = b.keys.authToken := congrArg b64u hkey
    have hproof : ∀ method path body,
        a.keys.authProof std method path body = b.keys.authProof std method path body := by
      intro method path body
      rw [GroupKeys.authProof, GroupKeys.authProof, hkey]
    simp only [SyncClient.pairRequest, httpRequest, hpayload, hgroup, htoken, hproof]

end

/-- Another hierarchy than the sample one that differs in the encryption key. -/
def sampleTwin : SyncClient := ⟨{ sampleGroupKeys with kEnc := [] }, none⟩

theorem sampleTwin_pairs_alike :
    sampleClient.pairRequest .sample "http://127.0.0.1:8787/" =
      sampleTwin.pairRequest .sample "http://127.0.0.1:8787/" :=
  (pairRequest_eq_iff .sample "http://127.0.0.1:8787/" sampleClient sampleTwin rfl rfl rfl).mpr rfl

/-- A hash under which all keys collide, and which tells HMACs apart in their last byte only. -/
def Stdlib.collapsing : Stdlib :=
  { Stdlib.sample with
    sha256 := fun x => ⟨List.replicate 31 0 ++ [if x.length = 32 then 0 else x.sum], by simp⟩ }

/-- Equal names and hashes do not make equal requests, and a request shows the key. -/
theorem pairRequest_discloses :
    (∃ a b, GroupKeys.init .collapsing [1] = .ok a ∧ GroupKeys.init .collapsing [2] = .ok b ∧
      a.groupId = b.groupId ∧ a.authHash .collapsing = b.authHash .collapsing ∧
      SyncClient.pairRequest .collapsing ⟨a, none⟩ "http://127.0.0.1:8787" ≠
        SyncClient.pairRequest .collapsing ⟨b, none⟩ "http://127.0.0.1:8787") ∧
    ∃ token, (sampleClient.pairRequest .sample "http://127.0.0.1:8787").headers.lookup
        "X-Sync-Token" = some token ∧ b64uDec (.ofString token) = .ok sampleGroupKeys.kAuth := by
  refine ⟨⟨_, _, GroupKeys.init_eq .collapsing [1], GroupKeys.init_eq .collapsing [2], ?_, ?_, ?_⟩,
    pairRequest_token sampleClient _⟩
  · decide +kernel
  · decide +kernel
  · exact fun h => absurd (kAuth_eq_of_pairRequest h) (by decide +kernel)

end T3dmium
