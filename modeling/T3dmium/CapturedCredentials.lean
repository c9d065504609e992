import T3dmium.Client
import T3dmium.ServerSteps
import T3dmium.SymbolicCrypto

/-! Requests an adversary has seen. The token header is the HMAC key in base64, so
one request of a group is enough to sign every other; without one, none is. -/
namespace T3dmium
open Symbolic

/-- Messages over the groups' authentication keys: the name `g` is `k_auth` of `g`. -/
abbrev AuthMsg := Msg String

namespace AuthMsg

def text (s : String) : AuthMsg := bytes (encodeUtf8 s)

def authHash (g : String) : AuthMsg := [.encoded [.hash [.name g]]]

def authToken (g : String) : AuthMsg := [.encoded [.name g]]

def transcript (method path : String) (body : AuthMsg) : AuthMsg :=
  text method ++ bytes [10] ++ text path ++ bytes [10] ++ [.hash body]

def authProof (k : AuthMsg) (method path : String) (body : AuthMsg) : AuthMsg :=
  [.encoded [.mac k (transcript method path body)]]

/-- `b64u_dec`, on an encoding or on plain text. -/
def Decodes (token k : AuthMsg) : Prop :=
  token = [.encoded k] ∨
    ∃ s bs, token = text s ∧ b64uDec (.ofString s) = .ok bs ∧ k = bytes bs

end AuthMsg

structure SignedRequest where
  group : String
  method : String
  path : String
  body : AuthMsg
  token : AuthMsg
  proof : AuthMsg

structure HonestCall where
  method : String
  path : String
  body : AuthMsg

/-- The request `_request` makes of it. -/
def HonestCall.request (g : String) (call : HonestCall) : SignedRequest :=
  ⟨g, call.method, call.path, call.body, AuthMsg.authToken g,
    AuthMsg.authProof [.name g] call.method call.path call.body⟩

namespace SignedRequest
variable (r : SignedRequest)

/-- Everything an observer of the request sees. -/
def shown : Set AuthMsg :=
  {.text r.group, .text r.method, .text r.path, r.body, r.token, r.proof}

/-- `verify_request`, where the stored hash is that of the group's key. -/
def Accepted : Prop :=
  ∃ k, AuthMsg.Decodes r.token k ∧ AuthMsg.authHash r.group = [.encoded [.hash k]] ∧
    r.proof = AuthMsg.authProof k r.method r.path r.body

end SignedRequest

/-- The adversary has seen the calls, and has the keys of all other groups. -/
def observed (g : String) (S : List HonestCall) : Set AuthMsg :=
  {m | ∃ call ∈ S, m ∈ (call.request g).shown} ∪ {m | ∃ g', g' ≠ g ∧ m = [.name g']}

/-- Every accepted request the adversary can build was made by the group itself. -/
def CredentialsBound (g : String) (S : List HonestCall) : Prop :=
  ∀ r : SignedRequest, r.group = g → (∀ m ∈ r.shown, Derives (observed g S) m) → r.Accepted →
    ∃ call ∈ S, call.method = r.method ∧ call.path = r.path ∧ call.body = r.body

/-- The server takes no other token than the key of the group. -/
lemma SignedRequest.Accepted.token_eq {r : SignedRequest} (h : r.Accepted) :
    r.token = AuthMsg.authToken r.group ∧
      r.proof = AuthMsg.authProof [.name r.group] r.method r.path r.body := by
  obtain ⟨k, hk, hhash, hproof⟩ := h
  have hkey : k = [.name r.group] := by
    simp only [AuthMsg.authHash, List.cons.injEq, Atom.encoded.injEq, Atom.hash.injEq, and_true]
      at hhash
    exact hhash.symm
  subst hkey
  rcases hk with hk | ⟨s, bs, -, -, hbs⟩
  · exact ⟨hk, hproof⟩
  · cases bs <;> simp [bytes] at hbs

lemma HonestCall.request_accepted (g : String) (call : HonestCall) :
    (call.request g).Accepted :=
  ⟨[.name g], Or.inl rfl, rfl, rfl⟩

/-- Nobody who has seen no request can show the key. -/
lemma credentialsBound_nil (g : String) : CredentialsBound g [] := by
  intro r hg hbuilt haccepted
  have hexposed : Exposes g r.token := by
    rw [haccepted.token_eq.1, hg, AuthMsg.authToken, exposes_encoded, exposes_name]
  have hderives : Derives (observed g []) r.token := hbuilt r.token (by simp [SignedRequest.shown])
  refine (hderives.not_exposes ?_ hexposed).elim
  rintro m (⟨call, hcall, -⟩ | ⟨g', hne, rfl⟩)
  · cases hcall
  · rw [exposes_name]
    exact hne.symm

lemma derives_request {g : String} {S : List HonestCall} {call : HonestCall} (hcall : call ∈ S)
    {forged : HonestCall} (hbody : Derives (observed g S) forged.body) :
    ∀ m ∈ (forged.request g).shown, Derives (observed g S) m := by
  have htoken : Derives (observed g S) (AuthMsg.authToken g) :=
    .known (Or.inl ⟨call, hcall, by simp [SignedRequest.shown, HonestCall.request]⟩)
  have hkey : Derives (observed g S) [.name g] := .decode htoken
  have htranscript : Derives (observed g S)
      (AuthMsg.transcript forged.method forged.path forged.body) := by
    refine .append (.append (.append (.append ?_ ?_) ?_) ?_) (.hash hbody)
    all_goals exact derives_bytes _ _
  intro m hm
  simp only [SignedRequest.shown, HonestCall.request, Set.mem_insert_iff, Set.mem_singleton_iff] at hm
  rcases hm with rfl | rfl | rfl | rfl | rfl | rfl
  · exact derives_bytes _ _
  · exact derives_bytes _ _
  · exact derives_bytes _ _
  · exact hbody
  · exact htoken
  · exact .encode (.mac hkey htranscript)

def freshBody (S : List HonestCall) : AuthMsg :=
  bytes (List.replicate ((S.map fun call => call.body.length).sum + 1) 0)

lemma freshBody_ne {S : List HonestCall} {call : HonestCall} (hcall : call ∈ S) :
    call.body ≠ freshBody S := by
  intro h
  have hlen := congrArg List.length h
  have hle : call.body.length ≤ (S.map fun call => call.body.length).sum :=
    List.single_le_sum (fun _ _ => Nat.zero_le _) _ (List.mem_map_of_mem hcall)
  simp only [freshBody, bytes, List.length_map, List.length_replicate] at hlen
  omega

lemma not_credentialsBound {g : String} {S : List HonestCall} {call : HonestCall}
    (hcall : call ∈ S) : ¬ CredentialsBound g S := by
  intro h
  let forged : HonestCall := ⟨"POST", "/v1/records", freshBody S⟩
  have hbuilt : ∀ m ∈ (forged.request g).shown, Derives (observed g S) m :=
    derives_request hcall (derives_bytes _ _)
  obtain ⟨call', hcall', -, -, hbody⟩ := h (forged.request g) rfl hbuilt (forged.request_accepted g)
  exact freshBody_ne hcall' hbody

/-- The credentials of a group are bound to its requests only while none has been
observed. -/
theorem credentialsBound_iff (g : String) (S : List HonestCall) :
    CredentialsBound g S ↔ S = [] := by
  constructor
  · intro h
    cases S with
    | nil => rfl
    | cons call S => exact (not_credentialsBound List.mem_cons_self h).elim
  · rintro rfl
    exact credentialsBound_nil g

theorem samplePull_not_bound : ¬ CredentialsBound "g" [⟨"GET", "/v1/records?since=0", []⟩] :=
  not_credentialsBound List.mem_cons_self

/-! The terms stand for what client and server compute. -/

section
variable (std : Stdlib)

def authInterpretation (kAuth : String → Bytes) : Interpretation String where
  name := kAuth
  hash m := (std.sha256 m).bytes
  mac k m := (std.hmacSha256 k m).bytes
  encode m := encodeUtf8 (b64u m)

variable {std} {kAuth : String → Bytes}

lemma eval_transcript (method path : String) (body : AuthMsg) :
    (authInterpretation std kAuth).eval (AuthMsg.transcript method path body) =
      transcript std method path ((authInterpretation std kAuth).eval body) := by
  simp [AuthMsg.transcript, AuthMsg.text, transcript, authInterpretation]

lemma eval_authToken {keys : GroupKeys} (hk : kAuth keys.groupId = keys.kAuth) :
    (authInterpretation std kAuth).eval (AuthMsg.authToken keys.groupId) =
      encodeUtf8 keys.authToken := by
  simp [AuthMsg.authToken, authInterpretation, GroupKeys.authToken, hk]

lemma eval_authProof {keys : GroupKeys} (hk : kAuth keys.groupId = keys.kAuth) (method path : String)
    (body : AuthMsg) :
    (authInterpretation std kAuth).eval (AuthMsg.authProof [.name keys.groupId] method path body) =
      encodeUtf8 (keys.authProof std method path ((authInterpretation std kAuth).eval body)) := by
  simp only [AuthMsg.authProof, Interpretation.eval_cons, Interpretation.eval_nil,
    Interpretation.atom_encoded, Interpretation.atom_mac, Interpretation.atom_name, eval_transcript,
    List.append_nil, GroupKeys.authProof]
  simp [authInterpretation, hk]

/-- The headers of a client's request are those of the symbolic one. -/
theorem clientRequest_stands {keys : GroupKeys} (hk : kAuth keys.groupId = keys.kAuth)
    (method : Method) (path : String) (payload : Option Json) (body : AuthMsg)
    (hbody : (authInterpretation std kAuth).eval body = payload.elim [] std.dumpBody) :
    let r := HonestCall.request keys.groupId ⟨method.command, path, body⟩
    let req := clientRequest std keys method path payload
    req.syncToken.map encodeUtf8 = some ((authInterpretation std kAuth).eval r.token) ∧
      req.syncProof.map encodeUtf8 = some ((authInterpretation std kAuth).eval r.proof) ∧
      req.rfile = (authInterpretation std kAuth).eval r.body := by
  refine ⟨?_, ?_, hbody.symm⟩
  · exact congrArg some (eval_authToken hk).symm
  · simp only [clientRequest, Option.map_some, HonestCall.request, eval_authProof hk, hbody]

/-- Whatever is accepted symbolically passes `verify_request`. -/
theorem accepted_checkProof {keys : GroupKeys} (hk : kAuth keys.groupId = keys.kAuth)
    {r : SignedRequest} (hg : r.group = keys.groupId) (h : r.Accepted) {token proof : String}
    (htoken : encodeUtf8 token = (authInterpretation std kAuth).eval r.token)
    (hproof : encodeUtf8 proof = (authInterpretation std kAuth).eval r.proof) :
    checkProof std (keys.authHash std) token proof r.method r.path
      ((authInterpretation std kAuth).eval r.body) = .ok true := by
  obtain ⟨ht, hp⟩ := h.token_eq
  rw [ht, hg, eval_authToken hk] at htoken
  rw [hp, hg, eval_authProof hk] at hproof
  obtain rfl := encodeUtf8_injective htoken
  obtain rfl := encodeUtf8_injective hproof
  exact checkProof_eq_true.mpr ⟨keys.kAuth, b64uDec_b64u _, rfl, rfl⟩

/-- Another request under the headers of a captured one. -/
def resign (std : Stdlib) (captured : Request) (method : Method) (target : String) (body : Bytes) :
    Except PyError Request := do
  let key ← b64uDec (.ofString (captured.syncToken.getD ""))
  let proof := b64u (std.hmacSha256 key (transcript std method.command target body)).bytes
  .ok ⟨method, target, some (toString body.length), captured.syncGroup, captured.syncToken,
    some proof, body⟩

/-- The server takes it, whatever the client had asked for. -/
theorem resign_authed {keys : GroupKeys} (hne : keys.groupId ≠ "") {c : Conn Tables} {row : GroupRow}
    (hrow : c.tables.groups.find keys.groupId = some row) (hhash : row.authHash = keys.authHash std)
    (m : Method) (path : String) (payload : Option Json) (method : Method) (target : String)
    (body : Bytes) {parsed : ParsedUrl} (hpath : parsed.signedPath = target) :
    ∃ req, resign std (clientRequest std keys m path payload) method target body = .ok req ∧
      (authed std req parsed body c).1 = .ok (some keys.groupId) := by
  have hkey : b64uDec (.ofString keys.authToken) = .ok keys.kAuth := b64uDec_b64u _
  refine ⟨_, bind_eq_ok.mpr ⟨keys.kAuth, hkey, rfl⟩, authed_eq_some.mpr ⟨rfl, hne, row, hrow, ?_⟩⟩
  exact ⟨keys.kAuth, hkey, hhash.symm, by rw [hpath]; rfl⟩

end
end T3dmium
