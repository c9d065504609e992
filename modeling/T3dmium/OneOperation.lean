import T3dmium.Hijack
import T3dmium.SelfDelimiting

/-! What a proof covers: everything that routing and the handlers read of a request.
So one proof stands for one store call. -/
namespace T3dmium

/-- `_authed` lets the request through for `g`; a `GET` signs no body. -/
structure Authenticated (std : Stdlib) (req : Request) (g : String) (parsed : ParsedUrl)
    (body : Bytes) (c : Conn Tables) : Prop where
  reaches : Reaches std req req.method "/v1/records" parsed body
  ignored : req.method = .get → body = []
  authed : (authed std req parsed body c).1 = .ok (some g)

/-! Transcripts -/

lemma plainBytes_lineFeed {c : Char} (h : (10 : UInt8) ∈ plainBytes c) : c = '\n' := by
  have hbytes : plainBytes c = String.utf8EncodeChar c := by
    simp [plainBytes, encodeUtf8, List.utf8Encode]
  rw [hbytes, String.utf8EncodeChar] at h
  have hval : c.toNat = 10 := by
    rw [Char.toNat]
    split_ifs at h
    all_goals
      simp only [List.mem_cons, List.not_mem_nil, or_false, ← UInt8.toNat_inj, UInt8.toNat_ofNat',
        UInt8.reduceToNat] at h
      omega
  exact Char.toNat_inj.mp hval

lemma notMem_encodeUtf8 {cs : List Char} (h : '\n' ∉ cs) : (10 : UInt8) ∉ encodeUtf8 (.ofList cs) := by
  induction cs with
  | nil => exact List.not_mem_nil
  | cons c cs ih =>
    rw [encodeUtf8_cons, List.mem_append]
    rintro (hc | hcs)
    · exact h (plainBytes_lineFeed hc ▸ List.mem_cons_self)
    · exact ih (fun hmem => h (List.mem_cons_of_mem _ hmem)) hcs

section
variable {std : Stdlib}

/-- Methods without line feeds, paths and hashes can be read off a transcript: the hash
is its last 32 bytes. -/
lemma transcript_inj {method method' path path' : String} {body body' : Bytes}
    (hm : '\n' ∉ method.toList) (hm' : '\n' ∉ method'.toList)
    (h : transcript std method path body = transcript std method' path' body') :
    method = method' ∧ path = path' ∧ std.sha256 body = std.sha256 body' := by
  have hfree : ∀ m : String, '\n' ∉ m.toList → (10 : UInt8) ∉ encodeUtf8 m := by
    intro m hm
    rw [← String.ofList_toList (s := m)]
    exact notMem_encodeUtf8 hm
  simp only [transcript, List.append_assoc, List.cons_append, List.nil_append] at h
  obtain ⟨hmethod, h⟩ := SelfDelimiting.split_at_first (hfree _ hm) (hfree _ hm') h
  have hlen : (encodeUtf8 path).length = (encodeUtf8 path').length := by
    have hl := congrArg List.length h
    simp only [List.length_append, List.length_cons, Digest.length_eq] at hl
    omega
  obtain ⟨hpath, hdigest⟩ := List.append_inj h hlen
  exact ⟨encodeUtf8_injective hmethod, encodeUtf8_injective hpath,
    Digest.bytes_injective (List.cons.inj hdigest).2⟩

lemma lineFeed_command (m : Method) : '\n' ∉ m.command.toList := by
  cases m <;> decide

lemma command_injective : Function.Injective Method.command := by
  intro m m' h
  cases m <;> cases m' <;> first | rfl | exact absurd h (by decide)

lemma signedPath_toList (parsed : ParsedUrl) : parsed.signedPath.toList =
    parsed.path.toList ++ if parsed.query = "" then [] else '?' :: parsed.query.toList := by
  unfold ParsedUrl.signedPath
  split_ifs <;> simp

/-- Path and query can be told apart in what is signed. -/
lemma signedPath_inj {parsed parsed' : ParsedUrl} (hp : '?' ∉ parsed.path.toList)
    (hp' : '?' ∉ parsed'.path.toList) (h : parsed.signedPath = parsed'.signedPath) :
    parsed = parsed' := by
  have hlist := congrArg String.toList h
  rw [signedPath_toList, signedPath_toList] at hlist
  have hmem : ∀ (u v : List Char), u ++ '?' :: v ≠ parsed.path.toList ∧
      u ++ '?' :: v ≠ parsed'.path.toList :=
    fun u v => ⟨fun he => hp (by simp [← he]), fun he => hp' (by simp [← he])⟩
  have hparts : parsed.path = parsed'.path ∧ parsed.query = parsed'.query := by
    split_ifs at hlist with hq hq' hq'
    · simp only [List.append_nil, String.toList_inj] at hlist
      exact ⟨hlist, hq.trans hq'.symm⟩
    · exact ((hmem _ _).1 (hlist.symm.trans (List.append_nil _))).elim
    · exact ((hmem _ _).2 (hlist.trans (List.append_nil _))).elim
    · obtain ⟨hpath, hquery⟩ := SelfDelimiting.split_at_first hp hp' hlist
      exact ⟨String.toList_inj.mp hpath, String.toList_inj.mp hquery⟩
  obtain ⟨path, query⟩ := parsed
  obtain ⟨path', query'⟩ := parsed'
  simpa using hparts

/-- An authenticated request is routed by its method, URL and body alone. -/
lemma route_authenticated {req : Request} {g : String} {parsed : ParsedUrl} {body : Bytes}
    {c : Conn Tables} (h : Authenticated std req g parsed body c) :
    (route std req c).1 =
      match req.method with
      | .get => pullAction std g parsed
      | .post => pushAction std g body := by
  have hurl : Sql.lift (std.urlparse req.target) c = (.ok parsed, c) := by
    rw [Sql.lift_apply, h.reaches.urlparse_eq]
  have hauthed : authed std req parsed body c = (.ok (some g), c) := by
    rw [(authed_readOnly req parsed body).eq c, h.authed]
  have hpath : parsed.path ≠ "/v1/pair" := by
    rw [h.reaches.path_eq]
    decide
  cases hm : req.method with
  | get =>
    rw [h.ignored hm] at hauthed
    simp only [route, hm, doGET]
    rw [Sql.bind_ok hurl, if_pos h.reaches.path_eq, handlePull, Sql.bind_ok hauthed]
    rfl
  | post =>
    have hbody : Sql.lift (readBody std req) c = (.ok (some body), c) := by
      rw [Sql.lift_apply, h.reaches.body_eq hm]
    simp only [route, hm, doPOST]
    rw [Sql.bind_ok hurl, Sql.bind_ok hbody]
    simp only [if_neg hpath, if_pos h.reaches.path_eq, handlePush]
    rw [Sql.bind_ok hauthed]
    rfl

/-- Once granted, access stays granted. -/
lemma Authenticated.persists {req : Request} {g : String} {parsed : ParsedUrl} {body : Bytes}
    {c c' : Conn Tables} (h : Authenticated std req g parsed body c)
    (hkept : GroupsKept c.tables c'.tables) : Authenticated std req g parsed body c' := by
  obtain ⟨hgroup, hne, row, hrow, hcred⟩ := authed_eq_some.mp h.authed
  exact ⟨h.reaches, h.ignored, authed_eq_some.mpr ⟨hgroup, hne, row, hkept g row hrow, hcred⟩⟩

/-- A store call that was let through would be let through later. -/
theorem route_persists {req : Request} {c c' : Conn Tables} {op : StoreOp}
    (h : (route std req c).1 = .ok (.store op)) (hkept : GroupsKept c.tables c'.tables) :
    (route std req c').1 = .ok (.store op) := by
  cases route_store h with
  | pair hp => exact route_pair hp c'
  | @push parsed body payload g records hr ha hp hrec hm =>
    have hauth : Authenticated std req g parsed body c :=
      ⟨hr.method_eq ▸ hr, fun hm => (nomatch hr.method_eq.symm.trans hm), ha⟩
    rw [← h, route_authenticated hauth, route_authenticated (hauth.persists hkept)]
  | @pull parsed g collection since hr ha hp =>
    have hauth : Authenticated std req g parsed [] c := ⟨hr.method_eq ▸ hr, fun _ => rfl, ha⟩
    rw [← h, route_authenticated hauth, route_authenticated (hauth.persists hkept)]

/-- Two requests that are let through with one token and one proof have one store call. Of
`urlparse` it takes that a query is cut off the path. -/
theorem proof_fixes_operation (std : Stdlib)
    (hurl : ∀ target parsed, std.urlparse target = .ok parsed → '?' ∉ parsed.path.toList)
    (req req' : Request) (g : String) (parsed parsed' : ParsedUrl) (body body' : Bytes)
    (c c' : Conn Tables) (h : Authenticated std req g parsed body c)
    (h' : Authenticated std req' g parsed' body' c') (htoken : req.syncToken = req'.syncToken)
    (hproof : req.syncProof = req'.syncProof) (hsha : Set.InjOn std.sha256 {body, body'})
    (hmac : ∀ key, Set.InjOn (std.hmacSha256 key)
      {transcript std req.method.command parsed.signedPath body,
        transcript std req'.method.command parsed'.signedPath body'}) :
    (route std req c).1 = (route std req' c').1 := by
  obtain ⟨-, -, row, -, key, hkey, -, hmac1⟩ := authed_eq_some.mp h.authed
  obtain ⟨-, -, row', -, key', hkey', -, hmac2⟩ := authed_eq_some.mp h'.authed
  rw [htoken, hkey'] at hkey
  cases hkey
  rw [hproof, hmac2] at hmac1
  have hdigest := Digest.bytes_injective (b64u_injective hmac1)
  have htranscript := hmac key (Or.inr rfl) (Or.inl rfl) hdigest
  obtain ⟨hcommand, hsigned, hhash⟩ :=
    transcript_inj (lineFeed_command _) (lineFeed_command _) htranscript
  have hmethod := command_injective hcommand
  obtain rfl := hsha (Or.inr rfl) (Or.inl rfl) hhash
  have hparsed : parsed' = parsed := by
    refine signedPath_inj ?_ ?_ hsigned
    · exact hurl _ _ h'.reaches.urlparse_eq
    · exact hurl _ _ h.reaches.urlparse_eq
  subst hparsed
  rw [route_authenticated h, route_authenticated h', hmethod]

end

/-- The push of the sample group under a target of other bytes. -/
def sampleAlias : Request := { samplePush with target := "/v1/records;x#y" }

lemma sample_authenticated {target : String}
    (hurl : Stdlib.sample.urlparse target = .ok ⟨"/v1/records", ""⟩) {c : Conn Tables} {row : GroupRow}
    (hrow : c.tables.groups.find "g" = some row)
    (hash : row.authHash = "A5BYxvLAy0ksUzsKTRTvd8wPeKvMztUofYShogEc-4E") :
    Authenticated .sample { samplePush with target := target } "g" ⟨"/v1/records", ""⟩
      (samplePushBody []) c where
  reaches := ⟨rfl, hurl, rfl, fun _ => samplePush_body⟩
  ignored := nofun
  authed := samplePushOf_authed [] hrow hash

theorem samplePush_fixes_operation :
    let c := (server .sample).final [samplePair] initSchema
    (route .sample samplePush c).1 = (route .sample sampleAlias c).1 := by
  intro c
  obtain ⟨t, hrun, hrow, -⟩ := samplePair_registers
  have hc : c = ⟨t, none⟩ := server_final hrun
  rw [hc]
  exact proof_fixes_operation .sample (fun _ _ => Urllib.notMem_path) samplePush sampleAlias "g" _ _ _ _ _ _
    (sample_authenticated (by decide) hrow rfl) (sample_authenticated (by decide) hrow rfl) rfl rfl
    (by simp) (fun _ => by simp [sampleAlias])

end T3dmium
