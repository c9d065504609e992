import T3dmium.Handler
import T3dmium.StoreSteps
import T3dmium.Machine

/-! What one request can do: routing only reads, a store call is reached with the
credentials of its group, and the tables change by a registration or a batch. -/
namespace T3dmium

section
variable {std : Stdlib}

/-! Routing -/

lemma verifyRequest_apply (groupId token proof method path : String) (body : Bytes)
    (c : Conn Tables) :
    verifyRequest std groupId token proof method path body c =
      (match c.tables.groups.find groupId with
        | none => .ok false
        | some row => checkProof std row.authHash token proof method path body, c) := by
  rw [verifyRequest, Sql.bind_ok (getGroupAuthHash_apply std groupId c)]
  cases c.tables.groups.find groupId <;> rfl

lemma verifyRequest_readOnly (groupId token proof method path : String) (body : Bytes) :
    Sql.ReadOnly (verifyRequest std groupId token proof method path body) := by
  intro c
  rw [verifyRequest_apply]

lemma authed_readOnly (req : Request) (parsed : ParsedUrl) (body : Bytes) :
    Sql.ReadOnly (authed std req parsed body) := by
  simp only [authed]
  split_ifs
  · exact Sql.readOnly_pure _
  · exact (verifyRequest_readOnly _ _ _ _ _ _).bind fun _ => Sql.readOnly_pure _

lemma handlePush_readOnly (req : Request) (parsed : ParsedUrl) (body : Bytes) :
    Sql.ReadOnly (handlePush std req parsed body) := by
  refine (authed_readOnly req parsed body).bind fun g => ?_
  cases g with
  | none => exact Sql.readOnly_pure _
  | some g => exact Sql.readOnly_lift _

lemma handlePull_readOnly (req : Request) (parsed : ParsedUrl) :
    Sql.ReadOnly (handlePull std req parsed) := by
  refine (authed_readOnly req parsed []).bind fun g => ?_
  cases g with
  | none => exact Sql.readOnly_pure _
  | some g => exact Sql.readOnly_lift _

lemma doPOST_readOnly (req : Request) : Sql.ReadOnly (doPOST std req) := by
  refine (Sql.readOnly_lift _).bind fun parsed => (Sql.readOnly_lift _).bind fun body => ?_
  cases body with
  | none => exact Sql.readOnly_pure _
  | some body =>
    simp only
    split_ifs
    · exact Sql.readOnly_lift _
    · exact handlePush_readOnly req parsed body
    · exact Sql.readOnly_pure _

lemma doGET_readOnly (req : Request) : Sql.ReadOnly (doGET std req) := by
  refine (Sql.readOnly_lift _).bind fun parsed => ?_
  split_ifs
  · exact handlePull_readOnly req parsed
  · exact Sql.readOnly_pure _
  · exact Sql.readOnly_pure _

/-- Up to its store call a handler only reads. -/
theorem route_readOnly (req : Request) : Sql.ReadOnly (route std req) := by
  unfold route
  cases req.method with
  | get => exact doGET_readOnly req
  | post => exact doPOST_readOnly req

lemma route_get_iff {req : Request} {c : Conn Tables} {action : Action} (hm : req.method = .get) :
    (route std req c).1 = .ok action ↔ ∃ parsed, std.urlparse req.target = .ok parsed ∧
      ((if parsed.path = "/v1/records" then handlePull std req parsed
        else if parsed.path = "/v1/health" then pure (.send ⟨200, .object [("status", .text "ok")]⟩)
        else pure (.send (sendError 404 "not found"))) c).1 = .ok action := by
  simp only [route, hm, doGET, (Sql.readOnly_lift _).bind_fst_ok, Sql.lift_apply]

lemma route_post_iff {req : Request} {c : Conn Tables} {action : Action} (hm : req.method = .post) :
    (route std req c).1 = .ok action ↔ ∃ parsed, std.urlparse req.target = .ok parsed ∧
      ∃ body, readBody std req = .ok body ∧
        (body.elim (pure (.send (sendError 413 "request too large")))
          (fun body =>
            if parsed.path = "/v1/pair" then Sql.lift (handlePair std body)
            else if parsed.path = "/v1/records" then handlePush std req parsed body
            else pure (.send (sendError 404 "not found"))) c).1 = .ok action := by
  simp only [route, hm, doPOST]
  refine (Sql.readOnly_lift _).bind_fst_ok.trans (exists_congr fun parsed => and_congr Iff.rfl ?_)
  refine (Sql.readOnly_lift _).bind_fst_ok.trans (exists_congr fun body => and_congr Iff.rfl ?_)
  cases body <;> exact Iff.rfl

/-- A body that comes whole under its length, and is not too large. -/
lemma readBody_whole {req : Request}
    (hint : std.intOfStr (.ofString (toString (req.rfile.length : ℤ))) = .ok (req.rfile.length : ℤ))
    (hlength : req.contentLength = some (toString req.rfile.length)) (hle : req.rfile.length ≤ maxBody) :
    readBody std req = .ok (some req.rfile) := by
  have hne : toString req.rfile.length ≠ "" := by
    intro he
    have hdigits := congrArg String.toList he
    simp [Nat.toDigits_ne_nil] at hdigits
  have hdeclared : declaredLength std req.contentLength = .ok (req.rfile.length : ℤ) := by
    rw [hlength, declaredLength, if_neg hne]
    exact hint
  have hsmall : ¬ (maxBody : ℤ) < req.rfile.length := by omega
  have hword : ¬ (req.rfile.length : ℤ) < -2 ^ 63 := by omega
  have hnegative : ¬ (req.rfile.length : ℤ) < -1 := by omega
  have hall : (req.rfile.length : ℤ) ≠ -1 := by omega
  simp only [readBody, hdeclared, bind, Except.bind, if_neg hsmall, if_neg hword, if_neg hnegative,
    if_neg hall, Int.toNat_natCast, List.take_length]

/-! Credentials -/

/-- The token hashes to the stored hash and the proof is its HMAC over method,
path and body. -/
def Credentials (std : Stdlib) (req : Request) (parsed : ParsedUrl) (body : Bytes)
    (authHash : String) : Prop :=
  ∃ kAuth, b64uDec (.ofString (req.syncToken.getD "")) = .ok kAuth ∧
    b64u (std.sha256 kAuth).bytes = authHash ∧
    req.syncProof.getD "" = b64u
      (std.hmacSha256 kAuth (transcript std req.method.command parsed.signedPath body)).bytes

lemma compareDigest_b64u {s : String} {x : Bytes} :
    compareDigest s (b64u x) = .ok true ↔ s = b64u x := by
  constructor
  · exact compareDigest_eq_true
  · rintro rfl
    simp [compareDigest_ascii (b64u_ascii x) (b64u_ascii x)]

lemma checkProof_eq_true {stored token proof method path : String} {body : Bytes} :
    checkProof std stored token proof method path body = .ok true ↔
      ∃ kAuth, b64uDec (.ofString token) = .ok kAuth ∧ b64u (std.sha256 kAuth).bytes = stored ∧
        proof = b64u (std.hmacSha256 kAuth (transcript std method path body)).bytes := by
  unfold checkProof
  cases b64uDec (.ofString token) with
  | error e => simp
  | ok kAuth =>
    simp only [bind_eq_ok, Except.ok.injEq, exists_eq_left']
    constructor
    · rintro ⟨b, hb, h⟩
      cases b with
      | false => simp at h
      | true =>
        refine ⟨(compareDigest_b64u.mp hb).symm, ?_⟩
        simp only [if_true] at h
        split at h
        · next b' hc =>
          cases h
          exact (compareDigest_eq_true hc).symm
        · cases h
    · rintro ⟨rfl, rfl⟩
      refine ⟨true, compareDigest_b64u.mpr rfl, ?_⟩
      simp [compareDigest_b64u.mpr]

/-- A group is authenticated exactly by credentials that fit its row. -/
theorem authed_eq_some {req : Request} {parsed : ParsedUrl} {body : Bytes} {g : String}
    {c : Conn Tables} :
    (authed std req parsed body c).1 = .ok (some g) ↔
      req.syncGroup = some g ∧ g ≠ "" ∧
        ∃ row, c.tables.groups.find g = some row ∧ Credentials std req parsed body row.authHash := by
  have hg : req.syncGroup = some g ∧ g ≠ "" ↔ req.syncGroup.getD "" = g ∧ g ≠ "" := by
    cases req.syncGroup with
    | none => exact ⟨fun h => by simp at h, fun h => (h.2 h.1.symm).elim⟩
    | some g' => simp
  rw [← and_assoc, hg]
  simp only [authed]
  split_ifs with he
  · simp only [Sql.pure_apply, Except.ok.injEq, reduceCtorEq, false_iff]
    rintro ⟨⟨h, hne⟩, -⟩
    exact hne (h.symm.trans he)
  · rw [(verifyRequest_readOnly _ _ _ _ _ _).bind_fst_ok]
    simp only [verifyRequest_apply, Sql.pure_apply, Except.ok.injEq]
    constructor
    · rintro ⟨ok, hv, hs⟩
      cases ok with
      | false => simp at hs
      | true =>
        simp only [if_true, Option.some.injEq] at hs
        subst hs
        cases hf : c.tables.groups.find (req.syncGroup.getD "") with
        | none =>
          rw [hf] at hv
          cases hv
        | some row =>
          rw [hf] at hv
          exact ⟨⟨rfl, he⟩, row, rfl, checkProof_eq_true.mp hv⟩
    · rintro ⟨⟨rfl, -⟩, row, hf, hcred⟩
      exact ⟨true, by rw [hf]; exact checkProof_eq_true.mpr hcred, rfl⟩

/-! Store calls -/

lemma pushAction_store {g : String} {body : Bytes} {op : StoreOp}
    (h : pushAction std g body = .ok (.store op)) :
    ∃ payload records, std.loads body = .ok payload ∧ payload.getItem "records" = .ok (.list records) ∧
      malformed records = .ok false ∧ op = .upsertRecords g records := by
  unfold pushAction at h
  split at h
  · cases h
  · next records hr =>
    obtain ⟨payload, hp, hrec⟩ := bind_eq_ok.mp hr
    split_ifs at h
    · cases h
    · obtain ⟨bad, hbad, h⟩ := bind_eq_ok.mp h
      cases bad with
      | true => cases h
      | false =>
        cases h
        exact ⟨payload, records, hp, hrec, hbad, rfl⟩
  · cases h

lemma pullAction_store {g : String} {parsed : ParsedUrl} {op : StoreOp}
    (h : pullAction std g parsed = .ok (.store op)) :
    ∃ collection since, op = .queryRecords g collection since := by
  simp only [pullAction, bind_eq_ok] at h
  obtain ⟨since, -, h⟩ := h
  cases h
  exact ⟨_, _, rfl⟩

lemma handlePair_store {body : Bytes} {op : StoreOp}
    (h : handlePair std body = .ok (.store op)) :
    ∃ payload g a s, pairPayload std body = .ok (payload, g, a) ∧
      payload.get "pairing_salt" .null = .ok s ∧ op = .createGroup g a s := by
  unfold handlePair at h
  split at h
  · cases h
  · next payload g a hp =>
    obtain ⟨s, hs, h⟩ := bind_eq_ok.mp h
    cases h
    exact ⟨payload, g, a, s, hp, hs, rfl⟩

/-- The request is for `endpoint` with this body. -/
structure Reaches (std : Stdlib) (req : Request) (m : Method) (endpoint : String)
    (parsed : ParsedUrl) (body : Bytes) : Prop where
  method_eq : req.method = m
  urlparse_eq : std.urlparse req.target = .ok parsed
  path_eq : parsed.path = endpoint
  body_eq : m = .post → readBody std req = .ok (some body)

/-- The pair request the handler reads out of `req`. -/
def PairOf (std : Stdlib) (req : Request) (g a s : Json) : Prop :=
  ∃ parsed body payload, Reaches std req .post "/v1/pair" parsed body ∧
    pairPayload std body = .ok (payload, g, a) ∧ payload.get "pairing_salt" .null = .ok s

/-- A store call is a pairing, or a push or pull with the credentials of its group. -/
inductive Calls (std : Stdlib) (req : Request) (c : Conn Tables) : StoreOp → Prop
  | pair {g a s} (h : PairOf std req g a s) : Calls std req c (.createGroup g a s)
  | push {parsed body payload g records} (hr : Reaches std req .post "/v1/records" parsed body)
      (ha : (authed std req parsed body c).1 = .ok (some g))
      (hp : std.loads body = .ok payload) (hrec : payload.getItem "records" = .ok (.list records))
      (hm : malformed records = .ok false) :
      Calls std req c (.upsertRecords g records)
  | pull {parsed g collection since} (hr : Reaches std req .get "/v1/records" parsed [])
      (ha : (authed std req parsed [] c).1 = .ok (some g))
      (hp : pullAction std g parsed = .ok (.store (.queryRecords g collection since))) :
      Calls std req c (.queryRecords g collection since)

theorem route_store {req : Request} {c : Conn Tables} {op : StoreOp}
    (h : (route std req c).1 = .ok (.store op)) : Calls std req c op := by
  cases hm : req.method with
  | post =>
    obtain ⟨parsed, hu, body, hb, h⟩ := (route_post_iff hm).mp h
    cases body with
    | none => simp at h
    | some body =>
      rw [Option.elim_some] at h
      split_ifs at h with h1 h2
      · obtain ⟨payload, g, a, s, hp, hs, rfl⟩ := handlePair_store h
        exact .pair ⟨parsed, body, payload, ⟨hm, hu, h1, fun _ => hb⟩, hp, hs⟩
      · unfold handlePush at h
        obtain ⟨g, hg, h⟩ := (authed_readOnly req parsed body).bind_fst_ok.mp h
        cases g with
        | none => simp at h
        | some g =>
          obtain ⟨payload, records, hp, hrec, hmal, rfl⟩ := pushAction_store h
          exact .push ⟨hm, hu, h2, fun _ => hb⟩ hg hp hrec hmal
      · simp at h
  | get =>
    obtain ⟨parsed, hu, h⟩ := (route_get_iff hm).mp h
    split_ifs at h with h1 h2
    · unfold handlePull at h
      obtain ⟨g, hg, h⟩ := (authed_readOnly req parsed []).bind_fst_ok.mp h
      cases g with
      | none => simp at h
      | some g =>
        obtain ⟨collection, since, rfl⟩ := pullAction_store h
        exact .pull ⟨hm, hu, h1, nofun⟩ hg h
    · simp at h
    · simp at h

lemma route_pair {req : Request} {g a s : Json} (h : PairOf std req g a s) (c : Conn Tables) :
    (route std req c).1 = .ok (.store (.createGroup g a s)) := by
  obtain ⟨parsed, body, payload, hr, hp, hs⟩ := h
  refine (route_post_iff hr.method_eq).mpr ⟨parsed, hr.urlparse_eq, some body, hr.body_eq rfl, ?_⟩
  simp [hr.path_eq, handlePair, hp, hs, bind, Except.bind]

lemma route_push {req : Request} {parsed : ParsedUrl} {body : Bytes} {payload : Json} {g : String}
    {records : List Json} {c : Conn Tables} (hr : Reaches std req .post "/v1/records" parsed body)
    (ha : (authed std req parsed body c).1 = .ok (some g)) (hp : std.loads body = .ok payload)
    (hrec : payload.getItem "records" = .ok (.list records))
    (hlen : records.length ≤ maxRecordsPerBatch) (hm : malformed records = .ok false) :
    (route std req c).1 = .ok (.store (.upsertRecords g records)) := by
  refine (route_post_iff hr.method_eq).mpr ⟨parsed, hr.urlparse_eq, some body, hr.body_eq rfl, ?_⟩
  have hpath : parsed.path ≠ "/v1/pair" := by
    rw [hr.path_eq]
    decide
  simp only [Option.elim_some, if_neg hpath, if_pos hr.path_eq, handlePush, (authed_readOnly req parsed body).bind_fst_ok]
  refine ⟨some g, ha, ?_⟩
  have hlen' : ¬ maxRecordsPerBatch < records.length := not_lt.mpr hlen
  simp [pushAction, hp, hrec, hm, hlen', bind, Except.bind]

lemma route_pull {req : Request} {parsed : ParsedUrl} {g : String} {op : StoreOp} {c : Conn Tables}
    (hr : Reaches std req .get "/v1/records" parsed [])
    (ha : (authed std req parsed [] c).1 = .ok (some g))
    (hp : pullAction std g parsed = .ok (.store op)) :
    (route std req c).1 = .ok (.store op) := by
  refine (route_get_iff hr.method_eq).mpr ⟨parsed, hr.urlparse_eq, ?_⟩
  simp only [if_pos hr.path_eq, handlePull, (authed_readOnly req parsed []).bind_fst_ok]
  exact ⟨some g, ha, hp⟩

lemma PairOf.inj {req : Request} {g a s g' a' s' : Json} (h : PairOf std req g a s)
    (h' : PairOf std req g' a' s') : g = g' ∧ a = a' ∧ s = s' := by
  have heq := (route_pair h initSchema).symm.trans (route_pair h' initSchema)
  simpa only [Except.ok.injEq, Action.store.injEq, StoreOp.createGroup.injEq] using heq

lemma not_pairOf_of_path {req : Request} {parsed : ParsedUrl} {g a s : Json}
    (hu : std.urlparse req.target = .ok parsed) (hp : parsed.path ≠ "/v1/pair") :
    ¬ PairOf std req g a s := by
  rintro ⟨parsed', _, _, hr, _⟩
  rw [hr.urlparse_eq] at hu
  cases hu
  exact hp hr.path_eq

/-- What a pair request without salt, or with one, shows in that field. -/
def saltField : Option String → Json
  | none => .null
  | some s => .text s

lemma bindText_saltField (salt : Option String) :
    bindText std.realText (saltField salt) = .ok salt := by
  cases salt with
  | none => rfl
  | some s => exact bindText_text _ s

/-! Effects -/

lemma registerGroup_eq_ok {g a s : Json} {t t' : Tables} :
    registerGroup std g a s t = .ok t' ↔
      ∃ k a' s' groups, bindText std.realText g = .ok k ∧ bindText std.realText a = .ok (some a') ∧
        bindText std.realText s = .ok s' ∧ t.groups.insert ⟨k, a', s'⟩ = some groups ∧
        t' = ⟨groups, t.records, t.seqCounter.insertOrIgnore ⟨k, 0⟩⟩ := by
  constructor
  · intro h
    simp only [registerGroup, insertGroup, insertCounter, bind_eq_ok, notNull_eq_ok] at h
    obtain ⟨t1, ⟨k, hk, _, ha, s', hs, a', rfl, hi⟩, k', hk', h⟩ := h
    split at hi
    · next groups hg =>
      cases hi
      cases h
      rw [hk] at hk'
      cases hk'
      exact ⟨k, a', s', groups, hk, ha, hs, hg, rfl⟩
    · cases hi
  · rintro ⟨k, a', s', groups, hk, ha, hs, hg, rfl⟩
    simp only [registerGroup, insertGroup, insertCounter, bind_eq_ok, notNull_eq_ok]
    exact ⟨_, ⟨k, hk, _, ha, s', hs, a', rfl, by rw [hg]⟩, k, hk, rfl⟩

/-- With text fields, pairing an unregistered group stores exactly its row. -/
lemma createGroup_free (std : Stdlib) {g : String} {t : Tables} (hfree : t.groups.find g = none)
    (h : String) (salt : Option String) :
    ∃ groups, t.groups.insert ⟨some g, h, salt⟩ = some groups ∧
      createGroup std (.text g) (.text h) (saltField salt) ⟨t, none⟩ =
        (.ok true, ⟨⟨groups, t.records, t.seqCounter.insertOrIgnore ⟨some g, 0⟩⟩, none⟩) := by
  have hkey : GroupRow.groupId ⟨some g, h, salt⟩ = some g := rfl
  obtain ⟨groups, hins⟩ := KeyedTable.insert_of_find_none hkey hfree
  refine ⟨groups, hins, ?_⟩
  have hreg : registerGroup std (.text g) (.text h) (saltField salt) t =
      .ok ⟨groups, t.records, t.seqCounter.insertOrIgnore ⟨some g, 0⟩⟩ :=
    registerGroup_eq_ok.mpr ⟨_, _, _, _, bindText_text _ g, bindText_text _ h,
      bindText_saltField salt, hins, rfl⟩
  have hsel : selectAuthHash std (.text g) t = .ok none := by
    simp [selectAuthHash, hfree, bind, Except.bind]
  rw [createGroup_apply]
  simp only [hsel, hreg]

lemma createGroup_taken (std : Stdlib) {g : String} {row : GroupRow} {t : Tables}
    {undo : Option Tables} (hrow : t.groups.find g = some row) (a s : Json) :
    createGroup std (.text g) a s ⟨t, undo⟩ = (compareDigestJson row.authHash a, ⟨t, undo⟩) := by
  have hsel : selectAuthHash std (.text g) t = .ok (some row.authHash) := by
    simp [selectAuthHash, hrow, bind, Except.bind]
  rw [createGroup_apply]
  simp only [hsel]

/-- How a store call may change the tables. -/
inductive TableStep (std : Stdlib) : StoreOp → Tables → Tables → Prop
  | same (op t) : TableStep std op t t
  | register {g a s t t'} (hfree : selectAuthHash std g t = .ok none)
      (h : registerGroup std g a s t = .ok t') : TableStep std (.createGroup g a s) t t'
  | push {g records t p} (h : pushBatch std g records t = .ok p) :
      TableStep std (.upsertRecords g records) t p.1

lemma createGroup_run (g a s : Json) (c : Conn Tables) :
    ((StoreOp.createGroup g a s).run std c).2 = (createGroup std g a s c).2 := by
  simp only [StoreOp.run, Sql.bind_apply]
  cases h : createGroup std g a s c with
  | mk r c' => cases r <;> rfl

lemma upsertRecords_run (g : String) (records : List Json) (c : Conn Tables) :
    ((StoreOp.upsertRecords g records).run std c).2 = (upsertRecords std g records c).2 := by
  simp only [StoreOp.run, Sql.bind_apply]
  cases h : upsertRecords std g records c with
  | mk r c' => cases r <;> rfl

lemma queryRecords_run (g : String) (collection : Option String) (since : ℤ) (c : Conn Tables) :
    ((StoreOp.queryRecords g collection since).run std c).2 = c := by
  simp only [StoreOp.run, Sql.bind_apply, queryRecords_apply]
  cases pullRecords g collection since c.tables <;> rfl

/-- A store call takes one table step, and whatever transaction it leaves open
holds nothing. -/
theorem op_tableStep {c : Conn Tables} (hc : c.Settled) (op : StoreOp) :
    (op.run std c).2.Settled ∧ TableStep std op c.tables (op.run std c).2.tables := by
  cases op with
  | createGroup g a s =>
    rw [createGroup_run, createGroup_apply]
    cases hs : selectAuthHash std g c.tables with
    | error e => exact ⟨hc, .same _ _⟩
    | ok row =>
      cases row with
      | some stored => exact ⟨hc, .same _ _⟩
      | none =>
        simp only
        cases hr : registerGroup std g a s c.tables with
        | error e => exact ⟨hc.opened, .same _ _⟩
        | ok t => exact ⟨Conn.Idle.settled rfl, .register hs hr⟩
  | upsertRecords g records =>
    rw [upsertRecords_run]
    obtain ⟨t, undo⟩ := c
    cases undo with
    | some u =>
      rw [upsertRecords_open, hc u rfl]
      exact ⟨Conn.Idle.settled rfl, .same _ _⟩
    | none =>
      rw [upsertRecords_idle]
      cases hp : pushBatch std g records t with
      | error e => exact ⟨Conn.Idle.settled rfl, .same _ _⟩
      | ok p => exact ⟨Conn.Idle.settled rfl, .push hp⟩
  | queryRecords g collection since =>
    rw [queryRecords_run]
    exact ⟨hc, .same _ _⟩

lemma handle_eq (req : Request) (c : Conn Tables) :
    handle std req c =
      match (route std req c).1 with
      | .ok action => action.run std c
      | .error e => (.error e, c) := by
  rw [handle, Sql.bind_apply, (route_readOnly req).eq c]
  cases (route std req c).1 <;> rfl

lemma handle_pair {req : Request} {g a s : Json} (h : PairOf std req g a s) (c : Conn Tables) :
    handle std req c = (StoreOp.createGroup g a s).run std c := by
  rw [handle_eq, route_pair h]
  rfl

lemma handle_register {req : Request} {g h : String} {salt : Option String} {t : Tables}
    (hp : PairOf std req (.text g) (.text h) (saltField salt)) (hfree : t.groups.find g = none) :
    ∃ groups, t.groups.insert ⟨some g, h, salt⟩ = some groups ∧
      handle std req ⟨t, none⟩ =
        (.ok ⟨200, .object [("group_id", .text g), ("paired", .bool true)]⟩,
          ⟨⟨groups, t.records, t.seqCounter.insertOrIgnore ⟨some g, 0⟩⟩, none⟩) := by
  obtain ⟨groups, hins, hcg⟩ := createGroup_free std hfree h salt
  refine ⟨groups, hins, ?_⟩
  rw [handle_pair hp, StoreOp.run, Sql.bind_ok hcg]
  rfl

lemma handle_push {req : Request} {g : String} {records : List Json} {t : Tables}
    {p : Tables × PushResult}
    (hr : (route std req ⟨t, none⟩).1 = .ok (.store (.upsertRecords g records)))
    (hp : pushBatch std g records t = .ok p) :
    handle std req ⟨t, none⟩ =
      (.ok ⟨if p.2.conflicts.isEmpty then 200 else 409, p.2.toJson⟩, ⟨p.1, none⟩) := by
  have hrun := upsertRecords_idle std g records t
  rw [hp] at hrun
  rw [handle_eq, hr]
  simp only [Action.run, StoreOp.run]
  rw [Sql.bind_ok hrun]
  rfl

lemma handle_push_open {req : Request} {g : String} {records : List Json} {t u : Tables}
    (hr : (route std req ⟨t, some u⟩).1 = .ok (.store (.upsertRecords g records))) :
    handle std req ⟨t, some u⟩ = (.error .operationalError, ⟨u, none⟩) := by
  rw [handle_eq, hr]
  simp only [Action.run, StoreOp.run]
  rw [Sql.bind_error (upsertRecords_open std g records t u)]

lemma handle_pull {req : Request} {g : String} {collection : Option String} {since : ℤ}
    {c : Conn Tables} {p : PullResult}
    (hr : (route std req c).1 = .ok (.store (.queryRecords g collection since)))
    (hp : pullRecords g collection since c.tables = .ok p) :
    handle std req c = (.ok ⟨200, p.toJson⟩, c) := by
  have hrun := queryRecords_apply g collection since c
  rw [hp] at hrun
  rw [handle_eq, hr]
  simp only [Action.run, StoreOp.run]
  rw [Sql.bind_ok hrun]
  rfl

lemma handle_pull_error {req : Request} {g : String} {collection : Option String} {since : ℤ}
    {c : Conn Tables} {e : PyError}
    (hr : (route std req c).1 = .ok (.store (.queryRecords g collection since)))
    (hp : pullRecords g collection since c.tables = .error e) :
    handle std req c = (.error e, c) := by
  have hrun := queryRecords_apply g collection since c
  rw [hp] at hrun
  rw [handle_eq, hr]
  simp only [Action.run, StoreOp.run]
  rw [Sql.bind_error hrun]

/-- A request changes nothing, or takes the table step of the store call it makes. -/
theorem handle_tableStep (std : Stdlib) {c : Conn Tables} (hc : c.Settled) (req : Request) :
    (handle std req c).2.Settled ∧
      ((handle std req c).2 = c ∨ ∃ op, (route std req c).1 = .ok (.store op) ∧
        handle std req c = op.run std c ∧
        TableStep std op c.tables (handle std req c).2.tables) := by
  rw [handle_eq]
  cases hr : (route std req c).1 with
  | error e => exact ⟨hc, Or.inl rfl⟩
  | ok action =>
    cases action with
    | send r => exact ⟨hc, Or.inl rfl⟩
    | store op =>
      obtain ⟨hs, ht⟩ := op_tableStep hc op
      exact ⟨hs, Or.inr ⟨op, rfl, rfl, ht⟩⟩

/-- The server answers requests one after the other. -/
def server (std : Stdlib) : Machine (Conn Tables) Request (Except PyError Response) := handle std

lemma server_final {req : Request} {c c' : Conn Tables} {r : Except PyError Response}
    (h : handle std req c = (r, c')) : (server std).final [req] c = c' := by
  rw [Machine.final_cons, Machine.final_nil, server, h]

end

/-! A sample group `g` with the token `AQID`, and requests about it -/

def samplePost (target : String) (payload : Json) (group token proof : String) : Request :=
  .post target (Stdlib.sample.dumpBody payload) group token proof

def samplePairPayload (g : String) (authHash : Json) : Json :=
  .object [("group_id", .text g), ("auth_hash", authHash)]

def samplePair : Request :=
  samplePost "/v1/pair"
    (samplePairPayload "g" (.text "A5BYxvLAy0ksUzsKTRTvd8wPeKvMztUofYShogEc-4E")) "" "" ""

/-- Registers `g` again, with another hash. -/
def sampleHijack : Request := samplePost "/v1/pair" (samplePairPayload "g" (.text "AAAA")) "" "" ""

def sampleNull : Request := samplePost "/v1/pair" (samplePairPayload "h" .null) "" "" ""

/-- A push of the group with its proof. -/
def samplePushOf (records : List Json) : Request :=
  let payload := Json.object [("records", .list records)]
  samplePost "/v1/records" payload "g" "AQID" (b64u (Stdlib.sample.hmacSha256 [1, 2, 3]
    (transcript .sample "POST" "/v1/records" (Stdlib.sample.dumpBody payload))).bytes)

def samplePush : Request := samplePushOf []

def sampleUnknown : Request := .post "/v1/unknown" [] "" "" ""

lemma samplePairPayload_plain (g : String) {a : Json} (ha : a.Plain) :
    (samplePairPayload g a).Plain := by
  have hkeys : ["group_id", "auth_hash"].Nodup := by decide
  refine .object hkeys fun p hp => ?_
  simp only [List.mem_cons, List.not_mem_nil, or_false] at hp
  rcases hp with rfl | rfl
  · exact .text g
  · exact ha

lemma samplePairPayload_pairOf {req : Request} {g : String} {a : Json} (ha : a.Plain)
    (hmethod : req.method = .post) (htarget : req.target = "/v1/pair")
    (hbody : readBody .sample req = .ok (some (Stdlib.sample.dumpBody (samplePairPayload g a)))) :
    PairOf .sample req (.text g) a (saltField none) := by
  have hurl : Stdlib.sample.urlparse req.target = .ok ⟨"/v1/pair", ""⟩ := by
    rw [htarget]
    decide
  refine ⟨_, _, samplePairPayload g a, ⟨hmethod, hurl, rfl, fun _ => hbody⟩, ?_, ?_⟩
  · rw [pairPayload, Stdlib.sample_loads (samplePairPayload_plain g ha)]
    simp [samplePairPayload, bind, Except.bind, List.lookup]
  · simp [samplePairPayload, List.lookup, saltField]

lemma samplePair_pairOf :
    PairOf .sample samplePair (.text "g") (.text "A5BYxvLAy0ksUzsKTRTvd8wPeKvMztUofYShogEc-4E")
      (saltField none) :=
  samplePairPayload_pairOf (.text _) rfl rfl (by decide +kernel)

/-- The first request of the sample runs is answered and registers `g`, and `g` only. -/
lemma samplePair_registers : ∃ t, handle .sample samplePair initSchema =
      (.ok ⟨200, .object [("group_id", .text "g"), ("paired", .bool true)]⟩, ⟨t, none⟩) ∧
    t.groups.find "g" = some ⟨some "g", "A5BYxvLAy0ksUzsKTRTvd8wPeKvMztUofYShogEc-4E", none⟩ ∧
    ∀ other, other ≠ "g" → t.groups.find other = none := by
  obtain ⟨groups, hins, hrun⟩ := handle_register samplePair_pairOf (t := .empty) rfl
  refine ⟨_, hrun, ?_, fun other hother => ?_⟩
  · change groups.find "g" = _
    rw [KeyedTable.find_insert hins]
    simp
  · change groups.find other = none
    rw [KeyedTable.find_insert hins, if_neg fun h => hother (Option.some.inj h).symm]
    rfl

lemma sampleHijack_pairOf :
    PairOf .sample sampleHijack (.text "g") (.text "AAAA") (saltField none) :=
  samplePairPayload_pairOf (.text _) rfl rfl (by decide +kernel)

lemma sampleNull_pairOf : PairOf .sample sampleNull (.text "h") .null (saltField none) :=
  samplePairPayload_pairOf .null rfl rfl (by decide +kernel)

section
variable {records : List Json}

/-- The body of a sample push, and what the server does with it. -/
def samplePushBody (records : List Json) : Bytes := Stdlib.sample.dumpBody (.object [("records", .list records)])

lemma samplePushOf_body (hle : (samplePushBody records).length ≤ maxBody) :
    readBody .sample (samplePushOf records) = .ok (some (samplePushBody records)) :=
  readBody_whole (decimalInt_toString _) rfl hle

lemma samplePushOf_authed (records : List Json) {c : Conn Tables} {row : GroupRow}
    (hrow : c.tables.groups.find "g" = some row)
    (hash : row.authHash = "A5BYxvLAy0ksUzsKTRTvd8wPeKvMztUofYShogEc-4E") :
    (authed .sample (samplePushOf records) ⟨"/v1/records", ""⟩ (samplePushBody records) c).1 =
      .ok (some "g") := by
  have htoken : b64uDec (.ofString "AQID") = .ok [1, 2, 3] := by decide +kernel
  refine authed_eq_some.mpr ⟨rfl, by decide, row, hrow, [1, 2, 3], htoken, ?_, rfl⟩
  rw [hash]
  decide +kernel

lemma samplePushOf_route (hle : (samplePushBody records).length ≤ maxBody) (hplain : ∀ r ∈ records, r.Plain)
    (hlen : records.length ≤ maxRecordsPerBatch) (hm : malformed records = .ok false) {c : Conn Tables}
    {row : GroupRow} (hrow : c.tables.groups.find "g" = some row)
    (hash : row.authHash = "A5BYxvLAy0ksUzsKTRTvd8wPeKvMztUofYShogEc-4E") :
    (route .sample (samplePushOf records) c).1 = .ok (.store (.upsertRecords "g" records)) := by
  have hpayload : (Json.object [("records", .list records)]).Plain := by
    refine .object (List.nodup_singleton "records") fun p hp => ?_
    obtain rfl := List.mem_singleton.mp hp
    exact .list hplain
  have hurl : Stdlib.sample.urlparse "/v1/records" = .ok ⟨"/v1/records", ""⟩ := by decide
  have hrecords : (Json.object [("records", .list records)]).getItem "records" = .ok (.list records) := by
    simp [List.lookup]
  have hr : Reaches .sample (samplePushOf records) .post "/v1/records" ⟨"/v1/records", ""⟩
      (samplePushBody records) :=
    ⟨rfl, hurl, rfl, fun _ => samplePushOf_body hle⟩
  exact route_push hr (samplePushOf_authed records hrow hash) (Stdlib.sample_loads hpayload) hrecords hlen hm

end

lemma samplePush_body : readBody .sample samplePush = .ok (some (samplePushBody [])) :=
  samplePushOf_body (by decide)

lemma samplePush_route {c : Conn Tables} {row : GroupRow} (hrow : c.tables.groups.find "g" = some row)
    (hash : row.authHash = "A5BYxvLAy0ksUzsKTRTvd8wPeKvMztUofYShogEc-4E") :
    (route .sample samplePush c).1 = .ok (.store (.upsertRecords "g" [])) :=
  samplePushOf_route (by decide) (fun _ h => absurd h List.not_mem_nil) (by decide) rfl hrow hash

end T3dmium
