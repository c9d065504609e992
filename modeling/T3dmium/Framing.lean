import T3dmium.KeptAlive
import T3dmium.Responses

/-! Requests on a kept-alive connection. What a handler leaves of a body is where
`http.server` reads the next request line. -/
namespace T3dmium

/-- A request up to its body, as `parse_request` leaves it. -/
structure Head where
  method : Method
  target : String
  contentLength : Option String
  syncGroup : Option String
  syncToken : Option String
  syncProof : Option String
  /-- HTTP/1.1 without `Connection: close`, or HTTP/1.0 with `Connection: keep-alive` -/
  keepAlive : Bool
  deriving DecidableEq

def Head.request (head : Head) (rfile : Bytes) : Request :=
  ⟨head.method, head.target, head.contentLength, head.syncGroup, head.syncToken, head.syncProof, rfile⟩

section
variable (std : Stdlib)

/-- How many bytes the handler reads from `rfile`. -/
def bytesRead (req : Request) : ℕ :=
  match req.method with
  | .get => 0
  | .post =>
    match std.urlparse req.target with
    | .error _ => 0
    | .ok _ =>
      match readBody std req with
      | .ok (some body) => body.length
      | _ => 0

/-- The handler answers; an exception ends the connection. -/
def answers (req : Request) (c : Conn Tables) : Bool := (handle std req c).1.isOk

/-- The connection is open after the response. -/
def Kept (head : Head) (rest : Bytes) (c : Conn Tables) : Prop :=
  head.keepAlive = true ∧ answers std (head.request rest) c = true

instance (head : Head) (rest : Bytes) (c : Conn Tables) : Decidable (Kept std head rest c) :=
  inferInstanceAs (Decidable (_ ∧ _))

/-- The value of the length field as `int` reads it, 0 where there is none. -/
def lengthField (head : Head) : Except PyError ℤ := declaredLength std head.contentLength

/-- The declared body; what is malformed or negative declares none. -/
def declared (head : Head) : Option ℕ :=
  match lengthField std head with
  | .ok length => if 0 ≤ length then some length.toNat else none
  | .error _ => none

/-- A store can compare the hash of a pair payload with the one it has, or register it. -/
def Pairable (body : Bytes) : Prop :=
  ∀ payload g a salt, pairPayload std body = .ok (payload, g, a) →
    payload.get "pairing_salt" .null = .ok salt →
      (g.Storable ∧ ∃ hash, a = .text hash ∧ isAscii hash = true) ∨
        (g.Bindable ∧ a.Storable ∧ salt.Bindable)

/-- What it takes to be answered, by a store in some state. -/
def Answerable (req : Request) : Prop :=
  ∃ parsed, std.urlparse req.target = .ok parsed ∧ (req.method = .post →
    ∃ body, readBody std req = .ok body ∧
      (parsed.path = "/v1/pair" → ∀ b, body = some b → Pairable std b))

/-- `http.server` with the handler: the next head is read behind the bytes the handler took. -/
def httpServer : Peer Head UInt8 (Conn Tables) := fun head rest c =>
  (if Kept std head rest c then some (bytesRead std (head.request rest)) else none,
    (handle std (head.request rest) c).2)

/-- Requests delimited by their length: a handler gets its own body and nothing else, and
the next head is read behind it. -/
def delimiting : Peer Head UInt8 (Conn Tables) := fun head rest c =>
  let body := rest.take ((declared std head).getD rest.length)
  (if Kept std head body c then (declared std head).filter (· ≤ rest.length) else none,
    (handle std (head.request body) c).2)

/-- What is asked of the handler for one request: on a connection that stays open it has taken
the declared body, and it reads no more than `MAX_BODY`. -/
structure WellFramed (head : Head) (rest : Bytes) (c : Conn Tables) : Prop where
  consumed : Kept std head rest c → declared std head = some (bytesRead std (head.request rest))
  bounded : bytesRead std (head.request rest) ≤ maxBody

/-- A body the handler takes as a whole. -/
def Taken (head : Head) (rest : Bytes) : Prop :=
  match head.method with
  | .get => declared std head = some 0
  | .post => ∃ n, declared std head = some n ∧ n ≤ maxBody ∧ n ≤ rest.length

/-- A length of -1, with more to read than a body may have. -/
def Unbounded (head : Head) (rest : Bytes) : Prop :=
  head.method = .post ∧ (∃ parsed, std.urlparse head.target = .ok parsed) ∧
    lengthField std head = .ok (-1) ∧ maxBody < rest.length

/-- A request that stays on its connection is taken as a whole, and a length of -1 meets no more
than a body may have. -/
structure Framed (head : Head) (rest : Bytes) : Prop where
  taken : head.keepAlive = true → Answerable std (head.request rest) → Taken std head rest
  bounded : ¬ Unbounded std head rest

end

section
variable {std : Stdlib}

lemma readBody_eq (head : Head) (rest : Bytes) :
    readBody std (head.request rest) =
      match lengthField std head with
      | .error e => .error e
      | .ok length =>
        if (maxBody : ℤ) < length then .ok none
        else if length < -2 ^ 63 then .error .overflowError
        else if length < -1 then .error .valueError
        else if length = -1 then .ok (some rest)
        else .ok (some (rest.take length.toNat)) := by
  simp only [readBody, lengthField, Head.request]
  cases declaredLength std head.contentLength <;> rfl

/-- The handler looks at its declared body only. -/
lemma readBody_take (head : Head) (rest : Bytes) :
    readBody std (head.request (rest.take ((declared std head).getD rest.length))) =
      readBody std (head.request rest) := by
  rw [readBody_eq, readBody_eq, declared]
  cases lengthField std head with
  | error e => rfl
  | ok length =>
    simp only
    by_cases hneg : 0 ≤ length
    · rw [if_pos hneg, Option.getD_some, List.take_take, min_self]
      have hall : length ≠ -1 := by omega
      rw [if_neg hall, if_neg hall]
    · rw [if_neg hneg, Option.getD_none, List.take_length]

lemma handle_congr {head : Head} {body body' : Bytes}
    (h : readBody std (head.request body) = readBody std (head.request body')) (c : Conn Tables) :
    handle std (head.request body) c = handle std (head.request body') c := by
  have hpost : doPOST std (head.request body) = doPOST std (head.request body') := by
    simp only [doPOST, h]
    rfl
  have hroute : route std (head.request body) = route std (head.request body') := by
    simp only [route, hpost]
    rfl
  rw [handle, handle, hroute]

/-! Answers -/

lemma answers_iff {req : Request} {c : Conn Tables} :
    answers std req c = true ↔ ∃ resp, (handle std req c).1 = .ok resp := by
  rw [answers]
  cases (handle std req c).1 <;> simp [Except.isOk, Except.toBool]

lemma handle_refused {req : Request} {c : Conn Tables} {r : Response}
    (h : (route std req c).1 = .ok (.send r)) : handle std req c = (.ok r, c) := by
  rw [handle_eq, h]
  rfl

lemma answers_of_send {req : Request} {c : Conn Tables} {r : Response}
    (h : (route std req c).1 = .ok (.send r)) : answers std req c = true :=
  answers_iff.mpr ⟨r, by rw [handle_refused h]⟩

/-- An answered request has been routed. -/
lemma routed_of_answers {req : Request} {c : Conn Tables} (h : answers std req c = true) :
    ∃ action, (route std req c).1 = .ok action := by
  obtain ⟨resp, hresp⟩ := answers_iff.mp h
  rw [handle_eq] at hresp
  cases hroute : (route std req c).1 with
  | ok action => exact ⟨action, rfl⟩
  | error e =>
    rw [hroute] at hresp
    cases hresp

/-- A row to compare the hash with. -/
lemma createGroup_compares {g : Json} (hg : g.Storable) {hash : String} (ha : isAscii hash = true)
    (salt : Json) : ∃ c b, (createGroup std g (.text hash) salt c).1 = .ok b := by
  obtain ⟨k, hk⟩ : ∃ k, bindText std.realText g = .ok (some k) := bindText_some_iff.mpr hg
  have hkey : GroupRow.groupId ⟨some k, hash, none⟩ = some k := rfl
  obtain ⟨groups, hins⟩ := KeyedTable.insert_of_find_none hkey
    (show Tables.empty.groups.find k = none from rfl)
  have hfind : groups.find k = some ⟨some k, hash, none⟩ := by
    rw [KeyedTable.find_insert hins, if_pos hkey]
  have hselect : selectAuthHash std g ⟨groups, .empty, .empty⟩ = .ok (some hash) := by
    simp [selectAuthHash, hk, hfind, bind, Except.bind]
  obtain ⟨b, hb⟩ := compareDigestJson_ok_iff.mpr ⟨hash, rfl, ha, ha⟩
  refine ⟨⟨⟨groups, .empty, .empty⟩, none⟩, b, ?_⟩
  rw [createGroup_apply, hselect]
  exact hb

/-- An empty store to register in. -/
lemma createGroup_registers {g a salt : Json} (hg : g.Bindable) (ha : a.Storable)
    (hsalt : salt.Bindable) : ∃ c b, (createGroup std g a salt c).1 = .ok b := by
  obtain ⟨k, hk⟩ := bindText_ok_iff.mpr hg
  obtain ⟨hash, hhash⟩ := bindText_some_iff.mpr ha
  obtain ⟨s, hs⟩ := bindText_ok_iff.mpr hsalt
  obtain ⟨groups, hins⟩ : ∃ groups, Tables.empty.groups.insert ⟨k, hash, s⟩ = some groups :=
    ⟨_, dif_pos fun x hx => by cases hx⟩
  have hregister : registerGroup std g a salt .empty = .ok ⟨groups, .empty, _⟩ :=
    registerGroup_eq_ok.mpr ⟨k, hash, s, groups, hk, hhash, hs, hins, rfl⟩
  have hselect : selectAuthHash std g .empty = .ok none := by
    cases k <;> simp [selectAuthHash, hk, Tables.empty, bind, Except.bind]
  refine ⟨initSchema, true, ?_⟩
  rw [createGroup_apply]
  simp only [initSchema, hselect, hregister]

lemma createGroup_takes {g a salt : Json} :
    (∃ c b, (createGroup std g a salt c).1 = .ok b) ↔
      (g.Storable ∧ ∃ hash, a = .text hash ∧ isAscii hash = true) ∨
        (g.Bindable ∧ a.Storable ∧ salt.Bindable) := by
  constructor
  · intro h
    obtain ⟨c, b, hb⟩ := h
    rw [createGroup_apply] at hb
    cases hselect : selectAuthHash std g c.tables with
    | error e =>
      rw [hselect] at hb
      cases hb
    | ok row =>
      obtain ⟨k, hk, hrow⟩ := bind_eq_ok.mp hselect
      rw [hselect] at hb
      cases row with
      | some stored =>
        left
        cases k with
        | none => cases hrow
        | some k =>
          refine ⟨bindText_some_iff.mp ⟨k, hk⟩, ?_⟩
          cases a with
          | str s =>
            obtain ⟨hash, rfl, -, hascii⟩ := compareDigestJson_ok_iff.mp ⟨b, hb⟩
            exact ⟨hash, rfl, hascii⟩
          | _ => cases hb
      | none =>
        right
        cases hregister : registerGroup std g a salt c.tables with
        | error e =>
          rw [hregister] at hb
          cases hb
        | ok t =>
          obtain ⟨k, hash, s, groups, hg, ha, hs, -⟩ := registerGroup_eq_ok.mp hregister
          exact ⟨bindText_ok_iff.mp ⟨k, hg⟩, bindText_some_iff.mp ⟨hash, ha⟩, bindText_ok_iff.mp ⟨s, hs⟩⟩
  · intro h
    obtain ⟨hg, hash, rfl, hascii⟩ | ⟨hg, ha, hs⟩ := h
    · exact createGroup_compares hg hascii salt
    · exact createGroup_registers hg ha hs

/-- No group is known to an empty store. -/
lemma authed_initSchema (req : Request) (parsed : ParsedUrl) (body : Bytes) :
    (authed std req parsed body initSchema).1 = .ok none := by
  rw [authed]
  split_ifs with h
  · rfl
  · rw [(verifyRequest_readOnly _ _ _ _ _ _).bind_fst_ok]
    exact ⟨false, by rw [verifyRequest_apply]; rfl, rfl⟩

lemma answers_pair_iff {req : Request} {parsed : ParsedUrl} {body : Bytes}
    (h : Reaches std req .post "/v1/pair" parsed body) :
    (∃ c, answers std req c = true) ↔ Pairable std body := by
  cases hp : pairPayload std body with
  | error e =>
    have hroute : (route std req initSchema).1 = .ok (.send (sendError 400 "invalid pair payload")) := by
      rw [route_reaches_pair h, handlePair, hp]
    refine iff_of_true ⟨initSchema, answers_of_send hroute⟩ fun payload g a salt hok => ?_
    rw [hp] at hok
    cases hok
  | ok p =>
    obtain ⟨payload, g, a⟩ := p
    obtain ⟨salt, hsalt⟩ := pairPayload_get hp
    have hrun := handle_pair ⟨parsed, body, payload, h, hp, hsalt⟩
    have htakes : Pairable std body ↔ ∃ c b, (createGroup std g a salt c).1 = .ok b := by
      rw [createGroup_takes]
      constructor
      · intro hall
        exact hall payload g a salt hp hsalt
      · intro htake payload' g' a' salt' hp' hsalt'
        cases hp.symm.trans hp'
        cases hsalt.symm.trans hsalt'
        exact htake
    rw [htakes]
    refine exists_congr fun c => ?_
    rw [answers_iff, hrun c]
    constructor
    · intro hanswer
      obtain ⟨resp, hresp⟩ := hanswer
      exact (createGroup_status hresp).2
    · intro hreturns
      obtain ⟨b, hb⟩ := hreturns
      exact createGroup_answered hb

lemma bytesRead_get {head : Head} (h : head.method = .get) (rest : Bytes) :
    bytesRead std (head.request rest) = 0 := by
  rw [bytesRead, show (head.request rest).method = .get from h]

/-- What a `POST` takes, once its target is parsed and its length is a number. -/
lemma bytesRead_post {head : Head} (h : head.method = .post) {rest : Bytes} {parsed : ParsedUrl}
    (hurl : std.urlparse head.target = .ok parsed) {length : ℤ}
    (hlength : lengthField std head = .ok length) :
    bytesRead std (head.request rest) =
      if (maxBody : ℤ) < length ∨ length < -1 then 0
      else if length = -1 then rest.length else min length.toNat rest.length := by
  rw [bytesRead, show (head.request rest).method = .post from h]
  simp only [show std.urlparse (head.request rest).target = .ok parsed from hurl, readBody_eq, hlength]
  split_ifs <;> first | omega | simp

/-- A `POST` that is answered has a target and a length that can be read. -/
lemma Kept.post {head : Head} (h : head.method = .post) {rest : Bytes} {c : Conn Tables}
    (hkept : Kept std head rest c) :
    (∃ parsed, std.urlparse head.target = .ok parsed) ∧
      ∃ length, lengthField std head = .ok length ∧ -1 ≤ length := by
  obtain ⟨action, hroute⟩ := routed_of_answers hkept.2
  obtain ⟨parsed, hurl, body, hbody, -⟩ := (route_post_iff h).mp hroute
  refine ⟨⟨parsed, hurl⟩, ?_⟩
  rw [readBody_eq] at hbody
  cases hlength : lengthField std head with
  | error e =>
    rw [hlength] at hbody
    cases hbody
  | ok length =>
    refine ⟨length, rfl, ?_⟩
    by_contra hneg
    simp only [hlength] at hbody
    split_ifs at hbody
    all_goals omega

lemma wellFramed_get {head : Head} (h : head.method = .get) (rest : Bytes) (c : Conn Tables) :
    WellFramed std head rest c ↔ (Kept std head rest c → Taken std head rest) := by
  have hread := @bytesRead_get std head h rest
  have htaken : Taken std head rest ↔ declared std head = some 0 := by rw [Taken, h]
  constructor
  · intro hw hkept
    rw [htaken, ← hread]
    exact hw.consumed hkept
  · intro htake
    refine ⟨fun hkept => ?_, by rw [hread]; exact Nat.zero_le _⟩
    rw [hread]
    exact htaken.mp (htake hkept)

/-- The cases a length can fall into; for -1 the stream is read to its end. -/
lemma wellFramed_post {head : Head} (h : head.method = .post) {rest : Bytes} {c : Conn Tables}
    {parsed : ParsedUrl} (hurl : std.urlparse head.target = .ok parsed) {length : ℤ}
    (hlength : lengthField std head = .ok length) :
    WellFramed std head rest c ↔
      (Kept std head rest c → 0 ≤ length ∧ length ≤ maxBody ∧ length ≤ rest.length) ∧
        ¬ (length = -1 ∧ maxBody < rest.length) := by
  have hread := @bytesRead_post std head h rest parsed hurl length hlength
  have hdeclared : declared std head = if 0 ≤ length then some length.toNat else none := by
    rw [declared, hlength]
  constructor
  · intro hw
    constructor
    · intro hkept
      have hconsumed := hw.consumed hkept
      rw [hdeclared, hread] at hconsumed
      -- a length below -1 is refused before anything is answered
      obtain ⟨-, length', hlength', hkeptLength⟩ := hkept.post h
      cases hlength.symm.trans hlength'
      split_ifs at hconsumed with hnonneg hlarge hall
      all_goals have hsame := Option.some.inj hconsumed
      all_goals omega
    · rintro ⟨hall, hmore⟩
      have hbounded := hw.bounded
      rw [hread, if_neg (by omega), if_pos hall] at hbounded
      omega
  · rintro ⟨hkept, hmemory⟩
    constructor
    · intro hk
      obtain ⟨hnonneg, hle, hcomplete⟩ := hkept hk
      rw [hdeclared, hread, if_pos hnonneg, if_neg (by omega), if_neg (by omega), min_eq_left (by omega)]
    · rw [hread]
      split_ifs <;> omega

/-- A request is well framed iff its body is taken as a whole, or the connection is not kept, and
memory is safe from a length of -1. -/
theorem wellFramed_iff (std : Stdlib) (head : Head) (rest : Bytes) (c : Conn Tables) :
    WellFramed std head rest c ↔
      (Kept std head rest c → Taken std head rest) ∧ ¬ Unbounded std head rest := by
  cases hmethod : head.method with
  | get =>
    have hbounded : ¬ Unbounded std head rest := fun hu => by
      rw [Unbounded, hmethod] at hu
      exact absurd hu.1 (by decide)
    rw [wellFramed_get hmethod, and_iff_left hbounded]
  | post =>
    have htaken : Taken std head rest ↔
        ∃ n, declared std head = some n ∧ n ≤ maxBody ∧ n ≤ rest.length := by rw [Taken, hmethod]
    -- a target or a length that cannot be read ends the connection before anything is read
    have hclosed : (∀ c, ¬ Kept std head rest c) → bytesRead std (head.request rest) = 0 →
        ¬ Unbounded std head rest → (WellFramed std head rest c ↔
          (Kept std head rest c → Taken std head rest) ∧ ¬ Unbounded std head rest) := by
      intro hkept hread hbounded
      refine iff_of_true ⟨fun hk => absurd hk (hkept c), ?_⟩ ⟨fun hk => absurd hk (hkept c), hbounded⟩
      rw [hread]
      exact Nat.zero_le _
    cases hurl : std.urlparse head.target with
    | error e =>
      refine hclosed (fun c hk => ?_) ?_ fun hu => ?_
      · obtain ⟨⟨parsed, hparsed⟩, -⟩ := hk.post hmethod
        rw [hurl] at hparsed
        cases hparsed
      · simp only [bytesRead, show (head.request rest).method = .post from hmethod,
          show std.urlparse (head.request rest).target = .error e from hurl]
      · obtain ⟨-, ⟨parsed, hparsed⟩, -⟩ := hu
        rw [hurl] at hparsed
        cases hparsed
    | ok parsed =>
      cases hlength : lengthField std head with
      | error e =>
        refine hclosed (fun c hk => ?_) ?_ fun hu => ?_
        · obtain ⟨-, length, hl, -⟩ := hk.post hmethod
          rw [hlength] at hl
          cases hl
        · simp only [bytesRead, show (head.request rest).method = .post from hmethod,
            show std.urlparse (head.request rest).target = .ok parsed from hurl, readBody_eq, hlength]
        · obtain ⟨-, -, hl, -⟩ := hu
          rw [hlength] at hl
          cases hl
      | ok length =>
        have hunbounded : Unbounded std head rest ↔ length = -1 ∧ maxBody < rest.length := by
          simp [Unbounded, hmethod, hurl, hlength]
        have hinputs : Taken std head rest ↔
            0 ≤ length ∧ length ≤ maxBody ∧ length ≤ rest.length := by
          have hdeclared : declared std head = if 0 ≤ length then some length.toNat else none := by
            rw [declared, hlength]
          rw [htaken, hdeclared]
          by_cases hnonneg : 0 ≤ length
          · rw [if_pos hnonneg]
            constructor
            · rintro ⟨n, hn, hle, hcomplete⟩
              obtain rfl := Option.some.inj hn
              omega
            · rintro ⟨-, hle, hcomplete⟩
              exact ⟨_, rfl, by omega, by omega⟩
          · simp [hnonneg]
        rw [wellFramed_post hmethod hurl hlength, hinputs, hunbounded]

lemma bytesRead_le (head : Head) (rest : Bytes) : bytesRead std (head.request rest) ≤ rest.length := by
  rw [bytesRead]
  split
  · exact Nat.zero_le _
  · split
    · exact Nat.zero_le _
    · split
      · next body hbody =>
        rw [readBody_eq] at hbody
        split at hbody
        · cases hbody
        · split_ifs at hbody <;> cases hbody <;> simp
      · exact Nat.zero_le _

/-- Where a request is well framed, the server goes on as its length says. -/
lemma WellFramed.httpServer_eq {head : Head} {rest : Bytes} {c : Conn Tables}
    (h : WellFramed std head rest c) : httpServer std head rest c = delimiting std head rest c := by
  have hhandle := handle_congr (@readBody_take std head rest) c
  have hkept : Kept std head (rest.take ((declared std head).getD rest.length)) c ↔
      Kept std head rest c := by rw [Kept, Kept, answers, answers, hhandle]
  simp only [httpServer, delimiting, hkept, hhandle]
  by_cases hk : Kept std head rest c
  · have hle := @bytesRead_le std head rest
    rw [if_pos hk, if_pos hk, h.consumed hk, Option.filter_some_pos (by simpa using hle)]
  · rw [if_neg hk, if_neg hk]

/-! The requests of a stream -/

lemma answers_get {req : Request} {parsed : ParsedUrl} (hm : req.method = .get)
    (hurl : std.urlparse req.target = .ok parsed) : answers std req initSchema = true := by
  by_cases hrecords : parsed.path = "/v1/records"
  · refine answers_of_send (r := sendError 403 "authentication failed")
      ((route_get_iff hm).mpr ⟨parsed, hurl, ?_⟩)
    simp only [if_pos hrecords, handlePull, (authed_readOnly req parsed []).bind_fst_ok]
    exact ⟨none, authed_initSchema req parsed [], rfl⟩
  · by_cases hhealth : parsed.path = "/v1/health"
    · refine answers_of_send (r := ⟨200, .object [("status", .text "ok")]⟩)
        ((route_get_iff hm).mpr ⟨parsed, hurl, ?_⟩)
      rw [if_neg hrecords, if_pos hhealth]
      rfl
    · refine answers_of_send (r := sendError 404 "not found") ((route_get_iff hm).mpr ⟨parsed, hurl, ?_⟩)
      rw [if_neg hrecords, if_neg hhealth]
      rfl

lemma answers_post {req : Request} {parsed : ParsedUrl} {body : Bytes} (hm : req.method = .post)
    (hurl : std.urlparse req.target = .ok parsed) (hbody : readBody std req = .ok (some body))
    (hpath : parsed.path ≠ "/v1/pair") : answers std req initSchema = true := by
  by_cases hrecords : parsed.path = "/v1/records"
  · refine answers_of_send (r := sendError 403 "authentication failed")
      ((route_post_iff hm).mpr ⟨parsed, hurl, some body, hbody, ?_⟩)
    simp only [Option.elim_some, if_neg hpath, if_pos hrecords, handlePush,
      (authed_readOnly req parsed body).bind_fst_ok]
    exact ⟨none, authed_initSchema req parsed body, rfl⟩
  · refine answers_of_send (r := sendError 404 "not found")
      ((route_post_iff hm).mpr ⟨parsed, hurl, some body, hbody, ?_⟩)
    simp only [Option.elim_some, if_neg hpath, if_neg hrecords]
    rfl

/-- Some store answers what is answerable, and no store anything else. -/
theorem answerable_iff {req : Request} : (∃ c, answers std req c = true) ↔ Answerable std req := by
  constructor
  · intro h
    obtain ⟨c, hc⟩ := h
    obtain ⟨action, hroute⟩ := routed_of_answers hc
    cases hm : req.method with
    | get =>
      obtain ⟨parsed, hurl, -⟩ := (route_get_iff hm).mp hroute
      refine ⟨parsed, hurl, fun hpost => ?_⟩
      cases hm.symm.trans hpost
    | post =>
      obtain ⟨parsed, hurl, body, hbody, -⟩ := (route_post_iff hm).mp hroute
      refine ⟨parsed, hurl, fun _ => ⟨body, hbody, fun hpath b hb => ?_⟩⟩
      exact (answers_pair_iff ⟨hm, hurl, hpath, fun _ => hb ▸ hbody⟩).mp ⟨c, hc⟩
  · intro h
    obtain ⟨parsed, hurl, hpost⟩ := h
    cases hm : req.method with
    | get => exact ⟨initSchema, answers_get hm hurl⟩
    | post =>
      obtain ⟨body, hbody, hpair⟩ := hpost hm
      cases body with
      | none => exact ⟨initSchema, answers_of_send (route_large hm hurl hbody)⟩
      | some body =>
        by_cases hpath : parsed.path = "/v1/pair"
        · exact (answers_pair_iff ⟨hm, hurl, hpath, fun _ => hbody⟩).mpr (hpair hpath body rfl)
        · exact ⟨initSchema, answers_post hm hurl hbody hpath⟩

/-- A request is well framed in every state of the store iff it is framed. -/
theorem forall_wellFramed_iff {head : Head} {rest : Bytes} :
    (∀ c, WellFramed std head rest c) ↔ Framed std head rest := by
  constructor
  · intro h
    refine ⟨fun halive hanswerable => ?_, ((wellFramed_iff std head rest initSchema).mp (h _)).2⟩
    obtain ⟨c, hc⟩ := answerable_iff.mpr hanswerable
    exact ((wellFramed_iff std head rest c).mp (h c)).1 ⟨halive, hc⟩
  · intro h c
    exact (wellFramed_iff std head rest c).mpr
      ⟨fun hkept => h.taken hkept.1 (answerable_iff.mp ⟨c, hkept.2⟩), h.bounded⟩

/-- A request is well framed whatever the store holds iff it is framed; and on a stream where all
requests that are come to are, those acted on are those delimited by their lengths. -/
theorem framing_iff (std : Stdlib) :
    (∀ head rest, (∀ c, WellFramed std head rest c) ↔ Framed std head rest) ∧
      ∀ (http : HeadReader Head UInt8) (s : Bytes) (c : Conn Tables),
        (∀ s' c' head rest, http.Looks (httpServer std) s c s' c' →
          http.read s' = some (head, rest) → Framed std head rest) →
        http.session (httpServer std) s c = http.session (delimiting std) s c := by
  refine ⟨fun head rest => forall_wellFramed_iff, fun http s c h => ?_⟩
  refine HeadReader.session_congr fun s' c' head rest hlooks hread => ?_
  have hframed := h s' c' head rest hlooks hread
  exact (forall_wellFramed_iff.mpr hframed c').httpServer_eq

end

/-! Sample streams -/

/-- What stands before the first empty line, and what behind it. -/
def splitHead : Bytes → Option (Bytes × Bytes)
  | [] => none
  | b :: s =>
    if [13, 10, 13, 10] <+: b :: s then some ([], s.drop 3)
    else (splitHead s).map fun p => (b :: p.1, p.2)

lemma splitHead_shorter {s head rest : Bytes} (h : splitHead s = some (head, rest)) :
    rest.length < s.length := by
  induction s generalizing head with
  | nil => cases h
  | cons b s ih =>
    rw [splitHead] at h
    split_ifs at h
    · cases h
      simp only [List.length_drop, List.length_cons]
      omega
    · obtain ⟨p, hp, hpair⟩ := Option.map_eq_some_iff.mp h
      cases hpair
      exact (ih hp).trans (Nat.lt_succ_self _)

def latinText (b : Bytes) : String := .ofList (b.map fun x => .ofNat x.toNat)

def fieldValue (name : String) (lines : List Bytes) : Option String :=
  lines.findSome? fun line =>
    if ascii (name ++ ": ") <+: line then some (latinText (line.drop (name.length + 2))) else none

/-- `GET` and `POST` requests with lines that end in a carriage return. -/
def readHead (head : Bytes) : Option Head :=
  match (head.splitOn 10).map fun line => line.filter (· ≠ 13) with
  | [] => none
  | requestLine :: lines =>
    match requestLine.splitOn 32 with
    | [command, target, version] =>
      let method :=
        if command = ascii "GET" then some Method.get
        else if command = ascii "POST" then some Method.post else none
      method.map fun method =>
        ⟨method, latinText target, fieldValue "Content-Length" lines, fieldValue "X-Sync-Group" lines,
          fieldValue "X-Sync-Token" lines, fieldValue "X-Sync-Proof" lines,
          version = ascii "HTTP/1.1" ∧ fieldValue "Connection" lines ≠ some "close"⟩
    | _ => none

def sampleHttp : HeadReader Head UInt8 where
  read s := (splitHead s).bind fun p => (readHead p.1).map fun head => (head, p.2)
  consumes := by
    intro s head rest h
    obtain ⟨p, hp, hread⟩ := Option.bind_eq_some_iff.mp h
    obtain ⟨_, -, hpair⟩ := Option.map_eq_some_iff.mp hread
    cases hpair
    exact splitHead_shorter hp

def sampleHealth (length : Option String) : Head := ⟨.get, "/v1/health", length, none, none, none, true⟩

/-- A request of its own. -/
def sampleBody : Bytes := ascii "GET /v1/health HTTP/1.1\r\n\r\n"

def sampleStream : Bytes := ascii "GET /v1/health HTTP/1.1\r\nContent-Length: 27\r\n\r\n" ++ sampleBody

/-- A request with its whole body, and one without. -/
def samplePipeline : Bytes :=
  ascii "POST /v1/other HTTP/1.1\r\nContent-Length: 2\r\n\r\nok" ++ sampleBody

def sampleOther : Head := ⟨.post, "/v1/other", some "2", none, none, none, true⟩

lemma sampleStream_read : sampleHttp.read sampleStream = some (sampleHealth (some "27"), sampleBody) := by
  decide +kernel

lemma sampleBody_read : sampleHttp.read sampleBody = some (sampleHealth none, []) := by decide +kernel

lemma samplePipeline_read :
    sampleHttp.read samplePipeline = some (sampleOther, ascii "ok" ++ sampleBody) := by decide +kernel

lemma httpServer_send {std : Stdlib} {head : Head} {rest : Bytes} {c : Conn Tables} {r : Response}
    (halive : head.keepAlive = true) (h : (route std (head.request rest) c).1 = .ok (.send r)) :
    httpServer std head rest c = (some (bytesRead std (head.request rest)), c) := by
  rw [httpServer, if_pos ⟨halive, answers_of_send h⟩, handle_refused h]

lemma sampleHealth_route (length : Option String) (rest : Bytes) :
    (route .sample ((sampleHealth length).request rest) initSchema).1 =
      .ok (.send ⟨200, .object [("status", .text "ok")]⟩) := by
  have hurl : Stdlib.sample.urlparse "/v1/health" = .ok ⟨"/v1/health", ""⟩ := by decide +kernel
  exact (route_get_iff rfl).mpr ⟨_, hurl, rfl⟩

lemma sampleHealth_next (length : Option String) (rest : Bytes) :
    httpServer .sample (sampleHealth length) rest initSchema = (some 0, initSchema) := by
  rw [httpServer_send rfl (sampleHealth_route length rest), bytesRead_get rfl]

lemma sampleOther_next (rest : Bytes) :
    httpServer .sample sampleOther (ascii "ok" ++ rest) initSchema = (some 2, initSchema) := by
  have hurl : Stdlib.sample.urlparse "/v1/other" = .ok ⟨"/v1/other", ""⟩ := by decide +kernel
  have hlength : lengthField .sample sampleOther = .ok 2 := by decide +kernel
  have hread := @readBody_eq .sample sampleOther (ascii "ok" ++ rest)
  rw [hlength] at hread
  have hroute : (route .sample (sampleOther.request (ascii "ok" ++ rest)) initSchema).1 =
      .ok (.send (sendError 404 "not found")) := by
    exact (route_post_iff rfl).mpr ⟨_, hurl, _, hread, rfl⟩
  rw [httpServer_send rfl hroute, bytesRead_post rfl hurl hlength]
  simp [maxBody, ascii]

lemma sampleHealth_framed (rest : Bytes) : Framed .sample (sampleHealth none) rest where
  taken _ _ := rfl
  bounded h := nomatch h.1

lemma sampleOther_framed (rest : Bytes) : Framed .sample sampleOther (ascii "ok" ++ rest) where
  taken _ _ := ⟨2, by decide +kernel, by decide, by simp [ascii]⟩
  bounded h := by
    obtain ⟨-, -, hlength, -⟩ := h
    cases hlength.symm.trans (show lengthField .sample sampleOther = .ok 2 by decide +kernel)

/-- Behind a body that is taken the next request is acted on. -/
theorem samplePipeline_delimited :
    sampleHttp.session (httpServer .sample) samplePipeline initSchema =
      sampleHttp.session (delimiting .sample) samplePipeline initSchema := by
  refine (framing_iff .sample).2 sampleHttp samplePipeline initSchema fun s' c' head rest hlooks hread => ?_
  obtain ⟨rfl, rfl⟩ | ⟨head', rest', n, c'', hfirst, hnext, hlooks⟩ := hlooks.first
  · cases hread.symm.trans samplePipeline_read
    exact sampleOther_framed sampleBody
  · cases hfirst.symm.trans samplePipeline_read
    cases hnext.symm.trans (sampleOther_next sampleBody)
    obtain ⟨rfl, rfl⟩ | ⟨head', rest', n, c'', hfirst, hnext, hlooks⟩ := hlooks.first
    · cases hread.symm.trans sampleBody_read
      exact sampleHealth_framed []
    · cases hfirst.symm.trans sampleBody_read
      cases hnext.symm.trans (sampleHealth_next none [])
      obtain ⟨rfl, rfl⟩ | ⟨head', rest', n, c'', hfirst, -⟩ := hlooks.first
      · cases hread
      · cases hfirst

/-- The body of a `GET` is acted on as a request. -/
theorem sampleStream_smuggles :
    ¬ WellFramed .sample (sampleHealth (some "27")) sampleBody initSchema ∧
      (sampleHttp.session (httpServer .sample) sampleStream initSchema).1 =
        [(sampleHealth (some "27"), sampleBody), (sampleHealth none, [])] ∧
      (sampleHttp.session (delimiting .sample) sampleStream initSchema).1 =
        [(sampleHealth (some "27"), sampleBody)] := by
  have hdeclared : declared .sample (sampleHealth (some "27")) = some 27 := by decide +kernel
  have hempty : sampleHttp.read [] = none := rfl
  refine ⟨fun hframed => ?_, ?_, ?_⟩
  · have hkept : Kept .sample (sampleHealth (some "27")) sampleBody initSchema :=
      ⟨rfl, answers_of_send (sampleHealth_route _ _)⟩
    cases (hdeclared.symm.trans (hframed.consumed hkept)).trans (by rw [bytesRead_get rfl])
  · rw [HeadReader.session_next sampleStream_read (sampleHealth_next _ _), List.drop_zero,
      HeadReader.session_next sampleBody_read (sampleHealth_next _ _), List.drop_zero,
      HeadReader.session_none hempty]
  · have hnext : delimiting .sample (sampleHealth (some "27")) sampleBody initSchema =
        (some 27, initSchema) := by
      have hroute := sampleHealth_route (some "27") (sampleBody.take 27)
      rw [delimiting, hdeclared, Option.getD_some, if_pos ⟨rfl, answers_of_send hroute⟩,
        handle_refused hroute]
      rfl
    rw [HeadReader.session_next sampleStream_read hnext,
      HeadReader.session_none (show sampleHttp.read (sampleBody.drop 27) = none by decide +kernel)]

end T3dmium
