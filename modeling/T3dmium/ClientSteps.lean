import T3dmium.Client
import T3dmium.ServerSteps

/-! What the requests of a client do at the server. The libraries between the two
come in inverse pairs. -/
namespace T3dmium

section
variable (std : Stdlib)

def pullQuery (collection : Option String) (since : ℤ) : String :=
  "since=" ++ toString since ++
    match collection with
    | none => ""
    | some c => if c = "" then "" else "&collection=" ++ std.quote c

/-- The library as documented, interpreter limits aside: reading gives back what was
written, and rooted URLs go through `urllib.parse`. -/
structure Stdlib.Inverse : Prop where
  loads_dumps {v : Json} (hv : v.Plain) : std.loads (std.dumpBody v) = .ok v
  intOfStr_toString {i : ℤ} (hi : i.natAbs ≤ 2 ^ 64) : std.intOfStr (.ofString (toString i)) = .ok i
  decodeReplace_encodeUtf8 (s : String) : std.decodeReplace (encodeUtf8 s) = s
  quote_eq : std.quote = percentQuote
  urlparse_eq : ∃ checkNetloc, ∀ path : List Char, std.urlparse (.ofList ('/' :: path)) =
    Urllib.urlparse checkNetloc (.ofList ('/' :: path))
  parseQs_eq : std.parseQs = Urllib.parseQs std.decodeReplace

end

section
variable {std : Stdlib}

/-! Reading requests -/

/-- The body of a client request arrives whole, unless it is too large. -/
lemma readBody_client (hinv : std.Inverse) (keys : GroupKeys) (method : Method) (path : String)
    {payload : Json} (hlen : (std.dumpBody payload).length ≤ maxBody) :
    readBody std (clientRequest std keys method path (some payload)) =
      .ok (some (std.dumpBody payload)) := by
  have hsmall : ((std.dumpBody payload).length : ℤ).natAbs ≤ 2 ^ 64 := by
    unfold maxBody at hlen
    omega
  exact readBody_whole (hinv.intOfStr_toString hsmall) rfl hlen

lemma authed_client {keys : GroupKeys} (hgroup : keys.groupId ≠ "") {c : Conn Tables} {row : GroupRow}
    (hrow : c.tables.groups.find keys.groupId = some row) (hhash : row.authHash = keys.authHash std)
    (method : Method) (payload : Option Json) {path : String} {parsed : ParsedUrl}
    (hsigned : parsed.signedPath = path) :
    (authed std (clientRequest std keys method path payload) parsed (payload.elim [] std.dumpBody) c).1 =
      .ok (some keys.groupId) := by
  refine authed_eq_some.mpr ⟨rfl, hgroup, row, hrow, keys.kAuth, b64uDec_b64u _, hhash.symm, ?_⟩
  rw [hsigned]
  rfl

/-! URLs -/

lemma pullPath_eq (collection : Option String) (since : ℤ) :
    pullPath std collection since = "/v1/records" ++ "?" ++ pullQuery std collection since := by
  obtain ⟨field, hpath, hquery⟩ : ∃ field,
      pullPath std collection since = "/v1/records?since=" ++ toString since ++ field ∧
        pullQuery std collection since = "since=" ++ toString since ++ field := ⟨_, rfl, rfl⟩
  have hcut : "/v1/records?since=" = "/v1/records" ++ "?" ++ "since=" := by decide
  rw [hpath, hquery]
  generalize toString since = digits
  simp only [hcut, String.append_assoc]

lemma pullPath_none (since : ℤ) :
    pullPath std none since = "/v1/records?since=" ++ toString since ++ "" := by
  unfold pullPath
  rfl

lemma pullPath_some (hinv : std.Inverse) {collection : String} (hne : collection ≠ "") (since : ℤ) :
    pullPath std (some collection) since =
      "/v1/records?since=" ++ toString since ++ ("&collection=" ++ percentQuote collection) := by
  unfold pullPath
  simp only [if_neg hne, hinv.quote_eq]

lemma signedPath_pull (collection : Option String) (since : ℤ) :
    (⟨"/v1/records", pullQuery std collection since⟩ : ParsedUrl).signedPath =
      pullPath std collection since := by
  have hquery : pullQuery std collection since ≠ "" := by
    intro he
    have hlist := congrArg String.toList he
    simp [pullQuery] at hlist
  rw [ParsedUrl.signedPath, if_neg hquery, pullPath_eq]

/-- What a query of a client is spelled with. -/
def IsQueryChar (c : Char) : Prop := isQuoted c = true ∨ c = '=' ∨ c = '&'

lemma IsQueryChar.printable {c : Char} (h : IsQueryChar c) : 32 < c.toNat := by
  rcases h with h | rfl | rfl
  · exact isQuoted_printable h
  · decide
  · decide

lemma IsQueryChar.ne {c d : Char} (h : IsQueryChar c) (hd : isQuoted d = false) (heq : d ≠ '=')
    (hand : d ≠ '&') : c ≠ d := by
  rcases h with h | rfl | rfl
  · exact ne_of_isQuoted h hd
  · exact heq.symm
  · exact hand.symm

def sinceField (since : ℤ) : List Char := ['s', 'i', 'n', 'c', 'e'] ++ '=' :: (toString since).toList

def collectionField (collection : String) : List Char :=
  ['c', 'o', 'l', 'l', 'e', 'c', 't', 'i', 'o', 'n'] ++ '=' :: (percentQuote collection).toList

lemma pullQuery_toList (hinv : std.Inverse) (collection : Option String) (since : ℤ) :
    (pullQuery std collection since).toList =
      sinceField since ++ (collection.filter (· ≠ "")).elim [] fun c => '&' :: collectionField c := by
  have hsince : ("since=" ++ toString since).toList = sinceField since := by
    rw [String.toList_append]
    rfl
  cases collection with
  | none =>
    rw [pullQuery, String.toList_append, hsince]
    rfl
  | some c =>
    rw [pullQuery, String.toList_append, hsince]
    by_cases hc : c = ""
    · simp [hc, Option.filter]
    · simp [hc, hinv.quote_eq, collectionField, Option.filter]

lemma queryChar_pullQuery (hinv : std.Inverse) {collection : Option String} {since : ℤ} {c : Char}
    (h : c ∈ (pullQuery std collection since).toList) : IsQueryChar c := by
  have hname : ∀ name : List Char, name.all isQuoted = true → ∀ {value : List Char},
      (∀ d ∈ value, isQuoted d = true) → c ∈ name ++ '=' :: value → IsQueryChar c := by
    intro name hname value hvalue hc
    rcases List.mem_append.mp hc with hc | hc
    · exact Or.inl (List.all_eq_true.mp hname c hc)
    · rcases List.mem_cons.mp hc with rfl | hc
      · exact Or.inr (Or.inl rfl)
      · exact Or.inl (hvalue c hc)
  rw [pullQuery_toList hinv] at h
  rcases List.mem_append.mp h with h | h
  · exact hname _ (by decide) (fun _ => isQuoted_toString_int) h
  · cases hf : collection.filter (· ≠ "") with
    | none =>
      rw [hf] at h
      cases h
    | some d =>
      rw [hf] at h
      rcases List.mem_cons.mp h with rfl | h
      · exact Or.inr (Or.inr rfl)
      · exact hname _ (by decide) (fun _ => mem_percentQuote) h

lemma notMem_of_all {path : List Char} (hall : path.all isQuoted = true) {c : Char}
    (h : isQuoted c = false) : c ∉ path :=
  fun hmem => ne_of_isQuoted (List.all_eq_true.mp hall c hmem) h rfl

/-- A path of the protocol is its own target. -/
lemma urlparse_path (hinv : std.Inverse) {c : Char} {path : List Char} (hc : c ≠ '/')
    (hall : (c :: path).all isQuoted = true) :
    std.urlparse (.ofList ('/' :: c :: path)) = .ok ⟨.ofList ('/' :: c :: path), ""⟩ := by
  obtain ⟨checkNetloc, hurl⟩ := hinv.urlparse_eq
  rw [hurl]
  exact Urllib.urlparse_path checkNetloc hc
    (fun d hd => isQuoted_printable (List.all_eq_true.mp hall d hd))
    (notMem_of_all hall rfl) (notMem_of_all hall rfl) (notMem_of_all hall rfl)

lemma urlparse_pair (hinv : std.Inverse) : std.urlparse "/v1/pair" = .ok ⟨"/v1/pair", ""⟩ :=
  @urlparse_path std hinv 'v' ['1', '/', 'p', 'a', 'i', 'r'] (by decide) rfl

def recordsPath : List Char := ['1', '/', 'r', 'e', 'c', 'o', 'r', 'd', 's']

lemma urlparse_records (hinv : std.Inverse) :
    std.urlparse "/v1/records" = .ok ⟨"/v1/records", ""⟩ :=
  @urlparse_path std hinv 'v' recordsPath (by decide) rfl

lemma urlparse_pull (hinv : std.Inverse) (collection : Option String) (since : ℤ) :
    std.urlparse (pullPath std collection since) =
      .ok ⟨"/v1/records", pullQuery std collection since⟩ := by
  obtain ⟨checkNetloc, hurl⟩ := hinv.urlparse_eq
  have htarget : pullPath std collection since =
      .ofList ('/' :: 'v' :: recordsPath ++ '?' :: (pullQuery std collection since).toList) := by
    apply String.toList_inj.mp
    rw [pullPath_eq, String.toList_ofList, String.toList_append, String.toList_append]
    rfl
  have hall : ('v' :: recordsPath).all isQuoted = true := rfl
  have hmem : ∀ d ∈ 'v' :: recordsPath ++ (pullQuery std collection since).toList, IsQueryChar d := by
    intro d hd
    rcases List.mem_append.mp hd with hd | hd
    · exact Or.inl (List.all_eq_true.mp hall d hd)
    · exact queryChar_pullQuery hinv hd
  rw [htarget]
  refine (hurl ('v' :: recordsPath ++ '?' :: (pullQuery std collection since).toList)).trans ?_
  refine (Urllib.urlparse_rooted checkNetloc (by decide) (fun d hd => (hmem d hd).printable)
    (fun h => (hmem _ h).ne rfl (by decide) (by decide) rfl) (notMem_of_all hall rfl)
    (notMem_of_all hall rfl)).trans ?_
  rw [String.ofList_toList]
  rfl

lemma parseQsl_pull (hinv : std.Inverse) (collection : Option String) (since : ℤ) :
    Urllib.parseQsl std.decodeReplace (pullQuery std collection since) =
      ("since", toString since) ::
        ((collection.filter (· ≠ "")).map fun c => ("collection", c)).toList := by
  have hdecode := hinv.decodeReplace_encodeUtf8
  have hdigits : ∀ d ∈ (toString since).toList, ∀ e, isQuoted e = false → d ≠ e :=
    fun d hd e he => ne_of_isQuoted (isQuoted_toString_int hd) he
  have hsince : Urllib.queryField std.decodeReplace (sinceField since) =
      some ("since", toString since) := by
    have hvalue : (toString since).toList ≠ [] := by
      rw [toList_toString_int]
      split_ifs
      · exact Nat.toDigits_ne_nil
      · exact List.cons_ne_nil _ _
    have hplain : ∀ d ∈ (toString since).toList, d ≠ '%' ∧ d ≠ '+' := by
      intro d hd
      refine ⟨?_, hdigits d hd '+' rfl⟩
      rcases mem_toString_int hd with rfl | hdigit
      · decide
      · rintro rfl
        exact absurd hdigit (by decide)
    rw [sinceField, Urllib.queryField_plain hdecode rfl hplain hvalue, String.ofList_toList]
  have hand : '&' ∉ sinceField since := by
    intro h
    rcases List.mem_append.mp h with h | h
    · exact absurd h (by decide)
    · rcases List.mem_cons.mp h with h | h
      · exact absurd h (by decide)
      · exact hdigits _ h '&' rfl rfl
  have hquery := pullQuery_toList hinv collection since
  rw [← String.ofList_toList (s := pullQuery std collection since), hquery]
  cases hf : collection.filter (· ≠ "") with
  | none =>
    rw [Option.elim_none, List.append_nil, Urllib.parseQsl_field hand hsince]
    rfl
  | some c =>
    have hne : c ≠ "" := by simpa using (Option.filter_eq_some_iff.mp hf).2
    have hcollection : Urllib.queryField std.decodeReplace (collectionField c) =
        some ("collection", c) := by
      rw [collectionField, Urllib.queryField_quoted hdecode rfl hne]
    have hand' : '&' ∉ collectionField c := by
      intro h
      rcases List.mem_append.mp h with h | h
      · exact absurd h (by decide)
      · rcases List.mem_cons.mp h with h | h
        · exact absurd h (by decide)
        · exact ne_of_isQuoted (mem_percentQuote h) rfl rfl
    rw [Option.elim_some, Urllib.parseQsl_cons hand hsince, Urllib.parseQsl_field hand' hcollection]
    rfl

lemma parseQs_pull (hinv : std.Inverse) (collection : Option String) (since : ℤ) :
    std.parseQs (pullQuery std collection since) =
      ("since", [toString since]) ::
        ((collection.filter (· ≠ "")).map fun c => ("collection", [c])).toList := by
  rw [hinv.parseQs_eq, Urllib.parseQs, parseQsl_pull hinv]
  cases collection.filter (· ≠ "") <;> rfl

/-! Exchanges -/

lemma serve_of_le {req : Request} (h : (requestLine req).length ≤ maxRequestLine) {c c' : Conn Tables}
    {resp : Response} (hr : handle std req c = (.ok resp, c')) :
    serve std req c = (.ok ⟨resp.status, std.dumpBody resp.obj⟩, c') := by
  rw [serve, if_neg (not_lt.mpr h), Sql.bind_ok hr]
  rfl

lemma serve_error {req : Request} (h : (requestLine req).length ≤ maxRequestLine) {c c' : Conn Tables}
    {e : PyError} (hr : handle std req c = (.error e, c')) : serve std req c = (.error e, c') := by
  rw [serve, if_neg (not_lt.mpr h), Sql.bind_error hr]

lemma serve_of_lt {req : Request} (h : maxRequestLine < (requestLine req).length) (c : Conn Tables) :
    serve std req c = (.ok ⟨414, std.errorPage 414⟩, c) := by
  rw [serve, if_pos h]
  rfl

lemma readAnswer_ok (hinv : std.Inverse) (soft : List ℕ) {v : Json} (hv : v.Plain) :
    readAnswer std soft (.ok ⟨200, std.dumpBody v⟩) = .ok v := by
  have hne : std.dumpBody v ≠ [] := by
    obtain ⟨b, w, hb, -⟩ : Starts (std.dumpBody v) := hv.dumps_starts
    rw [hb]
    exact List.cons_ne_nil _ _
  simp [readAnswer, hne, hinv.loads_dumps hv]

lemma pairOf_clientPair (hinv : std.Inverse) (client : SyncClient)
    (hlen : (std.dumpBody (client.pairPayload std)).length ≤ maxBody) :
    PairOf std (clientRequest std client.keys .post "/v1/pair" (some (client.pairPayload std)))
      (.text client.keys.groupId) (.text (client.keys.authHash std))
      (saltField (client.pairingSalt.map b64u)) := by
  refine ⟨_, _, client.pairPayload std,
    ⟨rfl, urlparse_pair hinv, rfl, fun _ => readBody_client hinv _ _ _ hlen⟩, ?_, ?_⟩
  · have hplain : (client.pairPayload std).Plain := by
      rw [SyncClient.pairPayload]
      refine .object ?_ fun p hp => ?_
      · cases client.pairingSalt <;> simp
      · cases hs : client.pairingSalt with
        | none =>
          simp only [hs, Option.map_none, Option.toList_none, List.append_nil, List.mem_cons,
            List.not_mem_nil, or_false] at hp
          rcases hp with rfl | rfl <;> exact .text _
        | some salt =>
          simp only [hs, Option.map_some, Option.toList_some, List.cons_append, List.nil_append,
            List.mem_cons, List.not_mem_nil, or_false] at hp
          rcases hp with rfl | rfl | rfl <;> exact .text _
    rw [pairPayload, hinv.loads_dumps hplain]
    simp [SyncClient.pairPayload, List.lookup, bind, Except.bind]
  · cases hs : client.pairingSalt <;>
      simp [SyncClient.pairPayload, hs, List.lookup, saltField, Json.text]

lemma pair_registers (hinv : std.Inverse) {client : SyncClient} {t : Tables}
    (hlen : (std.dumpBody (client.pairPayload std)).length ≤ maxBody)
    (hfree : t.groups.find client.keys.groupId = none) :
    ∃ t', (client.pair std ⟨t, none⟩).2 = ⟨t', none⟩ ∧ t'.records = t.records ∧
      t'.groups.find client.keys.groupId =
        some ⟨some client.keys.groupId, client.keys.authHash std, client.pairingSalt.map b64u⟩ := by
  obtain ⟨groups, hins, hrun⟩ := handle_register (pairOf_clientPair hinv client hlen) hfree
  have hline : (requestLine (clientRequest std client.keys .post "/v1/pair"
      (some (client.pairPayload std)))).length ≤ maxRequestLine := by
    change ("POST" ++ " " ++ "/v1/pair" ++ " HTTP/1.1\r\n").length ≤ maxRequestLine
    decide
  refine ⟨_, congrArg Prod.snd (serve_of_le hline hrun), rfl, ?_⟩
  change groups.find _ = _
  rw [KeyedTable.find_insert hins]
  simp

/-- Records with the fields of a wire record pass the checks on a batch. -/
lemma malformed_of_fields {records : List Json}
    (h : ∀ r ∈ records, hasFields r recordFields = .ok true) : malformed records = .ok false := by
  induction records with
  | nil => rfl
  | cons r records ih =>
    rw [malformed, h r List.mem_cons_self]
    exact ih fun r hr => h r (List.mem_cons_of_mem _ hr)

section
variable {client : SyncClient} {c : Conn Tables} {row : GroupRow}

lemma route_clientPush (hinv : std.Inverse) (hgroup : client.keys.groupId ≠ "")
    (hrow : c.tables.groups.find client.keys.groupId = some row)
    (hhash : row.authHash = client.keys.authHash std) {records : List Json}
    (hplain : ∀ r ∈ records, r.Plain) (hfields : ∀ r ∈ records, hasFields r recordFields = .ok true)
    (hcount : records.length ≤ maxRecordsPerBatch)
    (hlen : (std.dumpBody (SyncClient.pushPayload records)).length ≤ maxBody) :
    (route std (clientRequest std client.keys .post "/v1/records"
      (some (SyncClient.pushPayload records))) c).1 =
      .ok (.store (.upsertRecords client.keys.groupId records)) := by
  have hpayload : (SyncClient.pushPayload records).Plain := by
    refine .object (by simp) fun p hp => ?_
    obtain rfl := List.mem_singleton.mp hp
    exact .list hplain
  have hreach : Reaches std (clientRequest std client.keys .post "/v1/records"
      (some (SyncClient.pushPayload records))) .post "/v1/records" ⟨"/v1/records", ""⟩
      (std.dumpBody (SyncClient.pushPayload records)) :=
    ⟨rfl, urlparse_records hinv, rfl, fun _ => readBody_client hinv _ _ _ hlen⟩
  have hrecords : (SyncClient.pushPayload records).getItem "records" = .ok (.list records) := by
    simp [SyncClient.pushPayload, List.lookup]
  exact route_push hreach (authed_client hgroup hrow hhash .post (some _) rfl)
    (hinv.loads_dumps hpayload) hrecords hcount (malformed_of_fields hfields)

/-- The filter the server reads out of a pull; an empty collection is none. -/
lemma route_clientPull (hinv : std.Inverse) (hgroup : client.keys.groupId ≠ "")
    (hrow : c.tables.groups.find client.keys.groupId = some row)
    (hhash : row.authHash = client.keys.authHash std) (collection : Option String)
    {since : ℤ} (hsince : since.natAbs ≤ 2 ^ 64) :
    (route std (clientRequest std client.keys .get (pullPath std collection since) none) c).1 =
      .ok (.store (.queryRecords client.keys.groupId (collection.filter (· ≠ "")) since)) := by
  have hreach : Reaches std (clientRequest std client.keys .get (pullPath std collection since) none)
      .get "/v1/records" ⟨"/v1/records", pullQuery std collection since⟩ [] :=
    ⟨rfl, urlparse_pull hinv collection since, rfl, nofun⟩
  refine route_pull hreach (authed_client hgroup hrow hhash .get none (signedPath_pull _ _)) ?_
  have hread : pullSince std (std.parseQs (pullQuery std collection since)) = .ok since := by
    simp only [pullSince, parseQs_pull hinv, List.lookup_cons_self, Option.bind_some, List.head?_cons,
      Option.getD_some, hinv.intOfStr_toString hsince]
  have hcollection : ((std.parseQs (pullQuery std collection since)).lookup "collection").bind List.head? =
      collection.filter (· ≠ "") := by
    rw [parseQs_pull hinv]
    cases collection.filter (· ≠ "") <;> rfl
  simp only [pullAction, hread, hcollection, bind, Except.bind]

end

end

theorem sample_inverse : Stdlib.sample.Inverse where
  loads_dumps := Stdlib.sample_loads
  intOfStr_toString _ := decimalInt_toString _
  decodeReplace_encodeUtf8 := decodeUtf8_encodeUtf8
  quote_eq := rfl
  urlparse_eq := ⟨_, fun _ => rfl⟩
  parseQs_eq := rfl

end T3dmium
