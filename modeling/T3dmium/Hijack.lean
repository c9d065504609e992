import T3dmium.ServerSteps

/-! A registered group keeps its row for good, and nothing reaches its records
without credentials that fit that row. -/
namespace T3dmium

def AsciiText (v : Json) : Prop := ∃ s, v = .text s ∧ isAscii s = true

/-- If `req` is a pair request, its fields are ASCII strings; the salt may be missing. -/
def AsciiPair (std : Stdlib) (req : Request) : Prop :=
  ∀ g a s, PairOf std req g a s →
    AsciiText g ∧ AsciiText a ∧ ∃ salt, s = saltField salt ∧ ∀ x ∈ salt, isAscii x = true

/-- Every registered group keeps its `auth_hash` and `pairing_salt`. -/
def GroupsKept (t t' : Tables) : Prop :=
  ∀ g row, t.groups.find g = some row → t'.groups.find g = some row

/-- The group whose records an operation reads or writes. -/
def StoreOp.recordsOf : StoreOp → Option String
  | .createGroup _ _ _ => none
  | .upsertRecords g _ => some g
  | .queryRecords g _ _ => some g

/-- `req` names a registered group and shows credentials for its own method, path
and body. -/
def Authorised (std : Stdlib) (req : Request) (g : String) (t : Tables) : Prop :=
  req.syncGroup = some g ∧ ∃ row parsed body, t.groups.find g = some row ∧
    std.urlparse req.target = .ok parsed ∧
    (req.method = .post ∧ readBody std req = .ok (some body) ∨ req.method = .get ∧ body = []) ∧
    Credentials std req parsed body row.authHash

section
variable {std : Stdlib}

lemma GroupsKept.refl (t : Tables) : GroupsKept t t := fun _ _ h => h

lemma GroupsKept.trans {a b c : Tables} (h : GroupsKept a b) (h' : GroupsKept b c) :
    GroupsKept a c := fun g row hg => h' g row (h g row hg)

lemma TableStep.groupsKept {op : StoreOp} {t t' : Tables} (h : TableStep std op t t') :
    GroupsKept t t' := by
  cases h with
  | same => exact .refl _
  | @register g a s _ _ hfree hreg =>
    intro g' row hrow
    obtain ⟨k, a', s', groups, hk, -, -, hins, rfl⟩ := registerGroup_eq_ok.mp hreg
    rw [KeyedTable.find_insert hins]
    split_ifs with he
    · -- the group was looked up before, so it cannot be there
      simp only at he
      subst he
      simp only [selectAuthHash, hk, bind, Except.bind, Option.bind, hrow] at hfree
      cases hfree
    · exact hrow
  | push hp =>
    rw [GroupsKept, pushBatch_groups hp]
    exact fun _ _ h => h

lemma TableStep.records_eq {op : StoreOp} {t t' : Tables} (h : TableStep std op t t')
    (hop : op.recordsOf = none) : t'.records = t.records := by
  cases h with
  | same => rfl
  | register hfree hreg =>
    obtain ⟨k, a', s', groups, -, -, -, -, rfl⟩ := registerGroup_eq_ok.mp hreg
    rfl
  | push hp => cases hop

lemma handle_groupsKept {c : Conn Tables} (hc : c.Settled) (req : Request) :
    GroupsKept c.tables (handle std req c).2.tables := by
  obtain ⟨-, h | ⟨op, -, -, hstep⟩⟩ := handle_tableStep std hc req
  · rw [h]
    exact .refl _
  · exact hstep.groupsKept

/-- Between requests: no transaction, and only hashes that can be compared. -/
structure Comparable (c : Conn Tables) : Prop where
  idle : c.Idle
  ascii : ∀ row ∈ c.tables.groups.rows, isAscii row.authHash = true

/-- ASCII pair requests keep the connection between requests comparable. -/
lemma handle_comparable {c : Conn Tables} (hc : Comparable c) {req : Request}
    (hreq : AsciiPair std req) : Comparable (handle std req c).2 := by
  rw [handle_eq]
  cases hr : (route std req c).1 with
  | error e => exact hc
  | ok action =>
    cases action with
    | send r => exact hc
    | store op =>
      obtain ⟨t, undo⟩ := c
      obtain rfl : undo = none := hc.idle
      cases route_store hr with
      | pair h =>
        obtain ⟨⟨g, rfl, -⟩, ⟨a, rfl, ha⟩, salt, rfl, -⟩ := hreq _ _ _ h
        change Comparable ((StoreOp.createGroup _ _ _).run std _).2
        rw [createGroup_run]
        cases hf : t.groups.find g with
        | some row =>
          rw [createGroup_taken std hf]
          exact hc
        | none =>
          obtain ⟨groups, hins, hcg⟩ := createGroup_free std hf a salt
          rw [hcg]
          refine ⟨rfl, fun row hrow => ?_⟩
          rw [KeyedTable.insert_rows hins] at hrow
          rcases List.mem_append.mp hrow with hrow | hrow
          · exact hc.ascii row hrow
          · rw [List.mem_singleton.mp hrow]
            exact ha
      | @push parsed body payload g records h ha hp hrec hm =>
        change Comparable ((StoreOp.upsertRecords _ _).run std _).2
        rw [upsertRecords_run, upsertRecords_idle]
        cases hp : pushBatch std g records t with
        | error e => exact hc
        | ok p =>
          refine ⟨rfl, ?_⟩
          rw [pushBatch_groups hp]
          exact hc.ascii
      | pull h ha hp =>
        change Comparable ((StoreOp.queryRecords _ _ _).run std _).2
        rw [queryRecords_run]
        exact hc

/-- What the server guarantees a group about one more request. -/
structure Protected (std : Stdlib) (g : String) (c : Conn Tables) (req : Request) : Prop where
  /-- a first pairing registers what it shows -/
  registers : ∀ a s, c.tables.groups.find g = none → PairOf std req (.text g) a s →
    ∃ h salt resp, a = .text h ∧ s = saltField salt ∧ (handle std req c).1 = .ok resp ∧
      resp.status = 200 ∧ (handle std req c).2.tables.groups.find g = some ⟨some g, h, salt⟩
  /-- a later one is answered 200 exactly with the registered hash, else 409 -/
  answers : ∀ row a s, c.tables.groups.find g = some row → PairOf std req (.text g) a s →
    ∃ resp, (handle std req c).1 = .ok resp ∧ (resp.status = 200 ↔ a = .text row.authHash) ∧
      (resp.status = 200 ∨ resp.status = 409)
  /-- a pairing answered 409 changes no table -/
  refused : ∀ g' a s resp, PairOf std req g' a s → (handle std req c).1 = .ok resp →
    resp.status = 409 → (handle std req c).2.tables = c.tables
  /-- records are reached with credentials only -/
  authorised : ∀ op, (route std req c).1 = .ok (.store op) → op.recordsOf = some g →
    Authorised std req g c.tables
  /-- a request for an unregistered group does not reach the records -/
  unregistered : c.tables.groups.find g = none → req.syncGroup = some g →
    (∀ op, (route std req c).1 = .ok (.store op) → op.recordsOf = none) ∧
      (handle std req c).2.tables.records = c.tables.records

lemma createGroup_refused {g a s : Json} {c c' : Conn Tables}
    (h : createGroup std g a s c = (.ok false, c')) : c' = c := by
  rw [createGroup_apply] at h
  split at h
  · cases h
  · exact (Prod.mk.inj h).2.symm
  · split at h <;> cases h

/-- Records are reached only past `_authed`. -/
lemma authorised_of_route {req : Request} {c : Conn Tables} {op : StoreOp} {g : String}
    (hr : (route std req c).1 = .ok (.store op)) (hg : op.recordsOf = some g) :
    Authorised std req g c.tables := by
  cases route_store hr with
  | pair h => cases hg
  | @push parsed body payload g' records h ha hp hrec hm =>
    cases hg
    obtain ⟨hs, -, row, hrow, hcred⟩ := authed_eq_some.mp ha
    exact ⟨hs, row, parsed, body, hrow, h.urlparse_eq, Or.inl ⟨h.method_eq, h.body_eq rfl⟩, hcred⟩
  | @pull parsed g' collection since h ha hp =>
    cases hg
    obtain ⟨hs, -, row, hrow, hcred⟩ := authed_eq_some.mp ha
    exact ⟨hs, row, parsed, [], hrow, h.urlparse_eq, Or.inr ⟨h.method_eq, rfl⟩, hcred⟩

theorem protected_of_comparable {c : Conn Tables} (hc : Comparable c) {req : Request}
    (hreq : AsciiPair std req) (g : String) : Protected std g c req where
  registers a s hfree hp := by
    obtain ⟨-, ⟨h, rfl, -⟩, salt, rfl, -⟩ := hreq _ _ _ hp
    obtain ⟨t, undo⟩ := c
    obtain rfl : undo = none := hc.idle
    obtain ⟨groups, hins, hrun⟩ := handle_register hp hfree
    refine ⟨h, salt, ⟨200, .object [("group_id", .text g), ("paired", .bool true)]⟩, rfl, rfl, ?_⟩
    rw [hrun]
    refine ⟨rfl, rfl, ?_⟩
    change groups.find g = _
    rw [KeyedTable.find_insert hins]
    simp
  answers row a s hrow hp := by
    obtain ⟨-, ⟨h, rfl, hh⟩, salt, rfl, -⟩ := hreq _ _ _ hp
    have hstored := hc.ascii row (KeyedTable.find_eq_some.mp hrow).1
    have hcg : createGroup std (.text g) (.text h) (saltField salt) c = _ :=
      createGroup_taken std hrow (.text h) (saltField salt)
    rw [compareDigestJson_text, compareDigest_ascii hstored hh] at hcg
    rw [handle_pair hp, StoreOp.run, Sql.bind_ok hcg]
    by_cases he : row.authHash = h
    · exact ⟨_, rfl, by simp [he], by simp [he]⟩
    · have he' : ¬ Json.text h = .text row.authHash := by
        simpa [Json.text] using fun h' => he h'.symm
      exact ⟨_, rfl, by simp [he, he', sendError], by simp [he, sendError]⟩
  refused g' a s resp hp hresp hstatus := by
    rw [handle_pair hp, StoreOp.run, Sql.bind_apply] at hresp ⊢
    cases hcg : createGroup std g' a s c with
    | mk r c' =>
      rw [hcg] at hresp
      cases r with
      | error e => cases hresp
      | ok b =>
        cases b with
        | true =>
          cases hresp
          cases hstatus
        | false =>
          rw [createGroup_refused hcg]
          rfl
  authorised op hr hg := authorised_of_route hr hg
  unregistered hfree hgroup := by
    have hnone : ∀ op, (route std req c).1 = .ok (.store op) → op.recordsOf = none := by
      intro op hr
      by_contra hne
      obtain ⟨g', hg'⟩ := Option.ne_none_iff_exists'.mp hne
      obtain ⟨hs, row, -, -, hrow, -⟩ := authorised_of_route hr hg'
      rw [hgroup] at hs
      cases hs
      rw [hfree] at hrow
      cases hrow
    refine ⟨hnone, ?_⟩
    obtain ⟨-, h | ⟨op, hr, -, hstep⟩⟩ := handle_tableStep std hc.idle.settled req
    · rw [h]
    · exact hstep.records_eq (hnone op hr)

lemma comparable_initSchema : Comparable initSchema := ⟨rfl, fun _ h => by cases h⟩

/-- In every run whose pair requests carry ASCII strings, registered groups keep
their rows and every request finds every group protected. -/
theorem server_protects (before later : List Request) (req : Request) (g : String)
    (hbefore : ∀ r ∈ before, AsciiPair std r) (hlater : ∀ r ∈ later, AsciiPair std r)
    (hreq : AsciiPair std req) :
    let c := (server std).final before initSchema
    let c' := (server std).final later c
    GroupsKept c.tables c'.tables ∧ Protected std g c' req := by
  intro c c'
  have hstep : ∀ r s, AsciiPair std r → Comparable s → Comparable (server std r s).2 :=
    fun r s hr hs => handle_comparable hs hr
  have hc : Comparable c := Machine.final_invariant Comparable hstep
    (Machine.throughout_of_forall (fun r hr _ => hbefore r hr) _) comparable_initSchema
  have hkept : Comparable c' ∧ GroupsKept c.tables c'.tables := by
    refine Machine.final_invariant (fun s => Comparable s ∧ GroupsKept c.tables s.tables)
      (fun r s hr hs => ⟨hstep r s hr hs.1, ?_⟩)
      (Machine.throughout_of_forall (fun r hr _ => hlater r hr) _) ⟨hc, .refl _⟩
    exact hs.2.trans (handle_groupsKept hs.1.idle.settled r)
  exact ⟨hkept.2, protected_of_comparable hkept.1 hreq g⟩

lemma PairOf.asciiPair {req : Request} {g a : String} {salt : Option String}
    (h : PairOf std req (.text g) (.text a) (saltField salt)) (hg : isAscii g = true)
    (ha : isAscii a = true) (hs : ∀ x ∈ salt, isAscii x = true) : AsciiPair std req := by
  intro g' a' s' h'
  obtain ⟨rfl, rfl, rfl⟩ := h.inj h'
  exact ⟨⟨g, rfl, hg⟩, ⟨a, rfl, ha⟩, salt, rfl, hs⟩

lemma asciiPair_of_path {req : Request} {parsed : ParsedUrl}
    (hu : std.urlparse req.target = .ok parsed) (hp : parsed.path ≠ "/v1/pair") :
    AsciiPair std req :=
  fun _ _ _ h => (not_pairOf_of_path hu hp h).elim

end

theorem samplePair_protected :
    let c := (server .sample).final [samplePair] initSchema
    let c' := (server .sample).final [samplePush] c
    GroupsKept c.tables c'.tables ∧ Protected .sample "g" c' sampleHijack := by
  have h1 := samplePair_pairOf.asciiPair (by decide) (by decide) (by simp)
  have h2 : AsciiPair .sample samplePush := asciiPair_of_path rfl (by decide)
  have h3 := sampleHijack_pairOf.asciiPair (by decide) (by decide) (by simp)
  exact server_protects _ _ _ "g" (by simpa using h1) (by simpa using h2) h3

end T3dmium
