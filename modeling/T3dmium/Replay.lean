import T3dmium.Convergence
import T3dmium.FailedRequest
import T3dmium.Hijack
import T3dmium.Numbering
import T3dmium.OneOperation

/-! A push delivered twice. Requests carry no nonce; what protects the store is that
versions never decrease, so a second delivery finds its whole batch superseded. -/
namespace T3dmium

/-- Slots keep their rows, at the same or later versions. -/
def VersionsGrow (t t' : Tables) : Prop :=
  ∀ slot row, t.records.find slot = some row →
    ∃ row', t'.records.find slot = some row' ∧ row.version ≤ row'.version

section
variable (std : Stdlib)

/-- Every record of the batch names a row of the group at its version or a later one. -/
def Superseded (g : String) (records : List Json) (t : Tables) : Prop :=
  ∀ r ∈ records, ∃ k row, readKey std r = .ok k ∧ t.records.find row.slot = some row ∧
    row.groupId = g ∧ k.Names std row ∧ k.ver ≤ row.version

/-- The conflict reports `r`, against a version no lower than its own. -/
structure Reports (r : Json) (x : Conflict) : Prop where
  collection : r.getItem "collection" = .ok x.collection
  recordId : r.getItem "id" = .ok x.recordId
  version : (r.getItem "version" >>= std.int) = .ok x.yourVersion
  superseded : x.yourVersion ≤ x.serverVersion

/-- If the request makes a store call, the call returns. -/
def StoreReturns (req : Request) (c : Conn Tables) : Prop :=
  ∀ op, (route std req c).1 = .ok (.store op) → ∃ resp, (op.run std c).1 = .ok resp

def IsPush (req : Request) : Prop :=
  req.method = .post ∧ ∃ parsed, std.urlparse req.target = .ok parsed ∧ parsed.path = "/v1/records"

/-- The push changes nothing and is told that all of its batch is superseded. -/
structure Harmless (req : Request) (c : Conn Tables) : Prop where
  unchanged : (handle std req c).2 = c
  refused : ∃ body payload records status, ∃ result : PushResult,
    readBody std req = .ok (some body) ∧ std.loads body = .ok payload ∧
      payload.getItem "records" = .ok (.list records) ∧
      (handle std req c).1 = .ok ⟨status, result.toJson⟩ ∧ result.accepted = [] ∧
      List.Forall₂ (Reports std) records result.conflicts

end

section
variable {std : Stdlib} {g : String}

/-! Versions -/

lemma VersionsGrow.refl (t : Tables) : VersionsGrow t t := fun _ row h => ⟨row, h, le_rfl⟩

lemma VersionsGrow.trans {a b c : Tables} (h : VersionsGrow a b) (h' : VersionsGrow b c) :
    VersionsGrow a c := by
  intro slot row hrow
  obtain ⟨row', hrow', hle⟩ := h slot row hrow
  obtain ⟨row'', hrow'', hle'⟩ := h' slot row' hrow'
  exact ⟨row'', hrow'', hle.trans hle'⟩

lemma VersionsGrow.of_records_eq {t t' : Tables} (h : t'.records = t.records) : VersionsGrow t t' := by
  rw [VersionsGrow, h]
  exact VersionsGrow.refl t

lemma Decides.versionsGrow {r : Json} {p : Tables × PushResult} {v : Verdict}
    (h : Decides std g r p v) : VersionsGrow p.1 (v.apply p).1 := by
  cases h with
  | conflict => exact .refl _
  | @accept k row hk hr hg hseq hold =>
    intro slot old hfind
    simp only [Verdict.apply, find_putRecord]
    by_cases hs : row.slot = slot
    · subst hs
      exact ⟨row, if_pos rfl, (hold old hfind).le⟩
    · exact ⟨old, by rw [if_neg hs, hfind], le_rfl⟩

lemma fold_versionsGrow {records : List Json} {p p' : Tables × PushResult}
    (h : records.foldlM (pushRecord std g) p = .ok p') : VersionsGrow p.1 p'.1 :=
  batch_induction (fun q => VersionsGrow p.1 q.1) (fun _ _ _ _ hv hq => hq.trans hv.versionsGrow) h
    (.refl _)

lemma TableStep.versionsGrow {op : StoreOp} {t t' : Tables} (h : TableStep std op t t') :
    VersionsGrow t t' := by
  cases h with
  | same => exact .refl _
  | register hfree hreg =>
    obtain ⟨k, a', s', groups, -, -, -, -, rfl⟩ := registerGroup_eq_ok.mp hreg
    exact .of_records_eq rfl
  | @push g records t p hp =>
    obtain ⟨t', s⟩ := p
    obtain ⟨t1, hfold, rfl⟩ := pushBatch_eq_ok.mp hp
    exact (fold_versionsGrow hfold).trans (.of_records_eq rfl)

/-- No request lowers a version or removes a slot. -/
theorem handle_versionsGrow {c : Conn Tables} (hc : c.Settled) (req : Request) :
    VersionsGrow c.tables (handle std req c).2.tables := by
  obtain ⟨-, h | ⟨op, -, -, hstep⟩⟩ := handle_tableStep std hc req
  · rw [h]
    exact .refl _
  · exact hstep.versionsGrow

/-! The batch -/

lemma RecordKey.Names.congr {k : RecordKey} {row row' : RecordRow} (h : k.Names std row)
    (hs : row'.slot = row.slot) : k.Names std row' := by
  simp only [RecordRow.slot, Slot.mk.injEq] at hs
  rw [RecordKey.Names, hs.2.1, hs.2.2]
  exact h

lemma Superseded.grow {records : List Json} {t t' : Tables} (h : Superseded std g records t)
    (hgrow : VersionsGrow t t') : Superseded std g records t' := by
  intro r hr
  obtain ⟨k, row, hk, hfind, hg, hn, hv⟩ := h r hr
  obtain ⟨row', hfind', hle⟩ := hgrow _ _ hfind
  have hslot : row'.slot = row.slot := Option.some.inj (KeyedTable.find_eq_some.mp hfind').2
  have hgroup : row'.groupId = row.groupId := congrArg Slot.groupId hslot
  exact ⟨k, row', hk, hslot ▸ hfind', hgroup.trans hg, hn.congr hslot, hv.trans hle⟩

/-- A batch that went through is superseded, by itself if by nothing else. -/
lemma fold_superseded {records : List Json} {p p' : Tables × PushResult}
    (h : records.foldlM (pushRecord std g) p = .ok p') : Superseded std g records p'.1 := by
  induction records generalizing p with
  | nil => exact fun r hr => nomatch hr
  | cons r records ih =>
    obtain ⟨q, hq, hrest⟩ := bind_eq_ok.mp h
    obtain ⟨v, hv, rfl⟩ := pushRecord_eq_ok.mp hq
    have hhead : Superseded std g [r] (v.apply p).1 := by
      intro r' hr'
      rw [List.mem_singleton.mp hr']
      cases hv with
      | @conflict k old hk hold hg hn hv =>
        exact ⟨k, old, hk, KeyedTable.find_eq_some.mpr ⟨hold, rfl⟩, hg, hn, hv⟩
      | @accept k row hk hr hg hseq hold =>
        exact ⟨k, row, hk, by simp [Verdict.apply], hg, hr.names hk, (hr.key_version hk).le⟩
    intro r' hr'
    rcases List.mem_cons.mp hr' with rfl | hr'
    · exact hhead.grow (fold_versionsGrow hrest) _ (List.mem_singleton.mpr rfl)
    · exact ih hrest r' hr'

/-- Such a batch is refused record by record. -/
lemma Superseded.fold {records : List Json} {t : Tables} (h : Superseded std g records t)
    (s : PushResult) :
    ∃ xs, records.foldlM (pushRecord std g) (t, s) = .ok (t, ⟨s.accepted, s.conflicts ++ xs, s.serverSeq⟩) ∧
      List.Forall₂ (Reports std) records xs := by
  induction records generalizing s with
  | nil =>
    refine ⟨[], ?_, .nil⟩
    rw [List.append_nil]
    rfl
  | cons r records ih =>
    obtain ⟨k, row, hk, hfind, hg, hn, hv⟩ := h r List.mem_cons_self
    have hverdict : Decides std g r (t, s) (.conflict k row.version) :=
      .conflict hk (KeyedTable.find_eq_some.mp hfind).1 hg hn hv
    have hstep : pushRecord std g (t, s) r = .ok (t, s.conflict k row.version) :=
      pushRecord_eq_ok.mpr ⟨_, hverdict, rfl⟩
    obtain ⟨xs, hfold, hxs⟩ := ih (fun r' hr' => h r' (List.mem_cons_of_mem _ hr'))
      (s.conflict k row.version)
    obtain ⟨hc, hi, hver⟩ := readKey_ok hk
    refine ⟨⟨k.coll, k.rid, k.ver, row.version⟩ :: xs, ?_, .cons ⟨hc, hi, hver, hv⟩ hxs⟩
    rw [List.foldlM_cons, hstep]
    exact hfold.trans (by simp [PushResult.conflict])

lemma updateSeq_selectSeq (g : String) (t : Tables) :
    updateSeq g ((selectSeq g t).getD 0) t = t := by
  have hrows : ∀ r ∈ t.seqCounter.rows,
      (if r.groupId = some g then { r with seq := (selectSeq g t).getD 0 } else r) = r := by
    intro r hr
    split_ifs with hk
    · have hfind : t.seqCounter.find g = some r := KeyedTable.find_eq_some.mpr ⟨hr, hk⟩
      rw [selectSeq, hfind]
      rfl
    · rfl
  obtain ⟨groups, records, seqCounter⟩ := t
  simp only [updateSeq, Tables.mk.injEq, true_and]
  exact KeyedTable.ext (List.map_congr_left hrows |>.trans (List.map_id _))

lemma Superseded.pushBatch {records : List Json} {t : Tables} (h : Superseded std g records t) :
    ∃ s, pushBatch std g records t = .ok (t, s) ∧ s.accepted = [] ∧
      List.Forall₂ (Reports std) records s.conflicts := by
  obtain ⟨xs, hfold, hxs⟩ := h.fold (startResult g t)
  refine ⟨_, pushBatch_eq_ok.mpr ⟨t, hfold, ?_⟩, rfl, hxs⟩
  exact (updateSeq_selectSeq g t).symm

/-! Runs -/

lemma handle_idle_of_returns {c : Conn Tables} (hc : c.Idle) {req : Request}
    (h : StoreReturns std req c) : (handle std req c).2.Idle := by
  refine (handle_idle hc ?_).1
  rintro ⟨g, a, s, hpair, hfree, hbad⟩
  obtain ⟨resp, hresp⟩ := h _ (route_pair hpair c)
  simp only [StoreOp.run, Sql.bind_apply, createGroup_apply, hfree] at hresp
  cases hreg : registerGroup std g a s c.tables with
  | error e =>
    rw [hreg] at hresp
    cases hresp
  | ok t =>
    obtain ⟨_, a', s', _, -, ha, hs, -, -⟩ := registerGroup_eq_ok.mp hreg
    rcases hbad with hbad | hbad
    · exact hbad a' ha
    · exact hbad s' hs

lemma handlePair_send {body : Bytes} {r : Response} (h : handlePair std body = .ok (.send r)) :
    r.status = 400 := by
  unfold handlePair at h
  split at h
  · cases h
    rfl
  · obtain ⟨s, -, h⟩ := bind_eq_ok.mp h
    cases h

lemma pushAction_send {body : Bytes} {r : Response} (h : pushAction std g body = .ok (.send r)) :
    r.status = 400 := by
  unfold pushAction at h
  split at h
  · cases h
    rfl
  · split_ifs at h
    · cases h
      rfl
    · obtain ⟨bad, -, h⟩ := bind_eq_ok.mp h
      cases bad <;> cases h
      rfl
  · cases h
    rfl

lemma route_send {req : Request} {c : Conn Tables} {r : Response} (hm : req.method = .post)
    (h : (route std req c).1 = .ok (.send r)) : r.status ≠ 200 ∧ r.status ≠ 409 := by
  obtain ⟨parsed, -, body, -, h⟩ := (route_post_iff hm).mp h
  cases body with
  | none =>
    cases h
    decide
  | some body =>
    rw [Option.elim_some] at h
    split_ifs at h with h1 h2
    · rw [handlePair_send h]
      decide
    · obtain ⟨g, -, h⟩ := (authed_readOnly req parsed body).bind_fst_ok.mp h
      cases g with
      | none =>
        cases h
        decide
      | some g =>
        rw [pushAction_send h]
        decide
    · cases h
      decide

lemma push_answered {req : Request} {c : Conn Tables} {resp : Response} (hpush : IsPush std req)
    (hresp : (handle std req c).1 = .ok resp) (hstatus : resp.status = 200 ∨ resp.status = 409) :
    ∃ g body payload records, readBody std req = .ok (some body) ∧
      std.loads body = .ok payload ∧ payload.getItem "records" = .ok (.list records) ∧
      (route std req c).1 = .ok (.store (.upsertRecords g records)) := by
  obtain ⟨hm, parsed, hurl, hpath⟩ := hpush
  rw [handle_eq] at hresp
  cases hr : (route std req c).1 with
  | error e =>
    rw [hr] at hresp
    cases hresp
  | ok action =>
    cases action with
    | send r =>
      rw [hr] at hresp
      cases hresp
      obtain ⟨h1, h2⟩ := route_send hm hr
      exact (hstatus.elim h1 h2).elim
    | store op =>
      cases route_store hr with
      | pair h => exact (not_pairOf_of_path hurl (by rw [hpath]; decide) h).elim
      | @push parsed body payload g records hreach ha hp hrec hmal =>
        exact ⟨g, body, payload, records, hreach.body_eq rfl, hp, hrec, rfl⟩
      | pull hreach ha hp =>
        rw [hreach.method_eq] at hm
        cases hm

lemma handle_superseded {req : Request} {c : Conn Tables} {records : List Json} (hc : c.Idle)
    (hr : (route std req c).1 = .ok (.store (.upsertRecords g records)))
    (hreturns : StoreReturns std req c) : Superseded std g records (handle std req c).2.tables := by
  obtain ⟨t, undo⟩ := c
  obtain rfl : undo = none := hc
  cases hp : pushBatch std g records t with
  | error e =>
    obtain ⟨resp, hresp⟩ := hreturns _ hr
    have hrun := upsertRecords_idle std g records t
    rw [hp] at hrun
    rw [StoreOp.run, Sql.bind_error hrun] at hresp
    cases hresp
  | ok p =>
    rw [handle_push hr hp]
    obtain ⟨t', s⟩ := p
    obtain ⟨t1, hfold, rfl⟩ := pushBatch_eq_ok.mp hp
    exact (fold_superseded hfold).grow (.of_records_eq rfl)

/-- Whatever follows an answered push, delivering it again is harmless. -/
theorem replay_harmless (std : Stdlib) (before after : List Request) (req : Request) (resp : Response)
    (hpush : IsPush std req)
    (hreturns : (server std).Throughout (StoreReturns std) (before ++ req :: after) initSchema)
    (hresp : (handle std req ((server std).final before initSchema)).1 = .ok resp)
    (hstatus : resp.status = 200 ∨ resp.status = 409) :
    Harmless std req ((server std).final (before ++ req :: after) initSchema) := by
  obtain ⟨hbefore, hreq, hafter⟩ := Machine.Throughout.append.mp hreturns
  rw [Machine.final_append, Machine.final_cons]
  have hidle : ((server std).final before initSchema).Idle :=
    Machine.final_invariant Conn.Idle (fun r s hr hs => handle_idle_of_returns hs hr) hbefore rfl
  generalize (server std).final before initSchema = c at hresp hreq hafter hidle
  obtain ⟨g, body, payload, records, hbody, hp, hrec, hroute⟩ :=
    push_answered hpush hresp hstatus
  -- what the first delivery leaves is kept by every later request
  let kept (s : Conn Tables) : Prop :=
    s.Idle ∧ GroupsKept c.tables s.tables ∧ Superseded std g records s.tables
  have hfirst : kept (server std req c).2 := ⟨handle_idle_of_returns hidle hreq,
    handle_groupsKept hidle.settled req, handle_superseded hidle hroute hreq⟩
  have hkept : kept ((server std).final after (server std req c).2) :=
    Machine.final_invariant kept (fun r s hr ⟨hs, hg, hsup⟩ => ⟨handle_idle_of_returns hs hr,
      hg.trans (handle_groupsKept hs.settled r), hsup.grow (handle_versionsGrow hs.settled r)⟩)
      hafter hfirst
  generalize (server std).final after (server std req c).2 = c' at hkept
  obtain ⟨hidle', hgroups, hsup⟩ := hkept
  have hroute' := route_persists hroute hgroups
  obtain ⟨t, undo⟩ := c'
  obtain rfl : undo = none := hidle'
  obtain ⟨s, hbatch, haccepted, hconflicts⟩ := hsup.pushBatch
  have hrun := handle_push hroute' hbatch
  constructor
  case unchanged => rw [hrun]
  case refused =>
    exact ⟨body, payload, records, _, s, hbody, hp, hrec, congrArg Prod.fst hrun, haccepted, hconflicts⟩

/-- An answered request made no store call, or one that returned. -/
lemma storeReturns_of_answer {req : Request} {c c' : Conn Tables} {resp : Response}
    (h : handle std req c = (.ok resp, c')) : StoreReturns std req c := by
  intro op hop
  rw [handle_eq, hop] at h
  exact ⟨resp, congrArg Prod.fst h⟩

end

lemma sampleRecord_plain (version : ℤ) (tombstone : Bool) : (sampleRecord version tombstone).Plain := by
  refine .object (show ["collection", "id", "nonce", "ciphertext", "version", "tombstone"].Nodup by decide)
    fun p hp => ?_
  simp only [List.mem_cons, List.not_mem_nil, or_false] at hp
  rcases hp with rfl | rfl | rfl | rfl | rfl | rfl
  · exact .text _
  · exact .text _
  · exact .text _
  · exact .text _
  · exact .int _
  · exact .bool _

lemma sampleRecord_readFrom {version : ℤ} (h : IsInt64 version) (tombstone : Bool) :
    ∃ row : RecordRow, row.ReadFrom .sample (sampleRecord version tombstone) := by
  refine ⟨⟨"g", "bookmarks", "bm-1", "bg", "Y3Q", version, if tombstone then 1 else 0, "unknown", 0⟩,
    rfl, rfl, rfl, rfl, ?_, h, ?_, ?_⟩
  · simp [sampleRecord, List.lookup, bind, Except.bind]
  · cases tombstone <;> simp [sampleRecord, List.lookup, Except.map]
  · simp [sampleRecord, List.lookup, bind, Except.bind]

/-- A push of sample records to the group is answered. -/
lemma samplePushOf_answered {records : List Json}
    (hsample : ∀ r ∈ records, ∃ version tombstone, IsInt64 version ∧ r = sampleRecord version tombstone)
    (hle : (samplePushBody records).length ≤ maxBody) (hlen : records.length ≤ maxRecordsPerBatch)
    (hm : malformed records = .ok false) {t : Tables} {row : GroupRow} (hrow : t.groups.find "g" = some row)
    (hash : row.authHash = "A5BYxvLAy0ksUzsKTRTvd8wPeKvMztUofYShogEc-4E") :
    ∃ resp t', handle .sample (samplePushOf records) ⟨t, none⟩ = (.ok resp, ⟨t', none⟩) ∧
      (resp.status = 200 ∨ resp.status = 409) ∧ t'.groups.find "g" = some row := by
  have hplain : ∀ r ∈ records, r.Plain := by
    intro r hr
    obtain ⟨version, tombstone, -, rfl⟩ := hsample r hr
    exact sampleRecord_plain version tombstone
  have hstored : ∀ r ∈ records, ∃ row : RecordRow, row.ReadFrom .sample r := by
    intro r hr
    obtain ⟨version, tombstone, h, rfl⟩ := hsample r hr
    exact sampleRecord_readFrom h tombstone
  obtain ⟨p, hp⟩ := @pushBatch_total .sample "g" records hstored t
  have hroute := samplePushOf_route hle hplain hlen hm (c := ⟨t, none⟩) hrow hash
  refine ⟨_, p.1, handle_push hroute hp, ?_, ?_⟩
  · cases p.2.conflicts.isEmpty <;> simp
  · rw [pushBatch_groups hp, hrow]

/-- A batch that names its slot twice is delivered again after a deletion of it. -/
theorem samplePush_harmless :
    Harmless .sample (samplePushOf sampleBatch) ((server .sample).final
      ([samplePair] ++ samplePushOf sampleBatch :: [samplePushOf [sampleRecord 3 true]]) initSchema) := by
  obtain ⟨t, hpair, hrow, -⟩ := samplePair_registers
  have hsample : ∀ r ∈ sampleBatch, ∃ version tombstone, IsInt64 version ∧
      r = sampleRecord version tombstone := by
    intro r hr
    simp only [sampleBatch, List.mem_cons, List.not_mem_nil, or_false] at hr
    rcases hr with rfl | rfl | rfl
    · exact ⟨1, false, ⟨by decide, by decide⟩, rfl⟩
    · exact ⟨2, false, ⟨by decide, by decide⟩, rfl⟩
    · exact ⟨1, false, ⟨by decide, by decide⟩, rfl⟩
  obtain ⟨resp, t', hpush, hstatus, hrow'⟩ := @samplePushOf_answered sampleBatch
    hsample (by decide +kernel) (by decide) rfl t _ hrow rfl
  obtain ⟨_, _, hlater, -⟩ := @samplePushOf_answered [sampleRecord 3 true]
    (fun r hr => ⟨3, true, ⟨by decide, by decide⟩, List.mem_singleton.mp hr⟩) (by decide +kernel) (by decide) rfl
    t' _ hrow' rfl
  have hbefore : (server .sample).final [samplePair] initSchema = ⟨t, none⟩ := server_final hpair
  refine replay_harmless .sample [samplePair] [samplePushOf [sampleRecord 3 true]] (samplePushOf sampleBatch)
    resp ⟨rfl, ⟨"/v1/records", ""⟩, by decide, rfl⟩ ?_ (by rw [hbefore, hpush]) hstatus
  have hsecond : (server .sample samplePair initSchema).2 = ⟨t, none⟩ := by rw [server, hpair]
  have hthird : (server .sample (samplePushOf sampleBatch) ⟨t, none⟩).2 = ⟨t', none⟩ := by
    rw [server, hpush]
  refine ⟨storeReturns_of_answer hpair, ?_, ?_, trivial⟩
  · rw [hsecond]
    exact storeReturns_of_answer hpush
  · rw [hsecond, hthird]
    exact storeReturns_of_answer hlater

end T3dmium
