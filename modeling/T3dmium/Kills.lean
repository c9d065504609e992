import T3dmium.GroupSync
import T3dmium.Scripts

/-! The server's process killed at any statement and started again. SQLite gives back
what was last committed, so a request is there as a whole or not at all. -/
namespace T3dmium

/-- Code on a connection, statement by statement. -/
abbrev SqlScript (τ α : Type) := Script (Conn τ) PyError α

/-- An operation that is one statement. -/
def Sql.script {τ α : Type} (x : Sql τ α) : SqlScript τ α := Script.statement x

/-- What a script does when nothing stops it. -/
def Sql.ofScript {τ α : Type} (x : SqlScript τ α) : Sql τ α := x.run

section
variable (std : Stdlib)

/-! The operations of `Store` by their statements -/

def createGroupScript (groupId authHash pairingSalt : Json) : SqlScript Tables Bool := do
  let row ← (Sql.select (selectAuthHash std groupId)).script
  match row with
  | some stored => .ofExcept (compareDigestJson stored authHash)
  | none =>
    (Sql.dml (insertGroup std groupId authHash pairingSalt)).script
    (Sql.dml (insertCounter std groupId)).script
    Sql.commit.script
    pure true

def upsertRecordScript (groupId : String) (s : PushResult) (r : Json) :
    SqlScript Tables PushResult := do
  let k ← .ofExcept (readKey std r)
  let ex ← (Sql.select (selectVersion std groupId k.coll k.rid)).script
  match ex.filter (k.ver ≤ ·) with
  | some serverVersion => pure (s.conflict k serverVersion)
  | none =>
    let row ← .ofExcept (readRow std groupId k r (s.serverSeq + 1))
    (Sql.dml fun t => .ok (putRecord row t)).script
    pure (s.accept k)

/-- `rollback()` -/
def Sql.rollback {τ : Type} : Sql τ Unit := fun c => (.ok (), c.rolledBack)

def upsertRecordsScript (groupId : String) (records : List Json) : SqlScript Tables PushResult :=
  Script.orElse (do
    Sql.begin.script
    let srow ← (Sql.select fun t => .ok (selectSeq groupId t)).script
    let s ← records.foldlM (upsertRecordScript std groupId) ⟨[], [], srow.getD 0⟩
    (Sql.dml fun t => .ok (updateSeq groupId s.serverSeq t)).script
    Sql.commit.script
    pure s) Sql.rollback.script

def queryRecordsScript (groupId : String) (collection : Option String) (since : ℤ) :
    SqlScript Tables PullResult := do
  let rows ← (Sql.select (selectRecords groupId collection since)).script
  let recs := rows.map RecordRow.pulled
  pure ⟨recs, (recs.getLast?.map fun r => (r.seq : ℤ)).getD since⟩

def StoreOp.script : StoreOp → SqlScript Tables Response
  | .createGroup groupId authHash pairingSalt => do
    let ok ← createGroupScript std groupId authHash pairingSalt
    pure (if ok then ⟨200, .object [("group_id", groupId), ("paired", .bool true)]⟩
      else sendError 409 "group exists with different secret")
  | .upsertRecords groupId records => do
    let result ← upsertRecordsScript std groupId records
    pure ⟨if result.conflicts.isEmpty then 200 else 409, result.toJson⟩
  | .queryRecords groupId collection since => do
    let result ← queryRecordsScript groupId collection since
    pure ⟨200, result.toJson⟩

def Action.script : Action → SqlScript Tables Response
  | .send r => pure r
  | .store op => op.script std

/-- A request: what is read up to the store call, and the statements of the call. -/
def handleScript (req : Request) : SqlScript Tables Response :=
  (route std req).script >>= Action.script std

end

/-! `Store.__init__` -/

/-- A database file; a table may not have been created yet. -/
structure Database where
  groups : Option (KeyedTable GroupRow String GroupRow.groupId)
  records : Option (KeyedTable RecordRow Slot RecordRow.key)
  seqCounter : Option (KeyedTable CounterRow String CounterRow.groupId)

namespace Database

def absent : Database := ⟨none, none, none⟩

def ofTables (t : Tables) : Database := ⟨some t.groups, some t.records, some t.seqCounter⟩

def tables (db : Database) : Tables :=
  ⟨db.groups.getD .empty, db.records.getD .empty, db.seqCounter.getD .empty⟩

def createGroups (db : Database) : Database := { db with groups := some (db.groups.getD .empty) }

def createRecords (db : Database) : Database := { db with records := some (db.records.getD .empty) }

def createSeqCounter (db : Database) : Database :=
  { db with seqCounter := some (db.seqCounter.getD .empty) }

/-- `CREATE TABLE IF NOT EXISTS …`, three times; each is committed by itself. -/
def initSchemaScript : Script Database PyError Unit :=
  .step createGroups fun _ => .step createRecords fun _ => .step createSeqCounter fun _ => .ret ()

/-- The process is started, killed after so many statements of `_init_schema`, started
again, and so on; the last start goes through. -/
def start (killed : List ℕ) (db : Database) : Conn Tables :=
  ⟨(initSchemaScript.run (killed.foldl (fun db n => initSchemaScript.cut n db) db)).2.tables, none⟩

end Database

/-! Runs -/

/-- A request that is answered, or in which the process is killed after so many
statements and started again. -/
inductive ServerEvent
  | served (req : Request)
  | killed (req : Request) (statements : ℕ) (starts : List ℕ)

/-- The server; what is left of a killed process is what its database file holds. -/
def killableServer (std : Stdlib) :
    Machine (Conn Tables) ServerEvent (Option (Except PyError Response))
  | .served req, c => (some ((handleScript std req).run c).1, ((handleScript std req).run c).2)
  | .killed req n starts, c =>
    (none, (Database.ofTables ((handleScript std req).cut n c).durable).start starts)

/-- What becomes of a request: it is answered, it is done and the answer lost, or it is
lost itself. -/
inductive Fate
  | answered
  | done
  | lost

/-- A server that is killed between requests only, and started again with no
transaction open. -/
def patientServer (std : Stdlib) :
    Machine (Conn Tables) (Request × Fate) (Option (Except PyError Response))
  | (req, .answered), c => (some (handle std req c).1, (handle std req c).2)
  | (req, .done), c => (none, (handle std req c).2.rolledBack)
  | (_, .lost), c => (none, c.rolledBack)

/-- Requests that are answered stay answered, others are done or lost. -/
inductive Settles : ServerEvent → Request × Fate → Prop
  | served (req) : Settles (.served req) (req, .answered)
  | done (req n starts) : Settles (.killed req n starts) (req, .done)
  | lost (req n starts) : Settles (.killed req n starts) (req, .lost)

section
variable {std : Stdlib} {τ α β : Type}

/-! Whole runs are the operations of the store -/

@[simp] lemma ofScript_script (x : Sql τ α) : Sql.ofScript x.script = x := Script.run_statement x

@[simp] lemma ofScript_pure (a : α) : Sql.ofScript (pure a : SqlScript τ α) = pure a := rfl

@[simp] lemma ofScript_ofExcept (r : Except PyError α) :
    Sql.ofScript (.ofExcept r : SqlScript τ α) = Sql.lift r := funext (Script.run_ofExcept r)

@[simp] lemma ofScript_bind (x : SqlScript τ α) (f : α → SqlScript τ β) :
    Sql.ofScript (x >>= f) = Sql.ofScript x >>= fun a => Sql.ofScript (f a) := by
  funext c
  have h : Sql.ofScript (x >>= f) c = _ := Script.run_bind x f c
  rw [h, Sql.bind_apply, Sql.ofScript]
  obtain ⟨r, c'⟩ := x.run c
  cases r <;> rfl

lemma ofScript_foldlM {γ : Type} (f : β → γ → SqlScript τ β) (l : List γ) (b : β) :
    Sql.ofScript (l.foldlM f b) = l.foldlM (fun b c => Sql.ofScript (f b c)) b := by
  induction l generalizing b with
  | nil => rfl
  | cons c l ih => simp only [List.foldlM_cons, ofScript_bind, ih]

lemma ofScript_orElse (x : SqlScript τ α) :
    Sql.ofScript (x.orElse Sql.rollback.script) = Sql.orRollback (Sql.ofScript x) := by
  funext c
  have h : Sql.ofScript (x.orElse Sql.rollback.script) c = _ := Script.run_orElse x _ c
  have hx : Sql.ofScript x c = x.run c := rfl
  rw [h, Sql.orRollback, hx]
  generalize x.run c = outcome
  obtain ⟨r, c'⟩ := outcome
  cases r <;> rfl

lemma ofScript_createGroup (g a s : Json) :
    Sql.ofScript (createGroupScript std g a s) = createGroup std g a s := by
  simp only [createGroupScript, createGroup, ofScript_bind, ofScript_script]
  refine congrArg _ (funext fun row => ?_)
  cases row <;> simp

lemma ofScript_upsertRecord (g : String) (s : PushResult) (r : Json) :
    Sql.ofScript (upsertRecordScript std g s r) = upsertRecord std g s r := by
  simp only [upsertRecordScript, upsertRecord, ofScript_bind, ofScript_script, ofScript_ofExcept]
  refine congrArg _ (funext fun k => congrArg _ (funext fun ex => ?_))
  cases ex.filter (k.ver ≤ ·) <;> simp

lemma ofScript_upsertRecords (g : String) (records : List Json) :
    Sql.ofScript (upsertRecordsScript std g records) = upsertRecords std g records := by
  simp only [upsertRecordsScript, upsertRecords, ofScript_orElse, ofScript_bind, ofScript_script,
    ofScript_foldlM, ofScript_upsertRecord, ofScript_pure]

lemma ofScript_queryRecords (g : String) (collection : Option String) (since : ℤ) :
    Sql.ofScript (queryRecordsScript g collection since) = queryRecords g collection since := by
  simp only [queryRecordsScript, queryRecords, ofScript_bind, ofScript_script, ofScript_pure]

lemma ofScript_storeOp (op : StoreOp) : Sql.ofScript (op.script std) = op.run std := by
  cases op <;> simp only [StoreOp.script, StoreOp.run, ofScript_bind, ofScript_createGroup,
    ofScript_upsertRecords, ofScript_queryRecords, ofScript_pure]

/-- The server that is not killed is the server of whole requests. -/
theorem ofScript_handle (req : Request) : Sql.ofScript (handleScript std req) = handle std req := by
  rw [handleScript, handle, ofScript_bind, ofScript_script]
  refine congrArg _ (funext fun action => ?_)
  cases action with
  | send r => rfl
  | store op => exact ofScript_storeOp op

/-! What a kill leaves -/

lemma quiet_select (q : τ → Except PyError α) : Script.Quiet Conn.durable (Sql.select q).script :=
  Script.quiet_statement fun _ => rfl

lemma quiet_dml (f : τ → Except PyError τ) : Script.Quiet Conn.durable (Sql.dml f).script := by
  refine Script.quiet_statement fun c => ?_
  cases h : f c.tables with
  | ok t => rw [Sql.dml_ok h]; rfl
  | error e => rw [Sql.dml_error h]; rfl

lemma quiet_begin : Script.Quiet Conn.durable (Sql.begin (τ := τ)).script := by
  refine Script.quiet_statement fun c => ?_
  obtain ⟨t, undo⟩ := c
  cases undo <;> rfl

lemma quiet_rollback : Script.Quiet Conn.durable (Sql.rollback (τ := τ)).script :=
  Script.quiet_statement fun _ => rfl

/-- A commit is the one statement that shows, and it does not raise. -/
lemma commit_failsQuietly {x : α} : Script.FailsQuietly Conn.durable
    (Sql.commit.script >>= fun _ => pure x : SqlScript τ α) := by
  intro c e c' h
  cases h

lemma atomic_commit {x : α} : Script.Atomic Conn.durable
    (Sql.commit.script >>= fun _ => pure x : SqlScript τ α) :=
  (Script.atomic_statement _).bind_quiet fun _ => Script.quiet_pure x

lemma createGroup_atomic (g a s : Json) :
    Script.Atomic Conn.durable (createGroupScript std g a s) := by
  refine (quiet_select _).bind_atomic fun row => ?_
  cases row with
  | some stored => exact (Script.quiet_ofExcept _).atomic
  | none => exact (quiet_dml _).bind_atomic fun _ => (quiet_dml _).bind_atomic fun _ => atomic_commit

lemma upsertRecord_quiet (g : String) (s : PushResult) (r : Json) :
    Script.Quiet Conn.durable (upsertRecordScript std g s r) := by
  refine (Script.quiet_ofExcept _).bind fun k => (quiet_select _).bind fun ex => ?_
  cases ex.filter (k.ver ≤ ·) with
  | some v => exact Script.quiet_pure _
  | none => exact (Script.quiet_ofExcept _).bind fun row => (quiet_dml _).bind fun _ => Script.quiet_pure _

lemma upsertRecords_atomic (g : String) (records : List Json) :
    Script.Atomic Conn.durable (upsertRecordsScript std g records) := by
  have hloop : ∀ s, Script.Quiet Conn.durable (records.foldlM (upsertRecordScript std g) s) :=
    fun s => Script.Quiet.foldlM (upsertRecord_quiet g) records s
  refine Script.Atomic.orElse ?_ ?_ quiet_rollback
  · exact quiet_begin.bind_atomic fun _ => (quiet_select _).bind_atomic fun srow =>
      (hloop _).bind_atomic fun s => (quiet_dml _).bind_atomic fun _ => atomic_commit
  · exact quiet_begin.bind_failsQuietly fun _ => (quiet_select _).bind_failsQuietly fun srow =>
      (hloop _).bind_failsQuietly fun s => (quiet_dml _).bind_failsQuietly fun _ => commit_failsQuietly

lemma storeOp_atomic (op : StoreOp) : Script.Atomic Conn.durable (op.script std) := by
  cases op with
  | createGroup g a s => exact (createGroup_atomic g a s).bind_quiet fun _ => Script.quiet_pure _
  | upsertRecords g records =>
    exact (upsertRecords_atomic g records).bind_quiet fun _ => Script.quiet_pure _
  | queryRecords g collection since =>
    exact ((quiet_select _).bind fun _ => Script.quiet_pure _).bind (fun _ => Script.quiet_pure _)
      |>.atomic

/-- Of a request that is killed, everything is committed or nothing. -/
theorem handle_atomic (std : Stdlib) (req : Request) : Script.Atomic Conn.durable (handleScript std req) := by
  have hroute : Script.Quiet Conn.durable (route std req).script :=
    Script.quiet_statement fun c => congrArg Conn.durable (route_readOnly req c)
  refine hroute.bind_atomic fun action => ?_
  cases action with
  | send r => exact (Script.quiet_pure r).atomic
  | store op => exact storeOp_atomic op

end

namespace Database

/-- What `_init_schema` has created is empty, and what there was stays. -/
lemma cut_tables (n : ℕ) (db : Database) : (initSchemaScript.cut n db).tables = db.tables := by
  match n with
  | 0 => rfl
  | 1 => rfl
  | 2 => rfl
  | _ + 3 => rfl

/-- However often a start is killed, the one that goes through finds what was there. -/
lemma start_eq (killed : List ℕ) (db : Database) : start killed db = ⟨db.tables, none⟩ := by
  have hkilled : (killed.foldl (fun db n => initSchemaScript.cut n db) db).tables = db.tables := by
    induction killed generalizing db with
    | nil => rfl
    | cons n killed ih => rw [List.foldl_cons, ih, cut_tables]
  rw [start, ← hkilled]
  rfl

lemma start_durable {c : Conn Tables} (killed : List ℕ) :
    start killed (ofTables c.durable) = c.rolledBack := start_eq killed _

end Database

section
variable {std : Stdlib}

/-- One event of the killed server is one of the patient server. -/
lemma killableServer_step (std : Stdlib) (e : ServerEvent) (c : Conn Tables) :
    ∃ f, Settles e f ∧ killableServer std e c = patientServer std f c := by
  cases e with
  | served req =>
    refine ⟨_, .served req, ?_⟩
    have hrun : (handleScript std req).run c = handle std req c := congrFun (ofScript_handle req) c
    rw [killableServer, patientServer, hrun]
  | killed req n starts =>
    have hrun : (handleScript std req).run c = handle std req c := congrFun (ofScript_handle req) c
    rcases handle_atomic std req n c with h | h
    · exact ⟨_, .lost req n starts, by rw [killableServer, h, Database.start_durable, patientServer]⟩
    · exact ⟨_, .done req n starts, by
        rw [killableServer, h, Database.start_durable, hrun, patientServer]⟩

/-- Whatever the statement at which the server is killed in whatever request, and however
often it is started again: the answers it gives and the state it reaches are those of a
server that is killed between requests only, each killed request being done or lost as
a whole. -/
theorem kills_between_requests (std : Stdlib) (starts : List ℕ) (events : List ServerEvent) :
    ∃ fates, List.Forall₂ Settles events fates ∧
      (killableServer std).answers events (Database.start starts .absent) =
        (patientServer std).answers fates initSchema ∧
      (killableServer std).final events (Database.start starts .absent) =
        (patientServer std).final fates initSchema := by
  rw [Database.start_eq]
  change ∃ fates, _ ∧ (killableServer std).answers events initSchema = _ ∧
    (killableServer std).final events initSchema = _
  generalize initSchema = c
  induction events generalizing c with
  | nil => exact ⟨[], .nil, rfl, rfl⟩
  | cons e events ih =>
    obtain ⟨f, hf, hstep⟩ := killableServer_step std e c
    obtain ⟨fates, hfates, hanswers, hfinal⟩ := ih (patientServer std f c).2
    refine ⟨f :: fates, .cons hf hfates, ?_, ?_⟩
    · rw [Machine.answers_cons, Machine.answers_cons, hstep, hanswers]
    · rw [Machine.final_cons, Machine.final_cons, hstep, hfinal]

/-! What has been answered -/

lemma killableServer_served (req : Request) (c : Conn Tables) :
    killableServer std (.served req) c = (some (handle std req c).1, (handle std req c).2) := by
  have hrun : (handleScript std req).run c = handle std req c := congrFun (ofScript_handle req) c
  rw [killableServer, hrun]

/-- Neither requests nor kills lower a version, remove a slot or touch a group. -/
lemma killableServer_keeps (std : Stdlib) {c : Conn Tables} (hc : c.Settled) (e : ServerEvent) :
    (killableServer std e c).2.Settled ∧ VersionsGrow c.tables (killableServer std e c).2.tables ∧
      GroupsKept c.tables (killableServer std e c).2.tables := by
  obtain ⟨⟨req, fate⟩, -, hstep⟩ := killableServer_step std e c
  have hset := (handle_tableStep std hc req).1
  rw [hstep]
  cases fate with
  | answered => exact ⟨hset, handle_versionsGrow hc req, handle_groupsKept hc req⟩
  | done =>
    rw [patientServer, hset.rolledBack]
    exact ⟨Conn.Idle.settled rfl, handle_versionsGrow hc req, handle_groupsKept hc req⟩
  | lost =>
    rw [patientServer, hc.rolledBack]
    exact ⟨Conn.Idle.settled rfl, .refl _, .refl _⟩

lemma killableServer_final (std : Stdlib) {c : Conn Tables} (hc : c.Settled) (events : List ServerEvent) :
    ((killableServer std).final events c).Settled ∧
      VersionsGrow c.tables ((killableServer std).final events c).tables ∧
      GroupsKept c.tables ((killableServer std).final events c).tables := by
  refine Machine.final_invariant (fun s : Conn Tables => s.Settled ∧ VersionsGrow c.tables s.tables ∧
    GroupsKept c.tables s.tables) ?_ (Machine.throughout_of_forall (fun _ _ _ => trivial) _)
    ⟨hc, .refl _, .refl _⟩
  intro e s _ ⟨hs, hgrow, hkept⟩
  obtain ⟨hs', hgrow', hkept'⟩ := killableServer_keeps std hs e
  exact ⟨hs', hgrow.trans hgrow', hkept.trans hkept'⟩

lemma pushBatch_superseded {g : String} {records : List Json} {t : Tables} {q : Tables × PushResult}
    (h : pushBatch std g records t = .ok q) : Superseded std g records q.1 := by
  obtain ⟨t', s⟩ := q
  obtain ⟨t1, hfold, rfl⟩ := pushBatch_eq_ok.mp h
  exact (fold_superseded hfold).grow (.of_records_eq rfl)

/-- An answered push is never lost: whatever the server was killed in before, and whatever
it is killed in afterwards, each of its records has a row at its version or a later one. -/
theorem push_survives (std : Stdlib) (starts : List ℕ) (before after : List ServerEvent)
    (req : Request) (resp : Response) (hpush : IsPush std req)
    (hresp : (killableServer std (.served req)
      ((killableServer std).final before (Database.start starts .absent))).1 = some (.ok resp))
    (hstatus : resp.status = 200 ∨ resp.status = 409) :
    ∃ g body payload records, readBody std req = .ok (some body) ∧ std.loads body = .ok payload ∧
      payload.getItem "records" = .ok (.list records) ∧
      Superseded std g records ((killableServer std).final (before ++ .served req :: after)
        (Database.start starts .absent)).tables := by
  rw [Machine.final_append, Machine.final_cons]
  have hstart : (Database.start starts .absent).Settled := Conn.Idle.settled rfl
  have hset := (killableServer_final std hstart before).1
  generalize (killableServer std).final before (Database.start starts .absent) = c at hresp hset
  rw [killableServer_served] at hresp ⊢
  have hanswer := Option.some.inj hresp
  obtain ⟨g, body, payload, records, hbody, hp, hrec, hroute⟩ := push_answered hpush hanswer hstatus
  refine ⟨g, body, payload, records, hbody, hp, hrec, ?_⟩
  obtain ⟨q, hq, hrun⟩ | ⟨⟨e, he⟩, -⟩ := handle_batch hset hroute
  · have hidle : (⟨q.1, none⟩ : Conn Tables).Settled := Conn.Idle.settled rfl
    obtain ⟨-, hgrow, -⟩ := killableServer_final std hidle after
    rw [hrun]
    exact (pushBatch_superseded hq).grow hgrow
  · rw [he] at hanswer
    cases hanswer

end

section
variable {keys : GroupKeys} {p : ProducedRecord .sample keys}

/-- A server that is killed before it has read anything of the pairing, and then pairs. -/
lemma killableServer_pairing (keys : GroupKeys) :
    (killableServer .sample).final [.killed (pairingOf keys) 0 [2], .served (pairingOf keys)]
      (Database.start [1] .absent) = (handle .sample (pairingOf keys) initSchema).2 := by
  have hstart : Database.start [1] .absent = initSchema := Database.start_eq _ _
  have hkilled : (killableServer .sample (.killed (pairingOf keys) 0 [2]) initSchema).2 = initSchema := by
    rw [killableServer, Script.cut_zero, Database.start_durable]
    rfl
  rw [hstart, Machine.final_cons, hkilled, Machine.final_cons, Machine.final_nil, killableServer_served]

lemma uploadOf_isPush : IsPush .sample (uploadOf p) :=
  ⟨rfl, ⟨"/v1/records", ""⟩, urlparse_records sample_inverse, rfl⟩

end

theorem sampleUpload_survives : ∃ g body payload records,
    readBody .sample (uploadOf (sampleProduced "bookmarks")) = .ok (some body) ∧
      Stdlib.sample.loads body = .ok payload ∧ payload.getItem "records" = .ok (.list records) ∧
      Superseded .sample g records ((killableServer .sample).final
        ([.killed (pairingOf sampleGroupKeys) 0 [2], .served (pairingOf sampleGroupKeys)] ++
          .served (uploadOf (sampleProduced "bookmarks")) ::
            [.killed (uploadOf (sampleProduced "bookmarks")) 3 [0]])
        (Database.start [1] .absent)).tables := by
  have hset : (handle .sample (pairingOf sampleGroupKeys) initSchema).2.Settled :=
    (handle_tableStep .sample (c := initSchema) (Conn.Idle.settled rfl) _).1
  obtain ⟨resp, hresp, hstatus⟩ := sample_uploads.status hset
  refine push_survives .sample [1] _ _ _ resp uploadOf_isPush ?_ hstatus
  rw [killableServer_pairing, killableServer_served, hresp]

end T3dmium
