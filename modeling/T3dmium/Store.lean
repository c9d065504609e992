import T3dmium.KeyedTable
import T3dmium.Sqlite
import T3dmium.Stdlib

/-! The server's blob store: three tables behind one SQLite connection and the
four operations of `Store`. The lock makes each of them one step. -/
namespace T3dmium

/-- `group_id TEXT PRIMARY KEY` admits `NULL`. -/
structure GroupRow where
  groupId : Option String
  authHash : String
  pairingSalt : Option String
  deriving DecidableEq

/-- The primary key of `records`. -/
structure Slot where
  groupId : String
  collection : String
  recordId : String
  deriving DecidableEq

structure RecordRow where
  groupId : String
  collection : String
  recordId : String
  nonce : String
  ciphertext : String
  version : ℤ
  tombstone : ℤ
  alg : String
  seq : ℕ
  deriving DecidableEq

namespace RecordRow

def slot (r : RecordRow) : Slot := ⟨r.groupId, r.collection, r.recordId⟩

def key (r : RecordRow) : Option Slot := some r.slot

end RecordRow

structure CounterRow where
  groupId : Option String
  seq : ℕ
  deriving DecidableEq

structure Tables where
  groups : KeyedTable GroupRow String GroupRow.groupId
  records : KeyedTable RecordRow Slot RecordRow.key
  seqCounter : KeyedTable CounterRow String CounterRow.groupId

/-- The tables `_init_schema` creates. -/
def Tables.empty : Tables := ⟨.empty, .empty, .empty⟩

/-- A fresh `Store`. -/
def initSchema : Conn Tables := ⟨.empty, none⟩

structure Accepted where
  collection : Json
  recordId : Json
  version : ℤ

structure Conflict where
  collection : Json
  recordId : Json
  yourVersion : ℤ
  serverVersion : ℤ

structure PushResult where
  accepted : List Accepted
  conflicts : List Conflict
  serverSeq : ℕ

structure PulledRecord where
  collection : String
  recordId : String
  nonce : String
  ciphertext : String
  version : ℤ
  tombstone : Bool
  alg : String
  seq : ℕ
  deriving DecidableEq

structure PullResult where
  records : List PulledRecord
  serverSeq : ℤ
  deriving DecidableEq

section
variable (std : Stdlib)

/-! SQL statements -/

/-- `SELECT auth_hash FROM groups WHERE group_id=?` -/
def selectAuthHash (groupId : Json) (t : Tables) : Except PyError (Option String) := do
  let g ← bindText std.realText groupId
  .ok (g.bind fun g => (t.groups.find g).map GroupRow.authHash)

/-- `INSERT INTO groups(group_id, auth_hash, pairing_salt, created_at) VALUES (?,?,?,?)` -/
def insertGroup (groupId authHash pairingSalt : Json) (t : Tables) : Except PyError Tables := do
  let g ← bindText std.realText groupId
  let a ← bindText std.realText authHash
  let s ← bindText std.realText pairingSalt
  let a ← notNull a
  match t.groups.insert ⟨g, a, s⟩ with
  | some groups => .ok { t with groups := groups }
  | none => .error .integrityError

/-- `INSERT OR IGNORE INTO seq_counter(group_id, seq) VALUES (?, 0)` -/
def insertCounter (groupId : Json) (t : Tables) : Except PyError Tables := do
  let g ← bindText std.realText groupId
  .ok { t with seqCounter := t.seqCounter.insertOrIgnore ⟨g, 0⟩ }

/-- `SELECT seq FROM seq_counter WHERE group_id=?` -/
def selectSeq (groupId : String) (t : Tables) : Option ℕ :=
  (t.seqCounter.find groupId).map CounterRow.seq

/-- `UPDATE seq_counter SET seq=? WHERE group_id=?` -/
def updateSeq (groupId : String) (seq : ℕ) (t : Tables) : Tables :=
  { t with seqCounter := t.seqCounter.modify groupId (fun r => { r with seq := seq }) fun _ => rfl }

/-- `SELECT version FROM records WHERE group_id=? AND collection=? AND id=?` -/
def selectVersion (groupId : String) (coll rid : Json) (t : Tables) :
    Except PyError (Option ℤ) := do
  let c ← bindText std.realText coll
  let i ← bindText std.realText rid
  .ok (c.bind fun c => i.bind fun i => (t.records.find ⟨groupId, c, i⟩).map RecordRow.version)

/-- The row of `INSERT INTO records(…) VALUES (?,?,?,?,?,?,?,?,?)` -/
def recordRow (groupId : String) (coll rid nonce ciphertext : Json) (ver : ℤ) (tombstone : Bool)
    (alg : Json) (seq : ℕ) : Except PyError RecordRow := do
  let c ← bindText std.realText coll
  let i ← bindText std.realText rid
  let n ← bindText std.realText nonce
  let ct ← bindText std.realText ciphertext
  let v ← bindInt ver
  let a ← bindText std.realText alg
  .ok ⟨groupId, ← notNull c, ← notNull i, ← notNull n, ← notNull ct, v,
    if tombstone then 1 else 0, ← notNull a, seq⟩

/-- `… ON CONFLICT(group_id, collection, id) DO UPDATE SET …` -/
def putRecord (row : RecordRow) (t : Tables) : Tables := { t with records := t.records.upsert row }

/-! Operations -/

def createGroup (groupId authHash pairingSalt : Json) : Sql Tables Bool := do
  let row ← Sql.select (selectAuthHash std groupId)
  match row with
  | some stored => Sql.lift (compareDigestJson stored authHash)
  | none =>
    Sql.dml (insertGroup std groupId authHash pairingSalt)
    Sql.dml (insertCounter std groupId)
    Sql.commit
    pure true

def getGroupAuthHash (groupId : String) : Sql Tables (Option String) :=
  Sql.select (selectAuthHash std (.text groupId))

/-- What the loop of `upsert_records` reads before it looks for a stored version. -/
structure RecordKey where
  coll : Json
  rid : Json
  ver : ℤ

def readKey (r : Json) : Except PyError RecordKey := do
  let coll ← r.getItem "collection"
  let rid ← r.getItem "id"
  let ver ← std.int (← r.getItem "version")
  .ok ⟨coll, rid, ver⟩

/-- What it reads once the record is accepted. -/
def readRow (groupId : String) (k : RecordKey) (r : Json) (seq : ℕ) : Except PyError RecordRow := do
  let nonce ← r.getItem "nonce"
  let ciphertext ← r.getItem "ciphertext"
  let tombstone ← r.get "tombstone" .null
  let alg ← r.get "alg" (.text "unknown")
  recordRow std groupId k.coll k.rid nonce ciphertext k.ver tombstone.truthy alg seq

def PushResult.conflict (s : PushResult) (k : RecordKey) (serverVersion : ℤ) : PushResult :=
  { s with conflicts := s.conflicts ++ [⟨k.coll, k.rid, k.ver, serverVersion⟩] }

def PushResult.accept (s : PushResult) (k : RecordKey) : PushResult :=
  { s with accepted := s.accepted ++ [⟨k.coll, k.rid, k.ver⟩], serverSeq := s.serverSeq + 1 }

/-- One turn of the loop of `upsert_records`; `s.serverSeq` is the local `seq`. -/
def upsertRecord (groupId : String) (s : PushResult) (r : Json) : Sql Tables PushResult := do
  let k ← Sql.lift (readKey std r)
  let ex ← Sql.select (selectVersion std groupId k.coll k.rid)
  match ex.filter (k.ver ≤ ·) with
  | some serverVersion => pure (s.conflict k serverVersion)
  | none =>
    let row ← Sql.lift (readRow std groupId k r (s.serverSeq + 1))
    Sql.dml fun t => .ok (putRecord row t)
    pure (s.accept k)

def upsertRecords (groupId : String) (records : List Json) : Sql Tables PushResult :=
  Sql.orRollback do
    Sql.begin
    let srow ← Sql.select fun t => .ok (selectSeq groupId t)
    let s ← records.foldlM (upsertRecord std groupId) ⟨[], [], srow.getD 0⟩
    Sql.dml fun t => .ok (updateSeq groupId s.serverSeq t)
    Sql.commit
    pure s

def RecordRow.pulled (r : RecordRow) : PulledRecord :=
  ⟨r.collection, r.recordId, r.nonce, r.ciphertext, r.version, r.tombstone != 0, r.alg, r.seq⟩

/-- `WHERE group_id=? AND seq>? [AND collection=?]`; an empty collection is no filter. -/
def RecordRow.matches (groupId : String) (collection : Option String) (since : ℤ)
    (r : RecordRow) : Bool :=
  r.groupId == groupId && decide (since < r.seq) &&
    match collection with
    | none => true
    | some c => c == "" || r.collection == c

/-- `… ORDER BY seq ASC` -/
def selectRecords (groupId : String) (collection : Option String) (since : ℤ) (t : Tables) :
    Except PyError (List RecordRow) := do
  let since ← bindInt since
  .ok ((t.records.rows.filter (RecordRow.matches groupId collection since)).insertionSort
    fun a b => a.seq ≤ b.seq)

def queryRecords (groupId : String) (collection : Option String) (since : ℤ) :
    Sql Tables PullResult := do
  let rows ← Sql.select (selectRecords groupId collection since)
  let recs := rows.map RecordRow.pulled
  pure ⟨recs, (recs.getLast?.map fun r => (r.seq : ℤ)).getD since⟩

end
end T3dmium
