import T3dmium.Kills

/-! A group in sync with a server that is killed at any statement. What a killed request was to get across
got across as a whole or not at all, and nothing else changes for the devices. -/
namespace T3dmium

/-- A request of anybody, answered or killed, or a pull by the device. -/
inductive CrashEvent
  | server (e : ServerEvent)
  | pull

/-- The same with what became of each request. -/
inductive FateEvent
  | server (f : Request × Fate)
  | pull

inductive CrashEvent.Settles : CrashEvent → FateEvent → Prop
  | server {e : ServerEvent} {f : Request × Fate} (h : T3dmium.Settles e f) :
      CrashEvent.Settles (.server e) (.server f)
  | pull : CrashEvent.Settles .pull .pull

def ServerEvent.request : ServerEvent → Request
  | .served req => req
  | .killed req _ _ => req

section
variable (std : Stdlib) (g : String) (filter : Option String)

/-- Server and device. A pull that is killed, or whose answer does not arrive, is a request to the server
and nothing to the device. -/
def crashMachine : Machine (Conn Tables × Device) CrashEvent (Option (Except PyError PullResult))
  | .server e, (c, d) => (none, ((killableServer std e c).2, d))
  | .pull, s => syncMachine std g filter .pull s

/-- The server that is killed between requests only. -/
def patientMachine : Machine (Conn Tables × Device) FateEvent (Option (Except PyError PullResult))
  | .server f, (c, d) => (none, ((patientServer std f c).2, d))
  | .pull, s => syncMachine std g filter .pull s

end

section
variable (std : Stdlib) (keys : GroupKeys)

/-- Whoever has a batch answered under the group's name, or would have, has sealed its records. -/
def SealsAttempts : CrashEvent → Conn Tables × Device → Prop
  | .server e, s => SealsUploads std keys (.request e.request) s
  | .pull, _ => True

def SealsFates : FateEvent → Conn Tables × Device → Prop
  | .server f, s => SealsUploads std keys (.request f.1) s
  | .pull, _ => True

/-- The sealed records that a request gets across: all of its batch, unless it is lost. -/
def fateDelivers : FateEvent → Conn Tables × Device → Set (ProducedRecord std keys)
  | .server (req, .answered), s => delivers std keys (.request req) s
  | .server (req, .done), s => delivers std keys (.request req) s
  | .server (_, .lost), _ => ∅
  | .pull, _ => ∅

/-- What got across in a run from a fresh server. -/
def fateDelivered (filter : Option String) (fates : List FateEvent) : Set (ProducedRecord std keys) :=
  (patientMachine std keys.groupId filter).gathered (fateDelivers std keys) fates (initSchema, .fresh)

end

section
variable {std : Stdlib} {keys : GroupKeys} {g : String} {filter : Option String}

/-! Killed requests -/

/-- One event of the killed server is one of the patient server. -/
lemma crashMachine_step (e : CrashEvent) (s : Conn Tables × Device) :
    ∃ f, e.Settles f ∧ crashMachine std g filter e s = patientMachine std g filter f s ∧
      (SealsAttempts std keys e s → SealsFates std keys f s) := by
  obtain ⟨c, d⟩ := s
  cases e with
  | pull => exact ⟨.pull, .pull, rfl, fun h => h⟩
  | server e =>
    obtain ⟨f, hf, hstep⟩ := killableServer_step std e c
    refine ⟨.server f, .server hf, by rw [crashMachine, patientMachine, hstep], fun h => ?_⟩
    have hreq : e.request = f.1 := by cases hf <;> rfl
    rw [SealsAttempts, hreq] at h
    exact h

lemma crashMachine_run (events : List CrashEvent) {s : Conn Tables × Device}
    (hsealed : (crashMachine std g filter).Throughout (SealsAttempts std keys) events s) :
    ∃ fates, List.Forall₂ CrashEvent.Settles events fates ∧
      (crashMachine std g filter).final events s = (patientMachine std g filter).final fates s ∧
      (patientMachine std g filter).Throughout (SealsFates std keys) fates s := by
  induction events generalizing s with
  | nil => exact ⟨[], .nil, rfl, trivial⟩
  | cons e events ih =>
    obtain ⟨f, hf, hstep, hseals⟩ := @crashMachine_step std keys g filter e s
    obtain ⟨fates, hfates, hfinal, hthroughout⟩ := ih hsealed.2
    rw [hstep] at hfinal hthroughout
    refine ⟨f :: fates, .cons hf hfates, ?_, hseals hsealed.1, hthroughout⟩
    rw [Machine.final_cons, Machine.final_cons, hstep, hfinal]

/-! The server that is killed between requests -/

/-- A transaction that is dropped changes nothing for the device. -/
lemma InSync.rolledBack {c : Conn Tables} {d : Device} (h : InSync g filter (c, d)) :
    InSync g filter (c.rolledBack, d) := by
  obtain ⟨hset, hnum, htrails⟩ := h
  rw [hset.rolledBack]
  exact ⟨Conn.Idle.settled rfl, hnum, htrails⟩

/-- What server and device keep, whatever becomes of the requests. -/
lemma patientMachine_step {sent : Set (ProducedRecord std keys)} {s : Conn Tables × Device} (f : FateEvent)
    (hseals : SealsFates std keys f s)
    (h : InSync keys.groupId filter s ∧ StoresLatest sent s.1.tables) :
    InSync keys.groupId filter (patientMachine std keys.groupId filter f s).2 ∧
      StoresLatest (sent ∪ fateDelivers std keys f s)
        (patientMachine std keys.groupId filter f s).2.1.tables := by
  obtain ⟨c, d⟩ := s
  obtain ⟨hsync, hlatest⟩ := h
  cases f with
  | pull =>
    rw [fateDelivers, Set.union_empty, patientMachine, pull_server]
    exact ⟨(syncMachine_step std hsync .pull).1, hlatest⟩
  | server f =>
    obtain ⟨req, fate⟩ := f
    have hdone : InSync keys.groupId filter ((handle std req c).2, d) :=
      (syncMachine_step std hsync (.request req)).1
    have hstored := hlatest.request hsync.settled hseals
    cases fate with
    | answered => exact ⟨hdone, hstored⟩
    | done =>
      refine ⟨hdone.rolledBack, ?_⟩
      rw [patientMachine, patientServer, hdone.settled.rolledBack]
      exact hstored
    | lost =>
      refine ⟨hsync.rolledBack, ?_⟩
      rw [patientMachine, patientServer, hsync.settled.rolledBack, fateDelivers, Set.union_empty]
      exact hlatest

lemma patientMachine_run {fates : List FateEvent}
    (hsealed : (patientMachine std keys.groupId filter).Throughout (SealsFates std keys) fates
      (initSchema, .fresh)) :
    let s := (patientMachine std keys.groupId filter).final fates (initSchema, .fresh)
    InSync keys.groupId filter s ∧ StoresLatest (fateDelivered std keys filter fates) s.1.tables := by
  have hrun := Machine.gathered_invariant
    (fun (sent : Set (ProducedRecord std keys)) s =>
      InSync keys.groupId filter s ∧ StoresLatest sent s.1.tables)
    (fun f s sent hseals h => patientMachine_step f hseals h) hsealed
    ⟨inSync_fresh keys.groupId filter, storesLatest_empty⟩
  rw [Set.empty_union] at hrun
  exact hrun

/-- Wherever the server is killed and however often it is started again: each killed request is done as a
whole or lost as a whole, and a pull that is answered leaves the device with a latest version of every
item of its filter among what was answered or done, each of which opens to what its author sealed. -/
theorem group_syncs_killed (std : Stdlib) (keys : GroupKeys) (filter : Option String) (starts : List ℕ)
    (events : List CrashEvent) (result : PullResult)
    (hsealed : (crashMachine std keys.groupId filter).Throughout (SealsAttempts std keys) events
      (Database.start starts .absent, .fresh))
    (hanswer : (crashMachine std keys.groupId filter .pull
      ((crashMachine std keys.groupId filter).final events (Database.start starts .absent, .fresh))).1 =
        some (.ok result)) :
    ∃ fates, List.Forall₂ CrashEvent.Settles events fates ∧
      (crashMachine std keys.groupId filter).final events (Database.start starts .absent, .fresh) =
        (patientMachine std keys.groupId filter).final fates (initSchema, .fresh) ∧
      MirrorsLatest filter (fateDelivered std keys filter fates)
        (crashMachine std keys.groupId filter .pull
          ((crashMachine std keys.groupId filter).final events
            (Database.start starts .absent, .fresh))).2.2.mirror := by
  have hstart : Database.start starts .absent = initSchema := Database.start_eq starts _
  rw [hstart] at hsealed hanswer ⊢
  obtain ⟨fates, hfates, hfinal, hthroughout⟩ := crashMachine_run events hsealed
  refine ⟨fates, hfates, hfinal, ?_⟩
  obtain ⟨hsync, hlatest⟩ := patientMachine_run hthroughout
  rw [hfinal] at hanswer ⊢
  generalize (patientMachine std keys.groupId filter).final fates (initSchema, .fresh) = s
    at hsync hlatest hanswer ⊢
  obtain ⟨-, -, hmirror⟩ := syncMachine_step std hsync .pull
  rw [crashMachine] at hanswer ⊢
  rw [hmirror result hanswer, pull_server]
  exact hlatest.mirrors filter

end

/-! A server that is killed in a pairing and in a push, which are sent again -/

/-- `n` statements of the push are done when it is killed first. -/
def triedTwice (keys : GroupKeys) (p : ProducedRecord .sample keys) (n : ℕ) : List CrashEvent :=
  [.server (.killed (pairingOf keys) 0 [2]), .server (.served (pairingOf keys)),
    .server (.killed (uploadOf p) n [0]), .server (.served (uploadOf p))]

section
variable {std : Stdlib} {g : String} {filter : Option String}

/-- A server that is killed before it has read anything of a request. -/
lemma crashMachine_killed (req : Request) (starts : List ℕ) {c : Conn Tables} (hidle : c.Idle) (d : Device) :
    (crashMachine std g filter (.server (.killed req 0 starts)) (c, d)).2 = (c, d) := by
  obtain ⟨t, undo⟩ := c
  obtain rfl : undo = none := hidle
  rw [crashMachine, killableServer, Script.cut_zero, Database.start_durable]
  rfl

lemma crashMachine_served (req : Request) (c : Conn Tables) (d : Device) :
    (crashMachine std g filter (.server (.served req)) (c, d)).2 = ((handle std req c).2, d) := by
  rw [crashMachine, killableServer_served]

variable {root : Bytes} {keys : GroupKeys} {p : ProducedRecord .sample keys}

lemma triedTwice_sealed (hkeys : GroupKeys.init .sample root = .ok keys)
    (hup : Uploads .sample keys [p.record] (uploadOf p) (handle .sample (pairingOf keys) initSchema).2)
    (n : ℕ) :
    (crashMachine .sample keys.groupId filter).Throughout (SealsAttempts .sample keys) (triedTwice keys p n)
      (initSchema, .fresh) := by
  have hidle : (handle .sample (pairingOf keys) initSchema).2.Idle := by
    obtain ⟨t, hpair, -, -⟩ := pair_initSchema hkeys
    rw [SyncClient.pair, SyncClient.request, serve_snd (requestLine_pair _ _)] at hpair
    rw [pairingOf, hpair]
    rfl
  have hfresh : initSchema.Idle := rfl
  have hpairing : ∀ s, SealsUploads .sample keys (.request (pairingOf keys)) s :=
    fun s records h => (pairing_noUpload sample_inverse _ _ _ _ _ h).elim
  -- while the group is there, the push is for the one sealed record
  have hupload : ∀ c d, GroupsKept (handle .sample (pairingOf keys) initSchema).2.tables c.tables →
      SealsUploads .sample keys (.request (uploadOf p)) (c, d) := by
    intro c d hkept records h r hr
    have hroute := route_persists hup.1 hkept
    rw [h.1] at hroute
    cases hroute
    exact ⟨p, (List.mem_singleton.mp hr).symm⟩
  refine ⟨hpairing _, ?_⟩
  rw [crashMachine_killed _ _ hfresh]
  refine ⟨hpairing _, ?_⟩
  rw [crashMachine_served]
  refine ⟨hupload _ _ (.refl _), hupload _ _ ?_, trivial⟩
  exact (killableServer_keeps .sample hidle.settled _).2.2

end

theorem triedTwice_syncs :
    -- the record is written and not yet committed
    let events := triedTwice sampleGroupKeys (sampleProduced "bookmarks") 5
    ∃ fates, List.Forall₂ CrashEvent.Settles events fates ∧
      (crashMachine .sample sampleGroupKeys.groupId none).final events (Database.start [1] .absent, .fresh) =
        (patientMachine .sample sampleGroupKeys.groupId none).final fates (initSchema, .fresh) ∧
      MirrorsLatest none (fateDelivered .sample sampleGroupKeys none fates)
        (crashMachine .sample sampleGroupKeys.groupId none .pull
          ((crashMachine .sample sampleGroupKeys.groupId none).final events
            (Database.start [1] .absent, .fresh))).2.2.mirror := by
  have hstart : Database.start [1] .absent = initSchema := Database.start_eq _ _
  have hsealed := @triedTwice_sealed none _ _ _ sampleGroupKeys_init sample_uploads 5
  rw [← hstart] at hsealed
  obtain ⟨result, hresult⟩ := @pull_fresh .sample sampleGroupKeys.groupId none
    ((crashMachine .sample sampleGroupKeys.groupId none).final
      (triedTwice sampleGroupKeys (sampleProduced "bookmarks") 5) (Database.start [1] .absent, .fresh)) rfl
  exact group_syncs_killed .sample sampleGroupKeys none [1] _ result hsealed hresult

end T3dmium
