import T3dmium.OneOperation

/-! One thread a request. The lock of the store is released between the verification
of a push or pull and its store call, and other threads run in between. -/
namespace T3dmium

/-- A thread before its first store call, between verification and store call, and at
its end. -/
inductive Phase
  | waiting
  | verified (op : StoreOp)
  | answered (r : Except PyError Response)

/-- The threads of a server; the log has them in the order of their last store call. -/
structure Threads (ι : Type) where
  conn : Conn Tables
  phase : ι → Phase
  log : List (ι × Except PyError Response)

def Threads.start {ι : Type} (c : Conn Tables) : Threads ι := ⟨c, fun _ => .waiting, []⟩

section
variable {ι : Type} [DecidableEq ι]

def Threads.answer (s : Threads ι) (i : ι) (r : Except PyError Response) (c : Conn Tables) :
    Threads ι :=
  ⟨c, Function.update s.phase i (.answered r), s.log ++ [(i, r)]⟩

def Threads.verify (s : Threads ι) (i : ι) (op : StoreOp) : Threads ι :=
  { s with phase := Function.update s.phase i (.verified op) }

lemma Threads.answer_phase (s : Threads ι) (i j : ι) (r : Except PyError Response) (c : Conn Tables) :
    (s.answer i r c).phase j = if j = i then .answered r else s.phase j :=
  Function.update_apply _ _ _ _

lemma Threads.verify_phase (s : Threads ι) (i j : ι) (op : StoreOp) :
    (s.verify i op).phase j = if j = i then .verified op else s.phase j :=
  Function.update_apply _ _ _ _

/-- A registration needs no verification: its first store call is its last. -/
def StoreOp.isFirst : StoreOp → Bool
  | .createGroup _ _ _ => true
  | .upsertRecords _ _ => false
  | .queryRecords _ _ _ => false

/-- One atomic step of a thread. Routing only reads. -/
def threads (std : Stdlib) (request : ι → Request) : Machine (Threads ι) ι Unit := fun i s =>
  match s.phase i with
  | .waiting =>
    match (route std (request i) s.conn).1 with
    | .error e => ((), s.answer i (.error e) s.conn)
    | .ok (.send r) => ((), s.answer i (.ok r) s.conn)
    | .ok (.store op) =>
      if op.isFirst then ((), s.answer i (op.run std s.conn).1 (op.run std s.conn).2)
      else ((), s.verify i op)
  | .verified op => ((), s.answer i (op.run std s.conn).1 (op.run std s.conn).2)
  | .answered _ => ((), s)

/-- The threads have done what whole requests do, one after the other in the order of
their last store call, and the rest of them has done nothing. -/
structure Serialized (std : Stdlib) (request : ι → Request) (c : Conn Tables) (s : Threads ι) :
    Prop where
  conn : s.conn = (server std).final (s.log.map fun e => request e.1) c
  answers : s.log.map Prod.snd = (server std).answers (s.log.map fun e => request e.1) c
  once : (s.log.map Prod.fst).Nodup
  logged : ∀ i r, s.phase i = .answered r ↔ (i, r) ∈ s.log
  /-- What was verified would be verified now. -/
  verified : ∀ i op, s.phase i = .verified op → (route std (request i) s.conn).1 = .ok (.store op)

variable {std : Stdlib} {request : ι → Request} {c : Conn Tables} {s : Threads ι}

/-- A thread that ends as its whole request would is the next in the serial order. -/
lemma Serialized.answer (h : Serialized std request c s) (hc : s.conn.Settled) {i : ι}
    (hopen : ∀ r, s.phase i ≠ .answered r) {r : Except PyError Response} {c' : Conn Tables}
    (hhandle : handle std (request i) s.conn = (r, c')) :
    Serialized std request c (s.answer i r c') := by
  have hstep : server std (request i) s.conn = (r, c') := hhandle
  have hkept : GroupsKept s.conn.tables c'.tables := by
    have hgroups := @handle_groupsKept std _ hc (request i)
    rwa [hhandle] at hgroups
  constructor
  case conn =>
    simp only [Threads.answer, List.map_append, List.map_cons, List.map_nil]
    rw [Machine.final_append, ← h.conn, Machine.final_cons, hstep, Machine.final_nil]
  case answers =>
    simp only [Threads.answer, List.map_append, List.map_cons, List.map_nil]
    rw [Machine.answers_append, ← h.conn, ← h.answers, Machine.answers_cons, hstep,
      Machine.answers_nil]
  case once =>
    simp only [Threads.answer, List.map_append, List.map_cons, List.map_nil]
    refine List.nodup_append.mpr ⟨h.once, List.nodup_singleton _, ?_⟩
    rintro j hj k hk rfl
    obtain rfl := List.mem_singleton.mp hk
    obtain ⟨⟨j', r'⟩, hmem, rfl⟩ := List.mem_map.mp hj
    exact hopen r' ((h.logged _ _).mpr hmem)
  case logged =>
    intro j r'
    rw [Threads.answer_phase]
    simp only [Threads.answer, List.mem_append, List.mem_singleton, Prod.mk.injEq]
    by_cases hj : j = i
    · subst hj
      have hnot : (j, r') ∉ s.log := fun hmem => hopen r' ((h.logged j r').mpr hmem)
      simp [hnot, eq_comm]
    · simp [hj, h.logged]
  case verified =>
    intro j op hj
    rw [Threads.answer_phase] at hj
    split_ifs at hj
    exact route_persists (h.verified j op hj) hkept

/-- A thread that is let through leaves everything as it is. -/
lemma Serialized.verify (h : Serialized std request c s) {i : ι} {op : StoreOp}
    (hopen : ∀ r, s.phase i ≠ .answered r) (hr : (route std (request i) s.conn).1 = .ok (.store op)) :
    Serialized std request c (s.verify i op) := by
  refine ⟨h.conn, h.answers, h.once, fun j r => ?_, fun j op' hj => ?_⟩
  · rw [Threads.verify_phase]
    split_ifs with hj
    · subst hj
      exact ⟨nofun, fun hmem => (hopen r ((h.logged j r).mpr hmem)).elim⟩
    · exact h.logged j r
  · rw [Threads.verify_phase] at hj
    split_ifs at hj with hij
    · subst hij
      cases hj
      exact hr
    · exact h.verified j op' hj

lemma Serialized.step (h : Serialized std request c s) (hc : s.conn.Settled) (i : ι) :
    Serialized std request c (threads std request i s).2 ∧
      (threads std request i s).2.conn.Settled := by
  have hsettled := (handle_tableStep std hc (request i)).1
  unfold threads
  cases hp : s.phase i with
  | waiting =>
    have hopen : ∀ r, s.phase i ≠ .answered r := by
      rw [hp]
      exact nofun
    cases hr : (route std (request i) s.conn).1 with
    | error e =>
      have hrun : handle std (request i) s.conn = (.error e, s.conn) := by rw [handle_eq, hr]
      simp only
      exact ⟨h.answer hc hopen hrun, hc⟩
    | ok action =>
      cases action with
      | send r =>
        have hrun : handle std (request i) s.conn = (.ok r, s.conn) := by
          rw [handle_eq, hr]
          rfl
        simp only
        exact ⟨h.answer hc hopen hrun, hc⟩
      | store op =>
        have hrun : handle std (request i) s.conn = op.run std s.conn := by
          rw [handle_eq, hr]
          rfl
        simp only
        split_ifs
        · exact ⟨h.answer hc hopen hrun, hrun ▸ hsettled⟩
        · exact ⟨h.verify hopen hr, hc⟩
  | verified op =>
    have hrun : handle std (request i) s.conn = op.run std s.conn := by
      rw [handle_eq, h.verified i op hp]
      rfl
    have hopen : ∀ r, s.phase i ≠ .answered r := by
      rw [hp]
      exact nofun
    rw [hrun] at hsettled
    exact ⟨h.answer hc hopen hrun, hsettled⟩
  | answered r => exact ⟨h, hc⟩

/-- Every interleaving of the threads of any number of requests is serialized, and a push
that was verified is authorised whenever it gets to the store. -/
theorem threads_serialize (std : Stdlib) (request : ι → Request) (schedule : List ι) :
    let s := (threads std request).final schedule (.start initSchema)
    Serialized std request initSchema s ∧
      ∀ i g records, s.phase i = .verified (.upsertRecords g records) →
        Authorised std (request i) g s.conn.tables := by
  intro s
  have hstart : Serialized std request initSchema (.start initSchema) :=
    ⟨rfl, rfl, List.nodup_nil, fun _ _ => ⟨nofun, nofun⟩, nofun⟩
  have hs : Serialized std request initSchema s ∧ s.conn.Settled :=
    Machine.final_invariant (fun s => Serialized std request initSchema s ∧ s.conn.Settled)
      (fun i s _ h => h.1.step h.2 i) (Machine.throughout_of_forall (fun _ _ _ => trivial) _)
      ⟨hstart, Conn.Idle.settled rfl⟩
  exact ⟨hs.1, fun i g records hi => authorised_of_route (hs.1.verified i _ hi) rfl⟩

end
end T3dmium
