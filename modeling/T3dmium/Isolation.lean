import T3dmium.ServerSteps

/-! Groups share tables, connection and lock, but no call on behalf of one group can
be noticed by another: every statement is keyed by the group. -/
namespace T3dmium

/-- The calls on a store, pair fields being strings SQLite can store. -/
inductive StoreCall
  | createGroup (groupId authHash : String) (pairingSalt : Option String)
  | upsertRecords (groupId : String) (records : List Json)
  | queryRecords (groupId : String) (collection : Option String) (since : ℤ)
  | verifyRequest (groupId token proof method path : String) (body : Bytes)

inductive StoreAnswer
  | created (r : Except PyError Bool)
  | pushed (r : Except PyError PushResult)
  | pulled (r : Except PyError PullResult)
  | verified (r : Except PyError Bool)

def StoreCall.group : StoreCall → String
  | .createGroup g _ _ => g
  | .upsertRecords g _ => g
  | .queryRecords g _ _ => g
  | .verifyRequest g _ _ _ _ _ => g

def storeMachine (std : Stdlib) : Machine (Conn Tables) StoreCall StoreAnswer
  | .createGroup g a s, c =>
    let r := createGroup std (.text g) (.text a) (saltField s) c
    (.created r.1, r.2)
  | .upsertRecords g records, c =>
    let r := upsertRecords std g records c
    (.pushed r.1, r.2)
  | .queryRecords g collection since, c =>
    let r := queryRecords g collection since c
    (.pulled r.1, r.2)
  | .verifyRequest g token proof method path body, c =>
    let r := verifyRequest std g token proof method path body c
    (.verified r.1, r.2)

/-- What belongs to a group: its row, its counter and its records. -/
structure GroupView where
  group : Option GroupRow
  counter : Option CounterRow
  records : List RecordRow
  deriving DecidableEq

def groupView (g : String) (t : Tables) : GroupView :=
  ⟨t.groups.find g, t.seqCounter.find g, t.records.rows.filter fun r => r.groupId == g⟩

section
variable {std : Stdlib} {g : String}

/-! A call sees its own group only -/

lemma find_of_view {t u : Tables} (h : groupView g t = groupView g u) (c i : String) :
    t.records.find ⟨g, c, i⟩ = u.records.find ⟨g, c, i⟩ := by
  have hfilter : ∀ t : Tables, t.records.find ⟨g, c, i⟩ =
      (t.records.rows.filter fun r => r.groupId == g).find?
        fun r => decide (r.key = some ⟨g, c, i⟩) := by
    intro t
    rw [KeyedTable.find, List.find?_filter]
    congr 1
    funext r
    by_cases hk : r.key = some ⟨g, c, i⟩
    · have hg : r.groupId = g := congrArg Slot.groupId (Option.some.inj hk)
      simp [hk, hg]
    · simp [hk]
  rw [hfilter, hfilter]
  exact congrArg (fun v : GroupView => v.records.find? _) h

lemma verdict_of_view {t u : Tables} (h : groupView g t = groupView g u) (s : PushResult)
    (r : Json) : verdict std g (t, s) r = verdict std g (u, s) r := by
  simp only [verdict, selectVersion, find_of_view h]

lemma groupView_putRecord {row : RecordRow} (hg : row.groupId = g) (t : Tables) :
    groupView g (putRecord row t) =
      { groupView g t with
        records := KeyedTable.upsertRows RecordRow.key row (groupView g t).records } := by
  simp only [groupView, putRecord, KeyedTable.upsert, GroupView.mk.injEq, true_and]
  refine KeyedTable.filter_upsertRows_pos (by simp [hg]) (fun x _ hx => ?_) _
  have hs : x.groupId = row.groupId := congrArg Slot.groupId (Option.some.inj hx)
  simp [hs, hg]

lemma groupView_putRecord_other {row : RecordRow} (hg : row.groupId ≠ g) (t : Tables) :
    groupView g (putRecord row t) = groupView g t := by
  simp only [groupView, putRecord, KeyedTable.upsert, GroupView.mk.injEq, true_and]
  refine KeyedTable.filter_upsertRows_neg (by simp [hg]) (fun x _ hx => ?_) _
  have hs : x.groupId = row.groupId := congrArg Slot.groupId (Option.some.inj hx)
  simpa [hs] using hg

lemma groupView_updateSeq (n : ℕ) (t : Tables) :
    groupView g (updateSeq g n t) =
      { groupView g t with
        counter := (groupView g t).counter.map fun r => { r with seq := n } } := by
  simp [groupView, updateSeq, KeyedTable.find_modify]

lemma groupView_updateSeq_other {g' : String} (hg : g' ≠ g) (n : ℕ) (t : Tables) :
    groupView g (updateSeq g' n t) = groupView g t := by
  simp [groupView, updateSeq, KeyedTable.find_modify, hg.symm]

/-- A verdict moves equal views alike. -/
lemma groupView_apply {t u : Tables} {s : PushResult} {r : Json} {v : Verdict}
    (hv : Decides std g r (t, s) v) (h : groupView g t = groupView g u) :
    groupView g (v.apply (t, s)).1 = groupView g (v.apply (u, s)).1 := by
  cases hv with
  | conflict => exact h
  | accept hk hr hg hseq hold =>
    simp only [Verdict.apply]
    rw [groupView_putRecord hg, groupView_putRecord hg, h]

/-- On equal views a batch fails alike, or ends in equal views with one result. -/
lemma batch_of_view (std : Stdlib) (records : List Json) {t u : Tables}
    (h : groupView g t = groupView g u) (s : PushResult) :
    (∃ e, records.foldlM (pushRecord std g) (t, s) = .error e ∧
        records.foldlM (pushRecord std g) (u, s) = .error e) ∨
      ∃ t' u' s', records.foldlM (pushRecord std g) (t, s) = .ok (t', s') ∧
        records.foldlM (pushRecord std g) (u, s) = .ok (u', s') ∧
        groupView g t' = groupView g u' := by
  induction records generalizing t u s with
  | nil => exact Or.inr ⟨t, u, s, rfl, rfl, h⟩
  | cons r records ih =>
    have hcongr : verdict std g (t, s) r = verdict std g (u, s) r := verdict_of_view h s r
    simp only [List.foldlM_cons, pushRecord, ← hcongr, bind, Except.bind]
    cases hv : verdict std g (t, s) r with
    | error e => exact Or.inl ⟨e, rfl, rfl⟩
    | ok v =>
      have hview := groupView_apply (verdict_eq_ok.mp hv) h
      have happly : v.apply (u, s) = ((v.apply (u, s)).1, (v.apply (t, s)).2) := by cases v <;> rfl
      simp only
      rw [happly]
      exact ih hview (v.apply (t, s)).2

theorem pushBatch_of_view {records : List Json} {t u : Tables}
    (h : groupView g t = groupView g u) :
    (∃ e, pushBatch std g records t = .error e ∧ pushBatch std g records u = .error e) ∨
      ∃ t' u' s, pushBatch std g records t = .ok (t', s) ∧
        pushBatch std g records u = .ok (u', s) ∧ groupView g t' = groupView g u' := by
  have hstart : startResult g u = startResult g t := by
    have hc : t.seqCounter.find g = u.seqCounter.find g := congrArg GroupView.counter h
    rw [startResult, startResult, selectSeq, selectSeq, hc]
  simp only [pushBatch, hstart, bind, Except.bind]
  rcases batch_of_view std records h (startResult g t) with
    ⟨e, ht, hu⟩ | ⟨t', u', s, ht, hu, hv⟩
  · exact Or.inl ⟨e, by rw [ht], by rw [hu]⟩
  · refine Or.inr ⟨_, _, s, by rw [ht], by rw [hu], ?_⟩
    simp only [groupView_updateSeq, hv]

theorem pushBatch_other {g' : String} (hg : g' ≠ g) {records : List Json} {t t' : Tables}
    {s : PushResult} (h : pushBatch std g' records t = .ok (t', s)) :
    groupView g t' = groupView g t := by
  obtain ⟨t1, hfold, rfl⟩ := pushBatch_eq_ok.mp h
  rw [groupView_updateSeq_other hg]
  have hstep : ∀ r ∈ records, ∀ q v, Decides std g' r q v →
      groupView g q.1 = groupView g t → groupView g (v.apply q).1 = groupView g t := by
    intro r _ q v hv hq
    cases hv with
    | conflict => exact hq
    | accept hk hr hrg hseq hold =>
      simp only [Verdict.apply]
      rw [groupView_putRecord_other (by rw [hrg]; exact hg), hq]
  have hkept : groupView g (t1, s).1 = groupView g t :=
    batch_induction (fun q => groupView g q.1 = groupView g t) hstep hfold rfl
  exact hkept

lemma groupView_register {k : String} {t : Tables} {row : GroupRow}
    {groups : KeyedTable GroupRow String GroupRow.groupId} (hrow : row.groupId = some k)
    (hins : t.groups.insert row = some groups) :
    groupView g ⟨groups, t.records, t.seqCounter.insertOrIgnore ⟨some k, 0⟩⟩ =
      if k = g then
        { groupView g t with
          group := some row
          counter := some ((groupView g t).counter.getD ⟨some k, 0⟩) }
      else groupView g t := by
  have hkey : CounterRow.groupId ⟨some k, 0⟩ = some k := rfl
  simp only [groupView]
  rw [KeyedTable.find_insert hins, hrow]
  split_ifs with h1 h2 h2
  · subst h2
    rw [KeyedTable.find_insertOrIgnore_self hkey]
  · exact (h2 (Option.some.inj h1)).elim
  · exact (h1 (by rw [h2])).elim
  · rw [KeyedTable.find_insertOrIgnore (by simpa using h2)]

/-! Calls -/

lemma storeMachine_idle {c : Conn Tables} (hc : c.Idle) (call : StoreCall) :
    (storeMachine std call c).2.Idle := by
  obtain ⟨t, undo⟩ := c
  obtain rfl : undo = none := hc
  cases call with
  | createGroup g a s =>
    cases hf : t.groups.find g with
    | some row =>
      simp only [storeMachine, createGroup_taken std hf]
      rfl
    | none =>
      obtain ⟨groups, -, hcg⟩ := createGroup_free std hf a s
      simp only [storeMachine, hcg]
      rfl
  | upsertRecords g records =>
    simp only [storeMachine, upsertRecords_idle]
    cases pushBatch std g records t <;> rfl
  | queryRecords g collection since =>
    simp only [storeMachine, queryRecords_apply]
    rfl
  | verifyRequest g token proof method path body =>
    simp only [storeMachine, verifyRequest_apply]
    rfl

lemma pullRecords_of_view {t u : Tables} (h : groupView g t = groupView g u)
    (collection : Option String) (since : ℤ) :
    pullRecords g collection since t = pullRecords g collection since u := by
  have hfilter : ∀ (t : Tables) (n : ℤ), t.records.rows.filter (RecordRow.matches g collection n) =
      (groupView g t).records.filter (RecordRow.matches g collection n) := by
    intro t n
    rw [groupView, List.filter_filter]
    refine List.filter_congr fun r _ => ?_
    cases hg : r.groupId == g <;> simp [RecordRow.matches, hg]
  simp only [pullRecords, selectRecords, hfilter, h]

/-- A call answers, and moves the view of its group, by that view alone. -/
theorem storeMachine_own {call : StoreCall} (hcall : call.group = g) {c d : Conn Tables}
    (hc : c.Idle) (hd : d.Idle) (h : groupView g c.tables = groupView g d.tables) :
    (storeMachine std call c).1 = (storeMachine std call d).1 ∧
      groupView g (storeMachine std call c).2.tables =
        groupView g (storeMachine std call d).2.tables := by
  obtain ⟨t, undo⟩ := c
  obtain ⟨u, undo'⟩ := d
  obtain rfl : undo = none := hc
  obtain rfl : undo' = none := hd
  have h : groupView g t = groupView g u := h
  have hgroup : t.groups.find g = u.groups.find g := congrArg GroupView.group h
  cases call with
  | createGroup g' a s =>
    obtain rfl : g' = g := hcall
    cases hf : t.groups.find g' with
    | some row =>
      simp only [storeMachine, createGroup_taken std hf, createGroup_taken std (hgroup ▸ hf), h,
        and_self]
    | none =>
      obtain ⟨groups, hins, hcg⟩ := createGroup_free std hf a s
      obtain ⟨groups', hins', hcg'⟩ := createGroup_free std (hgroup ▸ hf) a s
      simp only [storeMachine, hcg, hcg', true_and]
      rw [groupView_register rfl hins, groupView_register rfl hins', if_pos rfl, if_pos rfl, h]
  | upsertRecords g' records =>
    obtain rfl : g' = g := hcall
    simp only [storeMachine, upsertRecords_idle]
    rcases pushBatch_of_view h with ⟨e, ht, hu⟩ | ⟨t', u', s, ht, hu, hv⟩
    · rw [ht, hu]
      exact ⟨rfl, h⟩
    · rw [ht, hu]
      exact ⟨rfl, hv⟩
  | queryRecords g' collection since =>
    obtain rfl : g' = g := hcall
    simp only [storeMachine, queryRecords_apply, pullRecords_of_view h, true_and]
    exact h
  | verifyRequest g' token proof method path body =>
    obtain rfl : g' = g := hcall
    simp only [storeMachine, verifyRequest_apply, hgroup, true_and]
    exact h

theorem storeMachine_other {call : StoreCall} (hcall : call.group ≠ g) {c : Conn Tables}
    (hc : c.Idle) : groupView g (storeMachine std call c).2.tables = groupView g c.tables := by
  obtain ⟨t, undo⟩ := c
  obtain rfl : undo = none := hc
  cases call with
  | createGroup g' a s =>
    have hg : g' ≠ g := hcall
    cases hf : t.groups.find g' with
    | some row => simp only [storeMachine, createGroup_taken std hf]
    | none =>
      obtain ⟨groups, hins, hcg⟩ := createGroup_free std hf a s
      simp only [storeMachine, hcg]
      rw [groupView_register rfl hins, if_neg hg]
  | upsertRecords g' records =>
    have hg : g' ≠ g := hcall
    simp only [storeMachine, upsertRecords_idle]
    cases hp : pushBatch std g' records t with
    | error e => rfl
    | ok p => exact pushBatch_other hg hp
  | queryRecords g' collection since => simp only [storeMachine, queryRecords_apply]
  | verifyRequest g' token proof method path body => simp only [storeMachine, verifyRequest_apply]

def names (g : String) (call : StoreCall) : Bool := call.group == g

/-- In every run, the calls for `g` are answered as in the run from which all other
calls have been deleted, and no call for another group touches what belongs to `g`. -/
theorem group_isolated (std : Stdlib) (g : String) (calls : List StoreCall) :
    (storeMachine std).answersTo (names g) calls initSchema =
        (storeMachine std).answers (calls.filter (names g)) initSchema ∧
      groupView g ((storeMachine std).final calls initSchema).tables =
        groupView g ((storeMachine std).final (calls.filter (names g)) initSchema).tables ∧
      ∀ call : StoreCall, call.group ≠ g →
        groupView g (storeMachine std call ((storeMachine std).final calls initSchema)).2.tables =
          groupView g ((storeMachine std).final calls initSchema).tables := by
  have hinit : initSchema.Idle := rfl
  have hstep : ∀ call c, c.Idle → (storeMachine std call c).2.Idle :=
    fun call c hc => storeMachine_idle hc call
  have hunwind := Machine.unwinding (names g) (fun c => groupView g c.tables) Conn.Idle hstep
    (fun call c d hn hc hd h => storeMachine_own (by simpa [names] using hn) hc hd h)
    (fun call c hn hc => storeMachine_other (by simpa [names] using hn) hc) hinit hinit rfl calls
  have hidle : ((storeMachine std).final calls initSchema).Idle :=
    Machine.final_invariant Conn.Idle (fun call c _ hc => hstep call c hc)
      (Machine.throughout_of_forall (fun _ _ _ => trivial) _) hinit
  exact ⟨hunwind.1, hunwind.2, fun call hcall => storeMachine_other hcall hidle⟩

end
end T3dmium
