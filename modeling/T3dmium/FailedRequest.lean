import T3dmium.ServerSteps

/-! Requests that fail. `create_group` has no rollback: an insert that raises leaves
its implicit transaction open on the one connection of the server, and the next
push, of whatever group, cannot begin its own. Every other failure is traceless. -/
namespace T3dmium

/-- The status of an error, a push's conflict report aside. -/
def Failed (std : Stdlib) (req : Request) (c : Conn Tables) : Prop :=
  match (handle std req c).1 with
  | .error _ => True
  | .ok resp => 400 ≤ resp.status ∧
      ∀ g records, (route std req c).1 = .ok (.store (.upsertRecords g records)) →
        resp.status ≠ 409

/-- Taking a failed request out of a run changes neither the final connection nor
any other answer. -/
def LeavesNoTrace (std : Stdlib) (pre post : List Request) (req : Request) (c : Conn Tables) : Prop :=
  Failed std req ((server std).final pre c) →
    (server std).final (pre ++ post) c = (server std).final (pre ++ req :: post) c ∧
      (server std).answers (pre ++ post) c =
        ((server std).answers (pre ++ req :: post) c).eraseIdx pre.length

/-- A pairing of an unregistered group, under an id SQLite can store, whose
`auth_hash` is `null` or unstorable or whose `pairing_salt` is unstorable. -/
def LeavesOpen (std : Stdlib) (req : Request) (c : Conn Tables) : Prop :=
  ∃ g a s, PairOf std req g a s ∧ selectAuthHash std g c.tables = .ok none ∧
    ((∀ x, bindText std.realText a ≠ .ok (some x)) ∨ ∀ x, bindText std.realText s ≠ .ok x)

section
variable {std : Stdlib}

lemma registerGroup_fields {g a s : Json} {t : Tables} {e : PyError}
    (hfree : selectAuthHash std g t = .ok none) (h : registerGroup std g a s t = .error e) :
    (∀ x, bindText std.realText a ≠ .ok (some x)) ∨ ∀ x, bindText std.realText s ≠ .ok x := by
  by_contra hne
  push Not at hne
  obtain ⟨⟨a', ha⟩, s', hs⟩ := hne
  obtain ⟨k, hk, hnone⟩ := bind_eq_ok.mp hfree
  have hins : ∃ groups, t.groups.insert ⟨k, a', s'⟩ = some groups := by
    cases k with
    | none => exact t.groups.insert_of_key_none rfl
    | some k =>
      have hkey : GroupRow.groupId ⟨some k, a', s'⟩ = some k := rfl
      exact KeyedTable.insert_of_find_none hkey (by simpa using hnone)
  obtain ⟨groups, hins⟩ := hins
  have hok := registerGroup_eq_ok.mpr ⟨k, a', s', groups, hk, ha, hs, hins, rfl⟩
  rw [h] at hok
  cases hok

/-- Between transactions, any other request ends between transactions too, and a
failed one is as if it had not been made. -/
theorem handle_idle {c : Conn Tables} (hc : c.Idle) {req : Request}
    (hreq : ¬ LeavesOpen std req c) :
    (handle std req c).2.Idle ∧ (Failed std req c → (handle std req c).2 = c) := by
  unfold Failed
  rw [handle_eq]
  cases hr : (route std req c).1 with
  | error e => exact ⟨hc, fun _ => rfl⟩
  | ok action =>
    cases action with
    | send r => exact ⟨hc, fun _ => rfl⟩
    | store op =>
      obtain ⟨t, undo⟩ := c
      obtain rfl : undo = none := hc
      cases route_store hr with
      | @pair g a s h =>
        simp only [Action.run, StoreOp.run, Sql.bind_apply, createGroup_apply]
        cases hs : selectAuthHash std g t with
        | error e => exact ⟨rfl, fun _ => rfl⟩
        | ok row =>
          cases row with
          | some stored =>
            simp only
            cases compareDigestJson stored a <;> exact ⟨rfl, fun _ => rfl⟩
          | none =>
            simp only
            cases hg : registerGroup std g a s t with
            | error e => exact (hreq ⟨g, a, s, h, hs, registerGroup_fields hs hg⟩).elim
            | ok t' => exact ⟨rfl, fun hf => by simp at hf⟩
      | @push parsed body payload g records h ha hp hrec hm =>
        simp only [Action.run, StoreOp.run, Sql.bind_apply, upsertRecords_idle]
        cases hb : pushBatch std g records t with
        | error e => exact ⟨rfl, fun _ => rfl⟩
        | ok p =>
          refine ⟨rfl, fun hf => ?_⟩
          simp only [Sql.pure_apply] at hf
          obtain ⟨hst, hno⟩ := hf
          have hne := hno g records rfl
          split_ifs at hst hne
          · omega
          · exact (hne rfl).elim
      | @pull parsed g collection since h ha hp =>
        simp only [Action.run, StoreOp.run, Sql.bind_apply, queryRecords_apply]
        cases pullRecords g collection since t <;> exact ⟨rfl, fun _ => rfl⟩

/-- In every run without such a pairing, a failed request leaves no trace. -/
theorem leavesNoTrace_of_run (std : Stdlib) (pre post : List Request) (req : Request)
    (c : Conn Tables) (hc : c.Idle)
    (hrun : (server std).Throughout (fun r s => ¬ LeavesOpen std r s) (pre ++ req :: post) c) :
    LeavesNoTrace std pre post req c := by
  intro hfail
  obtain ⟨hpre, hreq, -⟩ := Machine.Throughout.append.mp hrun
  have hidle : ((server std).final pre c).Idle :=
    Machine.final_invariant Conn.Idle (fun r s hr hs => (handle_idle hs hr).1) hpre hc
  exact Machine.run_without ((handle_idle hidle hreq).2 hfail)

lemma failed_of_error {req : Request} {c c' : Conn Tables} {e : PyError}
    (h : handle std req c = (.error e, c')) : Failed std req c := by
  unfold Failed
  rw [h]
  trivial

theorem leavesOpen_opened {req : Request} {c : Conn Tables} (h : LeavesOpen std req c) :
    ∃ e, handle std req c = (.error e, c.opened) := by
  obtain ⟨g, a, s, hp, hfree, hfields⟩ := h
  rw [handle_eq, route_pair hp]
  simp only [Action.run, StoreOp.run, Sql.bind_apply, createGroup_apply, hfree]
  cases hr : registerGroup std g a s c.tables with
  | error e => exact ⟨e, rfl⟩
  | ok t =>
    obtain ⟨k, a', s', groups, -, ha, hs, -⟩ := registerGroup_eq_ok.mp hr
    rcases hfields with hno | hno
    · exact (hno a' ha).elim
    · exact (hno s' hs).elim

/-- A push that would go through right after such a pairing is lost to it. -/
theorem leavesTrace_of_push {pre : List Request} {req push : Request} {c : Conn Tables} {t : Tables}
    {g : String} {records : List Json} {p : Tables × PushResult}
    (hpre : (server std).final pre c = ⟨t, none⟩) (hreq : LeavesOpen std req ⟨t, none⟩)
    (hpush : ∀ undo, (route std push ⟨t, undo⟩).1 = .ok (.store (.upsertRecords g records)))
    (hbatch : pushBatch std g records t = .ok p) : ¬ LeavesNoTrace std pre [push] req c := by
  intro h
  obtain ⟨e, hopened⟩ := leavesOpen_opened hreq
  have hundo : Conn.opened ⟨t, none⟩ = ⟨t, some t⟩ := rfl
  rw [hundo] at hopened
  have hpushed : server std push ⟨t, none⟩ = _ := handle_push (hpush none) hbatch
  have hlost : server std push ⟨t, some t⟩ = _ := handle_push_open (hpush (some t))
  have hraised : server std req ⟨t, none⟩ = _ := hopened
  have hans := (h (hpre ▸ failed_of_error hopened)).2
  rw [Machine.answers_append, Machine.answers_append, hpre,
    List.eraseIdx_append_of_length_le (by simp)] at hans
  simp [hpushed, hraised, hlost] at hans

lemma not_leavesOpen_of_path {req : Request} {parsed : ParsedUrl}
    (hu : std.urlparse req.target = .ok parsed) (hp : parsed.path ≠ "/v1/pair") (c : Conn Tables) :
    ¬ LeavesOpen std req c :=
  fun ⟨_, _, _, h, _⟩ => not_pairOf_of_path hu hp h

lemma PairOf.not_leavesOpen {req : Request} {g : Json} {a : String} {salt : Option String}
    (h : PairOf std req g (.text a) (saltField salt)) (c : Conn Tables) :
    ¬ LeavesOpen std req c := by
  rintro ⟨g', a', s', h', -, hfields⟩
  obtain ⟨rfl, rfl, rfl⟩ := h.inj h'
  rcases hfields with hno | hno
  · exact hno a (bindText_text _ a)
  · exact hno salt (bindText_saltField salt)

end

theorem sampleUnknown_leavesNoTrace :
    LeavesNoTrace .sample [samplePair] [samplePush] sampleUnknown initSchema :=
  leavesNoTrace_of_run .sample [samplePair] [samplePush] sampleUnknown initSchema rfl
    ⟨samplePair_pairOf.not_leavesOpen _, not_leavesOpen_of_path rfl (by decide) _,
      not_leavesOpen_of_path rfl (by decide) _, trivial⟩

/-- Pairing `h` with a null hash raises, and then the push of `g` does. -/
theorem sampleNull_leavesTrace :
    ¬ LeavesNoTrace .sample [samplePair] [samplePush] sampleNull initSchema := by
  obtain ⟨t, hpair, hg, hothers⟩ := samplePair_registers
  have hh : selectAuthHash Stdlib.sample (.text "h") t = .ok none := by
    simp [selectAuthHash, hothers "h" (by decide), bind, Except.bind]
  obtain ⟨p, hbatch⟩ : ∃ p, pushBatch Stdlib.sample "g" [] t = .ok p := ⟨_, rfl⟩
  exact leavesTrace_of_push (server_final hpair)
    ⟨_, _, _, sampleNull_pairOf, hh, Or.inl fun _ h => by cases h⟩
    (fun undo => samplePush_route (c := ⟨t, undo⟩) hg rfl) hbatch

end T3dmium
