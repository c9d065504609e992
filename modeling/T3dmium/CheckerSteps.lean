import T3dmium.Checker

/-! What each step of the detection engine does: validation reads a flow, a rule
never raises on a valid flow, and a check reports the flows no rule excuses. -/
namespace T3dmium.Checker
variable {u : Unicode}

/-! Validation -/

lemma forM_eq_ok {α ε : Type} {f : α → Except ε Unit} {xs : List α} :
    xs.forM f = .ok () ↔ ∀ x ∈ xs, f x = .ok () := by
  induction xs with
  | nil => simp [pure, Except.pure]
  | cons x xs ih =>
    rw [List.forM_eq_forM] at ih
    simp only [List.forM_eq_forM, List.forM_cons, bind_eq_ok, ih, List.mem_cons, forall_eq_or_imp]
    exact ⟨fun ⟨_, hx, hxs⟩ => ⟨hx, hxs⟩, fun ⟨hx, hxs⟩ => ⟨(), hx, hxs⟩⟩

lemma hasKey_eq_ok {items : List (PyStr × Json)} {index : ℕ} {key : String} :
    hasKey items index key = .ok () ↔ (items.lookup (.ofString key)).isSome = true := by
  unfold hasKey
  split_ifs with h <;> simp [h]

lemma flowText_eq_ok {items : List (PyStr × Json)} {index : ℕ} {key : String} {s : PyStr} :
    flowText items index key = .ok s ↔
      items.lookup (.ofString key) = some (.str s) ∧ PyStr.strip s ≠ [] := by
  unfold flowText
  split
  · rename_i t ht
    split_ifs with hblank
    · simp only [Option.some.injEq, Json.str.injEq, false_iff, not_and, not_not, ht]
      rintro rfl
      exact hblank
    · simp only [ht, Except.ok.injEq, Option.some.injEq, Json.str.injEq]
      constructor
      · rintro rfl
        exact ⟨rfl, hblank⟩
      · exact fun h => h.1
  · rename_i v hv ht
    simp only [reduceCtorEq, ht, Option.some.injEq, false_iff, not_and]
    exact fun h => absurd h (hv s)
  · rename_i ht
    simp [ht]

lemma flowTimestamp_index {items : List (PyStr × Json)} {i : ℕ} (j : ℕ)
    (h : flowTimestamp items i = .ok ()) : flowTimestamp items j = .ok () := by
  unfold flowTimestamp at *
  split <;> simp_all

lemma absoluteUrl_eq_ok {url : PyStr} {i : ℕ} (a) : absoluteUrl u i url = .ok a := by
  rw [absoluteUrl, dif_pos a.down]

lemma validateFlow_index {flow : Json} {i : ℕ} {f : Flow u} (j : ℕ)
    (h : validateFlow u flow i = .ok f) : validateFlow u flow j = .ok f := by
  cases flow with
  | dict items =>
    simp only [validateFlow, bind_eq_ok] at h ⊢
    obtain ⟨_, hkeys, url, hurl, m, hm, host, hhost, s, hs, _, htime, a, -, hf⟩ := h
    refine ⟨(), ?_, url, ?_, m, ?_, host, ?_, s, ?_, (), flowTimestamp_index j htime, a,
      absoluteUrl_eq_ok a, hf⟩
    · exact forM_eq_ok.mpr fun key hkey => hasKey_eq_ok.mpr
        (hasKey_eq_ok.mp (forM_eq_ok.mp hkeys key hkey))
    all_goals exact flowText_eq_ok.mpr (flowText_eq_ok.mp ‹_›)
  | _ => simp [validateFlow] at h

/-- What a valid flow says, wherever it stands. -/
def Reads (flow : Json) (f : Flow u) : Prop := ∀ index, validateFlow u flow index = .ok f

lemma reads_of_validateFlow {flow : Json} {i : ℕ} {f : Flow u} (h : validateFlow u flow i = .ok f) :
    Reads flow f := fun j => validateFlow_index j h

lemma Reads.unique {flow : Json} {f g : Flow u} (hf : Reads flow f) (hg : Reads flow g) : f = g :=
  Except.ok.inj ((hf 0).symm.trans (hg 0))

/-! Rules -/

/-- Whether a pattern is supported does not depend on the host it is tried on. -/
lemma hostMatches_total {pattern host : PyStr} (h : ∃ b, hostMatches u pattern host = .ok b)
    (other : PyStr) : ∃ b, hostMatches u pattern other = .ok b := by
  obtain ⟨b, hb⟩ := h
  unfold hostMatches at *
  dsimp only at hb ⊢
  split_ifs at hb ⊢
  · exact ⟨_, rfl⟩
  · exact ⟨_, rfl⟩

lemma pathOf_total (flow : Flow u) : ∃ path, pathOf u flow.url = .ok path := by
  have habs := flow.absolute
  unfold isAbsolute at habs
  split at habs
  · rename_i parts hparts
    exact ⟨_, by rw [pathOf, hparts]; rfl⟩
  · exact absurd habs Bool.false_ne_true

lemma ruleMatches_total (rule : Rule u) (flow : Flow u) : ∃ b, ruleMatches u rule flow = .ok b := by
  obtain ⟨hostOk, hhost⟩ := hostMatches_total rule.supported flow.host
  obtain ⟨path, hpath⟩ := pathOf_total flow
  simp only [ruleMatches, hhost, hpath, Except.mapError, bind, Except.bind]
  split_ifs
  · cases rule.pathPrefix with
    | none => exact ⟨true, rfl⟩
    | some pre => exact ⟨pathMatches pre path, rfl⟩
  · exact ⟨false, rfl⟩

def explains (rule : Rule u) (flow : Flow u) : Bool :=
  match ruleMatches u rule flow with
  | .ok b => b
  | .error _ => false

lemma ruleMatches_eq (rule : Rule u) (flow : Flow u) :
    ruleMatches u rule flow = .ok (explains rule flow) := by
  obtain ⟨b, hb⟩ := ruleMatches_total rule flow
  simp only [explains, hb]

lemma anyM_eq_any {α ε : Type} {f : α → Except ε Bool} {g : α → Bool} (h : ∀ x, f x = .ok (g x))
    (xs : List α) : xs.anyM f = .ok (xs.any g) := by
  induction xs with
  | nil => rfl
  | cons x xs ih =>
    simp only [List.anyM, h, bind, Except.bind, ih, List.any_cons]
    cases g x <;> rfl

/-! The verdict -/

/-- The rules of a scenario; none where it has no section. -/
def sectionOf (sections : Sections u) (scenario : PyStr) : List (Rule u) :=
  (sections.lookup scenario).getD []

/-- Some rule in the flow's own section explains it. -/
def Excused (sections : Sections u) (flow : Json) : Prop :=
  ∃ f, Reads flow f ∧ ∃ rule ∈ sectionOf sections f.scenario, explains rule f = true

lemma verdict_eq_ok (sections : Sections u) (f : Flow u) :
    ∃ why, verdict u sections f = .ok why ∧
      (why = none ↔ ∃ rule ∈ sectionOf sections f.scenario, explains rule f = true) := by
  unfold verdict sectionOf
  split
  · rename_i hnone
    exact ⟨_, rfl, by simp [hnone]⟩
  · rename_i hempty
    exact ⟨_, rfl, by simp [hempty]⟩
  · rename_i rules _ hrules
    rw [anyM_eq_any fun rule => ruleMatches_eq rule f]
    refine ⟨_, rfl, ?_⟩
    simp [hrules]

lemma excused_iff {sections : Sections u} {flow : Json} {f : Flow u} (h : Reads flow f) :
    Excused sections flow ↔ ∃ rule ∈ sectionOf sections f.scenario, explains rule f = true := by
  constructor
  · rintro ⟨g, hg, hrule⟩
    rwa [h.unique hg]
  · exact fun hrule => ⟨f, h, hrule⟩

lemma checkFrom_total {sections : Sections u} {flows : List Json}
    (h : ∀ flow ∈ flows, ∃ f : Flow u, Reads flow f) (index : ℕ) :
    ∃ violations, checkFrom u sections index flows = .ok violations := by
  induction flows generalizing index with
  | nil => exact ⟨[], rfl⟩
  | cons flow flows ih =>
    obtain ⟨f, hf⟩ := h flow List.mem_cons_self
    obtain ⟨why, hwhy, -⟩ := verdict_eq_ok sections f
    obtain ⟨violations, hrest⟩ := ih (fun x hx => h x (List.mem_cons_of_mem _ hx)) (index + 1)
    rw [checkFrom, hf index]
    simp only [bind, Except.bind, hwhy, hrest]
    exact ⟨_, rfl⟩

/-- A check that ends in an error ends at the first flow that is not well formed. -/
lemma checkFrom_eq_error {sections : Sections u} {flows : List Json} {index : ℕ} {e : CheckError} :
    checkFrom u sections index flows = .error e ↔ ∃ before flow after, flows = before ++ flow :: after ∧
      (∀ x ∈ before, ∃ f : Flow u, Reads x f) ∧
        validateFlow u flow (index + before.length) = .error e := by
  induction flows generalizing index with
  | nil => simp [checkFrom]
  | cons first flows ih =>
    cases hf : validateFlow u first index with
    | error e' =>
      rw [checkFrom, hf]
      constructor
      · intro h
        obtain rfl : e' = e := Except.error.inj h
        exact ⟨[], first, flows, rfl, by simp, hf⟩
      · rintro ⟨before, flow, after, hsplit, hbefore, he⟩
        cases before with
        | nil =>
          obtain ⟨rfl, -⟩ := List.cons.inj hsplit
          obtain rfl : e' = e := Except.error.inj (hf.symm.trans he)
          rfl
        | cons x before =>
          obtain ⟨rfl, -⟩ := List.cons.inj hsplit
          obtain ⟨f, hread⟩ := hbefore first List.mem_cons_self
          exact nomatch (hread index).symm.trans hf
    | ok f =>
      have hread : Reads first f := reads_of_validateFlow hf
      obtain ⟨why, hwhy, -⟩ := verdict_eq_ok sections f
      have hrest : checkFrom u sections index (first :: flows) = .error e ↔
          checkFrom u sections (index + 1) flows = .error e := by
        rw [checkFrom, hf]
        simp only [bind, Except.bind, hwhy]
        cases checkFrom u sections (index + 1) flows <;> simp
      rw [hrest, ih]
      constructor
      · rintro ⟨before, flow, after, rfl, hbefore, he⟩
        refine ⟨first :: before, flow, after, rfl, ?_, ?_⟩
        · exact List.forall_mem_cons.mpr ⟨⟨f, hread⟩, hbefore⟩
        · rwa [List.length_cons, Nat.add_comm before.length, ← Nat.add_assoc]
      · rintro ⟨before, flow, after, hsplit, hbefore, he⟩
        cases before with
        | nil =>
          obtain ⟨rfl, -⟩ := List.cons.inj hsplit
          exact nomatch hf.symm.trans he
        | cons x before =>
          obtain ⟨rfl, rfl⟩ := List.cons.inj hsplit
          refine ⟨before, flow, after, rfl, fun x hx => hbefore x (List.mem_cons_of_mem _ hx), ?_⟩
          rwa [List.length_cons, Nat.add_comm before.length, ← Nat.add_assoc] at he

open Classical in
/-- A check that returns has read every flow, and reports those nothing excuses: in
order, and as often as they occur. -/
theorem checkFrom_eq_ok {sections : Sections u} {flows : List Json} {index : ℕ}
    {violations : List Violation} (h : checkFrom u sections index flows = .ok violations) :
    violations.map Violation.flow = flows.filter (fun flow => ¬ Excused sections flow) ∧
      ∀ flow ∈ flows, ∃ f : Flow u, Reads flow f := by
  induction flows generalizing index violations with
  | nil =>
    obtain rfl := Except.ok.inj h
    simp
  | cons flow flows ih =>
    simp only [checkFrom, bind_eq_ok] at h
    obtain ⟨f, hf, why, hwhy, rest, hrest, hv⟩ := h
    obtain rfl := Except.ok.inj hv
    have hreads : Reads flow f := reads_of_validateFlow hf
    obtain ⟨why', hwhy', hnone⟩ := verdict_eq_ok sections f
    obtain rfl : why' = why := Except.ok.inj (hwhy'.symm.trans hwhy)
    obtain ⟨htail, hall⟩ := ih hrest
    refine ⟨?_, ?_⟩
    · rw [← excused_iff hreads] at hnone
      cases why' with
      | none => simpa [hnone.mp rfl] using htail
      | some why =>
        have hnot : ¬ Excused sections flow := fun hex => Option.some_ne_none _ (hnone.mpr hex)
        simpa [hnot] using htail
    · intro x hx
      rcases List.mem_cons.mp hx with rfl | hx
      · exact ⟨f, hreads⟩
      · exact hall x hx

end T3dmium.Checker
