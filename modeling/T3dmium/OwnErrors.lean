import T3dmium.Recheck

/-! What ends a check. Malformed input is refused with the engine's own errors, but for a
URL `urlsplit` does not split: its `ValueError` goes through. -/
namespace T3dmium.Audit
open Checker

section
variable (u : Unicode)

/-- A flow with nothing wrong but an URL that `urlsplit` refuses. -/
def Unsplittable (flow : Json) : Prop :=
  ∃ items url, flow = .dict items ∧
    (∀ key ∈ requiredFlowKeys, (items.lookup (.ofString key)).isSome = true) ∧
    (∀ key ∈ ["url", "method", "host", "scenario"],
      ∃ s, items.lookup (.ofString key) = some (.str s) ∧ PyStr.strip s ≠ []) ∧
    ((∃ i, items.lookup (.ofString "timestamp") = some (.int i)) ∨
      ∃ f, items.lookup (.ofString "timestamp") = some (.float f)) ∧
    items.lookup (.ofString "url") = some (.str url) ∧ ∃ e, PyStr.urlsplit u url = .error e

/-- The first flow that is not well formed, under a valid allowlist, is such a flow. -/
def MeetsUnsplittable (flows : List Json) (allowlist : Json) : Prop :=
  (∃ sections, validateAllowlist u allowlist = .ok sections) ∧
    ∃ before flow after, flows = before ++ flow :: after ∧
      (∀ x ∈ before, ∃ f : Flow u, Reads x f) ∧ Unsplittable u flow

def WellFormed (flows : List Json) (allowlist : Json) : Prop :=
  (∃ sections, validateAllowlist u allowlist = .ok sections) ∧ ∀ flow ∈ flows, ∃ f : Flow u, Reads flow f

/-- Bad input is rejected through the engine's own errors, and only what passed
validation is matched. -/
structure OwnErrorsOnly (flows : List Json) (allowlist : Json) : Prop where
  outcome : ∀ e, checkFlows u flows allowlist ≠ .error (.raised e)
  patterns : ∀ sections, validateAllowlist u allowlist = .ok sections →
    ∀ entry ∈ sections, ∀ rule ∈ entry.2, ∀ host, ∃ b, hostMatches u rule.host host = .ok b
  urls : ∀ flow ∈ flows, ∀ f : Flow u, Reads flow f → ∃ parts, PyStr.urlsplit u f.url = .ok parts
  matching : ∀ sections, validateAllowlist u allowlist = .ok sections →
    ∀ entry ∈ sections, ∀ rule ∈ entry.2, ∀ flow ∈ flows, ∀ f : Flow u, Reads flow f →
      ∃ b, ruleMatches u rule f = .ok b
  /-- where `json.load` returns the list, or an object with the list under `flows`; an integer of
  over 4300 digits it refuses with a plain `ValueError` -/
  main : ¬ WellFormed u flows allowlist → ∀ v, checkerLoadFlows (.json v) = .ok flows →
    checkerMain u (.json v) (.json allowlist) = .ok 2

end

variable {u : Unicode}

/-! Flows -/

lemma flowTimestamp_eq_ok {items : List (PyStr × Json)} {index : ℕ} :
    flowTimestamp items index = .ok () ↔
      (∃ i, items.lookup (.ofString "timestamp") = some (.int i)) ∨
        ∃ f, items.lookup (.ofString "timestamp") = some (.float f) := by
  unfold flowTimestamp
  split
  · rename_i i hi
    simp [hi]
  · rename_i f hf
    simp [hf]
  · rename_i v hint hfloat hv
    simp only [hv, reduceCtorEq, Option.some.injEq, false_iff, not_or, not_exists]
    exact ⟨hint, hfloat⟩
  · rename_i hnone
    simp [hnone]

lemma absoluteUrl_eq_raised {index : ℕ} {url : PyStr} {e : PyError} :
    absoluteUrl u index url = .error (.raised e) ↔ PyStr.urlsplit u url = .error e := by
  unfold absoluteUrl isAbsolute
  cases hsplit : PyStr.urlsplit u url with
  | ok parts =>
    simp only [reduceCtorEq, iff_false]
    split_ifs <;> simp
  | error e' => simp

lemma validateFlow_raised_iff {flow : Json} {index : ℕ} :
    (∃ e, validateFlow u flow index = .error (.raised e)) ↔ Unsplittable u flow := by
  constructor
  · intro h
    obtain ⟨e, h⟩ := h
    cases flow with
    | dict items =>
      rcases bind_eq_error.mp h with h | ⟨_, hkeys, h⟩
      · exact absurd h keys_ne_raised
      have hkey : ∀ key ∈ requiredFlowKeys, (items.lookup (.ofString key)).isSome = true :=
        fun key hmem => hasKey_eq_ok.mp (forM_eq_ok.mp hkeys key hmem)
      rcases bind_eq_error.mp h with h | ⟨url, hurl, h⟩
      · exact absurd h (flowText_ne_raised (hkey "url" (by decide)))
      rcases bind_eq_error.mp h with h | ⟨method, hmethod, h⟩
      · exact absurd h (flowText_ne_raised (hkey "method" (by decide)))
      rcases bind_eq_error.mp h with h | ⟨host, hhost, h⟩
      · exact absurd h (flowText_ne_raised (hkey "host" (by decide)))
      rcases bind_eq_error.mp h with h | ⟨scenario, hscenario, h⟩
      · exact absurd h (flowText_ne_raised (hkey "scenario" (by decide)))
      rcases bind_eq_error.mp h with h | ⟨_, htime, h⟩
      · exact absurd h (flowTimestamp_ne_raised (hkey "timestamp" (by decide)))
      rcases bind_eq_error.mp h with h | ⟨_, -, h⟩
      · refine ⟨items, url, rfl, hkey, ?_, flowTimestamp_eq_ok.mp htime, (flowText_eq_ok.mp hurl).1, e,
          absoluteUrl_eq_raised.mp h⟩
        simp only [List.forall_mem_cons]
        exact ⟨⟨url, flowText_eq_ok.mp hurl⟩, ⟨method, flowText_eq_ok.mp hmethod⟩,
          ⟨host, flowText_eq_ok.mp hhost⟩, ⟨scenario, flowText_eq_ok.mp hscenario⟩, by simp⟩
      · cases h
    | _ => cases h
  · intro h
    obtain ⟨items, url, rfl, hkeys, htexts, htime, hurl, e, he⟩ := h
    have htext : ∀ key ∈ ["url", "method", "host", "scenario"], ∃ s, flowText items index key = .ok s := by
      intro key hkey
      obtain ⟨s, hs⟩ := htexts key hkey
      exact ⟨s, flowText_eq_ok.mpr hs⟩
    obtain ⟨url', hurl'⟩ := htext "url" (by decide)
    obtain ⟨method, hmethod⟩ := htext "method" (by decide)
    obtain ⟨host, hhost⟩ := htext "host" (by decide)
    obtain ⟨scenario, hscenario⟩ := htext "scenario" (by decide)
    obtain rfl : url = url' := by
      have hsame := hurl.symm.trans (flowText_eq_ok.mp hurl').1
      simpa using hsame
    have hkeysOk : requiredFlowKeys.forM (hasKey items index) = .ok () :=
      forM_eq_ok.mpr fun key hkey => hasKey_eq_ok.mpr (hkeys key hkey)
    refine ⟨e, ?_⟩
    simp only [validateFlow, bind_eq_error]
    exact Or.inr ⟨(), hkeysOk, Or.inr ⟨url, hurl', Or.inr ⟨method, hmethod, Or.inr ⟨host, hhost,
      Or.inr ⟨scenario, hscenario, Or.inr ⟨(), flowTimestamp_eq_ok.mpr htime,
        Or.inl (absoluteUrl_eq_raised.mpr he)⟩⟩⟩⟩⟩⟩

/-! Allowlists -/

lemma mapM_eq_error {α β ε : Type} {f : α → Except ε β} {xs : List α} {e : ε}
    (h : xs.mapM f = .error e) : ∃ x ∈ xs, f x = .error e := by
  induction xs with
  | nil => cases h
  | cons x xs ih =>
    rw [List.mapM_cons] at h
    rcases bind_eq_error.mp h with h | ⟨_, -, h⟩
    · exact ⟨x, List.mem_cons_self, h⟩
    · rcases bind_eq_error.mp h with h | ⟨_, -, h⟩
      · obtain ⟨y, hy, he⟩ := ih h
        exact ⟨y, List.mem_cons_of_mem _ hy, he⟩
      · cases h

lemma hostMatches_ne_raised {pattern host : PyStr} {e : PyError} :
    hostMatches u pattern host ≠ .error (.raised e) := by
  unfold hostMatches
  dsimp only
  split_ifs <;> simp

lemma validateRule_ne_raised {name : PyStr} {i : ℕ} {rule : Json} {e : PyError} :
    validateRule u name i rule ≠ .error (.raised e) := by
  intro h
  cases rule with
  | dict items =>
    rcases bind_eq_error.mp h with h | ⟨_, -, h⟩
    · unfold ruleHost at h
      split at h
      · split_ifs at h
        · cases h
        · split at h
          · rename_i he
            rw [Except.error.inj h] at he
            exact hostMatches_ne_raised he
          · cases h
      · cases h
    · rcases bind_eq_error.mp h with h | ⟨_, -, h⟩
      · unfold ruleReason at h
        split at h
        · split_ifs at h
          cases h
        · cases h
      · rcases bind_eq_error.mp h with h | ⟨_, -, h⟩
        · unfold rulePathPrefix at h
          split at h
          · cases h
          · cases h
          · split_ifs at h
            cases h
          · cases h
        · cases h
  | _ => cases h

/-- An allowlist is refused with the engine's own errors. -/
lemma validateAllowlist_ne_raised {allowlist : Json} {e : PyError} :
    validateAllowlist u allowlist ≠ .error (.raised e) := by
  intro h
  unfold validateAllowlist at h
  split at h
  · split at h
    · obtain ⟨⟨name, rules⟩, -, he⟩ := mapM_eq_error h
      cases rules with
      | list rules =>
        rcases bind_eq_error.mp he with he | ⟨_, -, he⟩
        · obtain ⟨rule, -, he⟩ := mapM_eq_error he
          exact validateRule_ne_raised he
        · cases he
      | _ => cases he
    · cases h
  · cases h

/-! The check -/

lemma checkFlows_of_valid {flows : List Json} {allowlist : Json} {sections : Sections u}
    (h : validateAllowlist u allowlist = .ok sections) :
    checkFlows u flows allowlist = checkFrom u sections 0 flows := by
  rw [checkFlows, h]
  rfl

/-- An exception from below comes out of a check iff the check meets an unsplittable URL. -/
lemma checkFlows_raised_iff {flows : List Json} {allowlist : Json} :
    (∃ e, checkFlows u flows allowlist = .error (.raised e)) ↔ MeetsUnsplittable u flows allowlist := by
  constructor
  · intro h
    obtain ⟨e, h⟩ := h
    rcases bind_eq_error.mp h with h | ⟨sections, hsections, h⟩
    · exact absurd h validateAllowlist_ne_raised
    · obtain ⟨before, flow, after, hflows, hbefore, he⟩ := checkFrom_eq_error.mp h
      exact ⟨⟨sections, hsections⟩, before, flow, after, hflows, hbefore, validateFlow_raised_iff.mp ⟨e, he⟩⟩
  · intro h
    obtain ⟨⟨sections, hsections⟩, before, flow, after, hflows, hbefore, hflow⟩ := h
    obtain ⟨e, he⟩ := validateFlow_raised_iff.mpr hflow
    rw [checkFlows_of_valid hsections]
    exact ⟨e, checkFrom_eq_error.mpr ⟨before, flow, after, hflows, hbefore, he⟩⟩

/-- A check that returns had well-formed input. -/
lemma wellFormed_of_checkFlows {flows : List Json} {allowlist : Json} {violations : List Violation}
    (h : checkFlows u flows allowlist = .ok violations) : WellFormed u flows allowlist := by
  obtain ⟨sections, hsections, h⟩ := bind_eq_ok.mp h
  exact ⟨⟨sections, hsections⟩, (checkFrom_eq_ok h).2⟩

lemma toExc_own {e : CheckError} (h : ∀ p, e ≠ .raised p) : CheckError.toExc e = .auditError := by
  cases e with
  | raised p => exact absurd rfl (h p)
  | _ => rfl

/-- `main` answers 2 where a check ends in an error of the engine. -/
lemma checkerMain_eq_two {flows : List Json} {allowlist v : Json}
    (hload : checkerLoadFlows (.json v) = .ok flows) (hbad : ¬ WellFormed u flows allowlist)
    (hown : ∀ e, checkFlows u flows allowlist ≠ .error (.raised e)) :
    checkerMain u (.json v) (.json allowlist) = .ok 2 := by
  rw [checkerMain, hload]
  cases hallow : validateAllowlist u allowlist with
  | error e =>
    have hexc : CheckError.toExc e = .auditError := toExc_own fun p hp => validateAllowlist_ne_raised (hp ▸ hallow)
    have hfails : loadAllowlist u (.json allowlist) = .error .auditError := by
      rw [loadAllowlist, hallow, Except.mapError, hexc]
      rfl
    rw [hfails]
    rfl
  | ok sections =>
    have hloads : loadAllowlist u (.json allowlist) = .ok allowlist := loadAllowlist_of_valid u hallow
    cases hcheck : checkFlows u flows allowlist with
    | ok violations => exact absurd (wellFormed_of_checkFlows hcheck) hbad
    | error e =>
      have hexc : CheckError.toExc e = .auditError := toExc_own fun p hp => hown p (hp ▸ hcheck)
      have hfails : (checkFlows u flows allowlist).mapError CheckError.toExc = .error .auditError := by
        rw [hcheck, Except.mapError, hexc]
      rw [hloads]
      change guarded checkerCaught ((checkFlows u flows allowlist).mapError CheckError.toExc) reportStatus = _
      rw [hfails]
      rfl

/-- Only the engine's own errors come out of a check, unless it meets an URL that
`urlsplit` refuses. -/
theorem ownErrorsOnly_iff (u : Unicode) (flows : List Json) (allowlist : Json) :
    OwnErrorsOnly u flows allowlist ↔ ¬ MeetsUnsplittable u flows allowlist := by
  rw [← checkFlows_raised_iff, not_exists]
  constructor
  · exact fun h => h.outcome
  · intro hown
    refine ⟨hown, ?_, ?_, ?_, ?_⟩
    · exact fun _ _ _ _ rule _ host => hostMatches_total rule.supported host
    · intro flow _ f _
      have habs := f.absolute
      unfold isAbsolute at habs
      cases hsplit : PyStr.urlsplit u f.url with
      | ok parts => exact ⟨parts, rfl⟩
      | error e =>
        rw [hsplit] at habs
        cases habs
    · exact fun _ _ _ _ rule _ _ _ f _ => ruleMatches_total rule f
    · exact fun hbad v hload => checkerMain_eq_two hload hbad hown

/-- `urlsplit` refuses a bracket without its counterpart. -/
def bracketTables : Unicode :=
  { Unicode.ascii with netlocOk := fun s => s.contains (.scalar '[') == s.contains (.scalar ']') }

def bracketFlow : Json :=
  .object [("url", .text "http://[::1/"), ("method", .text "GET"), ("host", .text "example.com"),
    ("timestamp", .int 1), ("scenario", .text "idle")]

theorem bracketFlow_raises :
    (∃ sections, validateAllowlist bracketTables sampleAllowlist = .ok sections) ∧
      checkFlows bracketTables [bracketFlow] sampleAllowlist = .error (.raised .valueError) ∧
      processStatus (checkerMain bracketTables (.json (.list [bracketFlow])) (.json sampleAllowlist)) = 1 :=
  ⟨⟨[], rfl⟩, rfl, rfl⟩

end T3dmium.Audit
