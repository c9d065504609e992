import T3dmium.AuditRun
import T3dmium.DefaultDeny

/-! Checking a saved capture again. The last step of `audit.py` and the command line of
`checker.py` read a flows file each in its own way and catch different exceptions. -/
namespace T3dmium.Audit
open Checker

/-- What a flows file holds. -/
inductive FlowsFile
  | notUtf8
  | notJson
  /-- JSON with an integer of more digits than `int` converts (4300) -/
  | longInteger
  /-- JSON nested deeper than Python recurses -/
  | nested
  /-- JSON for which `json.load` returns `v` -/
  | json (v : Json)

/-- Opening it and reading JSON. What `int` raises and `UnicodeDecodeError` are `ValueError`s,
but no `JSONDecodeError`. -/
def FlowsFile.read : FlowsFile → FileRead
  | .notUtf8 | .longInteger => .fails (.python .valueError)
  | .notJson => .notJson
  -- `RecursionError`
  | .nested => .fails .other
  | .json v => .json v

/-- `1 if violations else 0`, after the report is printed. -/
def reportStatus (violations : List Violation) : Except Exc ℕ :=
  .ok (if violations.isEmpty then 0 else 1)

section
variable (u : Unicode)

/-- The end of `main` in `audit.py`, once the scenarios have run. -/
def evaluationStep (env : Env) (allowlist : Json) : Except Exc ℕ :=
  guarded evaluationCaught (evaluate u env allowlist) reportStatus

/-- `checker.load_flows` -/
def checkerLoadFlows : FileRead → Except Exc (List Json)
  | .missing | .notJson => .error .auditError
  | .fails e => .error e
  | .json v =>
    let data : Json :=
      match v with
      | .dict items =>
        match items.lookup (.ofString "flows") with
        | some (.list xs) => .list xs
        | _ => v
      | _ => v
    match data with
    | .list xs => .ok xs
    | _ => .error .auditError

def checkerCaught (e : Exc) : Bool := e = .auditError

/-- `checker.main` -/
def checkerMain (flows allowlist : FileRead) : Except Exc ℕ :=
  guarded checkerCaught (do
      let flows ← checkerLoadFlows flows
      let allowlist ← loadAllowlist u allowlist
      (checkFlows u flows allowlist).mapError CheckError.toExc) reportStatus

/-- An exception nobody catches ends a process with status 1. -/
def processStatus : Except Exc ℕ → ℕ
  | .ok status => status
  | .error _ => 1

lemma loadAllowlist_of_valid {allowlist : Json} {sections : Sections u}
    (h : validateAllowlist u allowlist = .ok sections) :
    loadAllowlist u (.json allowlist) = .ok allowlist := by
  rw [loadAllowlist, h]
  rfl

/-- `audit.py` ends as its last step does when it gets there. -/
lemma main_eq_evaluationStep {env : Env} {names : List PyStr} {allowlist : Json}
    (hprepare : env.prepare = .ok ()) (hload : loadAllowlist u env.allowlist = .ok allowlist)
    (hannounce : env.announce = .ok ()) (hproxy : env.startMitmdump = .ok ())
    (hrun : (runScenarios env names).2 = .ok ()) (hstop : env.stopMitmdump = .ok ()) :
    main u env names = evaluationStep u env allowlist := by
  simp only [main, guarded, hprepare, hload, hannounce, hproxy, hrun, hstop, evaluationStep,
    reportStatus]

/-! The files both judge alike -/

end

variable {u : Unicode}

/-! How a check of a list ends -/

lemma flowText_ne_raised {items : List (PyStr × Json)} {index : ℕ} {key : String} {e : PyError}
    (hkey : (items.lookup (.ofString key)).isSome = true) :
    flowText items index key ≠ .error (.raised e) := by
  intro h
  unfold flowText at h
  split at h
  · split_ifs at h
    cases h
  · cases h
  · rename_i hnone
    rw [hnone] at hkey
    cases hkey

lemma flowTimestamp_ne_raised {items : List (PyStr × Json)} {index : ℕ} {e : PyError}
    (hkey : (items.lookup (.ofString "timestamp")).isSome = true) :
    flowTimestamp items index ≠ .error (.raised e) := by
  intro h
  unfold flowTimestamp at h
  split at h
  · cases h
  · cases h
  · cases h
  · rename_i hnone
    rw [hnone] at hkey
    cases hkey

lemma keys_ne_raised {items : List (PyStr × Json)} {index : ℕ} {keys : List String} {e : PyError} :
    keys.forM (hasKey items index) ≠ .error (.raised e) := by
  induction keys with
  | nil => exact fun h => nomatch h
  | cons key keys ih =>
    intro h
    rw [List.forM_eq_forM, List.forM_cons] at h
    rcases bind_eq_error.mp h with h | ⟨_, -, h⟩
    · unfold hasKey at h
      split_ifs at h
      cases h
    · exact ih (by rwa [List.forM_eq_forM])

section
variable {env : Env} {allowlist : Json} {sections : Sections u}

end

/-- An allowlist that allows nothing. -/
def sampleAllowlist : Json := .object [("scenarios", .object [])]

end T3dmium.Audit
