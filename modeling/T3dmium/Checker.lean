import T3dmium.PyText

/-! The audit's detection engine (`checker.py`): is there, for every captured flow,
a scripted user action that explains it? -/
namespace T3dmium

/-- `FlowError`, with what its message names; `index` is the position of the flow. -/
inductive FlowError
  | notObject (index : ℕ)
  | missingKey (index : ℕ) (key : String)
  | blankText (index : ℕ) (key : String) (value : Json)
  | badTimestamp (index : ℕ) (value : Json)
  | relativeUrl (index : ℕ) (url : PyStr)

/-- `AllowlistError`, with what its message names: the scenario and the position of the rule. -/
inductive AllowlistError
  | rootNotObject
  | noScenarios
  | rulesNotList (name : PyStr)
  | ruleNotObject (name : PyStr) (i : ℕ)
  | blankHost (name : PyStr) (i : ℕ)
  | emptyPattern
  /-- `only a single leading '*.' label is allowed` -/
  | secondWildcard (pattern : PyStr)
  /-- `wildcards are only allowed as a leading '*.' label` -/
  | strayWildcard (pattern : PyStr)
  | noReason (name : PyStr) (i : ℕ)
  | badPathPrefix (name : PyStr) (i : ℕ)

/-- What ends a check: the engine's own errors, or an exception from below it. -/
inductive CheckError
  | flow (e : FlowError)
  | allowlist (e : AllowlistError)
  | raised (e : PyError)

namespace Checker
variable (u : Unicode)

/-! Matching primitives -/

def normalizeHost (host : PyStr) : PyStr :=
  let host := PyStr.rstrip '.' (PyStr.lower u (PyStr.strip host))
  if PyChar.scalar ':' ∈ host then
    let p := PyStr.rpartition ':' host
    if PyStr.isDigit u p.2 then p.1 else host
  else host

def hostMatches (pattern host : PyStr) : Except CheckError Bool :=
  if pattern = [] then .error (.allowlist .emptyPattern)
  else
    let pattern := normalizeHost u pattern
    let host := normalizeHost u host
    if PyStr.ofString "*." <+: pattern then
      let base := pattern.drop 2
      if base = [] ∨ .scalar '*' ∈ base then .error (.allowlist (.secondWildcard pattern))
      else .ok (decide (.scalar '.' :: base <:+ host))
    else if .scalar '*' ∈ pattern then .error (.allowlist (.strayWildcard pattern))
    else .ok (decide (host = pattern))

def pathMatches (pre path : PyStr) : Bool :=
  if ¬ pre <+: path then false
  else if path.length = pre.length ∨ [.scalar '/'] <:+ pre then true
  else path[pre.length]? = some (.scalar '/')

/-- `urlsplit(url).path or "/"` -/
def pathOf (url : PyStr) : Except PyError PyStr :=
  (PyStr.urlsplit u url).map fun parts => if parts.path = [] then .ofString "/" else parts.path

/-! Input validation -/

/-- `"probe.invalid"`, on which the shape of a pattern is tried. -/
def probe : PyStr := .ofString "probe.invalid"

/-- `urlsplit` finds a scheme and a network location. -/
def isAbsolute (url : PyStr) : Bool :=
  match PyStr.urlsplit u url with
  | .ok parts => !parts.scheme.isEmpty && !parts.netloc.isEmpty
  | .error _ => false

structure Flow where
  url : PyStr
  host : PyStr
  scenario : PyStr
  absolute : isAbsolute u url = true

structure Rule where
  host : PyStr
  pathPrefix : Option PyStr
  supported : ∃ b, hostMatches u host probe = .ok b
  rooted : ∀ p ∈ pathPrefix, PyStr.ofString "/" <+: p

def ruleMatches (rule : Rule u) (flow : Flow u) : Except CheckError Bool := do
  if ← hostMatches u rule.host flow.host then
    match rule.pathPrefix with
    | none => .ok true
    | some pre => .ok (pathMatches pre (← (pathOf u flow.url).mapError .raised))
  else .ok false

def requiredFlowKeys : List String := ["url", "method", "host", "timestamp", "scenario"]

section
variable (items : List (PyStr × Json)) (index : ℕ)

def hasKey (key : String) : Except CheckError Unit :=
  if (items.lookup (.ofString key)).isSome then .ok () else .error (.flow (.missingKey index key))

def flowText (key : String) : Except CheckError PyStr :=
  match items.lookup (.ofString key) with
  | some (.str s) => if PyStr.strip s = [] then .error (.flow (.blankText index key (.str s))) else .ok s
  | some v => .error (.flow (.blankText index key v))
  | none => .error (.raised .keyError)

def flowTimestamp : Except CheckError Unit :=
  match items.lookup (.ofString "timestamp") with
  | some (.int _) | some (.float _) => .ok ()
  | some v => .error (.flow (.badTimestamp index v))
  | none => .error (.raised .keyError)

end

def absoluteUrl (index : ℕ) (url : PyStr) : Except CheckError (PLift (isAbsolute u url = true)) :=
  if h : isAbsolute u url = true then .ok ⟨h⟩
  else
    match PyStr.urlsplit u url with
    | .error e => .error (.raised e)
    | .ok _ => .error (.flow (.relativeUrl index url))

def validateFlow (flow : Json) (index : ℕ) : Except CheckError (Flow u) :=
  match flow with
  | .dict items => do
    requiredFlowKeys.forM (hasKey items index)
    let url ← flowText items index "url"
    let _method ← flowText items index "method"
    let host ← flowText items index "host"
    let scenario ← flowText items index "scenario"
    flowTimestamp items index
    let absolute ← absoluteUrl u index url
    .ok ⟨url, host, scenario, absolute.down⟩
  | _ => .error (.flow (.notObject index))

section
variable (name : PyStr) (i : ℕ) (items : List (PyStr × Json))

def ruleHost : Except CheckError {host // ∃ b, hostMatches u host probe = .ok b} :=
  match items.lookup (.ofString "host") with
  | some (.str host) =>
    if PyStr.strip host = [] then .error (.allowlist (.blankHost name i))
    else
      match h : hostMatches u host probe with
      | .error e => .error e
      | .ok b => .ok ⟨host, b, h⟩
  | _ => .error (.allowlist (.blankHost name i))

def ruleReason : Except CheckError Unit :=
  match items.lookup (.ofString "reason") with
  | some (.str reason) =>
    if PyStr.strip reason = [] then .error (.allowlist (.noReason name i)) else .ok ()
  | _ => .error (.allowlist (.noReason name i))

def rulePathPrefix :
    Except CheckError {pre : Option PyStr // ∀ p ∈ pre, PyStr.ofString "/" <+: p} :=
  match items.lookup (.ofString "path_prefix") with
  | none | some .null => .ok ⟨none, by simp⟩
  | some (.str p) =>
    if h : PyStr.ofString "/" <+: p then .ok ⟨some p, by simpa using h⟩
    else .error (.allowlist (.badPathPrefix name i))
  | some _ => .error (.allowlist (.badPathPrefix name i))

end

def validateRule (name : PyStr) (i : ℕ) : Json → Except CheckError (Rule u)
  | .dict items => do
    let host ← ruleHost u name i items
    ruleReason name i items
    let pre ← rulePathPrefix name i items
    .ok ⟨host.1, pre.1, host.2, pre.2⟩
  | _ => .error (.allowlist (.ruleNotObject name i))

/-- The rules by the scenario they are for. -/
abbrev Sections := List (PyStr × List (Rule u))

def validateSection : PyStr × Json → Except CheckError (PyStr × List (Rule u))
  | (name, .list rules) => do
    let rules ← rules.zipIdx.mapM fun r => validateRule u name r.2 r.1
    .ok (name, rules)
  | (name, _) => .error (.allowlist (.rulesNotList name))

def validateAllowlist (allowlist : Json) : Except CheckError (Sections u) :=
  match allowlist with
  | .dict items =>
    match items.lookup (.ofString "scenarios") with
    | some (.dict scenarios) => scenarios.mapM (validateSection u)
    | _ => .error (.allowlist .noScenarios)
  | _ => .error (.allowlist .rootNotObject)

/-! Verdict -/

/-- Why a flow is not explained. -/
inductive Why
  | noSection (scenario : PyStr)
  | silent (scenario : PyStr)
  | unmatched (rules : ℕ) (scenario : PyStr)

structure Violation where
  flow : Json
  why : Why

def verdict (sections : Sections u) (flow : Flow u) : Except CheckError (Option Why) :=
  match sections.lookup flow.scenario with
  | none => .ok (some (.noSection flow.scenario))
  | some [] => .ok (some (.silent flow.scenario))
  | some rules => do
    let explained ← rules.anyM (ruleMatches u · flow)
    .ok (if explained then none else some (.unmatched rules.length flow.scenario))

def checkFrom (sections : Sections u) : ℕ → List Json → Except CheckError (List Violation)
  | _, [] => .ok []
  | index, flow :: flows => do
    let f ← validateFlow u flow index
    let why ← verdict u sections f
    let violations ← checkFrom sections (index + 1) flows
    .ok (why.toList.map (Violation.mk flow) ++ violations)

def checkFlows (flows : List Json) (allowlist : Json) : Except CheckError (List Violation) := do
  let sections ← validateAllowlist u allowlist
  checkFrom u sections 0 flows

end Checker
end T3dmium
