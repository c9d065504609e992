import T3dmium.CheckerSteps

/-! The audit around its detection engine: the control file scenarios are announced
in (`capture.py`), the driver that runs them (`scenarios/driver.py`) and the
orchestrator that turns the run into an exit status (`audit.py`). -/
namespace T3dmium.Audit
open Checker

/-- The exceptions told apart by the handlers of `audit.py`. -/
inductive Exc
  | scenarioUnavailable
  | captureUnavailable
  | auditError
  | osError
  | python (e : PyError)
  | other
  deriving DecidableEq

/-! The control file -/

def unattributed : PyStr := .ofString "__unattributed__"

def between : PyStr := .ofString "__between__"

/-- What `announce_scenario` leaves in the control file. -/
def announceScenario (scenario : PyStr) : PyStr := scenario ++ .ofString "\n"

/-- `none` where the control file cannot be read. -/
def readScenario : Option PyStr → PyStr
  | none => unattributed
  | some content => if PyStr.strip content = [] then unattributed else PyStr.strip content

structure Request where
  url : PyStr
  method : PyStr
  host : PyStr
  timestamp : Json

def Request.record (r : Request) (scenario : PyStr) : Json :=
  .object [("url", .str r.url), ("method", .str r.method), ("host", .str r.host),
    ("timestamp", r.timestamp), ("scenario", .str scenario)]

/-! The scenario driver -/

inductive Drive
  | subprocess
  | playwright
  deriving DecidableEq

/-- `SCENARIOS`, with how each drives the browser. -/
def scenarios : List (PyStr × Drive) :=
  [(.ofString "idle", .subprocess), (.ofString "navigation", .subprocess),
    (.ofString "bookmarks", .playwright), (.ofString "history", .playwright),
    (.ofString "downloads", .playwright), (.ofString "settings", .playwright),
    (.ofString "search", .subprocess)]

def playwrightScenarios : List PyStr :=
  [.ofString "bookmarks", .ofString "history", .ofString "downloads", .ofString "settings"]

/-- What the environment does while one scenario runs. Printing raises nothing. -/
structure Scene where
  announce : Except Exc Unit
  /-- a profile directory and, under Playwright, a free port -/
  profile : Except Exc Unit
  /-- `subprocess.Popen` -/
  launch : Except Exc Unit
  /-- the debugging port opens in time, and the browser has not exited before -/
  portOpens : Bool
  /-- `time.sleep` under a plain scenario, which refuses a negative, endless or undefined time -/
  sleep : Except Exc Unit
  /-- attaching Playwright, its steps on the page, and detaching -/
  steps : Except Exc Unit
  /-- `proc.poll()` finds the browser running when the body has ended -/
  browserRunning : Bool
  /-- terminating the browser, waiting for it and killing it -/
  stop : Except Exc Unit
  announceBetween : Except Exc Unit
  /-- `time.sleep(1.0)` -/
  pause : Except Exc Unit

/-- Opening a file and reading JSON from it. -/
inductive FileRead
  | missing
  | notJson
  | json (v : Json)
  | fails (e : Exc)

/-- What the environment does during an audit. Printing raises nothing. -/
structure Env where
  /-- a free port and the output directory -/
  prepare : Except Exc Unit
  allowlist : FileRead
  announce : Except Exc Unit
  startMitmdump : Except Exc Unit
  playwrightInstalled : Bool
  /-- `Path(browser).exists()`, which passes on that a directory may not be searched -/
  browserExists : Except Exc Bool
  announceBetween : Except Exc Unit
  /-- by the position of the scenario in the run -/
  scenes : ℕ → Scene
  /-- `proc.poll()` finds the proxy running when it is stopped -/
  proxyRunning : Bool
  /-- terminating the proxy, waiting for it and killing it -/
  stopMitmdump : Except Exc Unit
  flows : FileRead

def requirePlaywright (env : Env) : Except Exc Unit :=
  if env.playwrightInstalled then .ok () else .error .scenarioUnavailable

/-- `try: x` with a `finally`: what the clean-up raises takes the place of what `x` came to. -/
def andFinally {α : Type} (x : Except Exc α) (cleanup : Except Exc Unit) : Except Exc α :=
  cleanup >>= fun _ => x

/-- `with browser_process(...)` around steps. Its `finally` reads whether the browser still
runs in order to terminate it. -/
def browserProcess (scene : Scene) (cdp : Bool) (steps : Except Exc Unit) : Except Exc Unit := do
  scene.profile
  scene.launch
  andFinally (if cdp && !scene.portOpens then .error .captureUnavailable else steps) scene.stop

/-- `SCENARIOS[name](ctx)`: the plain scenarios sleep, the others take Playwright steps. -/
def scenarioBody (env : Env) (scene : Scene) (name : PyStr) : Except Exc Unit :=
  match scenarios.lookup name with
  | none => .error (.python .keyError)
  | some .subprocess => browserProcess scene false scene.sleep
  | some .playwright => do
    requirePlaywright env
    browserProcess scene true scene.steps

/-- One turn of the loop: what it announced, and how it ended. -/
def runScene (env : Env) (scene : Scene) (name : PyStr) : List PyStr × Except Exc Unit :=
  match scene.announce with
  | .error e => ([], .error e)
  | .ok () =>
    match scene.announceBetween with
    | .error e => ([name], .error e)
    | .ok () => ([name, between], scenarioBody env scene name >>= fun _ => scene.pause)

def runFrom (env : Env) : ℕ → List PyStr → List PyStr × Except Exc Unit
  | _, [] => ([], .ok ())
  | i, name :: names =>
    let r := runScene env (env.scenes i) name
    match r.2 with
    | .error e => (r.1, .error e)
    | .ok () => (r.1 ++ (runFrom env (i + 1) names).1, (runFrom env (i + 1) names).2)

/-- What the run announced, in order, and how it ended. -/
def runScenarios (env : Env) (names : List PyStr) : List PyStr × Except Exc Unit :=
  if names.any fun name => (scenarios.lookup name).isNone then ([], .error .scenarioUnavailable)
  else if (names.any fun name => name ∈ playwrightScenarios) && !env.playwrightInstalled then
    ([], .error .scenarioUnavailable)
  else
    match env.browserExists with
    | .error e => ([], .error e)
    | .ok false => ([], .error .scenarioUnavailable)
    | .ok true =>
      match env.announceBetween with
      | .error e => ([], .error e)
      | .ok () => (between :: (runFrom env 0 names).1, (runFrom env 0 names).2)

/-! The orchestrator -/

def CheckError.toExc : CheckError → Exc
  | .flow _ | .allowlist _ => .auditError
  | .raised e => .python e

section
variable (u : Unicode)

def loadAllowlist : FileRead → Except Exc Json
  | .missing | .notJson => .error .auditError
  | .fails e => .error e
  | .json v => (validateAllowlist u v).mapError CheckError.toExc >>= fun _ => .ok v

/-- `capture.load_flows` -/
def loadFlows : FileRead → Except Exc Json
  | .missing => .error .osError
  | .notJson => .error (.python .valueError)
  | .fails e => .error e
  | .json (.dict items) => ((Json.dict items).getItem "flows").mapError .python
  | .json v => .ok v

/-- What `enumerate` goes through. -/
def iterate : Json → Except PyError (List Json)
  | .list xs => .ok xs
  | .dict items => .ok (items.map fun p => .str p.1)
  | .str s => .ok (s.map fun c => .str [c])
  | _ => .error .typeError

/-- `check_flows(load_flows(...), allowlist)` on an allowlist that has been validated. -/
def evaluate (env : Env) (allowlist : Json) : Except Exc (List Violation) := do
  let flows ← loadFlows env.flows
  let flows ← (iterate flows).mapError .python
  (checkFlows u flows allowlist).mapError CheckError.toExc

/-- `try: x` before the rest, where `except caught:` returns 2. -/
def guarded {α : Type} (caught : Exc → Bool) (x : Except Exc α) (rest : α → Except Exc ℕ) :
    Except Exc ℕ :=
  match x with
  | .ok a => rest a
  | .error e => if caught e then .ok 2 else .error e

/-- What each `except` of `main` catches. -/
def allowlistCaught (e : Exc) : Bool := e = .auditError

def proxyCaught (e : Exc) : Bool := e = .captureUnavailable

def driverCaught (e : Exc) : Bool := e = .scenarioUnavailable ∨ e = .captureUnavailable

def evaluationCaught : Exc → Bool
  | .osError | .auditError => true
  | .python e => e = .valueError ∨ e = .unicodeEncodeError
  | _ => false

/-- `main`; nothing is caught around the preparation and the first announcement. What the
`finally` after the scenarios raises takes the place of how they ended, a return of 2 included. -/
def main (env : Env) (names : List PyStr) : Except Exc ℕ :=
  guarded (fun _ => false) env.prepare fun _ =>
  guarded allowlistCaught (loadAllowlist u env.allowlist) fun allowlist =>
  guarded (fun _ => false) env.announce fun _ =>
  guarded proxyCaught env.startMitmdump fun _ =>
  guarded (fun _ => false) env.stopMitmdump fun _ =>
  guarded driverCaught (runScenarios env names).2 fun _ =>
  guarded evaluationCaught (evaluate u env allowlist) fun violations =>
  .ok (if violations.isEmpty then 0 else 1)

/-- The status of the process: an exception nobody catches makes it 1. -/
def exitStatus (env : Env) (names : List PyStr) : ℕ :=
  match main u env names with
  | .ok status => status
  | .error _ => 1

end

def Scene.sample : Scene where
  announce := .ok ()
  profile := .ok ()
  launch := .ok ()
  portOpens := true
  sleep := .ok ()
  steps := .ok ()
  browserRunning := true
  stop := .ok ()
  announceBetween := .ok ()
  pause := .ok ()

/-- An audit in which nothing goes wrong, nothing is allowed and nothing is captured. -/
def Env.sample : Env where
  prepare := .ok ()
  allowlist := .json (.object [("scenarios", .object [])])
  announce := .ok ()
  startMitmdump := .ok ()
  playwrightInstalled := true
  browserExists := .ok true
  announceBetween := .ok ()
  scenes _ := Scene.sample
  proxyRunning := true
  stopMitmdump := .ok ()
  flows := .json (.object [("flows", .list [])])

end T3dmium.Audit
