import T3dmium.OwnErrors

/-! What the exit status of an audit says about the run, and for which behaviours of
the environment it says the truth. -/
namespace T3dmium.Audit
open Checker
variable (u : Unicode) (env : Env) (names : List PyStr)

/-! How far a run gets -/

/-- The allowlist has been read. -/
structure Loaded (allowlist : Json) (sections : Sections u) : Prop where
  prepare : env.prepare = .ok ()
  file : env.allowlist = .json allowlist
  valid : validateAllowlist u allowlist = .ok sections

/-- The proxy accepts connections. -/
structure ProxyUp (allowlist : Json) (sections : Sections u) : Prop
    extends Loaded u env allowlist sections where
  announce : env.announce = .ok ()
  start : env.startMitmdump = .ok ()

section
variable (scene : Scene) (drive : Drive)

/-- The name reaches the control file and is withdrawn again. -/
structure Scene.Named : Prop where
  announce : scene.announce = .ok ()
  between : scene.announceBetween = .ok ()

structure Scene.Launched : Prop extends scene.Named where
  profile : scene.profile = .ok ()
  launch : scene.launch = .ok ()

/-- What is done under the browser. -/
def Scene.work : Drive → Except Exc Unit
  | .subprocess => scene.sleep
  | .playwright => if scene.portOpens then scene.steps else .error .captureUnavailable

structure Scene.Completes : Prop extends scene.Launched where
  stop : scene.stop = .ok ()
  work : scene.work drive = .ok ()
  pause : scene.pause = .ok ()

end

/-! What becomes of the scenarios -/

/-- The scenarios exist, and Playwright is there where one of them needs it. -/
structure Ready : Prop where
  known : ∀ name ∈ names, (scenarios.lookup name).isSome = true
  playwright : (∃ name ∈ names, name ∈ playwrightScenarios) → env.playwrightInstalled = true

/-- The driver finds everything it needs before the first scenario. -/
structure Startable : Prop extends Ready env names where
  browser : env.browserExists = .ok true

def CompletesBefore (n : ℕ) : Prop :=
  ∀ i name drive, i < n → names[i]? = some name → scenarios.lookup name = some drive →
    (env.scenes i).Completes drive

structure Completed : Prop extends Startable env names where
  between : env.announceBetween = .ok ()
  scenes : CompletesBefore env names names.length

/-! What becomes of the captured flows -/

/-- The entry `flows` of an object, or else the whole file. -/
inductive Holds : FileRead → Json → Prop
  | entry {items : List (PyStr × Json)} {v : Json} (h : items.lookup (.ofString "flows") = some v) :
      Holds (.json (.dict items)) v
  | whole {v : Json} (h : ∀ items, v ≠ .dict items) : Holds (.json v) v

/-- Some rule excuses each flow, of which there may be none. -/
inductive Explained (sections : Sections u) : Json → Prop
  | list {flows : List Json} (h : ∀ flow ∈ flows, Excused sections flow) : Explained sections (.list flows)
  | str : Explained sections (.str [])
  | dict : Explained sections (.dict [])

/-- Nothing goes wrong, and the allowlist explains every flow. -/
structure Passes (allowlist : Json) (sections : Sections u) : Prop
    extends ProxyUp u env allowlist sections, Completed env names where
  stop : env.stopMitmdump = .ok ()
  explained : ∃ v, Holds env.flows v ∧ Explained u sections v

variable {u env names}

/-! One scenario -/

section
variable {scene : Scene} {name : PyStr} {drive : Drive}

end

/-! The driver -/

section
variable {allowlist : Json} {sections : Sections u}

lemma Holds.load {file : FileRead} {v : Json} (h : Holds file v) : loadFlows file = .ok v := by
  cases h with
  | entry h => simp [loadFlows, Json.getItem, h, Except.mapError]
  | whole h =>
    cases v with
    | dict items => exact absurd rfl (h items)
    | _ => rfl

end

/-! The orchestrator -/

section
variable {allowlist : Json} {sections : Sections u}

end

end T3dmium.Audit
