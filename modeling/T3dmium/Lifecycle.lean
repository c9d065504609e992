import T3dmium.AuditRun
import T3dmium.Traces

/-! The processes of an audit: the proxy, one browser after the other, their profile
directories and the control file, on every path through `audit.py`, `capture.py` and
`driver.py`. -/
namespace T3dmium.Audit.Live
open Checker Traced

inductive Process
  | proxy
  | browser
  deriving DecidableEq

/-- What an audit does that others can see. -/
inductive Act
  | announce (scenario : PyStr)
  | start (p : Process)
  | terminate (p : Process)
  | kill (p : Process)
  /-- the audit has seen that the process has ended -/
  | gone (p : Process)
  | makeProfile
  /-- `rmtree` with `ignore_errors`, which may leave some of it behind -/
  | removeProfile (complete : Bool)
  | readFlows

/-- One turn of the loop of `wait_for_port`. -/
inductive Poll
  | exited
  | refused
  | accepted

/-- How a process ends that is to be stopped: by itself before, when it is told to, or
when it is killed after a while. Or stopping it raises, perhaps after it has been told to end. -/
inductive Ending
  | exited
  | terminates
  | killed
  | raises (told : Bool) (e : Exc)
  deriving DecidableEq

/-- What stopping the process comes to. -/
def Ending.outcome : Ending → Except Exc Unit
  | .raises _ e => .error e
  | _ => .ok ()

/-- What the environment does while one scenario runs. -/
structure Scene where
  announce : Except Exc Unit
  /-- `mkdtemp` -/
  profile : Except Exc Unit
  /-- `_pick_free_port` -/
  freePort : Except Exc Unit
  /-- `subprocess.Popen` -/
  launch : Except Exc Unit
  polls : List Poll
  /-- `time.sleep`, which an interrupt may end -/
  sleep : Except Exc Unit
  /-- Playwright attaches and opens the page -/
  attach : Except Exc Unit
  /-- its steps on the page -/
  steps : Except Exc Unit
  /-- `browser.close()` -/
  detach : Except Exc Unit
  ending : Ending
  /-- the whole profile could be removed -/
  removed : Bool
  announceBetween : Except Exc Unit
  /-- the pause before the next scenario -/
  pause : Except Exc Unit

/-- What the environment does during an audit. -/
structure Env where
  prepare : Except Exc Unit
  allowlist : FileRead
  announce : Except Exc Unit
  mitmdumpFound : Bool
  /-- `subprocess.Popen` of the proxy -/
  popen : Except Exc Unit
  polls : List Poll
  proxyEnding : Ending
  playwrightInstalled : Bool
  browserExists : Except Exc Bool
  announceBetween : Except Exc Unit
  scenes : ℕ → Scene
  flows : FileRead

/-! `capture.py` -/

/-- The turns end with the deadline. -/
def waitForPort : List Poll → Except Exc Unit
  | [] => .error .captureUnavailable
  | .exited :: _ => .error .captureUnavailable
  | .accepted :: _ => .ok ()
  | .refused :: polls => waitForPort polls

/-- `if proc.poll() is None: …`, as `stop_mitmdump` and `browser_process` both have it. -/
def stopProcess (p : Process) : Ending → Traced Act Exc Unit
  | .exited => act (.gone p)
  | .terminates => do
    act (.terminate p)
    act (.gone p)
  | .killed => do
    act (.terminate p)
    act (.kill p)
    act (.gone p)
  | .raises told e => do
    if told then act (.terminate p)
    ofExcept (.error e)

def stopMitmdump (env : Env) : Traced Act Exc Unit := stopProcess .proxy env.proxyEnding

def startMitmdump (env : Env) : Traced Act Exc Unit := do
  ofExcept (if env.mitmdumpFound then .ok () else .error .captureUnavailable)
  acting env.popen (.start .proxy)
  (ofExcept (waitForPort env.polls)).onError (stopMitmdump env)

/-! `driver.py` -/

def requirePlaywright (env : Env) : Except Exc Unit :=
  if env.playwrightInstalled then .ok () else .error .scenarioUnavailable

/-- Nothing is cleaned up before the browser has been launched. -/
def browserProcess (scene : Scene) (cdp : Bool) (body : Traced Act Exc Unit) :
    Traced Act Exc Unit := do
  acting scene.profile .makeProfile
  ofExcept (if cdp then scene.freePort else .ok ())
  acting scene.launch (.start .browser)
  (do
    ofExcept (if cdp then waitForPort scene.polls else .ok ())
    body).andFinally (do
      stopProcess .browser scene.ending
      act (.removeProfile scene.removed))

def cdpPage (env : Env) (scene : Scene) : Traced Act Exc Unit := do
  ofExcept (requirePlaywright env)
  browserProcess scene true (do
    ofExcept scene.attach
    (ofExcept scene.steps).andFinally (ofExcept scene.detach))

/-- `SCENARIOS[name](ctx)` -/
def scenarioBody (env : Env) (scene : Scene) (name : PyStr) : Traced Act Exc Unit :=
  match scenarios.lookup name with
  | none => ofExcept (.error (.python .keyError))
  | some .subprocess => browserProcess scene false (ofExcept scene.sleep)
  | some .playwright => cdpPage env scene

/-- One turn of the loop. -/
def runScene (env : Env) (scene : Scene) (name : PyStr) : Traced Act Exc Unit := do
  acting scene.announce (.announce name)
  (scenarioBody env scene name).andFinally (acting scene.announceBetween (.announce between))
  ofExcept scene.pause

def runFrom (env : Env) : ℕ → List PyStr → Traced Act Exc Unit
  | _, [] => pure ()
  | i, name :: names => do
    runScene env (env.scenes i) name
    runFrom env (i + 1) names

def runScenarios (env : Env) (names : List PyStr) : Traced Act Exc Unit := do
  ofExcept (if names.any fun name => (scenarios.lookup name).isNone then .error .scenarioUnavailable
    else .ok ())
  ofExcept (if names.any playwrightScenarios.contains then requirePlaywright env else .ok ())
  let found ← ofExcept env.browserExists
  ofExcept (if found then .ok () else .error .scenarioUnavailable)
  acting env.announceBetween (.announce between)
  runFrom env 0 names

/-! `audit.py` -/

/-- `try: x` / `except caught: return 2` -/
def returning {α : Type} (caught : Exc → Bool) (x : Traced Act Exc α) : Traced Act Exc (Option α) :=
  (x >>= fun a => pure (some a)).orReturn caught none

/-- The rest of `main`, unless it has returned. -/
def orTwo {α : Type} (x : Traced Act Exc (Option α)) (rest : α → Traced Act Exc ℕ) :
    Traced Act Exc ℕ := x >>= fun a => a.elim (pure 2) rest

/-- What `check_flows` makes of the dump. -/
def evaluateFlows (u : Unicode) (flows : FileRead) (allowlist : Json) : Except Exc (List Violation) :=
  evaluate u { Env.sample with flows := flows } allowlist

def main (u : Unicode) (env : Env) (names : List PyStr) : Traced Act Exc ℕ := do
  ofExcept env.prepare
  orTwo (returning allowlistCaught (ofExcept (loadAllowlist u env.allowlist))) fun allowlist => do
  acting env.announce (.announce unattributed)
  orTwo (returning proxyCaught (startMitmdump env)) fun _ =>
  orTwo ((returning driverCaught (runScenarios env names)).andFinally (stopMitmdump env)) fun _ => do
  act .readFlows
  orTwo (returning evaluationCaught (ofExcept (evaluateFlows u env.flows allowlist))) fun violations =>
  pure (if violations.isEmpty then 0 else 1)

/-! What is alive -/

/-- What an observer knows: what runs, for which scenario the browser was launched, what
the control file says, for which scenarios there has been a browser, and whether some of
its profile was not removed. -/
structure Life where
  proxy : Bool
  browser : Option PyStr
  profile : Bool
  active : Option PyStr
  launched : List PyStr
  remains : Bool

def Life.initial : Life := ⟨false, none, false, none, [], false⟩

def Life.alive (s : Life) : Process → Bool
  | .proxy => s.proxy
  | .browser => s.browser.isSome

/-- The discipline of the processes; `none` is a breach of it. The name in the control
file stays while a browser lives, a browser is launched under the name of a scenario,
behind the proxy and with a profile of its own, and the proxy outlives it. -/
def Life.step (s : Life) : Act → Option Life
  | .announce name => if s.browser = none then some { s with active := some name } else none
  | .start .proxy => if s.proxy = false ∧ s.browser = none then some { s with proxy := true } else none
  | .start .browser =>
    match s.active with
    | none => none
    | some name =>
      if s.proxy = true ∧ s.browser = none ∧ s.profile = true ∧ (scenarios.lookup name).isSome then
        some { s with browser := some name, launched := s.launched ++ [name] }
      else none
  | .terminate p | .kill p => if s.alive p then some s else none
  | .gone .proxy => if s.proxy = true ∧ s.browser = none then some { s with proxy := false } else none
  | .gone .browser => if s.browser.isSome then some { s with browser := none } else none
  | .makeProfile => if s.profile = false then some { s with profile := true } else none
  | .removeProfile complete =>
    if s.profile = true ∧ s.browser = none then
      some { s with profile := false, remains := s.remains || !complete }
    else none
  | .readFlows => if s.proxy = false ∧ s.browser = none then some s else none

/-- The browser of the scenario is not launched although its profile has been made. -/
def Scene.LaunchFails (scene : Scene) : Prop :=
  scene.profile = .ok () ∧ (scene.freePort ≠ .ok () ∨ scene.launch ≠ .ok ())

/-- What may become of one scenario `name`. -/
inductive Outcome (scene : Scene) (name : PyStr) (s : Life) : Except Exc Unit → Life → Prop
  | ran (r) : Outcome scene name s r
      { s with launched := s.launched ++ [name], remains := s.remains || !scene.removed }
  | unstarted (e) : Outcome scene name s (.error e) s
  | leaked (e) (h : scene.LaunchFails) : Outcome scene name s (.error e) { s with profile := true }

/-- What a run of scenarios from position `i` on leaves behind. -/
structure Ran (env : Env) (i : ℕ) (names : List PyStr) (s : Life) (r : Except Exc Unit) (s' : Life) :
    Prop where
  proxy : s'.proxy = true
  browser : s'.browser = none
  profile : s'.profile = true → ∃ j < names.length, (env.scenes (i + j)).LaunchFails
  remains : s'.remains = true → s.remains = true ∨ ∃ j < names.length, (env.scenes (i + j)).removed = false
  launched : ∃ k, s'.launched = s.launched ++ names.take k
  complete : r = .ok () → s'.launched = s.launched ++ names ∧ s'.profile = false ∧ s'.active = some between

/-- An audit that is over: nothing runs, and only where a browser could not be launched or
removing its profile failed is a profile directory left. A verdict, which is a 0 or 1 that
`main` returns, has seen a browser for every scenario. -/
structure Over (env : Env) (names : List PyStr) (r : Except Exc ℕ) (s : Life) : Prop where
  proxy : s.proxy = false
  browser : s.browser = none
  profile : s.profile = true → ∃ i < names.length, (env.scenes i).LaunchFails
  remains : s.remains = true → ∃ i < names.length, (env.scenes i).removed = false
  launched : ∃ k, s.launched = names.take k
  verdict : r = .ok 0 ∨ r = .ok 1 →
    s.launched = names ∧ s.profile = false ∧ s.active = some between

/-- Stopping the proxy and the browsers of `n` scenarios raises nothing. -/
structure Env.Stops (env : Env) (n : ℕ) : Prop where
  proxy : env.proxyEnding.outcome = .ok ()
  browsers : ∀ i < n, (env.scenes i).ending.outcome = .ok ()

section
variable {env : Env} {scene : Scene} {name : PyStr} {s : Life} {u : Unicode}

lemma Life.step_terminate {p : Process} (h : s.alive p = true) :
    s.step (.terminate p) = some s ∧ s.step (.kill p) = some s := by
  cases p <;> simp [Life.step, h]

/-- However the process ends, it is gone. -/
lemma sat_stopProcess {p : Process} {e : Ending} {t : Life} {Q : Except Exc Unit → Life → Prop}
    (hstops : e.outcome = .ok ()) (halive : s.alive p = true) (hgone : s.step (.gone p) = some t)
    (h : Q (.ok ()) t) : Sat Life.step s (stopProcess p e) Q := by
  obtain ⟨hterm, hkill⟩ := Life.step_terminate halive
  cases e with
  | exited => exact sat_act hgone h
  | terminates => exact sat_act_bind hterm (sat_act hgone h)
  | killed => exact sat_act_bind hterm (sat_act_bind hkill (sat_act hgone h))
  | raises told e => cases hstops

/-- A body that does nothing others can see. -/
def Silent (body : Traced Act Exc Unit) : Prop := body.trace = []

lemma Silent.sat {body : Traced Act Exc Unit} (h : Silent body) {Q : Except Exc Unit → Life → Prop}
    (hQ : ∀ r, Q r s) : Sat Life.step s body Q := by
  refine ⟨s, ?_, hQ _⟩
  rw [h]
  rfl

/-- `browser_process`, whatever the steps within it come to. -/
lemma sat_browserProcess {cdp : Bool} {body : Traced Act Exc Unit} (hbody : Silent body)
    (hstops : scene.ending.outcome = .ok ()) (hproxy : s.proxy = true) (hbrowser : s.browser = none) (hprofile : s.profile = false)
    (hactive : s.active = some name) (hknown : (scenarios.lookup name).isSome = true) :
    Sat Life.step s (browserProcess scene cdp body) (Outcome scene name s) := by
  obtain ⟨proxy, browser, profile, active, launched, remains⟩ := s
  obtain rfl : proxy = true := hproxy
  obtain rfl : browser = none := hbrowser
  obtain rfl : profile = false := hprofile
  obtain rfl : active = some name := hactive
  refine sat_acting_bind rfl (fun hmade => ?_) fun e _ => .unstarted e
  refine sat_ofExcept_bind (fun _ hport => ?_) fun e hport => ?_
  · refine sat_acting_bind (t := ⟨true, some name, true, some name, launched ++ [name], remains⟩) ?_
      (fun hlaunch => ?_) fun e hlaunch => ?_
    · simp [Life.step, hknown]
    · refine Sat.andFinally
        (R := fun _ t => t = ⟨true, some name, true, some name, launched ++ [name], remains⟩) ?_ ?_
      · exact sat_ofExcept_bind (fun _ _ => hbody.sat fun _ => rfl) fun _ _ => rfl
      · rintro r t rfl
        refine Sat.bind (R := fun r' t => r' = .ok () ∧
          t = ⟨true, none, true, some name, launched ++ [name], remains⟩) ?_ ?_ ?_
        · exact sat_stopProcess hstops rfl rfl ⟨rfl, rfl⟩
        · rintro _ t ⟨-, rfl⟩
          exact sat_act rfl (.ran _)
        · rintro e t ⟨he, -⟩
          cases he
    · exact .leaked e ⟨hmade, Or.inr (by rw [hlaunch]; exact nofun)⟩
  · cases cdp with
    | false => cases hport
    | true => exact .leaked e ⟨hmade, Or.inl (by rw [show scene.freePort = .error e from hport]; exact nofun)⟩

lemma sat_scenarioBody (hstops : scene.ending.outcome = .ok ()) (hproxy : s.proxy = true) (hbrowser : s.browser = none)
    (hprofile : s.profile = false) (hactive : s.active = some name)
    (hknown : (scenarios.lookup name).isSome = true) :
    Sat Life.step s (scenarioBody env scene name) (Outcome scene name s) := by
  unfold scenarioBody
  cases hdrive : scenarios.lookup name with
  | none =>
    rw [hdrive] at hknown
    cases hknown
  | some drive =>
    cases drive with
    | subprocess => exact sat_browserProcess rfl hstops hproxy hbrowser hprofile hactive hknown
    | playwright =>
      refine sat_ofExcept_bind (fun _ _ => ?_) fun e _ => .unstarted e
      refine sat_browserProcess ?_ hstops hproxy hbrowser hprofile hactive hknown
      cases scene.attach <;> rfl

/-- Nothing has been launched yet. -/
lemma Ran.refl {i : ℕ} {names : List PyStr} (e : Exc) (hproxy : s.proxy = true)
    (hbrowser : s.browser = none) (hprofile : s.profile = false) :
    Ran env i names s (.error e) s where
  proxy := hproxy
  browser := hbrowser
  profile h := by
    rw [hprofile] at h
    cases h
  remains := Or.inl
  launched := ⟨0, by simp⟩
  complete h := nomatch h

lemma Ran.fails {i : ℕ} {names : List PyStr} {t : Life} {r : Except Exc Unit} (e : Exc)
    (h : Ran env i names s r t) : Ran env i names s (.error e) t :=
  ⟨h.proxy, h.browser, h.profile, h.remains, h.launched, nofun⟩

/-- An outcome once the control file says `a`, for a scene that ends in `r'`. -/
lemma Outcome.ended {i : ℕ} {t : Life} {r r' : Except Exc Unit} {a b : Option PyStr}
    (h : Outcome (env.scenes i) name { s with active := b } r t) (hproxy : s.proxy = true)
    (hbrowser : s.browser = none) (hprofile : s.profile = false)
    (hr : r' = .ok () → r = .ok () ∧ a = some between) :
    Ran env i [name] s r' { t with active := a } := by
  cases h with
  | ran r =>
    refine ⟨hproxy, hbrowser, fun h => ?_, fun h => ?_, ⟨1, rfl⟩, fun h => ⟨rfl, hprofile, (hr h).2⟩⟩
    · rw [show s.profile = true from h] at hprofile
      cases hprofile
    · rcases Bool.or_eq_true _ _ ▸ h with hs | hleft
      · exact Or.inl hs
      · exact Or.inr ⟨0, Nat.one_pos, by simpa using hleft⟩
  | unstarted e =>
    refine ⟨hproxy, hbrowser, fun h => ?_, Or.inl, ⟨0, by simp⟩, fun h => nomatch (hr h).1⟩
    rw [show s.profile = true from h] at hprofile
    cases hprofile
  | leaked e hfails =>
    exact ⟨hproxy, hbrowser, fun _ => ⟨0, Nat.one_pos, hfails⟩, Or.inl, ⟨0, by simp⟩,
      fun h => nomatch (hr h).1⟩

lemma Outcome.browser {t : Life} {r : Except Exc Unit} (h : Outcome scene name s r t)
    (hbrowser : s.browser = none) : t.browser = none := by
  cases h <;> exact hbrowser

variable (env) in
/-- The name is withdrawn whatever the scenario came to. -/
lemma sat_runScene (i : ℕ) (hstops : (env.scenes i).ending.outcome = .ok ()) (hproxy : s.proxy = true) (hbrowser : s.browser = none)
    (hprofile : s.profile = false) (hknown : (scenarios.lookup name).isSome = true) :
    Sat Life.step s (runScene env (env.scenes i) name) (Ran env i [name] s) := by
  refine sat_acting_bind (t := { s with active := some name }) ?_ (fun _ => ?_) fun e _ => ?_
  · simp [Life.step, hbrowser]
  · refine Sat.bind (R := Ran env i [name] s) ?_ (fun _ t ht => ?_) fun e t ht => ht
    · refine Sat.andFinally (R := Outcome (env.scenes i) name { s with active := some name })
        (sat_scenarioBody hstops hproxy hbrowser hprofile rfl hknown) fun r t ht => ?_
      refine sat_acting (t := { t with active := some between }) ?_ ?_ fun e _ => ?_
      · simp [Life.step, ht.browser hbrowser]
      · exact ht.ended hproxy hbrowser hprofile fun h => ⟨h, rfl⟩
      · exact ht.ended (a := t.active) hproxy hbrowser hprofile nofun
    · refine sat_ofExcept ?_
      cases (env.scenes i).pause with
      | ok _ => exact ht
      | error e => exact ht.fails e
  · exact .refl e hproxy hbrowser hprofile

lemma Ran.remains_head {i : ℕ} {names : List PyStr} {t : Life} {r : Except Exc Unit}
    (h : Ran env i [name] s r t) (hp : t.remains = true) : s.remains = true ∨
      ∃ j < (name :: names).length, (env.scenes (i + j)).removed = false := by
  rcases h.remains hp with hs | ⟨j, hj, hleft⟩
  · exact Or.inl hs
  · exact Or.inr ⟨j, hj.trans_le (by simp), hleft⟩

/-- A run goes on where its first scenario has ended. -/
lemma Ran.cons {i : ℕ} {names : List PyStr} {t t' : Life} {r : Except Exc Unit}
    (h : Ran env i [name] s (.ok ()) t) (h' : Ran env (i + 1) names t r t') :
    Ran env i (name :: names) s r t' := by
  obtain ⟨hlaunched, -, -⟩ := h.complete rfl
  have hshift : ∀ j, i + (j + 1) = i + 1 + j := fun j => by omega
  refine ⟨h'.proxy, h'.browser, fun hp => ?_, fun hp => ?_, ?_, fun hr => ?_⟩
  · obtain ⟨j, hj, hfails⟩ := h'.profile hp
    exact ⟨j + 1, Nat.succ_lt_succ hj, hshift j ▸ hfails⟩
  · rcases h'.remains hp with hp | ⟨j, hj, hleft⟩
    · exact h.remains_head hp
    · exact Or.inr ⟨j + 1, Nat.succ_lt_succ hj, hshift j ▸ hleft⟩
  · obtain ⟨k, hk⟩ := h'.launched
    refine ⟨k + 1, ?_⟩
    rw [hk, hlaunched, List.take_succ_cons, List.append_assoc]
    rfl
  · obtain ⟨hl, hrest⟩ := h'.complete hr
    refine ⟨?_, hrest⟩
    rw [hl, hlaunched, List.append_assoc]
    rfl

lemma Ran.stops {i : ℕ} {names : List PyStr} {t : Life} {e : Exc}
    (h : Ran env i [name] s (.error e) t) : Ran env i (name :: names) s (.error e) t := by
  refine ⟨h.proxy, h.browser, fun hp => ?_, h.remains_head, ?_, nofun⟩
  · obtain ⟨j, hj, hfails⟩ := h.profile hp
    exact ⟨j, hj.trans_le (by simp), hfails⟩
  · obtain ⟨k, hk⟩ := h.launched
    refine ⟨min k 1, hk.trans (congrArg _ ?_)⟩
    cases k with
    | zero => rfl
    | succ k => simp

lemma sat_runFrom {i : ℕ} {names : List PyStr}
    (hstops : ∀ j < names.length, (env.scenes (i + j)).ending.outcome = .ok ()) (hproxy : s.proxy = true) (hbrowser : s.browser = none)
    (hprofile : s.profile = false) (hactive : s.active = some between)
    (hknown : ∀ name ∈ names, (scenarios.lookup name).isSome = true) :
    Sat Life.step s (runFrom env i names) (Ran env i names s) := by
  induction names generalizing i s with
  | nil =>
    refine sat_pure ⟨hproxy, hbrowser, fun h => ?_, Or.inl, ⟨0, by simp⟩,
      fun _ => ⟨by simp, hprofile, hactive⟩⟩
    rw [hprofile] at h
    cases h
  | cons name names ih =>
    have hhead := sat_runScene env i (hstops 0 (Nat.succ_pos _)) hproxy hbrowser hprofile
      (hknown name List.mem_cons_self)
    have hrest : ∀ j < names.length, (env.scenes (i + 1 + j)).ending.outcome = .ok () := by
      intro j hj
      rw [show i + 1 + j = i + (j + 1) by omega]
      exact hstops (j + 1) (Nat.succ_lt_succ hj)
    refine hhead.bind (fun _ t ht => ?_) fun e t ht => ht.stops
    obtain ⟨-, hp, ha⟩ := ht.complete rfl
    exact (ih hrest ht.proxy ht.browser hp ha fun n hn => hknown n (List.mem_cons_of_mem _ hn)).imp
      fun r t' ht' => ht.cons ht'

lemma sat_runScenarios {names : List PyStr}
    (hstops : ∀ i < names.length, (env.scenes i).ending.outcome = .ok ()) (hproxy : s.proxy = true) (hbrowser : s.browser = none)
    (hprofile : s.profile = false) :
    Sat Life.step s (runScenarios env names) (Ran env 0 names s) := by
  refine sat_ofExcept_bind (fun _ hknown => ?_) fun e _ => .refl e hproxy hbrowser hprofile
  refine sat_ofExcept_bind (fun _ _ => ?_) fun e _ => .refl e hproxy hbrowser hprofile
  refine sat_ofExcept_bind (fun _ _ => ?_) fun e _ => .refl e hproxy hbrowser hprofile
  refine sat_ofExcept_bind (fun _ _ => ?_) fun e _ => .refl e hproxy hbrowser hprofile
  refine sat_acting_bind (t := { s with active := some between }) ?_ (fun _ => ?_) fun e _ =>
    .refl e hproxy hbrowser hprofile
  · simp [Life.step, hbrowser]
  · have hall : ∀ name ∈ names, (scenarios.lookup name).isSome = true := by
      intro name hname
      split_ifs at hknown with hany
      rw [Option.isSome_iff_ne_none]
      intro hnone
      exact hany (List.any_eq_true.mpr ⟨name, hname, by rw [hnone]; rfl⟩)
    have hrun : Sat Life.step { s with active := some between } (runFrom env 0 names) _ :=
      sat_runFrom (by simpa using hstops) hproxy hbrowser hprofile rfl hall
    exact hrun.imp fun r t ht =>
      ⟨ht.proxy, ht.browser, ht.profile, ht.remains, ht.launched, ht.complete⟩

/-- Once `startMitmdump` has returned the proxy runs; if it raises it does not. -/
lemma sat_startMitmdump (hstops : env.proxyEnding.outcome = .ok ()) (hproxy : s.proxy = false) (hbrowser : s.browser = none) :
    Sat Life.step s (startMitmdump env) fun r t =>
      t = match r with
        | .ok _ => { s with proxy := true }
        | .error _ => s := by
  obtain ⟨proxy, browser, profile, active, launched, remains⟩ := s
  obtain rfl : proxy = false := hproxy
  obtain rfl : browser = none := hbrowser
  refine sat_ofExcept_bind (fun _ _ => ?_) fun e _ => rfl
  refine sat_acting_bind (t := ⟨true, none, profile, active, launched, remains⟩) rfl (fun _ => ?_)
    fun e _ => rfl
  refine Sat.onError (R := fun _ t => t = ⟨true, none, profile, active, launched, remains⟩)
    (sat_ofExcept rfl) (fun _ t ht => ht) ?_
  rintro e t rfl
  exact sat_stopProcess (t := ⟨false, none, profile, active, launched, remains⟩) hstops rfl rfl rfl

/-! The whole audit -/

lemma Sat.returning {α : Type} {caught : Exc → Bool} {x : Traced Act Exc α}
    {R : Except Exc α → Life → Prop} {Q : Except Exc (Option α) → Life → Prop}
    (h : Sat Life.step s x R) (hok : ∀ a t, R (.ok a) t → Q (.ok (some a)) t)
    (hcaught : ∀ e t, R (.error e) t → Q (.ok none) t)
    (herror : ∀ e t, R (.error e) t → Q (.error e) t) : Sat Life.step s (returning caught x) Q := by
  have hsome : Sat Life.step s (x >>= fun a => pure (some a)) fun r t =>
      (∃ a, r = .ok (some a) ∧ R (.ok a) t) ∨ ∃ e, r = .error e ∧ R (.error e) t :=
    h.bind (fun a t ht => sat_pure (Or.inl ⟨a, rfl, ht⟩)) fun e t ht => Or.inr ⟨e, rfl, ht⟩
  refine hsome.orReturn ?_ ?_ ?_
  · rintro a t (⟨a', ha, ht⟩ | ⟨e, he, -⟩)
    · cases ha
      exact hok a' t ht
    · cases he
  · rintro e t (⟨a', ha, -⟩ | ⟨e', he, ht⟩) -
    · cases ha
    · exact hcaught e' t ht
  · rintro e t (⟨a', ha, -⟩ | ⟨e', he, ht⟩) -
    · cases ha
    · cases he
      exact herror e t ht

lemma Sat.orTwo {α : Type} {x : Traced Act Exc (Option α)} {rest : α → Traced Act Exc ℕ}
    {R : Except Exc (Option α) → Life → Prop} {Q : Except Exc ℕ → Life → Prop}
    (h : Sat Life.step s x R) (hsome : ∀ a t, R (.ok (some a)) t → Sat Life.step t (rest a) Q)
    (hnone : ∀ t, R (.ok none) t → Q (.ok 2) t) (herror : ∀ e t, R (.error e) t → Q (.error e) t) :
    Sat Life.step s (orTwo x rest) Q := by
  refine h.bind (fun a t ht => ?_) herror
  cases a with
  | none => exact sat_pure (hnone t ht)
  | some a => exact hsome a t ht

/-- Nothing has been started. -/
lemma Over.unstarted {names : List PyStr} {a : Option PyStr} {r : Except Exc ℕ}
    (hr : r ≠ .ok 0 ∧ r ≠ .ok 1) : Over env names r ⟨false, none, false, a, [], false⟩ where
  proxy := rfl
  browser := rfl
  profile h := nomatch h
  remains h := nomatch h
  launched := ⟨0, rfl⟩
  verdict h := (h.elim hr.1 hr.2).elim

/-- The proxy is stopped after the scenarios. -/
lemma Ran.over {names : List PyStr} {t : Life} {r : Except Exc Unit} {r' : Except Exc ℕ}
    {a : Option PyStr} (h : Ran env 0 names ⟨true, none, false, a, [], false⟩ r t)
    (hr : r' = .ok 0 ∨ r' = .ok 1 → r = .ok ()) : Over env names r' { t with proxy := false } := by
  refine ⟨rfl, h.browser, fun hp => ?_, fun hp => ?_, ?_, fun hv => ?_⟩
  · obtain ⟨j, hj, hfails⟩ := h.profile hp
    rw [Nat.zero_add] at hfails
    exact ⟨j, hj, hfails⟩
  · rcases h.remains hp with hp | ⟨j, hj, hleft⟩
    · cases hp
    · rw [Nat.zero_add] at hleft
      exact ⟨j, hj, hleft⟩
  · obtain ⟨k, hk⟩ := h.launched
    exact ⟨k, hk⟩
  · exact h.complete (hr hv)

lemma sat_stopMitmdump (hstops : env.proxyEnding.outcome = .ok ()) (hproxy : s.proxy = true) (hbrowser : s.browser = none)
    {Q : Except Exc Unit → Life → Prop} (h : Q (.ok ()) { s with proxy := false }) :
    Sat Life.step s (stopMitmdump env) Q :=
  sat_stopProcess hstops hproxy (by simp [Life.step, hproxy, hbrowser]) h

/-- The proxy runs once `startMitmdump` has returned, and not if it raised. -/
def proxied (active : Option PyStr) : Except Exc (Option Unit) → Life
  | .ok (some _) => ⟨true, none, false, active, [], false⟩
  | _ => ⟨false, none, false, active, [], false⟩

/-- The scenarios and the `finally` after them. -/
lemma sat_drive {names : List PyStr} {a : Option PyStr} (hstops : env.Stops names.length) :
    Sat Life.step ⟨true, none, false, a, [], false⟩
      ((returning driverCaught (runScenarios env names)).andFinally (stopMitmdump env)) fun r t =>
        (∀ u, r = .ok (some u) → ∀ r', Over env names r' t) ∧
          ∀ r', r' ≠ .ok 0 ∧ r' ≠ .ok 1 → Over env names r' t := by
  have hrun : Sat Life.step ⟨true, none, false, a, [], false⟩ (runScenarios env names)
      (Ran env 0 names ⟨true, none, false, a, [], false⟩) :=
    sat_runScenarios hstops.browsers rfl rfl rfl
  refine Sat.andFinally (R := fun r t => ∃ r₀, Ran env 0 names ⟨true, none, false, a, [], false⟩ r₀ t ∧
    ∀ u, r = .ok (some u) → r₀ = .ok ()) ?_ ?_
  · exact Sat.returning hrun (fun u t ht => ⟨_, ht, fun _ _ => rfl⟩) (fun e t ht => ⟨_, ht, nofun⟩)
      fun e t ht => ⟨_, ht, nofun⟩
  · rintro r t ⟨r₀, ht, hr₀⟩
    exact sat_stopMitmdump hstops.proxy ht.proxy ht.browser ⟨fun u hu r' => ht.over fun _ => hr₀ u hu,
      fun r' hr' => ht.over fun h => (h.elim hr'.1 hr'.2).elim⟩

/-- On every path through an audit in which stopping a process raises nothing, whatever else
fails and interrupts it: the control file keeps its name while a browser lives, one browser
lives at a time, behind the proxy, under the name of its scenario and with a profile of its
own; when the audit is over none of its processes is left, and a verdict has had a browser for
every scenario in its order. -/
theorem audit_lifecycle (u : Unicode) (env : Env) (names : List PyStr) (hstops : env.Stops names.length) :
    Sat Life.step .initial (main u env names) (Over env names) := by
  have hinit : Life.initial = ⟨false, none, false, none, [], false⟩ := rfl
  have hover : ∀ {a : Option PyStr} (e : Exc), Over env names (.error e) ⟨false, none, false, a, [], false⟩ :=
    fun e => .unstarted ⟨nofun, nofun⟩
  have htwo : ∀ {a : Option PyStr}, Over env names (.ok 2) ⟨false, none, false, a, [], false⟩ :=
    .unstarted ⟨by simp, by simp⟩
  rw [hinit]
  refine sat_ofExcept_bind (fun _ _ => ?_) fun e _ => hover e
  refine Sat.orTwo (R := fun _ t => t = ⟨false, none, false, none, [], false⟩) ?_ ?_ ?_ ?_
  · exact Sat.returning (R := fun _ t => t = ⟨false, none, false, none, [], false⟩) (sat_ofExcept rfl)
      (fun _ _ h => h) (fun _ _ h => h) fun _ _ h => h
  · rintro allowlist t rfl
    refine sat_acting_bind (t := ⟨false, none, false, some unattributed, [], false⟩) rfl (fun _ => ?_)
      fun e _ => hover e
    refine Sat.orTwo (R := fun r t => t = proxied (some unattributed) r) ?_ ?_ ?_ ?_
    · exact Sat.returning (sat_startMitmdump hstops.proxy rfl rfl) (fun _ _ h => h) (fun _ _ h => h) fun _ _ h => h
    · rintro _ t rfl
      refine Sat.orTwo (sat_drive hstops) ?_ ?_ ?_
      · intro _ t ht
        have hover := ht.1 _ rfl
        refine sat_act_bind (t := t) ?_ ?_
        · simp [Life.step, (hover (.ok 0)).proxy, (hover (.ok 0)).browser]
        · refine Sat.orTwo (R := fun _ t' => t' = t) ?_ ?_ ?_ ?_
          · exact Sat.returning (R := fun _ t' => t' = t) (sat_ofExcept rfl) (fun _ _ h => h)
              (fun _ _ h => h) fun _ _ h => h
          · rintro _ t rfl
            exact sat_pure (hover _)
          · rintro t rfl
            exact hover _
          · rintro e t rfl
            exact hover _
      · intro t ht
        exact ht.2 _ ⟨by simp, by simp⟩
      · intro e t ht
        exact ht.2 _ ⟨nofun, nofun⟩
    · rintro t rfl
      exact htwo
    · rintro e t rfl
      exact hover e
  · rintro t rfl
    exact htwo
  · rintro e t rfl
    exact hover e

def Scene.sample : Scene where
  announce := .ok ()
  profile := .ok ()
  freePort := .ok ()
  launch := .ok ()
  polls := [.refused, .accepted]
  sleep := .ok ()
  attach := .ok ()
  steps := .ok ()
  detach := .ok ()
  ending := .terminates
  removed := true
  announceBetween := .ok ()
  pause := .ok ()

/-- The first browser has to be killed, and the system starts no second one. -/
def sampleAudit : Env where
  prepare := .ok ()
  allowlist := Env.sample.allowlist
  announce := .ok ()
  mitmdumpFound := true
  popen := .ok ()
  polls := [.accepted]
  proxyEnding := .terminates
  playwrightInstalled := true
  browserExists := .ok true
  announceBetween := .ok ()
  scenes i := if i = 0 then { Scene.sample with ending := .killed, removed := false }
    else { Scene.sample with launch := .error .osError }
  flows := Env.sample.flows

theorem sampleAudit_lifecycle :
    (main .ascii sampleAudit [.ofString "idle", .ofString "settings"]).result = .error .osError ∧
      Sat Life.step .initial (main .ascii sampleAudit [.ofString "idle", .ofString "settings"])
        (Over sampleAudit [.ofString "idle", .ofString "settings"]) := by
  have hstops : sampleAudit.Stops 2 := by
    refine ⟨rfl, fun i _ => ?_⟩
    cases i <;> rfl
  exact ⟨by decide +kernel, audit_lifecycle .ascii sampleAudit _ hstops⟩

/-! How an audit ends -/

/-- The scene as far as it decides how the scenario ends. -/
def Scene.coarse (scene : Scene) (name : PyStr) : Audit.Scene where
  announce := scene.announce
  profile := scene.profile >>= fun _ =>
    if scenarios.lookup name = some .playwright then scene.freePort else .ok ()
  launch := scene.launch
  portOpens := match waitForPort scene.polls with
    | .ok _ => true
    | .error _ => false
  sleep := scene.sleep
  steps := scene.attach >>= fun _ => scene.detach >>= fun _ => scene.steps
  browserRunning := scene.ending ≠ .exited
  stop := scene.ending.outcome
  announceBetween := scene.announceBetween
  pause := scene.pause

def Env.coarse (env : Env) (names : List PyStr) : Audit.Env where
  prepare := env.prepare
  allowlist := env.allowlist
  announce := env.announce
  startMitmdump := (startMitmdump env).result
  playwrightInstalled := env.playwrightInstalled
  browserExists := env.browserExists
  announceBetween := env.announceBetween
  scenes i := (env.scenes i).coarse (names.getD i [])
  proxyRunning := env.proxyEnding ≠ .exited
  stopMitmdump := env.proxyEnding.outcome
  flows := env.flows

@[simp] lemma result_stopProcess (p : Process) (e : Ending) : (stopProcess p e).result = e.outcome := by
  cases e with
  | raises told e => cases told <;> rfl
  | _ => rfl

lemma waitForPort_error {polls : List Poll} {e : Exc} (h : waitForPort polls = .error e) :
    e = .captureUnavailable := by
  induction polls with
  | nil => exact (Except.error.inj h).symm
  | cons poll polls ih =>
    cases poll with
    | exited => exact (Except.error.inj h).symm
    | refused => exact ih h
    | accepted => cases h

lemma result_browserProcess (cdp : Bool) (body : Traced Act Exc Unit) :
    (browserProcess scene cdp body).result = scene.profile >>= fun _ =>
      (if cdp then scene.freePort else .ok ()) >>= fun _ => scene.launch >>= fun _ =>
        scene.ending.outcome >>= fun _ =>
          (if cdp then waitForPort scene.polls else .ok ()) >>= fun _ => body.result := by
  simp only [browserProcess, result_bind, result_acting, result_ofExcept, result_andFinally,
    result_stopProcess, result_act]
  cases scene.ending.outcome <;> rfl

lemma result_scenarioBody (names : List PyStr) :
    (scenarioBody env scene name).result =
      Audit.scenarioBody (env.coarse names) (scene.coarse name) name := by
  unfold scenarioBody Audit.scenarioBody
  cases hdrive : scenarios.lookup name with
  | none => rfl
  | some drive =>
    cases drive with
    | subprocess =>
      simp only [result_browserProcess, result_ofExcept, Audit.browserProcess, andFinally, Scene.coarse,
        hdrive]
      cases scene.profile <;> cases scene.launch <;> cases scene.ending.outcome <;> rfl
    | playwright =>
      have hrequire : requirePlaywright env = Audit.requirePlaywright (env.coarse names) := rfl
      simp only [cdpPage, result_bind, result_ofExcept, result_browserProcess, result_andFinally,
        hrequire, Audit.browserProcess, andFinally, Scene.coarse, hdrive, if_true]
      refine congrArg _ (funext fun _ => ?_)
      cases scene.profile with
      | error e => rfl
      | ok _ =>
        cases scene.freePort with
        | error e => rfl
        | ok _ =>
          cases scene.launch with
          | error e => rfl
          | ok _ =>
            cases scene.ending.outcome with
            | error e => rfl
            | ok _ =>
              cases hport : waitForPort scene.polls with
              | ok _ => rfl
              | error e =>
                rw [waitForPort_error hport]
                rfl

lemma result_runScene (names : List PyStr) :
    (runScene env scene name).result =
      (Audit.runScene (env.coarse names) (scene.coarse name) name).2 := by
  simp only [runScene, result_bind, result_acting, result_andFinally, result_ofExcept,
    result_scenarioBody names, Audit.runScene]
  rw [show (scene.coarse name).announce = scene.announce from rfl,
    show (scene.coarse name).announceBetween = scene.announceBetween from rfl,
    show (scene.coarse name).pause = scene.pause from rfl]
  cases scene.announce with
  | error e => rfl
  | ok _ =>
    cases scene.announceBetween with
    | error e => rfl
    | ok _ => cases Audit.scenarioBody (env.coarse names) (scene.coarse name) name <;> rfl

lemma result_runFrom (all : List PyStr) {i : ℕ} {names : List PyStr} (h : names = all.drop i) :
    (runFrom env i names).result = (Audit.runFrom (env.coarse all) i names).2 := by
  induction names generalizing i with
  | nil => rfl
  | cons name names ih =>
    have hname : all.getD i [] = name := by
      rw [List.getD_eq_getElem?_getD, ← List.head?_drop, ← h]
      rfl
    have hrest : names = all.drop (i + 1) := by
      rw [← List.tail_drop, ← h]
      rfl
    have hscene : (env.coarse all).scenes i = (env.scenes i).coarse name := by
      rw [← hname]
      rfl
    simp only [runFrom, result_bind, result_runScene all, ih hrest, Audit.runFrom, hscene]
    cases (Audit.runScene (env.coarse all) ((env.scenes i).coarse name) name).2 <;> rfl

lemma result_runScenarios (names : List PyStr) :
    (runScenarios env names).result = (Audit.runScenarios (env.coarse names) names).2 := by
  have hrun : (runFrom env 0 names).result = _ := result_runFrom names rfl
  simp only [runScenarios, result_bind, result_ofExcept, result_acting, hrun, Audit.runScenarios]
  rw [show (env.coarse names).playwrightInstalled = env.playwrightInstalled from rfl,
    show (env.coarse names).browserExists = env.browserExists from rfl,
    show (env.coarse names).announceBetween = env.announceBetween from rfl]
  cases names.any fun name => (scenarios.lookup name).isNone with
  | true => rfl
  | false =>
    have hplaywright : (fun name => decide (name ∈ playwrightScenarios)) = playwrightScenarios.contains :=
      funext fun name => (List.contains_eq_mem name playwrightScenarios).symm
    rw [hplaywright]
    cases names.any playwrightScenarios.contains <;> cases hp : env.playwrightInstalled <;>
      rcases env.browserExists with _ | _ | _ <;> cases env.announceBetween <;>
      simp [requirePlaywright, hp] <;> rfl

lemma result_returning {α : Type} (caught : Exc → Bool) (x : Traced Act Exc α)
    (rest : α → Traced Act Exc ℕ) :
    (orTwo (returning caught x) rest).result =
      guarded caught x.result fun a => (rest a).result := by
  simp only [orTwo, returning, result_bind, result_orReturn, result_pure]
  cases x.result with
  | ok a => rfl
  | error e => cases h : caught e <;> simp [Bind.bind, Except.bind, guarded, h]

lemma result_returning_finally {α : Type} (caught : Exc → Bool) (x : Traced Act Exc α)
    (rest : α → Traced Act Exc ℕ) :
    (orTwo ((returning caught x).andFinally (stopMitmdump env)) rest).result =
      guarded (fun _ => false) env.proxyEnding.outcome fun _ =>
        guarded caught x.result fun a => (rest a).result := by
  simp only [← result_returning, orTwo, result_bind, result_andFinally, stopMitmdump,
    result_stopProcess]
  cases env.proxyEnding.outcome <;> rfl

/-- The audit ends as its coarser account says. -/
theorem result_main (u : Unicode) (env : Env) (names : List PyStr) :
    (main u env names).result = Audit.main u (env.coarse names) names := by
  have hrun : (runScenarios env names).result = _ := result_runScenarios names
  simp only [main, Audit.main, result_bind, result_ofExcept, result_returning, result_acting,
    result_returning_finally, hrun, result_act, result_pure]
  rw [show (env.coarse names).prepare = env.prepare from rfl]
  cases env.prepare with
  | error e => rfl
  | ok _ =>
    refine congrArg (guarded allowlistCaught _) (funext fun allowlist => ?_)
    rw [show (env.coarse names).announce = env.announce from rfl]
    cases env.announce with
    | error e => rfl
    | ok _ => rfl

end

end T3dmium.Audit.Live
