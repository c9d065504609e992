import T3dmium.AtomicWrite
import T3dmium.Attribution
import T3dmium.JsonIndent

/-! The files of a running audit. The capture addon dumps its records after every request, and the
driver announces scenarios, each in a process of its own that may fail or be killed at any step of a
write. -/
namespace T3dmium.Audit

inductive AuditFile
  | flows
  | scenario
  deriving DecidableEq

/-- What `announce_scenario` writes, if it can be encoded. -/
def announcement (scenario : PyStr) : Option Bytes :=
  (announceScenario scenario).toText.map encodeUtf8

/-- `read_scenario`; `readable` is false where reading raises `OSError`. -/
def readControl (d : Directory AuditFile UInt8) (readable : Bool) : Except PyError PyStr :=
  match if readable then d (.file .scenario) else none with
  | none => .ok (readScenario none)
  | some bytes =>
    match String.fromUTF8? ⟨bytes.toArray⟩ with
    | some text => .ok (readScenario (some (.ofString text)))
    | none => .error .valueError

def flowsDocument (flows : List Json) : Json := .object [("flows", .list flows)]

/-- What `_dump` writes. -/
def flowsText (floatRepr : PyFloat → FloatText) (flows : List Json) : Bytes :=
  dumpsIndent floatRepr 0 (flowsDocument flows) ++ [10]

inductive Hook
  | running
  | request
  | done
  deriving DecidableEq

/-- The process of `mitmdump`. -/
structure CaptureAddon where
  flows : List Json
  /-- the hook under way, which is in its `_dump` -/
  dump : Option (Hook × Stage)
  /-- `running` has returned -/
  up : Bool
  /-- the records whose `request` has returned, by their position in `flows` -/
  returned : List ℕ
  killed : Bool

structure Driver where
  announced : List PyStr
  /-- the announcement under way -/
  publish : Option (PyStr × Stage)
  /-- an announcement has returned -/
  told : Bool
  killed : Bool

structure System where
  directory : Directory AuditFile UInt8
  addon : CaptureAddon
  driver : Driver

inductive Event
  | running
  | request (r : Request) (readable : Bool)
  | done
  | dump (io : Io)
  | killAddon
  | announce (scenario : PyStr)
  | publish (io : Io)
  | killDriver

def System.start (d : Directory AuditFile UInt8) : System :=
  ⟨d, ⟨[], none, false, [], false⟩, ⟨[], none, false, false⟩⟩

/-- A hook calls `_dump`, unless the process is dead or in another hook. -/
def CaptureAddon.call (a : CaptureAddon) (hook : Hook) (flows : List Json) : CaptureAddon :=
  if a.killed ∨ a.dump.isSome then a else { a with flows := flows, dump := some (hook, .begun) }

/-- A hook ends as its `_dump` does. -/
def CaptureAddon.reach (a : CaptureAddon) (hook : Hook) : Stage → CaptureAddon
  | .returned =>
    match hook with
    | .running => { a with dump := none, up := true }
    | .request => { a with dump := none, returned := a.returned ++ [a.flows.length - 1] }
    | .done => { a with dump := none }
  | .raised => { a with dump := none }
  | stage => { a with dump := some (hook, stage) }

def Driver.reach (v : Driver) (scenario : PyStr) : Stage → Driver
  | .returned => { v with publish := none, told := true }
  | .raised => { v with publish := none }
  | stage => { v with publish := some (scenario, stage) }

/-- What cannot happen in a state changes nothing. -/
def System.step (floatRepr : PyFloat → FloatText) (s : System) : Event → System
  | .running => { s with addon := s.addon.call .running s.addon.flows }
  | .request r readable =>
    match readControl s.directory readable with
    | .ok scenario => { s with addon := s.addon.call .request (s.addon.flows ++ [r.record scenario]) }
    | .error _ => s
  | .done => { s with addon := s.addon.call .done s.addon.flows }
  | .dump io =>
    match s.addon.dump with
    | some (hook, stage) =>
      if s.addon.killed then s
      else
        let p := Directory.write .flows (some (flowsText floatRepr s.addon.flows)) io (s.directory, stage)
        { s with directory := p.1, addon := s.addon.reach hook p.2 }
    | none => s
  | .killAddon => { s with addon := { s.addon with killed := true } }
  | .announce scenario =>
    if s.driver.killed ∨ s.driver.publish.isSome then s
    else
      { s with driver :=
        { s.driver with
          announced := s.driver.announced ++ [scenario]
          publish := some (scenario, .begun) } }
  | .publish io =>
    match s.driver.publish with
    | some (scenario, stage) =>
      if s.driver.killed then s
      else
        let p := Directory.write .scenario (announcement scenario) io (s.directory, stage)
        { s with directory := p.1, driver := s.driver.reach scenario p.2 }
    | none => s
  | .killDriver => { s with driver := { s.driver with killed := true } }

def System.run (floatRepr : PyFloat → FloatText) (s : System) (events : List Event) : System :=
  events.foldl (System.step floatRepr) s

/-! What is kept -/

section
variable (floatRepr : PyFloat → FloatText)

/-- The flows file is the document of the first records, and of all whose hook has returned. -/
def Kept (d : Directory AuditFile UInt8) (a : CaptureAddon) : Prop :=
  ∃ L, d (.file .flows) = some (flowsText floatRepr L) ∧ L <+: a.flows ∧
    ∀ i ∈ a.returned, i < L.length

structure AddonSound (d : Directory AuditFile UInt8) (a : CaptureAddon) : Prop where
  dumping : ∀ hook stage, a.dump = some (hook, stage) →
    stage.Holds .flows (some (flowsText floatRepr a.flows)) d
  recorded : ∀ stage, a.dump = some (.request, stage) → a.flows ≠ []
  counted : ∀ i ∈ a.returned, i < a.flows.length
  kept : a.up = true → Kept floatRepr d a

/-- The control file is one whole announced name. -/
def Published (d : Directory AuditFile UInt8) (v : Driver) : Prop :=
  ∃ scenario ∈ v.announced, (announcement scenario).isSome ∧
    d (.file .scenario) = announcement scenario

structure DriverSound (control : Option Bytes) (d : Directory AuditFile UInt8) (v : Driver) : Prop where
  publishing : ∀ scenario stage, v.publish = some (scenario, stage) →
    scenario ∈ v.announced ∧ stage.Holds .scenario (announcement scenario) d
  control : d (.file .scenario) = control ∨ Published d v
  told : v.told = true → Published d v

end

section
variable {floatRepr : PyFloat → FloatText} {d d' : Directory AuditFile UInt8} {control : Option Bytes}

/-! The addon -/

lemma AddonSound.congr {a : CaptureAddon} (h : AddonSound floatRepr d a)
    (hd : ∀ e : Entry AuditFile, e.name = .flows → d' e = d e) : AddonSound floatRepr d' a where
  dumping hook stage hdump := (h.dumping hook stage hdump).congr hd
  recorded := h.recorded
  counted := h.counted
  kept hup := by
    obtain ⟨L, hfile, hbegins, hall⟩ := h.kept hup
    exact ⟨L, (hd _ rfl).trans hfile, hbegins, hall⟩

lemma AddonSound.call {a : CaptureAddon} (h : AddonSound floatRepr d a) {hook : Hook}
    (made : List Json) (hmade : hook = .request → made ≠ []) :
    AddonSound floatRepr d (a.call hook (a.flows ++ made)) := by
  rw [CaptureAddon.call]
  split_ifs with hbusy
  · exact h
  · refine ⟨fun _ _ hdump => ?_, fun _ hdump => ?_, fun i hi => ?_, fun hup => ?_⟩
    · cases hdump
      trivial
    · cases hdump
      exact List.append_ne_nil_of_right_ne_nil _ (hmade rfl)
    · rw [List.length_append]
      exact Nat.lt_add_right _ (h.counted i hi)
    · obtain ⟨L, hfile, hbegins, hall⟩ := h.kept hup
      exact ⟨L, hfile, hbegins.trans (List.prefix_append _ _), hall⟩

@[simp] lemma reach_flows (a : CaptureAddon) (hook : Hook) (stage : Stage) :
    (a.reach hook stage).flows = a.flows := by
  cases stage with
  | returned => cases hook <;> rfl
  | _ => rfl

lemma AddonSound.reach_returned {a : CaptureAddon} (h : AddonSound floatRepr d a) {hook : Hook}
    {stage : Stage} (hdump : a.dump = some (hook, stage)) :
    (a.reach hook .returned).dump = none ∧
      ∀ i ∈ (a.reach hook .returned).returned, i < a.flows.length := by
  cases hook with
  | running => exact ⟨rfl, h.counted⟩
  | done => exact ⟨rfl, h.counted⟩
  | request =>
    refine ⟨rfl, fun i hi => ?_⟩
    rcases List.mem_append.mp hi with hi | hi
    · exact h.counted i hi
    · have hpos := List.length_pos_iff.mpr (h.recorded stage hdump)
      rw [List.mem_singleton.mp hi]
      omega

/-- A dump that has replaced the file has written every record made so far. -/
lemma AddonSound.dump {a : CaptureAddon} (h : AddonSound floatRepr d a) {hook : Hook} {stage : Stage}
    (hdump : a.dump = some (hook, stage)) (io : Io) :
    AddonSound floatRepr
      (Directory.write .flows (some (flowsText floatRepr a.flows)) io (d, stage)).1
      (a.reach hook (Directory.write .flows (some (flowsText floatRepr a.flows)) io (d, stage)).2) := by
  have hold := h.dumping hook stage hdump
  have hfile := Directory.write_file io (d, stage) hold
  have hholds := Directory.write_holds io (d, stage) hold
  generalize Directory.write .flows (some (flowsText floatRepr a.flows)) io (d, stage) = p at hfile hholds
  obtain ⟨d', stage'⟩ := p
  have hkept : a.up = true → Kept floatRepr d' a := by
    intro hup
    rcases hfile with hsame | ⟨-, hwhole⟩
    · obtain ⟨L, hL, hbegins, hall⟩ := h.kept hup
      exact ⟨L, hsame.trans hL, hbegins, hall⟩
    · exact ⟨a.flows, hwhole, List.prefix_refl _, h.counted⟩
  cases stage' with
  | returned =>
    obtain ⟨hnone, hcounted⟩ := h.reach_returned hdump
    refine ⟨fun _ _ hsome => ?_, fun _ hsome => ?_, ?_, fun _ => ⟨a.flows, hholds.2, ?_, hcounted⟩⟩
    · cases hnone.symm.trans hsome
    · cases hnone.symm.trans hsome
    · rwa [reach_flows]
    · rw [reach_flows]
  | raised => exact ⟨fun _ _ hsome => (nomatch hsome), fun _ hsome => (nomatch hsome), h.counted, hkept⟩
  | _ =>
    refine ⟨fun _ _ hsome => ?_, fun _ hsome => ?_, h.counted, hkept⟩
    · cases hsome
      exact hholds
    · cases hsome
      exact h.recorded stage hdump

/-! The driver -/

lemma Published.congr {v : Driver} (h : Published d v) (hd : d' (.file .scenario) = d (.file .scenario)) :
    Published d' v := by
  obtain ⟨scenario, hmem, hsome, hfile⟩ := h
  exact ⟨scenario, hmem, hsome, hd.trans hfile⟩

lemma DriverSound.congr {v : Driver} (h : DriverSound control d v)
    (hd : ∀ e : Entry AuditFile, e.name = .scenario → d' e = d e) : DriverSound control d' v where
  publishing scenario stage hpublish :=
    ⟨(h.publishing scenario stage hpublish).1, (h.publishing scenario stage hpublish).2.congr hd⟩
  control := h.control.imp (hd _ rfl).trans fun hp => hp.congr (hd _ rfl)
  told htold := (h.told htold).congr (hd _ rfl)

lemma DriverSound.announce {v : Driver} (h : DriverSound control d v) (scenario : PyStr) :
    DriverSound control d
      { v with announced := v.announced ++ [scenario], publish := some (scenario, .begun) } := by
  have hmono : Published d v → Published d
      { v with announced := v.announced ++ [scenario], publish := some (scenario, .begun) } := by
    intro hp
    obtain ⟨name, hmem, hname⟩ := hp
    exact ⟨name, List.mem_append_left _ hmem, hname⟩
  refine ⟨fun name stage hpublish => ?_, h.control.imp_right hmono, fun htold => hmono (h.told htold)⟩
  cases hpublish
  exact ⟨List.mem_append_right _ List.mem_cons_self, trivial⟩

lemma DriverSound.publish {v : Driver} (h : DriverSound control d v) {scenario : PyStr} {stage : Stage}
    (hpublish : v.publish = some (scenario, stage)) (io : Io) :
    DriverSound control (Directory.write .scenario (announcement scenario) io (d, stage)).1
      (v.reach scenario (Directory.write .scenario (announcement scenario) io (d, stage)).2) := by
  obtain ⟨hmem, hold⟩ := h.publishing scenario stage hpublish
  have hfile := Directory.write_file io (d, stage) hold
  have hholds := Directory.write_holds io (d, stage) hold
  generalize Directory.write .scenario (announcement scenario) io (d, stage) = p at hfile hholds
  obtain ⟨d', stage'⟩ := p
  have hpublished : Published d v → Published d' v := by
    intro hp
    rcases hfile with hsame | ⟨hsome, hwhole⟩
    · exact hp.congr hsame
    · exact ⟨scenario, hmem, hsome, hwhole⟩
  have hcontrol : d' (.file .scenario) = control ∨ Published d' v := by
    rcases hfile with hsame | ⟨hsome, hwhole⟩
    · exact h.control.imp hsame.trans fun hp => hp.congr hsame
    · exact .inr ⟨scenario, hmem, hsome, hwhole⟩
  have htold : v.told = true → Published d' v := fun ht => hpublished (h.told ht)
  cases stage' with
  | returned =>
    exact ⟨fun _ _ hsome => (nomatch hsome), hcontrol, fun _ => ⟨scenario, hmem, hholds.1, hholds.2⟩⟩
  | raised => exact ⟨fun _ _ hsome => (nomatch hsome), hcontrol, htold⟩
  | _ =>
    refine ⟨fun _ _ hsome => ?_, hcontrol, htold⟩
    cases hsome
    exact ⟨hmem, hholds⟩

/-! The system -/

structure System.Sound (floatRepr : PyFloat → FloatText) (control : Option Bytes) (s : System) : Prop where
  addon : AddonSound floatRepr s.directory s.addon
  driver : DriverSound control s.directory s.driver

lemma System.Sound.call {s : System} (h : s.Sound floatRepr control) (hook : Hook) (made : List Json)
    (hmade : hook = .request → made ≠ []) :
    System.Sound floatRepr control { s with addon := s.addon.call hook (s.addon.flows ++ made) } :=
  ⟨h.addon.call made hmade, h.driver⟩

lemma System.Sound.step {s : System} (h : s.Sound floatRepr control) (e : Event) :
    (s.step floatRepr e).Sound floatRepr control := by
  cases e with
  | running =>
    have hcall := h.call .running [] nofun
    rwa [List.append_nil] at hcall
  | request r readable =>
    rw [System.step]
    cases readControl s.directory readable with
    | error e => exact h
    | ok scenario => exact h.call .request [r.record scenario] fun _ => List.cons_ne_nil _ _
  | done =>
    have hcall := h.call .done [] nofun
    rwa [List.append_nil] at hcall
  | dump io =>
    rw [System.step]
    cases hdump : s.addon.dump with
    | none => exact h
    | some p =>
      obtain ⟨hook, stage⟩ := p
      simp only
      split_ifs
      · exact h
      · refine ⟨h.addon.dump hdump io, h.driver.congr fun e he => Directory.write_elsewhere ?_⟩
        rw [he]
        decide
  | killAddon => exact ⟨⟨h.addon.dumping, h.addon.recorded, h.addon.counted, h.addon.kept⟩, h.driver⟩
  | announce scenario =>
    rw [System.step]
    split_ifs
    · exact h
    · exact ⟨h.addon, h.driver.announce scenario⟩
  | publish io =>
    rw [System.step]
    cases hpublish : s.driver.publish with
    | none => exact h
    | some p =>
      obtain ⟨scenario, stage⟩ := p
      simp only
      split_ifs
      · exact h
      · refine ⟨h.addon.congr fun e he => Directory.write_elsewhere ?_, h.driver.publish hpublish io⟩
        rw [he]
        decide
  | killDriver => exact ⟨h.addon, ⟨h.driver.publishing, h.driver.control, h.driver.told⟩⟩

lemma System.sound_start (d : Directory AuditFile UInt8) :
    (System.start d).Sound floatRepr (d (.file .scenario)) where
  addon := ⟨nofun, nofun, nofun, nofun⟩
  driver := ⟨nofun, .inl rfl, nofun⟩

lemma System.sound_run (d : Directory AuditFile UInt8) (events : List Event) :
    ((System.start d).run floatRepr events).Sound floatRepr (d (.file .scenario)) :=
  List.foldlRecOn events _ (System.sound_start d) fun _ h e _ => h.step e

/-! Evidence -/

lemma flowsDocument_plain {flows : List Json} (h : ∀ r ∈ flows, r.Plain) : (flowsDocument flows).Plain := by
  refine .object (by simp) fun p hp => ?_
  cases List.mem_singleton.mp hp
  exact .list h

/-- A step changes the flows file to the document of all records, or not at all. -/
lemma System.Sound.step_flows {s : System} (h : s.Sound floatRepr control) (e : Event) :
    (s.step floatRepr e).directory (.file .flows) = s.directory (.file .flows) ∨
      (s.step floatRepr e).directory (.file .flows) =
        some (flowsText floatRepr (s.step floatRepr e).addon.flows) := by
  cases e with
  | dump io =>
    rw [System.step]
    cases hdump : s.addon.dump with
    | none => exact .inl rfl
    | some p =>
      obtain ⟨hook, stage⟩ := p
      simp only
      split_ifs
      · exact .inl rfl
      · simp only [reach_flows]
        exact (Directory.write_file io _ (h.addon.dumping hook stage hdump)).imp_right And.right
  | publish io =>
    rw [System.step]
    cases s.driver.publish with
    | none => exact .inl rfl
    | some p =>
      simp only
      split_ifs
      · exact .inl rfl
      · exact .inl (Directory.write_elsewhere (by decide))
  | request r readable =>
    rw [System.step]
    cases readControl s.directory readable <;> exact .inl rfl
  | announce scenario =>
    rw [System.step]
    split_ifs <;> exact .inl rfl
  | _ => exact .inl rfl

/-- No record is taken back. -/
lemma System.flows_prefix (floatRepr : PyFloat → FloatText) (s : System) (e : Event) :
    s.addon.flows <+: (s.step floatRepr e).addon.flows := by
  have hcall : ∀ hook flows, s.addon.flows <+: flows → s.addon.flows <+: (s.addon.call hook flows).flows := by
    intro hook flows hflows
    rw [CaptureAddon.call]
    split_ifs
    · exact List.prefix_refl _
    · exact hflows
  cases e with
  | running => exact hcall .running _ (List.prefix_refl _)
  | request r readable =>
    rw [System.step]
    cases readControl s.directory readable with
    | error e => exact List.prefix_refl _
    | ok scenario => exact hcall .request _ (List.prefix_append _ _)
  | done => exact hcall .done _ (List.prefix_refl _)
  | dump io =>
    rw [System.step]
    cases s.addon.dump with
    | none => exact List.prefix_refl _
    | some p =>
      simp only
      split_ifs
      · exact List.prefix_refl _
      · rw [reach_flows]
  | announce scenario =>
    rw [System.step]
    split_ifs <;> exact List.prefix_refl _
  | publish io =>
    rw [System.step]
    cases s.driver.publish with
    | none => exact List.prefix_refl _
    | some p =>
      simp only
      split_ifs <;> exact List.prefix_refl _
  | killAddon => exact List.prefix_refl _
  | killDriver => exact List.prefix_refl _

/-- What the two processes leave, at any moment. -/
structure EvidenceKept (floatRepr : PyFloat → FloatText) (control : Option Bytes) (s : System) :
    Prop where
  /-- one whole document of the first records, with all whose hook has returned -/
  flows : s.addon.up = true → ∃ L, s.directory (.file .flows) = some (flowsText floatRepr L) ∧
    L <+: s.addon.flows ∧ (∀ i ∈ s.addon.returned, i < L.length) ∧
    ((∀ r ∈ L, r.Plain) → loadsText (flowsText floatRepr L) = .ok (flowsDocument L))
  /-- a dump that goes through holds all records, those of failed dumps too -/
  dumped : ∀ hook k, s.addon.dump = some (hook, .replaced k) →
    s.directory (.file .flows) = some (flowsText floatRepr s.addon.flows)
  step : ∀ e, (s.step floatRepr e).directory (.file .flows) = s.directory (.file .flows) ∨
    (s.step floatRepr e).directory (.file .flows) =
      some (flowsText floatRepr (s.step floatRepr e).addon.flows)
  remembered : ∀ e, s.addon.flows <+: (s.step floatRepr e).addon.flows
  control : s.directory (.file .scenario) = control ∨ Published s.directory s.driver
  told : s.driver.told = true → Published s.directory s.driver

/-- Evidence is kept at every moment of every run. -/
theorem evidence_kept (floatRepr : PyFloat → FloatText) (d : Directory AuditFile UInt8)
    (events : List Event) :
    EvidenceKept floatRepr (d (.file .scenario)) ((System.start d).run floatRepr events) := by
  have h := @System.sound_run floatRepr d events
  refine ⟨fun hup => ?_, fun hook k hdump => (h.addon.dumping hook _ hdump).2, h.step_flows,
    System.flows_prefix floatRepr _, h.driver.control, h.driver.told⟩
  obtain ⟨L, hfile, hbegins, hall⟩ := h.addon.kept hup
  exact ⟨L, hfile, hbegins, hall, fun hplain => loadsText_dumpsIndent (flowsDocument_plain hplain)⟩

/-- Killed while it dumps its first record, the addon leaves the document of none. -/
example : ((System.start fun _ => none).run (fun _ => ⟨ascii "0.0", by decide, by decide⟩)
    [.running, .dump (.mkstemp 0), .dump .close, .dump .replace, .dump .leave,
      .request ⟨.ofString "http://a/", .ofString "GET", .ofString "a", .int 1⟩ true,
      .dump (.mkstemp 1), .dump (.flush 7), .killAddon, .dump .close]).directory (.file .flows) =
    some (ascii "\x7b\n  \"flows\": []\n\x7d\n") := by decide +kernel

/-! Attribution -/

/-- The control file and the records, as if files were written at once. -/
def System.capture (s : System) : Capture :=
  ⟨(s.directory (.file .scenario)).map fun bytes => .ofString (decodeUtf8 bytes), s.addon.flows⟩

lemma readControl_eq_ok {s : System} {readable : Bool} {scenario : PyStr}
    (h : readControl s.directory readable = .ok scenario) : s.capture.stamp readable = scenario := by
  cases readable with
  | false => exact Except.ok.inj h
  | true =>
    rw [readControl, if_pos rfl] at h
    rw [Capture.stamp, if_pos rfl, System.capture]
    cases hfile : s.directory (.file .scenario) with
    | none =>
      rw [hfile] at h
      exact Except.ok.inj h
    | some bytes =>
      rw [hfile] at h
      simp only at h
      cases htext : String.fromUTF8? ⟨bytes.toArray⟩ with
      | none =>
        rw [htext] at h
        cases h
      | some text =>
        rw [htext] at h
        simpa [decodeUtf8, htext] using h

lemma announcement_eq_some {scenario : PyStr} {bytes : Bytes} (h : announcement scenario = some bytes) :
    PyStr.ofString (decodeUtf8 bytes) = announceScenario scenario := by
  obtain ⟨text, htext, rfl⟩ := Option.map_eq_some_iff.mp h
  rw [decodeUtf8_encodeUtf8]
  exact (PyStr.toText_eq_some.mp htext).symm

lemma capture_call (s : System) (hook : Hook) :
    System.capture { s with addon := s.addon.call hook s.addon.flows } = s.capture := by
  rw [System.capture, System.capture, CaptureAddon.call]
  split_ifs <;> rfl

/-- To the records and the control file a step is nothing, an announcement or a request. -/
lemma System.Sound.step_capture {s : System} (h : s.Sound floatRepr control) (e : Event) :
    ∃ history, (s.step floatRepr e).capture = s.capture.run history := by
  cases e with
  | running => exact ⟨[], capture_call s .running⟩
  | done => exact ⟨[], capture_call s .done⟩
  | request r readable =>
    rw [System.step]
    cases hcontrol : readControl s.directory readable with
    | error e => exact ⟨[], rfl⟩
    | ok scenario =>
      simp only [System.capture, CaptureAddon.call]
      split_ifs
      · exact ⟨[], rfl⟩
      · refine ⟨[.handled r readable], ?_⟩
        rw [← readControl_eq_ok hcontrol]
        rfl
  | dump io =>
    rw [System.step]
    cases s.addon.dump with
    | none => exact ⟨[], rfl⟩
    | some p =>
      simp only
      split_ifs
      · exact ⟨[], rfl⟩
      · refine ⟨[], ?_⟩
        simp only [System.capture, reach_flows]
        rw [Directory.write_elsewhere (by decide)]
        rfl
  | publish io =>
    rw [System.step]
    cases hpublish : s.driver.publish with
    | none => exact ⟨[], rfl⟩
    | some p =>
      obtain ⟨scenario, stage⟩ := p
      simp only
      split_ifs
      · exact ⟨[], rfl⟩
      · obtain ⟨-, hold⟩ := h.driver.publishing scenario stage hpublish
        rcases Directory.write_file io (s.directory, stage) hold with hsame | ⟨hsome, hwhole⟩
        · refine ⟨[], ?_⟩
          simp only [System.capture, hsame]
          rfl
        · obtain ⟨bytes, hbytes⟩ := Option.isSome_iff_exists.mp hsome
          refine ⟨[.announced scenario], ?_⟩
          simp only [System.capture, hwhole]
          rw [hbytes, Option.map_some, announcement_eq_some hbytes]
          rfl
  | announce scenario =>
    rw [System.step]
    split_ifs <;> exact ⟨[], rfl⟩
  | killAddon => exact ⟨[], rfl⟩
  | killDriver => exact ⟨[], rfl⟩

/-- However writes fail and processes are killed, the records and the control file are those of some
history of announcements and requests. -/
theorem System.run_capture (floatRepr : PyFloat → FloatText) (d : Directory AuditFile UInt8)
    (events : List Event) : ∃ history,
      ((System.start d).run floatRepr events).capture = (System.start d).capture.run history := by
  induction events using List.reverseRecOn with
  | nil => exact ⟨[], rfl⟩
  | append_singleton events e ih =>
    obtain ⟨history, hhistory⟩ := ih
    obtain ⟨next, hnext⟩ := (@System.sound_run floatRepr d events).step_capture e
    refine ⟨history ++ next, ?_⟩
    rw [run_append, ← hhistory, ← hnext, System.run, List.foldl_append]
    rfl

end
end T3dmium.Audit
