import T3dmium.DefaultDeny
import T3dmium.Evidence
import T3dmium.ExitStatus
import T3dmium.Stdlib

/-! What a verdict of 0 vouches for. A request is stamped and recorded by the addon, its record goes
through the flows file, which processes that fail or are killed write, and `audit.py` checks what it
reads there. -/
namespace T3dmium.Audit
open Checker

/-- `open` and `json.load`. -/
def readFlows (load : Bytes → Except PyError Json) : Option Bytes → FileRead
  | none => .missing
  | some bytes =>
    match load bytes with
    | .ok v => .json v
    | .error e => .fails (.python e)

/-- A request was handled while the control file named a requested scenario, which the driver had
announced, and a rule of that scenario's section explains it. -/
structure Accounted (u : Unicode) (floatRepr : PyFloat → FloatText) (names : List PyStr)
    (sections : Sections u) (d : Directory AuditFile UInt8) (events : List Event) (flow : Json) : Prop where
  intro ::
  handled : ∃ before r after scenario, events = before ++ .request r true :: after ∧
    flow = r.record scenario ∧ scenario ∈ names ∧
    scenario ∈ ((System.start d).run floatRepr before).driver.announced ∧
    ((System.start d).run floatRepr before).directory (.file .scenario) = announcement scenario ∧
    ∃ f : Flow u, Reads flow f ∧ ∃ rule ∈ sectionOf sections scenario, ruleMatches u rule f = .ok true

section
variable {floatRepr : PyFloat → FloatText} {d : Directory AuditFile UInt8}

lemma System.run_append (s : System) (before after : List Event) :
    s.run floatRepr (before ++ after) = (s.run floatRepr before).run floatRepr after := List.foldl_append

lemma System.run_concat (s : System) (events : List Event) (e : Event) :
    s.run floatRepr (events ++ [e]) = (s.run floatRepr events).step floatRepr e := System.run_append s _ _

/-- A step makes a record where it is a request, of the scenario the control file names. -/
lemma System.step_records {s : System} {e : Event} {flow : Json}
    (h : flow ∈ (s.step floatRepr e).addon.flows) : flow ∈ s.addon.flows ∨
      ∃ r readable scenario, e = .request r readable ∧
        readControl s.directory readable = .ok scenario ∧ flow = r.record scenario := by
  have hcall : ∀ hook flows, flow ∈ (s.addon.call hook flows).flows → flow ∈ s.addon.flows ∨ flow ∈ flows := by
    intro hook flows hflow
    rw [CaptureAddon.call] at hflow
    split_ifs at hflow
    · exact Or.inl hflow
    · exact Or.inr hflow
  cases e with
  | running => exact Or.inl ((hcall _ _ h).elim id id)
  | done => exact Or.inl ((hcall _ _ h).elim id id)
  | request r readable =>
    rw [System.step] at h
    cases hcontrol : readControl s.directory readable with
    | error e =>
      rw [hcontrol] at h
      exact Or.inl h
    | ok scenario =>
      rw [hcontrol] at h
      rcases hcall _ _ h with hold | hnew
      · exact Or.inl hold
      · refine (List.mem_append.mp hnew).imp_right fun hmem => ?_
        exact ⟨r, readable, scenario, rfl, hcontrol, List.mem_singleton.mp hmem⟩
  | dump io =>
    rw [System.step] at h
    split at h
    · split_ifs at h
      · exact Or.inl h
      · rw [reach_flows] at h
        exact Or.inl h
    · exact Or.inl h
  | announce scenario =>
    rw [System.step] at h
    split_ifs at h <;> exact Or.inl h
  | publish io =>
    rw [System.step] at h
    split at h
    · split_ifs at h <;> exact Or.inl h
    · exact Or.inl h
  | killAddon => exact Or.inl h
  | killDriver => exact Or.inl h

/-- Every record is that of a request, stamped with what the control file named at the time. -/
lemma mem_records {events : List Event} {flow : Json}
    (h : flow ∈ ((System.start d).run floatRepr events).addon.flows) :
    ∃ before r readable after scenario, events = before ++ .request r readable :: after ∧
      readControl ((System.start d).run floatRepr before).directory readable = .ok scenario ∧
      flow = r.record scenario := by
  induction events using List.reverseRecOn with
  | nil => cases h
  | append_singleton events e ih =>
    rw [System.run_concat] at h
    rcases System.step_records h with hold | ⟨r, readable, scenario, rfl, hcontrol, hflow⟩
    · obtain ⟨before, r, readable, after, scenario, rfl, hrest⟩ := ih hold
      exact ⟨before, r, readable, after ++ [e], scenario, by simp, hrest⟩
    · exact ⟨events, r, readable, [], scenario, rfl, hcontrol, hflow⟩

/-- What has been announced stays announced. -/
lemma System.announced_prefix (s : System) (e : Event) :
    s.driver.announced <+: (s.step floatRepr e).driver.announced := by
  have hreach : ∀ (v : Driver) scenario stage, (v.reach scenario stage).announced = v.announced := by
    intro v scenario stage
    cases stage <;> rfl
  cases e with
  | announce scenario =>
    rw [System.step]
    split_ifs
    · exact List.prefix_refl _
    · exact List.prefix_append _ _
  | publish io =>
    rw [System.step]
    split
    · split_ifs
      · exact List.prefix_refl _
      · rw [hreach]
    · exact List.prefix_refl _
  | request r readable =>
    rw [System.step]
    split <;> exact List.prefix_refl _
  | dump io =>
    rw [System.step]
    split
    · split_ifs <;> exact List.prefix_refl _
    · exact List.prefix_refl _
  | _ => exact List.prefix_refl _

lemma System.announced_prefix_run (s : System) (events : List Event) :
    s.driver.announced <+: (s.run floatRepr events).driver.announced := by
  induction events using List.reverseRecOn with
  | nil => exact List.prefix_refl _
  | append_singleton events e ih =>
    rw [System.run_concat]
    exact ih.trans (System.announced_prefix _ e)

lemma fromUTF8_announcement {scenario : PyStr} {bytes : Bytes} (h : announcement scenario = some bytes) :
    ∃ text, String.fromUTF8? ⟨bytes.toArray⟩ = some text ∧ PyStr.ofString text = announceScenario scenario := by
  obtain ⟨text, htext, rfl⟩ := Option.map_eq_some_iff.mp h
  refine ⟨text, ?_, (PyStr.toText_eq_some.mp htext).symm⟩
  have hvalid : (⟨(encodeUtf8 text).toArray⟩ : ByteArray) = text.toByteArray := rfl
  rw [hvalid, String.fromUTF8?, dif_pos text.isValidUTF8]
  rfl

lemma readControl_announcement {d : Directory AuditFile UInt8} {scenario : PyStr}
    (hsome : (announcement scenario).isSome) (hfile : d (.file .scenario) = announcement scenario) :
    readControl d true = .ok (readScenario (some (announceScenario scenario))) := by
  obtain ⟨bytes, hbytes⟩ := Option.isSome_iff_exists.mp hsome
  obtain ⟨text, htext, hscenario⟩ := fromUTF8_announcement hbytes
  rw [readControl, if_pos rfl, hfile, hbytes]
  simp only [htext, hscenario]

/-- A stamp is a sentinel, or a requested scenario that the control file named. -/
lemma readControl_cases {env : Env} {names : List PyStr} {s : System} {readable : Bool} {scenario : PyStr}
    (hsound : s.Sound floatRepr (announcement unattributed))
    (hannounced : s.driver.announced <+: (runScenarios env names).1)
    (h : readControl s.directory readable = .ok scenario) :
    scenario ∈ sentinels ∨ readable = true ∧ scenario ∈ names ∧ scenario ∈ s.driver.announced ∧
      s.directory (.file .scenario) = announcement scenario := by
  have hsentinel : unattributed ∈ sentinels ∧ between ∈ sentinels := by simp [sentinels]
  cases readable with
  | false =>
    cases h
    exact Or.inl hsentinel.1
  | true =>
    rcases hsound.driver.control with hfile | ⟨name, hname, hsome, hfile⟩
    · rw [readControl_announcement (by decide +kernel) hfile, readScenario_sentinel hsentinel.1] at h
      cases h
      exact Or.inl hsentinel.1
    · rw [readControl_announcement hsome hfile] at h
      rcases mem_runScenarios (hannounced.subset hname) with rfl | ⟨hrequested, hknown⟩
      · rw [readScenario_sentinel hsentinel.2] at h
        cases h
        exact Or.inl hsentinel.2
      · rw [(readScenario_announce hknown).1] at h
        cases h
        exact Or.inr ⟨rfl, hrequested, hname, hfile⟩

end

section
variable {u : Unicode} {env : Env} {names : List PyStr}

/-- Status 0 comes from a check of the flows that reports nothing. -/
lemma evaluate_of_pass (h : exitStatus u env names = 0) :
    ∃ allowlist, loadAllowlist u env.allowlist = .ok allowlist ∧ evaluate u env allowlist = .ok [] := by
  have hmain : main u env names = .ok 0 := by
    rw [exitStatus] at h
    split at h
    · rename_i status hstatus
      rw [hstatus, h]
    · cases h
  have hguard : ∀ {α : Type} {caught : Exc → Bool} {x : Except Exc α} {rest : α → Except Exc ℕ},
      guarded caught x rest = .ok 0 → ∃ a, x = .ok a ∧ rest a = .ok 0 := by
    intro α caught x rest hx
    cases x with
    | ok a => exact ⟨a, rfl, hx⟩
    | error e =>
      rw [guarded] at hx
      split_ifs at hx
      cases hx
  obtain ⟨_, -, hmain⟩ := hguard hmain
  obtain ⟨allowlist, hload, hmain⟩ := hguard hmain
  obtain ⟨_, -, hmain⟩ := hguard hmain
  obtain ⟨_, -, hmain⟩ := hguard hmain
  obtain ⟨_, -, hmain⟩ := hguard hmain
  obtain ⟨_, -, hmain⟩ := hguard hmain
  obtain ⟨violations, hcheck, hmain⟩ := hguard hmain
  cases violations with
  | nil => exact ⟨allowlist, hload, hcheck⟩
  | cons v vs => cases hmain

lemma checkFlows_of_evaluate {allowlist : Json} {flows : List Json} {violations : List Violation}
    (hflows : env.flows = .json (flowsDocument flows)) (h : evaluate u env allowlist = .ok violations) :
    checkFlows u flows allowlist = .ok violations := by
  have hload : loadFlows env.flows = .ok (.list flows) := by
    rw [hflows, flowsDocument, Json.object, loadFlows, ← Json.object, Json.getItem_object]
    rfl
  obtain ⟨v, hv, h⟩ := bind_eq_ok.mp h
  rw [hload] at hv
  cases hv
  obtain ⟨flows', hflows', h⟩ := bind_eq_ok.mp h
  cases hflows'
  cases hcheck : checkFlows u flows allowlist with
  | ok vs =>
    rw [hcheck] at h
    cases h
    rfl
  | error e =>
    rw [hcheck] at h
    cases h

lemma validateAllowlist_of_load {allowlist : Json} (h : loadAllowlist u env.allowlist = .ok allowlist) :
    ∃ sections, validateAllowlist u allowlist = .ok sections := by
  cases hread : env.allowlist with
  | missing =>
    rw [hread] at h
    cases h
  | notJson =>
    rw [hread] at h
    cases h
  | fails e =>
    rw [hread] at h
    cases h
  | json v =>
    rw [hread] at h
    obtain ⟨sections, hsections, h⟩ := bind_eq_ok.mp h
    cases h
    cases hvalid : validateAllowlist u allowlist with
    | ok sections => exact ⟨sections, rfl⟩
    | error e =>
      rw [hvalid] at hsections
      cases hsections

end

/-- A PASS is sound. If the addon came up and `audit.py` ends with status 0 on the flows file that it
has left, then, however the addon's and the driver's steps interleaved, wherever writes failed and
processes were killed, the file that was checked holds a record of every request whose hook returned,
and every record in it is accounted for. `load` gives back the records it is given, as `json.load`
does what `json.dumps` wrote. -/
theorem pass_accounts (u : Unicode) (floatRepr : PyFloat → FloatText)
    (load : Bytes → Except PyError Json) (env : Env) (names : List PyStr)
    (d : Directory AuditFile UInt8) (events : List Event)
    (hload : ∀ L, L <+: ((System.start d).run floatRepr events).addon.flows →
      load (flowsText floatRepr L) = .ok (flowsDocument L))
    (hcontrol : d (.file .scenario) = announcement unattributed)
    (hdriver : ((System.start d).run floatRepr events).driver.announced <+: (runScenarios env names).1)
    (hup : ((System.start d).run floatRepr events).addon.up = true)
    (hflows : env.flows = readFlows load (((System.start d).run floatRepr events).directory (.file .flows)))
    (hpass : exitStatus u env names = 0) :
    ∃ allowlist sections, loadAllowlist u env.allowlist = .ok allowlist ∧
      validateAllowlist u allowlist = .ok sections ∧
      ((∀ s ∈ sentinels, sections.lookup s = none) →
        ∃ L, env.flows = .json (flowsDocument L) ∧
          L <+: ((System.start d).run floatRepr events).addon.flows ∧
          (∀ i ∈ ((System.start d).run floatRepr events).addon.returned, i < L.length) ∧
          ∀ flow ∈ L, Accounted u floatRepr names sections d events flow) := by
  obtain ⟨allowlist, hallow, hevaluate⟩ := evaluate_of_pass hpass
  obtain ⟨sections, hsections⟩ := validateAllowlist_of_load hallow
  refine ⟨allowlist, sections, hallow, hsections, fun hsentinels => ?_⟩
  have hsound := @System.sound_run floatRepr d events
  obtain ⟨L, hfile, hbegins, hreturned⟩ := hsound.addon.kept hup
  -- the file is read as the document it was written from
  have hread : env.flows = .json (flowsDocument L) := by
    rw [hflows, hfile, readFlows, hload L hbegins]
  have hcheck := checkFlows_of_evaluate hread hevaluate
  refine ⟨L, hread, hbegins, hreturned, fun flow hflow => ?_⟩
  obtain ⟨before, r, readable, after, scenario, hevents, hscenario, rfl⟩ :=
    mem_records (hbegins.subset hflow)
  obtain ⟨f, hf, -, rule, hrule, hmatches⟩ :=
    (reported_or_excused hsections hcheck hflow).resolve_left (by simp)
  have hbefore : ((System.start d).run floatRepr before).driver.announced <+: (runScenarios env names).1 := by
    refine List.IsPrefix.trans ?_ hdriver
    rw [hevents, System.run_append]
    exact System.announced_prefix_run _ _
  have hstart := @System.sound_run floatRepr d before
  rw [hcontrol] at hstart
  rcases readControl_cases hstart hbefore hscenario with hsentinel | ⟨rfl, hnames, hannounced, hnamed⟩
  · simp [sectionOf, hsentinels scenario hsentinel] at hrule
  · exact ⟨before, r, after, scenario, hevents, rfl, hnames, hannounced, hnamed, f, hf, rule, hrule, hmatches⟩

/-! One request while the scenario runs, and a rule for it -/

def sampleFloatRepr : PyFloat → FloatText := Stdlib.sample.floatRepr

/-- The control file as `audit.py` has written it. -/
def sampleDirectory : Directory AuditFile UInt8 := fun e =>
  if e = .file .scenario then announcement unattributed else none

def sampleEvents : List Event :=
  [.running, .dump (.mkstemp 0), .dump .close, .dump .replace, .dump .leave,
    .announce between, .publish (.mkstemp 0), .publish .close, .publish .replace, .publish .leave,
    .announce (.ofString "idle"), .publish (.mkstemp 0), .publish .close, .publish .replace, .publish .leave,
    .request sampleRequest true, .dump (.mkstemp 1), .dump .close, .dump .replace, .dump .leave]

def sampleSystem : System := (System.start sampleDirectory).run sampleFloatRepr sampleEvents

def samplePassing : Env :=
  { Env.sample with
    allowlist := .json (.object [("scenarios", .object
      [("idle", .list [.object [("host", .text "example.com"), ("reason", .text "home page")]])])])
    flows := readFlows loadsText (sampleSystem.directory (.file .flows)) }

lemma sampleSystem_flows : sampleSystem.addon.flows = [sampleRequest.record (.ofString "idle")] := by rfl

theorem sampleRequest_accounted : ∃ sections L, samplePassing.flows = .json (flowsDocument L) ∧
    sampleRequest.record (.ofString "idle") ∈ L ∧
    Accounted Unicode.ascii sampleFloatRepr [.ofString "idle"] sections sampleDirectory sampleEvents
      (sampleRequest.record (.ofString "idle")) := by
  have hplain : ∀ L, L <+: sampleSystem.addon.flows → ∀ flow ∈ L, flow.Plain := by
    intro L hL flow hflow
    have hmem := hL.subset hflow
    rw [sampleSystem_flows] at hmem
    rw [List.mem_singleton.mp hmem]
    refine .object (by decide) fun p hp => ?_
    simp only [List.mem_cons, List.not_mem_nil, or_false] at hp
    rcases hp with rfl | rfl | rfl | rfl | rfl
    · exact Json.Plain.text _
    · exact Json.Plain.text _
    · exact Json.Plain.text _
    · exact .int 1
    · exact Json.Plain.text _
  obtain ⟨allowlist, sections, hallow, hsections, haccounts⟩ :=
    pass_accounts Unicode.ascii sampleFloatRepr loadsText samplePassing [.ofString "idle"] sampleDirectory
      sampleEvents (fun L hL => loadsText_dumpsIndent (flowsDocument_plain (hplain L hL)))
      rfl (by decide +kernel) (by decide +kernel) (by simp only [samplePassing, sampleSystem])
      (by decide +kernel)
  obtain ⟨sections', hsections', hnone⟩ : ∃ sections, validateAllowlist Unicode.ascii allowlist = .ok sections ∧
      (sentinels.all fun s => (sections.lookup s).isNone) = true := by
    cases hallow
    exact exists_ok (by decide +kernel)
  rw [hsections] at hsections'
  cases hsections'
  obtain ⟨L, hfile, hL, hreturned, hall⟩ := haccounts fun s hs =>
    Option.isNone_iff_eq_none.mp (List.all_eq_true.mp hnone s hs)
  have hpos : 0 < L.length := hreturned 0 (by decide +kernel)
  have hmem : sampleRequest.record (.ofString "idle") ∈ L := by
    change L <+: sampleSystem.addon.flows at hL
    rw [sampleSystem_flows] at hL
    rw [hL.eq_of_length_le hpos]
    exact List.mem_cons_self
  exact ⟨sections, L, hfile, hmem, hall _ hmem⟩

end T3dmium.Audit
