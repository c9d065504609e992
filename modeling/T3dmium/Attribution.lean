import T3dmium.AuditRun

/-! A request is stamped with the scenario in whose window it was handled, whatever
way the driver's announcements and the addon's requests interleave. -/
namespace T3dmium.Audit
open Checker

/-- What the control file and the addon see, in the order it happens. -/
inductive Happening
  | announced (scenario : PyStr)
  /-- `readable` is false where reading the control file raises `OSError`. -/
  | handled (r : Request) (readable : Bool)

def Happening.announcement : Happening → Option PyStr
  | .announced scenario => some scenario
  | .handled _ _ => none

/-- The control file, and `CaptureAddon.flows`. -/
structure Capture where
  control : Option PyStr
  flows : List Json

def Capture.stamp (c : Capture) (readable : Bool) : PyStr :=
  readScenario (if readable then c.control else none)

def Capture.step (c : Capture) : Happening → Capture
  | .announced scenario => { c with control := some (announceScenario scenario) }
  | .handled r readable => { c with flows := c.flows ++ [r.record (c.stamp readable)] }

def Capture.run (c : Capture) (history : List Happening) : Capture := history.foldl Capture.step c

/-- Between the announcement of a scenario and the following `__between__`. -/
def InWindow (before : List Happening) (scenario : PyStr) : Prop :=
  ∃ p q, before = p ++ .announced scenario :: q ∧ .announced between ∉ q

def sentinels : List PyStr := [between, unattributed]

/-! What the driver announces -/

lemma mem_scenarios {scenario : PyStr} (h : (scenarios.lookup scenario).isSome = true) :
    scenario ∈ scenarios.map Prod.fst := by
  obtain ⟨drive, hdrive⟩ := Option.isSome_iff_exists.mp h
  obtain ⟨l, l', hl, -⟩ := List.lookup_eq_some_iff.mp hdrive
  exact List.mem_map.mpr ⟨(scenario, drive), by simp [hl], rfl⟩

lemma readScenario_announce {scenario : PyStr} (h : (scenarios.lookup scenario).isSome = true) :
    readScenario (some (announceScenario scenario)) = scenario ∧ scenario ∉ sentinels := by
  have hall : ∀ name ∈ scenarios.map Prod.fst,
      readScenario (some (announceScenario name)) = name ∧ name ∉ sentinels := by decide +kernel
  exact hall scenario (mem_scenarios h)

lemma readScenario_sentinel {scenario : PyStr} (h : scenario ∈ sentinels) :
    readScenario (some (announceScenario scenario)) = scenario := by
  have hall : ∀ s ∈ sentinels, readScenario (some (announceScenario s)) = s := by decide +kernel
  exact hall scenario h

lemma mem_runFrom {env : Env} {i : ℕ} {names : List PyStr} {scenario : PyStr}
    (h : scenario ∈ (runFrom env i names).1) : scenario = between ∨ scenario ∈ names := by
  induction names generalizing i with
  | nil => simp [runFrom] at h
  | cons name names ih =>
    have hscene : ∀ s ∈ (runScene env (env.scenes i) name).1, s = between ∨ s = name := by
      intro s hs
      unfold runScene at hs
      split at hs
      · simp at hs
      · split at hs <;> simp at hs <;> tauto
    rw [runFrom] at h
    split at h
    · rcases hscene _ h with hs | hs
      · exact Or.inl hs
      · exact Or.inr (by simp [hs])
    · rcases List.mem_append.mp h with h | h
      · rcases hscene _ h with hs | hs
        · exact Or.inl hs
        · exact Or.inr (by simp [hs])
      · exact (ih h).imp_right (List.mem_cons_of_mem _)

/-- Only requested scenarios that exist are announced. -/
lemma mem_runScenarios {env : Env} {names : List PyStr} {scenario : PyStr}
    (h : scenario ∈ (runScenarios env names).1) :
    scenario = between ∨ scenario ∈ names ∧ (scenarios.lookup scenario).isSome = true := by
  unfold runScenarios at h
  split_ifs at h with hunknown hplaywright
  · simp at h
  · simp at h
  · split at h
    · simp at h
    · simp at h
    · split at h
      · simp at h
      · rcases List.mem_cons.mp h with h | h
        · exact Or.inl h
        · refine (mem_runFrom h).imp_right fun hname => ⟨hname, ?_⟩
          by_contra hnone
          refine hunknown (List.any_eq_true.mpr ⟨scenario, hname, ?_⟩)
          rw [Option.isNone_iff_eq_none]
          exact Option.not_isSome_iff_eq_none.mp hnone

/-- With a writable control file the last announcement is `__between__`, however the
scenarios end. -/
lemma runFrom_last {env : Env} (hscenes : ∀ i, (env.scenes i).announce = .ok () ∧
    (env.scenes i).announceBetween = .ok ()) (i : ℕ) (names : List PyStr) :
    (between :: (runFrom env i names).1).getLast? = some between := by
  induction names generalizing i with
  | nil => rfl
  | cons name names ih =>
    have hscene : (runScene env (env.scenes i) name).1 = [name, between] := by
      simp only [runScene, (hscenes i).1, (hscenes i).2]
    rw [runFrom]
    split
    · rw [hscene]
      rfl
    · rw [hscene]
      have htail := ih (i + 1)
      simpa [List.getLast?_cons_cons] using htail

lemma runScenarios_last {env : Env} {names : List PyStr} (hbetween : env.announceBetween = .ok ())
    (hscenes : ∀ i, (env.scenes i).announce = .ok () ∧ (env.scenes i).announceBetween = .ok ()) :
    (runScenarios env names).1.getLast? = none ∨
      (runScenarios env names).1.getLast? = some between := by
  unfold runScenarios
  split_ifs
  · exact Or.inl rfl
  · exact Or.inl rfl
  · split
    · exact Or.inl rfl
    · exact Or.inl rfl
    · rw [hbetween]
      exact Or.inr (runFrom_last hscenes 0 names)

/-! What the addon sees -/

lemma run_append (c : Capture) (before after : List Happening) :
    c.run (before ++ after) = (c.run before).run after := List.foldl_append

lemma run_cons (c : Capture) (h : Happening) (history : List Happening) :
    c.run (h :: history) = (c.step h).run history := rfl

lemma run_control (c : Capture) (history : List Happening) :
    (c.run history).control = match (history.filterMap Happening.announcement).getLast? with
      | some scenario => some (announceScenario scenario)
      | none => c.control := by
  induction history using List.reverseRecOn with
  | nil => rfl
  | append_singleton history h ih =>
    rw [run_append]
    cases h with
    | announced scenario =>
      simp [Capture.run, Capture.step, Happening.announcement]
    | handled r readable =>
      have hsame : ((c.run history).run [.handled r readable]).control = (c.run history).control := rfl
      rw [hsame, ih]
      simp [Happening.announcement]

lemma flows_subset (c : Capture) (history : List Happening) {flow : Json} (h : flow ∈ c.flows) :
    flow ∈ (c.run history).flows := by
  induction history generalizing c with
  | nil => exact h
  | cons x history ih =>
    refine ih (c.step x) ?_
    cases x with
    | announced scenario => exact h
    | handled r readable => exact List.mem_append_left _ h

lemma handled_captured (c : Capture) (before after : List Happening) (r : Request) (readable : Bool) :
    r.record ((c.run before).stamp readable) ∈
      (c.run (before ++ .handled r readable :: after)).flows := by
  have hstep : r.record ((c.run before).stamp readable) ∈
      ((c.run before).step (.handled r readable)).flows :=
    List.mem_append_right _ List.mem_cons_self
  rw [run_append, run_cons]
  exact flows_subset _ after hstep

lemma announced_of_append {before after : List Happening} {announced : List PyStr}
    (h : (before ++ after).filterMap Happening.announcement <+: announced) :
    before.filterMap Happening.announcement <+: announced := by
  rw [List.filterMap_append] at h
  exact (List.prefix_append _ _).trans h

/-- After its last announcement a scenario is still in its window. -/
lemma inWindow_of_last {history : List Happening} {scenario : PyStr}
    (h : (history.filterMap Happening.announcement).getLast? = some scenario) :
    InWindow history scenario := by
  induction history using List.reverseRecOn with
  | nil => simp at h
  | append_singleton history x ih =>
    cases x with
    | announced s =>
      obtain rfl : s = scenario := by simpa [Happening.announcement] using h
      exact ⟨history, [], rfl, by simp⟩
    | handled r readable =>
      obtain ⟨p, q, hpq, hq⟩ := ih (by simpa [Happening.announcement] using h)
      exact ⟨p, q ++ [.handled r readable], by simp [hpq], by simp [hq]⟩

section
variable {env : Env} {names : List PyStr} {control : Option PyStr} {before : List Happening}

/-- Before the first announcement and after `__between__` the stamp is a sentinel. -/
lemma stamp_sentinel (hcontrol : control = none ∨ control = some (announceScenario unattributed))
    (hlast : (before.filterMap Happening.announcement).getLast? = none ∨
      (before.filterMap Happening.announcement).getLast? = some between)
    (flows : List Json) (readable : Bool) :
    (Capture.run ⟨control, flows⟩ before).stamp readable ∈ sentinels := by
  have hun : unattributed ∈ sentinels := by simp [sentinels]
  have hbetween : between ∈ sentinels := by simp [sentinels]
  unfold Capture.stamp
  cases readable with
  | false => exact hun
  | true =>
    rw [if_pos rfl, run_control]
    rcases hlast with hlast | hlast
    · rw [hlast]
      rcases hcontrol with rfl | rfl
      · exact hun
      · exact (readScenario_sentinel hun).symm ▸ hun
    · rw [hlast]
      exact (readScenario_sentinel hbetween).symm ▸ hbetween

/-- A stamp is a sentinel, or the scenario in whose window the request came. -/
lemma stamp_cases (hcontrol : control = none ∨ control = some (announceScenario unattributed))
    (hbefore : before.filterMap Happening.announcement <+: (runScenarios env names).1)
    (flows : List Json) (readable : Bool) :
    let stamp := (Capture.run ⟨control, flows⟩ before).stamp readable
    stamp ∈ sentinels ∨
      (stamp ∈ names ∧ InWindow before stamp) ∧ (scenarios.lookup stamp).isSome = true := by
  intro stamp
  cases hlast : (before.filterMap Happening.announcement).getLast? with
  | none => exact Or.inl (stamp_sentinel hcontrol (Or.inl hlast) flows readable)
  | some scenario =>
    rcases mem_runScenarios (hbefore.subset (List.mem_of_getLast? hlast)) with rfl | ⟨hname, hknown⟩
    · exact Or.inl (stamp_sentinel hcontrol (Or.inr hlast) flows readable)
    · cases hreadable : readable with
      | false => exact Or.inl (by simp [stamp, hreadable, Capture.stamp, readScenario, sentinels])
      | true =>
        have hstamp : stamp = scenario := by
          simp only [stamp, hreadable, Capture.stamp, if_true, run_control, hlast]
          exact (readScenario_announce hknown).1
        rw [hstamp]
        exact Or.inr ⟨⟨hname, inWindow_of_last hlast⟩, hknown⟩

lemma strip_stamp_ne_nil (hcontrol : control = none ∨ control = some (announceScenario unattributed))
    (hbefore : before.filterMap Happening.announcement <+: (runScenarios env names).1)
    (flows : List Json) (readable : Bool) :
    PyStr.strip ((Capture.run ⟨control, flows⟩ before).stamp readable) ≠ [] := by
  rcases stamp_cases hcontrol hbefore flows readable with h | ⟨-, h⟩
  · have hall : ∀ s ∈ sentinels, PyStr.strip s ≠ [] := by decide +kernel
    exact hall _ h
  · have hall : ∀ name ∈ scenarios.map Prod.fst, PyStr.strip name ≠ [] := by decide +kernel
    exact hall _ (mem_scenarios h)

end

/-! What the checker makes of it -/

/-- A request as the proxy hands it on: an absolute URL, a method, a host and a time. -/
structure Request.Proper (u : Unicode) (r : Request) : Prop where
  url : PyStr.strip r.url ≠ []
  method : PyStr.strip r.method ≠ []
  host : PyStr.strip r.host ≠ []
  timestamp : (∃ i, r.timestamp = .int i) ∨ ∃ x, r.timestamp = .float x
  absolute : isAbsolute u r.url = true

variable {u : Unicode}

lemma record_scenario {r : Request} {scenario : PyStr} {f : Flow u}
    (h : Reads (r.record scenario) f) : f.scenario = scenario := by
  have hread := h 0
  simp only [Request.record, Json.object, validateFlow, bind_eq_ok, flowText_eq_ok,
    Json.lookup_map_ofString] at hread
  obtain ⟨_, -, url, -, m, -, host, -, s, ⟨hs, -⟩, _, -, a, -, hf⟩ := hread
  obtain rfl := Except.ok.inj hf
  simpa [List.lookup] using hs.symm

lemma record_reads {r : Request} {scenario : PyStr} (hr : r.Proper u)
    (hs : PyStr.strip scenario ≠ []) : ∃ f : Flow u, Reads (r.record scenario) f := by
  refine ⟨⟨r.url, r.host, scenario, hr.absolute⟩, fun index => ?_⟩
  simp only [Request.record, Json.object, validateFlow, bind_eq_ok, flowText_eq_ok,
    Json.lookup_map_ofString]
  refine ⟨(), ?_, r.url, ⟨rfl, hr.url⟩, r.method, ⟨rfl, hr.method⟩, r.host, ⟨rfl, hr.host⟩, scenario,
    ⟨rfl, hs⟩, (), ?_, ⟨hr.absolute⟩, absoluteUrl_eq_ok _, rfl⟩
  · refine forM_eq_ok.mpr fun key hkey => hasKey_eq_ok.mpr ?_
    rw [Json.lookup_map_ofString]
    simp only [requiredFlowKeys, List.mem_cons, List.not_mem_nil, or_false] at hkey
    rcases hkey with rfl | rfl | rfl | rfl | rfl <;> rfl
  · unfold flowTimestamp
    rw [Json.lookup_map_ofString]
    rcases hr.timestamp with ⟨i, hi⟩ | ⟨x, hx⟩
    · simp [List.lookup, hi]
    · simp [List.lookup, hx]

/-- Every captured flow was handled at some point, and stamped there. -/
lemma mem_run_flows {c : Capture} {history : List Happening} {flow : Json}
    (h : flow ∈ (c.run history).flows) :
    flow ∈ c.flows ∨ ∃ p r readable q, history = p ++ .handled r readable :: q ∧
      flow = r.record ((c.run p).stamp readable) := by
  induction history generalizing c with
  | nil => exact Or.inl h
  | cons x history ih =>
    rcases ih (c := c.step x) h with h | ⟨p, r, readable, q, hpq, hflow⟩
    · cases x with
      | announced scenario => exact Or.inl h
      | handled r readable =>
        rcases List.mem_append.mp h with h | h
        · exact Or.inl h
        · exact Or.inr ⟨[], r, readable, history, rfl, List.mem_singleton.mp h⟩
    · exact Or.inr ⟨x :: p, r, readable, q, by rw [hpq, List.cons_append], hflow⟩

/-- What holds of a request handled after `before` and stamped so, among all `flows`. -/
structure Attributed (u : Unicode) (env : Env) (names : List PyStr) (before : List Happening)
    (flow : Json) (stamp : PyStr) (flows : List Json) : Prop where
  captured : flow ∈ flows
  inside : stamp ∉ sentinels → stamp ∈ names ∧ InWindow before stamp
  outside : (∀ scenario ∈ names, ¬ InWindow before scenario) → stamp ∈ sentinels
  /-- once the driver has returned or raised, with a control file it could write to -/
  ended : env.announceBetween = .ok () →
    (∀ i, (env.scenes i).announce = .ok () ∧ (env.scenes i).announceBetween = .ok ()) →
    before.filterMap Happening.announcement = (runScenarios env names).1 → stamp ∈ sentinels
  reported : ∀ allowlist sections violations, validateAllowlist u allowlist = .ok sections →
    (∀ s ∈ sentinels, sections.lookup s = none) → checkFlows u flows allowlist = .ok violations →
    stamp ∈ sentinels → flow ∈ violations.map Violation.flow
  excused : ∀ allowlist sections violations, validateAllowlist u allowlist = .ok sections →
    checkFlows u flows allowlist = .ok violations → flow ∉ violations.map Violation.flow →
    ∃ f, Reads flow f ∧ f.scenario = stamp ∧
      ∃ rule ∈ sectionOf sections stamp, ruleMatches u rule f = .ok true

/-- A check of captured flows reports a flow or some rule of its stamp's section matches it. -/
lemma reported_or_excused {flows : List Json} {allowlist : Json} {sections : Sections u}
    {violations : List Violation} (hallow : validateAllowlist u allowlist = .ok sections)
    (hcheck : checkFlows u flows allowlist = .ok violations) {r : Request} {stamp : PyStr}
    (hflow : r.record stamp ∈ flows) :
    r.record stamp ∈ violations.map Violation.flow ∨ ∃ f, Reads (r.record stamp) f ∧
      f.scenario = stamp ∧ ∃ rule ∈ sectionOf sections stamp, ruleMatches u rule f = .ok true := by
  rw [checkFlows, hallow] at hcheck
  obtain ⟨hreported, hreads⟩ := checkFrom_eq_ok hcheck
  by_cases hex : Excused sections (r.record stamp)
  · obtain ⟨f, hf, rule, hrule, hexplains⟩ := hex
    rw [record_scenario hf] at hrule
    exact Or.inr ⟨f, hf, record_scenario hf, rule, hrule, by rw [ruleMatches_eq, hexplains]⟩
  · rw [hreported]
    exact Or.inl (by simp [hflow, hex])

lemma checkFlows_of_proper {env : Env} {names : List PyStr} {control : Option PyStr}
    (hcontrol : control = none ∨ control = some (announceScenario unattributed))
    {history : List Happening}
    (hhistory : history.filterMap Happening.announcement <+: (runScenarios env names).1)
    (hproper : ∀ h ∈ history, ∀ r readable, h = .handled r readable → r.Proper u)
    {allowlist : Json} {sections : Sections u} (hallow : validateAllowlist u allowlist = .ok sections) :
    ∃ violations, checkFlows u (Capture.run ⟨control, []⟩ history).flows allowlist =
      .ok violations := by
  rw [checkFlows, hallow]
  refine checkFrom_total (fun flow hflow => ?_) 0
  rcases mem_run_flows hflow with h | ⟨p, r, readable, q, hpq, rfl⟩
  · simp at h
  · refine record_reads (hproper (.handled r readable) ?_ r readable rfl) ?_
    · rw [hpq]
      simp
    · rw [hpq] at hhistory
      exact strip_stamp_ne_nil hcontrol (announced_of_append hhistory) [] readable

/-- Attribution is sound in every interleaving of the driver with requests: `before` and
`after` hold any requests, and of the driver's announcements those made so far. -/
theorem attribution_sound (u : Unicode) {env : Env} {names : List PyStr} {control : Option PyStr}
    (hcontrol : control = none ∨ control = some (announceScenario unattributed))
    {before after : List Happening} {r : Request} {readable : Bool}
    (hhistory : (before ++ .handled r readable :: after).filterMap Happening.announcement <+:
      (runScenarios env names).1) :
    let stamp := (Capture.run ⟨control, []⟩ before).stamp readable
    let flows := (Capture.run ⟨control, []⟩ (before ++ .handled r readable :: after)).flows
    Attributed u env names before (r.record stamp) stamp flows ∧
      ((∀ h ∈ before ++ .handled r readable :: after, ∀ r' readable', h = .handled r' readable' →
          r'.Proper u) →
        ∀ allowlist sections, validateAllowlist u allowlist = .ok sections →
          ∃ violations, checkFlows u flows allowlist = .ok violations) := by
  intro stamp flows
  have hcases := stamp_cases hcontrol (announced_of_append hhistory) [] readable
  have hcaptured : r.record stamp ∈ flows := handled_captured ⟨control, []⟩ before after r readable
  refine ⟨⟨hcaptured, ?_, ?_, ?_, ?_, ?_⟩, ?_⟩
  · exact fun hstamp => (hcases.resolve_left hstamp).1
  · exact fun hout => hcases.resolve_right fun hin => hout stamp hin.1.1 hin.1.2
  · intro hbetween hscenes hended
    have hlast : (runScenarios env names).1.getLast? = none ∨
        (runScenarios env names).1.getLast? = some between := runScenarios_last hbetween hscenes
    rw [← hended] at hlast
    exact stamp_sentinel hcontrol hlast [] readable
  · intro allowlist sections violations hallow hsentinels hcheck hstamp
    refine (reported_or_excused hallow hcheck hcaptured).resolve_right ?_
    rintro ⟨f, -, -, rule, hrule, -⟩
    simp [sectionOf, hsentinels stamp hstamp] at hrule
  · intro allowlist sections violations hallow hcheck hnot
    exact (reported_or_excused hallow hcheck hcaptured).resolve_left hnot
  · intro hproper allowlist sections hallow
    exact checkFlows_of_proper hcontrol hhistory hproper hallow

def sampleRequest : Request where
  url := .ofString "https://example.com/"
  method := .ofString "GET"
  host := .ofString "example.com"
  timestamp := .int 1

def sampleWindow : List Happening := [.announced between, .announced (.ofString "idle")]

theorem sampleRequest_attributed : ∃ stamp flows, stamp = .ofString "idle" ∧
    Attributed Unicode.ascii Env.sample [.ofString "idle"] sampleWindow
      (sampleRequest.record stamp) stamp flows := by
  have hhistory : (sampleWindow ++ [Happening.handled sampleRequest true, Happening.announced between]).filterMap
      Happening.announcement <+: (runScenarios Env.sample [.ofString "idle"]).1 := by decide +kernel
  have hstamp : (Capture.run ⟨none, []⟩ sampleWindow).stamp true = .ofString "idle" := by
    decide +kernel
  exact ⟨_, _, hstamp, (attribution_sound Unicode.ascii (Or.inl rfl) hhistory).1⟩

end T3dmium.Audit
