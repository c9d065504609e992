import T3dmium.CheckerSteps
import T3dmium.Separators

/-! The verdict is exact: what is reported is what no rule of the flow's own section
covers, label by label and segment by segment. -/
namespace T3dmium.Checker

/-! What a rule covers -/

def labels (host : PyStr) : List PyStr := host.splitOn (.scalar '.')

def segments (path : PyStr) : List PyStr := path.splitOn (.scalar '/')

/-- The pattern is the host, or `*.` before a base in whose labels the longer host ends. -/
def CoversHost (pattern host : PyStr) : Prop :=
  (.scalar '*' ∉ pattern ∧ pattern = host) ∨
    ∃ base, pattern = .ofString "*." ++ base ∧ labels base <:+ labels host ∧
      (labels base).length < (labels host).length

/-- The segments of a prefix, without a final empty one. -/
def prefixSegments (pre : PyStr) : List PyStr :=
  if (segments pre).getLast? = some [] then (segments pre).dropLast else segments pre

def CoversPath (pre path : PyStr) : Prop :=
  prefixSegments pre <+: segments path ∧
    ([.scalar '/'] <:+ pre → prefixSegments pre ≠ segments path)

section
variable (u : Unicode)

/-- A host trimmed, lower-cased and without trailing dots. -/
def spelling (host : PyStr) : PyStr := PyStr.rstrip '.' (PyStr.lower u (PyStr.strip host))

def urlPath (url : PyStr) : PyStr :=
  match PyStr.urlsplit u url with
  | .ok parts => if parts.path = [] then .ofString "/" else parts.path
  | .error _ => []

end

variable {u : Unicode}

def Covers (rule : Rule u) (flow : Flow u) : Prop :=
  CoversHost (spelling u rule.host) (spelling u flow.host) ∧
    ∀ pre ∈ rule.pathPrefix, CoversPath pre (urlPath u flow.url)

/-! Hosts -/

lemma normalizeHost_of_no_colon {host : PyStr} (h : PyChar.scalar ':' ∉ host) :
    normalizeHost u host = spelling u host := by
  have hspelling : PyChar.scalar ':' ∉ spelling u host := by
    intro hmem
    have hlower := PyStr.mem_of_mem_rstrip hmem
    have hstrip := PyStr.mem_of_mem_lowerFrom u (by decide) (by decide) hlower
    exact h (PyStr.mem_of_mem_strip hstrip)
  rw [spelling] at hspelling
  rw [normalizeHost, if_neg hspelling, spelling]

lemma hostMatches_iff {pattern host : PyStr} {b : Bool} (hb : hostMatches u pattern host = .ok b) :
    b = true ↔ CoversHost (normalizeHost u pattern) (normalizeHost u host) := by
  unfold hostMatches at hb
  dsimp only at hb
  generalize normalizeHost u pattern = p at hb ⊢
  generalize normalizeHost u host = h at hb ⊢
  split_ifs at hb with hempty hwild hbase hstar
  · obtain rfl := Except.ok.inj hb
    obtain ⟨base, rfl⟩ := hwild
    have hdrop : (PyStr.ofString "*." ++ base).drop 2 = base := rfl
    have hmem : PyChar.scalar '*' ∈ PyStr.ofString "*." ++ base :=
      List.mem_append_left _ (by decide)
    rw [hdrop, decide_eq_true_iff, Separators.cons_suffix_iff]
    constructor
    · exact fun hsuffix => Or.inr ⟨base, rfl, hsuffix⟩
    · rintro (⟨hno, -⟩ | ⟨base', heq, hsuffix⟩)
      · exact absurd hmem hno
      · rw [List.append_cancel_left heq]
        exact hsuffix
  · obtain rfl := Except.ok.inj hb
    rw [decide_eq_true_iff]
    constructor
    · rintro rfl
      exact Or.inl ⟨hstar, rfl⟩
    · rintro (⟨-, rfl⟩ | ⟨base, rfl, -⟩)
      · rfl
      · exact absurd (List.prefix_append _ _) hwild

/-! Paths -/

lemma prefixSegments_concat (base : PyStr) :
    prefixSegments (base ++ [.scalar '/']) = segments base := by
  rw [prefixSegments, segments, Separators.splitOn_concat, if_pos List.getLast?_concat,
    List.dropLast_concat, segments]

/-- Only a text that ends in a separator has an empty last piece. -/
lemma prefixSegments_of_not_suffix {pre : PyStr} (hne : pre ≠ [])
    (h : ¬ [PyChar.scalar '/'] <:+ pre) : prefixSegments pre = segments pre := by
  rw [prefixSegments, if_neg]
  intro hlast
  obtain ⟨pieces, hpieces⟩ := List.getLast?_eq_some_iff.mp hlast
  rcases List.eq_nil_or_concat pieces with rfl | ⟨_, _, hcons⟩
  · exact hne (Separators.splitOn_injective _ (hpieces.trans (List.splitOn_nil _).symm))
  · have hsplit := Separators.splitOn_eq_append (PyChar.scalar '/')
      (by rw [hcons]; simp) (List.cons_ne_nil _ _) hpieces
    exact h ⟨_, hsplit.symm⟩

lemma concat_prefix_iff_getElem {pre path : PyStr} {c : PyChar} :
    pre ++ [c] <+: path ↔ pre <+: path ∧ path[pre.length]? = some c := by
  constructor
  · rintro ⟨rest, rfl⟩
    refine ⟨⟨c :: rest, by simp⟩, by simp⟩
  · rintro ⟨⟨rest, rfl⟩, hc⟩
    rw [List.prefix_append_right_inj]
    cases rest with
    | nil => simp at hc
    | cons d rest =>
      obtain rfl : d = c := by simpa using hc
      exact ⟨rest, rfl⟩

lemma pathMatches_iff {pre path : PyStr} (hne : pre ≠ []) :
    pathMatches pre path = true ↔ CoversPath pre path := by
  by_cases hslash : [PyChar.scalar '/'] <:+ pre
  · have hcode : pathMatches pre path = true ↔ pre <+: path := by
      simp [pathMatches, hslash]
    obtain ⟨base, rfl⟩ := hslash
    rw [hcode, CoversPath, prefixSegments_concat, Separators.concat_prefix_iff]
    refine and_congr_right fun hbegins => ?_
    constructor
    · intro hlt _ heq
      exact hlt.ne (congrArg List.length heq)
    · intro hproper
      refine lt_of_le_of_ne hbegins.length_le fun heq => ?_
      exact hproper (List.suffix_append _ _) (hbegins.eq_of_length heq)
  · have hcode : pathMatches pre path = true ↔ pre = path ∨ pre ++ [.scalar '/'] <+: path := by
      rw [concat_prefix_iff_getElem]
      by_cases hbegins : pre <+: path
      · have hlength : path.length = pre.length ↔ pre = path :=
          ⟨fun heq => hbegins.eq_of_length heq.symm, fun heq => by rw [heq]⟩
        simp [pathMatches, hslash, hbegins, hlength]
      · have hne : pre ≠ path := by
          rintro rfl
          exact hbegins List.prefix_rfl
        simp [pathMatches, hbegins, hne]
    rw [hcode, CoversPath, prefixSegments_of_not_suffix hne hslash,
      Separators.eq_or_concat_prefix_iff]
    exact ⟨fun hbegins => ⟨hbegins, fun hends => absurd hends hslash⟩, And.left⟩

/-! Rules -/

lemma pathOf_eq (flow : Flow u) : pathOf u flow.url = .ok (urlPath u flow.url) := by
  obtain ⟨path, hpath⟩ := pathOf_total flow
  rw [hpath]
  unfold pathOf at hpath
  unfold urlPath
  cases hsplit : PyStr.urlsplit u flow.url with
  | ok parts =>
    rw [hsplit] at hpath
    exact hpath.symm
  | error e =>
    rw [hsplit] at hpath
    cases hpath

theorem explains_iff {rule : Rule u} {flow : Flow u} (hrule : PyChar.scalar ':' ∉ rule.host)
    (hflow : PyChar.scalar ':' ∉ flow.host) : explains rule flow = true ↔ Covers rule flow := by
  obtain ⟨hostOk, hhost⟩ := hostMatches_total rule.supported flow.host
  have hcovers := hostMatches_iff hhost
  rw [normalizeHost_of_no_colon hrule, normalizeHost_of_no_colon hflow] at hcovers
  have hmatches := ruleMatches_eq rule flow
  simp only [ruleMatches, hhost, pathOf_eq, Except.mapError, bind, Except.bind] at hmatches
  rw [Covers, ← hcovers]
  cases hostOk with
  | false =>
    obtain hfalse : false = explains rule flow := Except.ok.inj hmatches
    simp [← hfalse]
  | true =>
    simp only [if_true, true_and] at hmatches ⊢
    cases hpre : rule.pathPrefix with
    | none =>
      rw [hpre] at hmatches
      obtain htrue : true = explains rule flow := Except.ok.inj hmatches
      simp [← htrue]
    | some pre =>
      rw [hpre] at hmatches
      obtain hpath : pathMatches pre (urlPath u flow.url) = explains rule flow :=
        Except.ok.inj hmatches
      have hrooted := rule.rooted pre hpre
      have hne : pre ≠ [] := by
        rintro rfl
        exact absurd hrooted (by decide)
      rw [← hpath, pathMatches_iff hne]
      simp

/-! The verdict -/

lemma mem_of_lookup {sections : Sections u} {scenario : PyStr} {rules : List (Rule u)}
    (h : sections.lookup scenario = some rules) : (scenario, rules) ∈ sections := by
  obtain ⟨l, l', hsections, -⟩ := List.lookup_eq_some_iff.mp h
  simp [hsections]

/-- No rule host of the allowlist names a port. -/
def Portless (sections : Sections u) : Prop :=
  ∀ entry ∈ sections, ∀ rule ∈ entry.2, PyChar.scalar ':' ∉ rule.host

/-- A rule in the section of the flow's own scenario covers it. -/
def Covered (sections : Sections u) (flow : Json) : Prop :=
  ∃ f, Reads flow f ∧ ∃ rule ∈ sectionOf sections f.scenario, Covers rule f

lemma excused_iff_covered {sections : Sections u} {flow : Json} (hrules : Portless sections)
    (hflow : ∀ f : Flow u, Reads flow f → PyChar.scalar ':' ∉ f.host) :
    Excused sections flow ↔ Covered sections flow := by
  refine exists_congr fun f => and_congr_right fun hf => exists_congr fun rule => ?_
  refine and_congr_right fun hmem => explains_iff ?_ (hflow f hf)
  unfold sectionOf at hmem
  cases hlookup : sections.lookup f.scenario with
  | none => simp [hlookup] at hmem
  | some rules =>
    rw [hlookup, Option.getD_some] at hmem
    exact hrules _ (mem_of_lookup hlookup) rule hmem

open Classical in
/-- Reported are exactly the flows that no rule of their own section covers, in order
and with multiplicity. -/
theorem checkFlows_exact {allowlist : Json} {sections : Sections u} {flows : List Json}
    (hallow : validateAllowlist u allowlist = .ok sections)
    (hflows : ∀ flow ∈ flows, ∃ f : Flow u, Reads flow f) (hrules : Portless sections)
    (hhosts : ∀ flow ∈ flows, ∀ f : Flow u, Reads flow f → PyChar.scalar ':' ∉ f.host) :
    ∃ violations, checkFlows u flows allowlist = .ok violations ∧
      violations.map Violation.flow = flows.filter fun flow => ¬ Covered sections flow := by
  obtain ⟨violations, hcheck⟩ : ∃ violations, checkFrom u sections 0 flows = .ok violations :=
    checkFrom_total hflows 0
  obtain ⟨hreported, -⟩ := checkFrom_eq_ok hcheck
  refine ⟨violations, ?_, ?_⟩
  · rw [checkFlows, hallow]
    exact hcheck
  · rw [hreported]
    refine List.filter_congr fun flow hflow => ?_
    rw [excused_iff_covered hrules (hhosts flow hflow)]

def sampleAllowlist : Json :=
  .object [("scenarios", .object
    [("idle", .list []),
      ("downloads", .list [.object [("host", .text "*.Example.com"), ("path_prefix", .text "/files"),
        ("reason", .text "scripted download")]])])]

def sampleFlow (url : String) : Json :=
  .object [("url", .text url), ("method", .text "GET"), ("host", .text "cdn.example.com."),
    ("timestamp", .int 1), ("scenario", .text "downloads")]

def sampleFlows : List Json :=
  [sampleFlow "https://cdn.example.com/files/a", sampleFlow "https://cdn.example.com/files-evil"]

lemma exists_ok {ε α : Type} {x : Except ε α} {p : α → Bool} (h : x.toOption.any p = true) :
    ∃ a, x = .ok a ∧ p a = true := by
  cases x with
  | error e => cases h
  | ok a => exact ⟨a, rfl, h⟩

lemma sampleAllowlist_valid :
    ∃ sections, validateAllowlist Unicode.ascii sampleAllowlist = .ok sections ∧ Portless sections := by
  have hvalid : (validateAllowlist Unicode.ascii sampleAllowlist).toOption.any
      (fun sections => sections.all fun entry => entry.2.all fun rule =>
        !rule.host.contains (.scalar ':')) := by decide +kernel
  obtain ⟨sections, hsections, hall⟩ := exists_ok hvalid
  refine ⟨sections, hsections, ?_⟩
  simpa [Portless] using hall

lemma sampleFlows_valid (flow : Json) (h : flow ∈ sampleFlows) :
    ∃ f : Flow Unicode.ascii, Reads flow f ∧ PyChar.scalar ':' ∉ f.host := by
  have hvalid : sampleFlows.all fun flow => (validateFlow Unicode.ascii flow 0).toOption.any
      fun f => !f.host.contains (.scalar ':') := by decide +kernel
  obtain ⟨f, hf, hhost⟩ := exists_ok (List.all_eq_true.mp hvalid flow h)
  exact ⟨f, reads_of_validateFlow hf, by simpa using hhost⟩

open Classical in
theorem sampleFlows_exact :
    ∃ sections : Sections Unicode.ascii, ∃ violations,
      checkFlows Unicode.ascii sampleFlows sampleAllowlist = .ok violations ∧
        violations.map Violation.flow = sampleFlows.filter fun flow => ¬ Covered sections flow := by
  obtain ⟨sections, hsections, hportless⟩ := sampleAllowlist_valid
  refine ⟨sections, checkFlows_exact hsections (fun flow hflow => ?_) hportless
    fun flow hflow g hg => ?_⟩
  · obtain ⟨f, hf, -⟩ := sampleFlows_valid flow hflow
    exact ⟨f, hf⟩
  · obtain ⟨f, hf, hhost⟩ := sampleFlows_valid flow hflow
    rwa [← hf.unique hg]
end T3dmium.Checker
