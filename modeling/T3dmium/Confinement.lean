import T3dmium.HostRules
import T3dmium.TreeWalk

/-! What an excused flow may still do. A rule's prefix is compared with the path as it was
captured, its dot segments unresolved; and the host is read from the flow, not from its URL. -/
namespace T3dmium.Checker
open TreeWalk

/-! Dot segments -/

/-- `%2e` is a dot. -/
def decodeDots : PyStr → PyStr
  | .scalar '%' :: .scalar '2' :: .scalar 'e' :: rest
  | .scalar '%' :: .scalar '2' :: .scalar 'E' :: rest => .scalar '.' :: decodeDots rest
  | x :: rest => x :: decodeDots rest
  | [] => []

/-- Where a segment of a path leads. -/
def segmentStep (segment : PyStr) : Step PyStr :=
  if decodeDots segment = .ofString "." then .here
  else if decodeDots segment = .ofString ".." then .up
  else .down (decodeDots segment)

/-- `remove_dot_segments` of RFC 3986, on the segments behind the root. A path that ends in
a dot segment ends in a slash. -/
def removeDotSegments (segments : List PyStr) : List PyStr :=
  let kept := walk [] (segments.map segmentStep)
  match (segments.map segmentStep).getLast? with
  | none | some (.down _) => kept
  | some .here | some .up => kept ++ [[]]

/-- The segments of a path behind the root, dot segments removed. -/
def resolvedPath (path : PyStr) : List PyStr := removeDotSegments (segments path).tail

/-- The segments of a prefix behind the root, dot segments resolved; none of them is a final
empty one. -/
def resolvedPrefix (pre : PyStr) : List PyStr := walk [] ((prefixSegments pre).tail.map segmentStep)

/-- No dot segment, and no encoded dot. -/
def Dotless (path : PyStr) : Prop := ∀ segment ∈ segments path, segmentStep segment = .down segment

/-- The segments of `path` behind those of `pre` never lead above `pre`. -/
def StaysBelow (pre path : PyStr) : Prop :=
  Stays 0 (((segments path).drop (prefixSegments pre).length).map segmentStep)

instance (pre path : PyStr) : Decidable (StaysBelow pre path) := inferInstanceAs (Decidable (Stays _ _))

lemma prefixSegments_root {pre : PyStr} (h : PyStr.ofString "/" <+: pre) :
    ∃ rest, prefixSegments pre = [] :: rest := by
  obtain ⟨s, rfl⟩ := h
  have hsplit : segments (PyStr.ofString "/" ++ s) = [] :: segments s :=
    List.splitOn_append_cons_self_of_not_mem (List.not_mem_nil (a := PyChar.scalar '/')) s
  have hne : segments s ≠ [] := List.splitOn_ne_nil _ _
  rw [prefixSegments, hsplit, List.dropLast_cons_of_ne_nil hne]
  split_ifs
  · exact ⟨_, rfl⟩
  · exact ⟨_, rfl⟩

lemma walk_prefix_removeDotSegments (segments : List PyStr) :
    walk [] (segments.map segmentStep) <+: removeDotSegments segments := by
  unfold removeDotSegments
  dsimp only
  split
  · exact List.prefix_rfl
  · exact List.prefix_rfl
  · exact List.prefix_append _ _
  · exact List.prefix_append _ _

lemma resolvedPrefix_of_dotless {pre : PyStr} (h : Dotless pre) :
    resolvedPrefix pre = (prefixSegments pre).tail := by
  have hsteps : (prefixSegments pre).tail.map segmentStep = (prefixSegments pre).tail.map Step.down := by
    refine List.map_congr_left fun segment hmem => h segment ?_
    have hmem := List.mem_of_mem_tail hmem
    unfold prefixSegments at hmem
    split_ifs at hmem
    · exact List.mem_of_mem_dropLast hmem
    · exact hmem
  rw [resolvedPrefix, hsteps, walk_down, List.nil_append]

lemma pathMatches_of_ruleMatches {u : Unicode} {rule : Rule u} {flow : Flow u} {pre : PyStr}
    (hpre : rule.pathPrefix = some pre) (h : ruleMatches u rule flow = .ok true) :
    pathMatches pre (urlPath u flow.url) = true := by
  obtain ⟨b, hb⟩ := hostMatches_total rule.supported flow.host
  simp only [ruleMatches, hb, hpre, pathOf_eq, Except.mapError, bind, Except.bind] at h
  cases b with
  | true => exact Except.ok.inj h
  | false => cases h

/-- A prefix confines the path as it was captured. Once dot segments are removed the path
is still at or below the prefix if it never climbs above it. -/
theorem prefix_confines (u : Unicode) (rule : Rule u) (flow : Flow u) {pre : PyStr}
    (hpre : rule.pathPrefix = some pre) (h : ruleMatches u rule flow = .ok true) :
    prefixSegments pre <+: segments (urlPath u flow.url) ∧
      (StaysBelow pre (urlPath u flow.url) →
        resolvedPrefix pre <+: resolvedPath (urlPath u flow.url)) ∧
      (Dotless pre → resolvedPrefix pre = (prefixSegments pre).tail) := by
  have hrooted := rule.rooted pre hpre
  have hne : pre ≠ [] := by
    rintro rfl
    exact absurd hrooted (by decide)
  have hcovers := ((pathMatches_iff hne).mp (pathMatches_of_ruleMatches hpre h)).1
  refine ⟨hcovers, fun hstays => ?_, resolvedPrefix_of_dotless⟩
  obtain ⟨behind, hbehind⟩ := hcovers
  obtain ⟨rest, hrest⟩ := prefixSegments_root hrooted
  rw [StaysBelow, ← hbehind, List.drop_left' rfl] at hstays
  have htail : (segments (urlPath u flow.url)).tail = rest ++ behind := by
    rw [← hbehind, hrest]
    rfl
  have hwalk : walk [] ((rest ++ behind).map segmentStep) =
      walk (resolvedPrefix pre) (behind.map segmentStep) := by
    rw [List.map_append, walk_append, resolvedPrefix, hrest, List.tail_cons]
  have hbelow := @walk_of_stays _ _ (resolvedPrefix pre) [] hstays
  rw [List.append_nil, ← hwalk] at hbelow
  rw [resolvedPath, htail]
  exact hbelow.trans (walk_prefix_removeDotSegments _)

lemma dlRule_rooted : ∀ p ∈ some (PyStr.ofString "/dl"), PyStr.ofString "/" <+: p := by decide

def dlRule : Rule .ascii where
  host := .ofString "example.com"
  pathPrefix := some (.ofString "/dl")
  supported := sampleRule_supported
  rooted := dlRule_rooted

def dlFlow (url : String) (h : isAbsolute .ascii (.ofString url) = true) : Flow .ascii :=
  ⟨.ofString url, .ofString "example.com", .ofString "downloads", h⟩

lemma dlInside_absolute : isAbsolute .ascii (.ofString "https://example.com/dl/a/../b") = true := by
  decide +kernel

lemma dlOutside_absolute : isAbsolute .ascii (.ofString "https://example.com/dl/%2e%2e/secret") = true := by
  decide +kernel

def dlInside : Flow .ascii := dlFlow "https://example.com/dl/a/../b" dlInside_absolute

def dlOutside : Flow .ascii := dlFlow "https://example.com/dl/%2e%2e/secret" dlOutside_absolute

theorem dlInside_confined :
    resolvedPrefix (.ofString "/dl") <+: resolvedPath (urlPath .ascii dlInside.url) :=
  (prefix_confines .ascii dlRule dlInside rfl rfl).2.1 (by decide +kernel)

/-- What `/dl` excuses is served from `/secret`. -/
theorem dlOutside_escapes :
    ruleMatches .ascii dlRule dlOutside = .ok true ∧
      resolvedPath (urlPath .ascii dlOutside.url) = [.ofString "secret"] ∧
      resolvedPrefix (.ofString "/dl") = [.ofString "dl"] :=
  ⟨rfl, by decide +kernel, by decide +kernel⟩

/-! The host in the URL -/

lemma hostMatches_congr {u : Unicode} {pattern host host' : PyStr}
    (h : normalizeHost u host = normalizeHost u host') :
    hostMatches u pattern host = hostMatches u pattern host' := by
  unfold hostMatches
  rw [h]

/-- A flow that is not reported has its `host` and the path of its URL covered by one rule of
its own section; and the hostname of the URL too, where it is that host. -/
theorem excused_host (u : Unicode) {flows : List Json} {allowlist : Json} {violations : List Violation}
    (hcheck : checkFlows u flows allowlist = .ok violations) {flow : Json} (hmem : flow ∈ flows)
    (hnot : flow ∉ violations.map Violation.flow) :
    ∃ sections, ∃ f : Flow u, ∃ rule, validateAllowlist u allowlist = .ok sections ∧ Reads flow f ∧
      rule ∈ sectionOf sections f.scenario ∧ hostMatches u rule.host f.host = .ok true ∧
      (∀ pre ∈ rule.pathPrefix, pathMatches pre (urlPath u f.url) = true) ∧
      ∀ parts name, PyStr.urlsplit u f.url = .ok parts → PyStr.hostname u parts.netloc = some name →
        normalizeHost u name = normalizeHost u f.host → hostMatches u rule.host name = .ok true := by
  obtain ⟨sections, hsections, hfrom⟩ := bind_eq_ok.mp hcheck
  have hexcused : Excused sections flow := by
    by_contra hex
    refine hnot ?_
    rw [(checkFrom_eq_ok hfrom).1, List.mem_filter]
    exact ⟨hmem, by simpa using hex⟩
  obtain ⟨f, hreads, rule, hrule, hexplains⟩ := hexcused
  have hhost := hostMatches_of_explains hexplains
  have hmatches : ruleMatches u rule f = .ok true := by rw [ruleMatches_eq, hexplains]
  refine ⟨sections, f, rule, hsections, hreads, hrule, hhost, ?_, ?_⟩
  · exact fun pre hpre => pathMatches_of_ruleMatches hpre hmatches
  · intro parts name _ _ hsame
    rw [hostMatches_congr hsame]
    exact hhost

theorem ownHost_excused :
    ∃ sections, ∃ f : Flow .ascii, ∃ rule,
      validateAllowlist .ascii (exactAllowlist "updates.example.org") = .ok sections ∧
      Reads (flowTo "updates.example.org") f ∧ rule ∈ sectionOf sections f.scenario ∧
      hostMatches .ascii rule.host f.host = .ok true ∧
      ∃ parts name, PyStr.urlsplit .ascii f.url = .ok parts ∧ PyStr.hostname .ascii parts.netloc = some name ∧
        hostMatches .ascii rule.host name = .ok true := by
  obtain ⟨violations, hcheck, hnone⟩ : ∃ violations, checkFlows .ascii [flowTo "updates.example.org"]
      (exactAllowlist "updates.example.org") = .ok violations ∧ violations.isEmpty = true :=
    exists_ok (by decide +kernel)
  obtain rfl := List.isEmpty_iff.mp hnone
  obtain ⟨sections, f, rule, hsections, hreads, hrule, hhost, -, hurl⟩ :=
    excused_host .ascii hcheck List.mem_cons_self List.not_mem_nil
  -- the URL of the flow is at the host it names
  have hread : (validateFlow .ascii (flowTo "updates.example.org") 0).toOption.map (fun f => (f.url, f.host)) =
      some (.ofString "https://updates.example.org/", .ofString "updates.example.org") := by decide +kernel
  rw [hreads 0] at hread
  obtain ⟨hflowUrl, hflowHost⟩ := Prod.mk.inj (Option.some.inj hread)
  have hname : (PyStr.urlsplit .ascii f.url).toOption.bind (fun parts => PyStr.hostname .ascii parts.netloc) =
      some f.host := by
    rw [hflowUrl, hflowHost]
    decide +kernel
  cases hsplit : PyStr.urlsplit .ascii f.url with
  | error e =>
    rw [hsplit] at hname
    cases hname
  | ok parts =>
    rw [hsplit] at hname
    exact ⟨sections, f, rule, hsections, hreads, hrule, hhost, parts, f.host, hsplit, hname,
      hurl parts f.host hsplit hname rfl⟩

/-- What goes to `updates.example.org` is excused as traffic to `example.com`. -/
theorem otherHost_excused :
    (checkFlows .ascii [flowTo "example.com"] (exactAllowlist "example.com")).toOption.map List.length =
        some 0 ∧
      ((PyStr.urlsplit .ascii (.ofString "https://updates.example.org/")).toOption.bind
          fun parts => PyStr.hostname .ascii parts.netloc) = some (.ofString "updates.example.org") ∧
      hostMatches .ascii (.ofString "example.com") (.ofString "updates.example.org") = .ok false :=
  ⟨by decide +kernel, by decide +kernel, rfl⟩

end T3dmium.Checker
