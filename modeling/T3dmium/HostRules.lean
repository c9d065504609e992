import T3dmium.DefaultDeny

/-! Exact host rules. `_normalize_host` takes a last group of digits behind a colon for a
port, also where it is the last group of an IPv6 address. -/
namespace T3dmium.Checker

section
variable (u : Unicode)

/-- `s` is `head`, a colon and digits. -/
def EndsNumeric (head s : PyStr) : Prop :=
  ∃ digits, s = head ++ .scalar ':' :: digits ∧ PyStr.isDigit u digits = true

/-- Different hosts that are one once a last numeric group is cut off: both have one
behind the same text, or one host is the other with such a group behind it. -/
inductive Merged : PyStr → PyStr → Prop
  | siblings {head s t : PyStr} (hs : EndsNumeric u head s) (ht : EndsNumeric u head t)
      (hne : s ≠ t) : Merged s t
  | longerLeft {s t : PyStr} (hs : EndsNumeric u t s) (ht : ∀ head, ¬ EndsNumeric u head t) :
      Merged s t
  | longerRight {s t : PyStr} (hs : ∀ head, ¬ EndsNumeric u head s) (ht : EndsNumeric u s t) :
      Merged s t

end

variable {u : Unicode}

lemma rpartition_append {sep : Char} {head tail : PyStr} (h : PyChar.scalar sep ∉ tail) :
    PyStr.rpartition sep (head ++ .scalar sep :: tail) = (head, tail) := by
  have htail : ∀ x ∈ tail, (x != .scalar sep) = true := by
    intro x hx
    rw [bne_iff_ne]
    rintro rfl
    exact h hx
  have hreverse : (head ++ .scalar sep :: tail).reverse =
      tail.reverse ++ .scalar sep :: head.reverse := by simp
  have htail' : ∀ x ∈ tail.reverse, (x != .scalar sep) = true := by simpa using htail
  have hcut : (head ++ .scalar sep :: tail).rdropWhile (· != .scalar sep) = head ++ [.scalar sep] := by
    rw [List.rdropWhile, hreverse, List.dropWhile_append_of_pos htail']
    simp
  have hrest : (head ++ .scalar sep :: tail).rtakeWhile (· != .scalar sep) = tail := by
    rw [List.rtakeWhile, hreverse, List.takeWhile_append_of_pos htail']
    simp
  rw [PyStr.rpartition, hcut, hrest, List.dropLast_concat]

lemma colon_notMem_digits {digits : PyStr} (h : PyStr.isDigit u digits = true) :
    PyChar.scalar ':' ∉ digits := by
  intro hmem
  simp only [PyStr.isDigit, Bool.and_eq_true, List.all_eq_true] at h
  have hcolon := h.2 _ hmem
  rw [if_pos (by decide)] at hcolon
  exact absurd hcolon (by decide)

lemma EndsNumeric.unique {head head' s : PyStr} (h : EndsNumeric u head s)
    (h' : EndsNumeric u head' s) : head = head' := by
  obtain ⟨digits, rfl, hdigits⟩ := h
  obtain ⟨digits', heq, hdigits'⟩ := h'
  have hpart := congrArg (PyStr.rpartition ':') heq
  rw [rpartition_append (colon_notMem_digits hdigits),
    rpartition_append (colon_notMem_digits hdigits')] at hpart
  exact congrArg Prod.fst hpart

/-- A last numeric group is cut off, and nothing else. -/
lemma normalizeHost_cases (host : PyStr) :
    EndsNumeric u (normalizeHost u host) (spelling u host) ∨
      (∀ head, ¬ EndsNumeric u head (spelling u host)) ∧ normalizeHost u host = spelling u host := by
  have hdef : normalizeHost u host =
      if PyChar.scalar ':' ∈ spelling u host then
        if PyStr.isDigit u (PyStr.rpartition ':' (spelling u host)).2 then
          (PyStr.rpartition ':' (spelling u host)).1
        else spelling u host
      else spelling u host := rfl
  rw [hdef]
  generalize spelling u host = s
  by_cases hcolon : PyChar.scalar ':' ∈ s
  · obtain ⟨as, bs, hs, hno⟩ := List.eq_append_cons_of_mem (List.mem_reverse.mpr hcolon)
    have hlast : s = bs.reverse ++ .scalar ':' :: as.reverse := by
      rw [← List.reverse_reverse s, hs]
      simp
    have hpart : PyStr.rpartition ':' s = (bs.reverse, as.reverse) := by
      rw [hlast]
      exact rpartition_append (by simpa using hno)
    rw [if_pos hcolon, hpart]
    by_cases hdigits : PyStr.isDigit u as.reverse = true
    · rw [if_pos hdigits]
      exact Or.inl ⟨as.reverse, hlast, hdigits⟩
    · rw [if_neg hdigits]
      refine Or.inr ⟨fun head hends => ?_, rfl⟩
      obtain ⟨digits, heq, hdigits'⟩ := hends
      rw [heq, rpartition_append (colon_notMem_digits hdigits')] at hpart
      exact hdigits ((Prod.mk.inj hpart).2 ▸ hdigits')
  · rw [if_neg hcolon]
    refine Or.inr ⟨fun head hs => ?_, rfl⟩
    obtain ⟨digits, rfl, -⟩ := hs
    exact hcolon (List.mem_append_right _ List.mem_cons_self)

/-- Two hosts are made one iff they are merged. -/
lemma merged_iff {host host' : PyStr} :
    Merged u (spelling u host) (spelling u host') ↔
      normalizeHost u host = normalizeHost u host' ∧ spelling u host ≠ spelling u host' := by
  have hhost := normalizeHost_cases (u := u) host
  have hhost' := normalizeHost_cases (u := u) host'
  generalize normalizeHost u host = n at hhost ⊢
  generalize normalizeHost u host' = n' at hhost' ⊢
  generalize spelling u host = s at hhost ⊢
  generalize spelling u host' = t at hhost' ⊢
  constructor
  · intro h
    cases h with
    | siblings hs ht hne =>
      rcases hhost with hn | ⟨hno, -⟩
      · rcases hhost' with hn' | ⟨hno', -⟩
        · exact ⟨(hn.unique hs).trans (ht.unique hn'), hne⟩
        · exact absurd ht (hno' _)
      · exact absurd hs (hno _)
    | longerLeft hs ht =>
      rcases hhost with hn | ⟨hno, -⟩
      · rcases hhost' with hn' | ⟨-, rfl⟩
        · exact absurd hn' (ht _)
        · refine ⟨hn.unique hs, ?_⟩
          rintro rfl
          exact ht _ hs
      · exact absurd hs (hno _)
    | longerRight hs ht =>
      rcases hhost' with hn' | ⟨hno', -⟩
      · rcases hhost with hn | ⟨-, rfl⟩
        · exact absurd hn (hs _)
        · refine ⟨ht.unique hn', ?_⟩
          rintro rfl
          exact hs _ ht
      · exact absurd ht (hno' _)
  · rintro ⟨rfl, hne⟩
    rcases hhost with hn | ⟨hno, rfl⟩
    · rcases hhost' with hn' | ⟨hno', rfl⟩
      · exact .siblings hn hn' hne
      · exact .longerLeft hn hno'
    · rcases hhost' with hn' | ⟨hno', rfl⟩
      · exact .longerRight hno hn'
      · exact absurd rfl hne

lemma star_notMem_normalizeHost {pattern : PyStr} (h : PyChar.scalar '*' ∉ pattern) :
    PyChar.scalar '*' ∉ normalizeHost u pattern := by
  have hspelling : PyChar.scalar '*' ∉ spelling u pattern := by
    intro hmem
    have hlower := PyStr.mem_of_mem_rstrip hmem
    have hstrip := PyStr.mem_of_mem_lowerFrom u (by decide) (by decide) hlower
    exact h (PyStr.mem_of_mem_strip hstrip)
  rcases normalizeHost_cases (u := u) pattern with ⟨digits, hs, -⟩ | ⟨-, hs⟩
  · intro hmem
    rw [hs] at hspelling
    exact hspelling (List.mem_append_left _ hmem)
  · rwa [hs]

/-- A pattern without wildcard matches the hosts it is one with. -/
lemma hostMatches_exact {pattern : PyStr} (hne : pattern ≠ []) (h : PyChar.scalar '*' ∉ pattern)
    (host : PyStr) : hostMatches u pattern host =
      .ok (decide (normalizeHost u host = normalizeHost u pattern)) := by
  have hstar := star_notMem_normalizeHost (u := u) h
  have hwild : ¬ PyStr.ofString "*." <+: normalizeHost u pattern := fun hstarts =>
    hstar (hstarts.mem (by decide))
  rw [hostMatches, if_neg hne]
  simp only [if_neg hwild, if_neg hstar]

lemma Rule.host_ne_nil (rule : Rule u) : rule.host ≠ [] := by
  intro hempty
  obtain ⟨b, hb⟩ := rule.supported
  rw [hempty] at hb
  cases hb

lemma hostMatches_of_explains {rule : Rule u} {flow : Flow u} (h : explains rule flow = true) :
    hostMatches u rule.host flow.host = .ok true := by
  obtain ⟨b, hb⟩ := hostMatches_total rule.supported flow.host
  have hmatches := ruleMatches_eq rule flow
  rw [h, ruleMatches, hb] at hmatches
  cases b with
  | true => exact hb
  | false => cases hmatches

/-- An exact rule matches its own host, and those that are merged with it. -/
theorem exactRule_iff (u : Unicode) (rule : Rule u) (hexact : PyChar.scalar '*' ∉ rule.host) :
    (∀ host, (hostMatches u rule.host host = .ok true → spelling u rule.host = spelling u host) ↔
      ¬ Merged u (spelling u rule.host) (spelling u host)) ∧
    ∀ flow : Flow u, explains rule flow = true →
      ¬ Merged u (spelling u rule.host) (spelling u flow.host) →
        spelling u rule.host = spelling u flow.host := by
  have hiff : ∀ host, (hostMatches u rule.host host = .ok true →
      spelling u rule.host = spelling u host) ↔ ¬ Merged u (spelling u rule.host) (spelling u host) := by
    intro host
    rw [hostMatches_exact rule.host_ne_nil hexact, merged_iff, Except.ok.injEq, decide_eq_true_iff,
      not_and_not_right, eq_comm (a := normalizeHost u host)]
  exact ⟨hiff, fun flow hexplains hnot => (hiff flow.host).mpr hnot (hostMatches_of_explains hexplains)⟩

/-- A rule for one host, in the section `idle`. -/
def exactAllowlist (host : String) : Json :=
  .object [("scenarios", .object
    [("idle", .list [.object [("host", .text host), ("reason", .text "update check")]])])]

def flowTo (host : String) : Json :=
  .object [("url", .text "https://updates.example.org/"), ("method", .text "GET"), ("host", .text host),
    ("timestamp", .int 1), ("scenario", .text "idle")]

lemma sampleRule_supported : ∃ b, hostMatches .ascii (.ofString "example.com") probe = .ok b :=
  ⟨_, hostMatches_exact (by decide) (by decide) _⟩

lemma noPath_rooted : ∀ p ∈ (none : Option PyStr), PyStr.ofString "/" <+: p := nofun

def sampleRule : Rule .ascii where
  host := .ofString "example.com"
  pathPrefix := none
  supported := sampleRule_supported
  rooted := noPath_rooted

theorem sampleRule_exact :
    ¬ Merged .ascii (spelling .ascii sampleRule.host) (spelling .ascii (.ofString "www.example.com")) ∧
      hostMatches .ascii sampleRule.host (.ofString "www.example.com") ≠ .ok true := by
  have hnot : ¬ Merged .ascii (spelling .ascii sampleRule.host)
      (spelling .ascii (.ofString "www.example.com")) :=
    fun hmerged => absurd (merged_iff.mp hmerged).1 (by decide +kernel)
  refine ⟨hnot, fun hmatches => ?_⟩
  exact absurd (((exactRule_iff .ascii sampleRule (by decide)).1 _).mpr hnot hmatches) (by decide +kernel)

/-- A rule for `fe80::1` excuses what is sent to `fe80::2`. -/
theorem sampleNeighbour_excused :
    (checkFlows .ascii [flowTo "fe80::2"] (exactAllowlist "fe80::1")).toOption.map List.length = some 0 ∧
      hostMatches .ascii (.ofString "fe80::1") (.ofString "fe80::2") = .ok true ∧
      spelling .ascii (.ofString "fe80::1") ≠ spelling .ascii (.ofString "fe80::2") := by
  refine ⟨by decide +kernel, ?_, by decide +kernel⟩
  rw [hostMatches_exact (by decide) (by decide)]
  exact congrArg Except.ok (decide_eq_true (by decide +kernel))

end T3dmium.Checker
