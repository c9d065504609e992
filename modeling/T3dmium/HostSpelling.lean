import T3dmium.HostRules

/-! Spellings of one host. `_normalize_host` takes root dots off before it takes the port
off, and white space off before the dots, so what stands behind such a cut stays. -/
namespace T3dmium.Checker

/-- A character of a DNS label. -/
def isLabelChar : PyChar → Bool :=
  PyChar.satisfies fun c => c.isAlphanum || c == '-' || c == '_'

structure DnsName where
  text : PyStr
  labels_ok : ∀ label ∈ labels text, label ≠ [] ∧ ∀ x ∈ label, isLabelChar x = true

def rootDots (n : ℕ) : PyStr := List.replicate n (.scalar '.')

/-- A name in other letters, with white space around it, root dots and a port behind it.
The gaps are the white space in between. -/
structure Respelling (d : DnsName) where
  name : PyStr
  name_eq : name.map PyChar.toLower = d.text.map PyChar.toLower
  lead : PyStr
  gap : PyStr
  dots : ℕ
  gap' : PyStr
  port : Option PyStr
  trail : PyStr
  lead_space : ∀ x ∈ lead, PyStr.isSpace x = true
  gap_space : ∀ x ∈ gap, PyStr.isSpace x = true
  gap'_space : ∀ x ∈ gap', PyStr.isSpace x = true
  trail_space : ∀ x ∈ trail, PyStr.isSpace x = true
  port_ok : ∀ p ∈ port, p ≠ [] ∧ ∀ x ∈ p, x.satisfies Char.isDigit = true

namespace Respelling
variable {d : DnsName} (r : Respelling d)

def portText : PyStr :=
  match r.port with
  | none => []
  | some p => .scalar ':' :: p

def text : PyStr :=
  r.lead ++ (r.name ++ r.gap ++ rootDots r.dots ++ r.gap' ++ r.portText) ++ r.trail

/-- Nothing stands between the name and what is cut off. -/
def Settled : Prop :=
  match r.port with
  | none => r.gap = [] ∨ r.dots = 0
  | some _ => r.gap = [] ∧ r.dots = 0 ∧ r.gap' = []

/-- What stays behind the name. -/
def leftover : PyStr :=
  match r.port with
  | none => if r.dots = 0 then [] else r.gap
  | some _ => r.gap ++ rootDots r.dots ++ r.gap'

lemma leftover_eq_nil : r.leftover = [] ↔ r.Settled := by
  unfold leftover Settled
  cases r.port with
  | none => by_cases hdots : r.dots = 0 <;> simp [hdots]
  | some p => simp [rootDots]

end Respelling

/-! Characters -/

lemma toLower_of_not_upper {c : Char} (h : ¬ c.isUpper) : PyChar.toLower (.scalar c) = .scalar c := by
  rw [PyChar.toLower, Char.toLower_eq_of_not_isUpper h]

@[simp] lemma isLabelChar_toLower (x : PyChar) : isLabelChar x.toLower = isLabelChar x := by
  cases x with
  | surrogate s => rfl
  | scalar c =>
    by_cases hupper : c.isUpper
    · have halpha : c.isAlpha = true := by simp [Char.isAlpha, hupper]
      have halpha' : c.toLower.isAlpha = true := by rw [Char.isAlpha_toLower_eq_isAlpha, halpha]
      simp [isLabelChar, PyChar.satisfies, PyChar.toLower, Char.isAlphanum, halpha, halpha']
    · rw [toLower_of_not_upper hupper]

@[simp] lemma toLower_toLower (x : PyChar) : x.toLower.toLower = x.toLower := by
  cases x <;> simp [PyChar.toLower]

lemma toLower_eq_dot {x : PyChar} : x.toLower = .scalar '.' ↔ x = .scalar '.' := by
  cases x with
  | surrogate s => simp [PyChar.toLower]
  | scalar c =>
    by_cases hupper : c.isUpper
    · have halpha : c.isAlpha = true := by simp [Char.isAlpha, hupper]
      have halpha' : c.toLower.isAlpha = true := by rw [Char.isAlpha_toLower_eq_isAlpha, halpha]
      simp only [PyChar.toLower, PyChar.scalar.injEq]
      constructor
      · intro h
        rw [h] at halpha'
        exact absurd halpha' (by decide)
      · rintro rfl
        exact absurd halpha (by decide)
    · rw [toLower_of_not_upper hupper]

lemma isLabelChar_facts {x : PyChar} (h : isLabelChar x = true) :
    x.isAscii = true ∧ PyStr.isSpace x = false ∧ x ≠ .scalar '.' ∧ x ≠ .scalar ':' ∧ x ≠ .scalar '*' := by
  cases x with
  | surrogate s => cases h
  | scalar c =>
    simp only [isLabelChar, PyChar.satisfies, Bool.or_eq_true, beq_iff_eq, Char.isAlphanum, Char.isAlpha,
      Char.isUpper, Char.isLower, Char.isDigit, Bool.and_eq_true, decide_eq_true_eq,
      UInt32.le_iff_toNat_le, ge_iff_le] at h
    change ((((65 ≤ c.toNat ∧ c.toNat ≤ 90) ∨ (97 ≤ c.toNat ∧ c.toNat ≤ 122)) ∨
      (48 ≤ c.toNat ∧ c.toNat ≤ 57)) ∨ c = '-') ∨ c = '_' at h
    have hcodes : c.toNat < 128 ∧ 32 < c.toNat ∧ c.toNat ≠ 46 ∧ c.toNat ≠ 58 ∧ c.toNat ≠ 42 := by
      rcases h with ((h | h) | rfl) | rfl
      · omega
      · omega
      · decide
      · decide
    obtain ⟨hascii, hspace, hdot, hcolon, hstar⟩ := hcodes
    refine ⟨decide_eq_true hascii, ?_, ?_, ?_, ?_⟩
    · simp only [PyStr.isSpace, PyChar.satisfies, T3dmium.isSpace, decide_eq_false_iff_not]
      omega
    all_goals
      intro heq
      obtain rfl := PyChar.scalar.inj heq
      first
      | exact hdot rfl
      | exact hcolon rfl
      | exact hstar rfl

lemma toLower_space {x : PyChar} (h : PyStr.isSpace x = true) : x.toLower = x := by
  cases x with
  | surrogate s => rfl
  | scalar c =>
    refine toLower_of_not_upper fun hupper => ?_
    simp only [PyStr.isSpace, PyChar.satisfies, T3dmium.isSpace, decide_eq_true_eq] at h
    simp only [Char.isUpper, decide_eq_true_eq, UInt32.le_iff_toNat_le, ge_iff_le] at hupper
    change 65 ≤ c.toNat ∧ c.toNat ≤ 90 at hupper
    omega

lemma toLower_digit {x : PyChar} (h : x.satisfies Char.isDigit = true) : x.toLower = x := by
  cases x with
  | surrogate s => rfl
  | scalar c =>
    refine toLower_of_not_upper fun hupper => ?_
    simp only [PyChar.satisfies, Char.isDigit, Bool.and_eq_true, decide_eq_true_eq,
      UInt32.le_iff_toNat_le, ge_iff_le] at h
    simp only [Char.isUpper, decide_eq_true_eq, UInt32.le_iff_toNat_le, ge_iff_le] at hupper
    change 65 ≤ c.toNat ∧ c.toNat ≤ 90 at hupper
    change 48 ≤ c.toNat ∧ c.toNat ≤ 57 at h
    omega

lemma isLabelChar_of_digit {x : PyChar} (h : x.satisfies Char.isDigit = true) : isLabelChar x = true := by
  cases x with
  | surrogate s => cases h
  | scalar c =>
    have hdigit : c.isDigit = true := h
    simp [isLabelChar, PyChar.satisfies, Char.isAlphanum, hdigit]

/-! Names -/

/-- What a normal form of a name looks like. -/
structure Bare (s : PyStr) : Prop where
  ne_nil : s ≠ []
  chars : ∀ x ∈ s, isLabelChar x = true ∨ x = .scalar '.'
  last : ¬ [PyChar.scalar '.'] <:+ s

lemma DnsName.bare (d : DnsName) : Bare d.text := by
  refine ⟨?_, ?_, ?_⟩
  · intro hempty
    refine (d.labels_ok [] ?_).1 rfl
    rw [hempty, labels, List.splitOn_nil]
    exact List.mem_singleton_self _
  · intro x hx
    by_cases hdot : x = .scalar '.'
    · exact Or.inr hdot
    · obtain ⟨label, hlabel, hmem⟩ := Separators.mem_piece _ hx hdot
      exact Or.inl ((d.labels_ok label hlabel).2 x hmem)
  · intro hends
    obtain ⟨base, hbase⟩ := hends
    refine (d.labels_ok [] ?_).1 rfl
    rw [← hbase, labels, Separators.splitOn_concat]
    simp

lemma bare_map_toLower {s : PyStr} : Bare (s.map PyChar.toLower) ↔ Bare s := by
  have hchars : (∀ x ∈ s.map PyChar.toLower, isLabelChar x = true ∨ x = .scalar '.') ↔
      ∀ x ∈ s, isLabelChar x = true ∨ x = .scalar '.' := by
    simp only [List.forall_mem_map, isLabelChar_toLower, toLower_eq_dot]
  have hlast : [PyChar.scalar '.'] <:+ s.map PyChar.toLower ↔ [PyChar.scalar '.'] <:+ s := by
    simp only [List.singleton_suffix_iff_getLast?_eq_some, List.getLast?_map, Option.map_eq_some_iff,
      toLower_eq_dot, exists_eq_right]
  constructor
  · exact fun h => ⟨fun hempty => h.ne_nil (by rw [hempty]; rfl), hchars.mp h.chars, fun h' => h.last (hlast.mpr h')⟩
  · exact fun h => ⟨fun hempty => h.ne_nil (List.map_eq_nil_iff.mp hempty), hchars.mpr h.chars,
      fun h' => h.last (hlast.mp h')⟩

/-! White space, letters and dots -/

section
variable {u : Unicode}

/-- White space around a text goes, and nothing else. -/
lemma strip_surrounded {lead core trail : PyStr} (hlead : ∀ x ∈ lead, PyStr.isSpace x = true)
    (htrail : ∀ x ∈ trail, PyStr.isSpace x = true) (hne : core ≠ [])
    (hfirst : ∀ x ∈ core.head?, PyStr.isSpace x = false)
    (hlast : ∀ x ∈ core.getLast?, PyStr.isSpace x = false) :
    PyStr.strip (lead ++ core ++ trail) = core := by
  have hleft : (lead ++ core ++ trail).dropWhile PyStr.isSpace = core ++ trail := by
    rw [List.append_assoc, List.dropWhile_append_of_pos hlead]
    cases core with
    | nil => exact absurd rfl hne
    | cons x core => exact List.dropWhile_cons_of_neg (by simpa using hfirst)
  have hright : (core ++ trail).rdropWhile PyStr.isSpace = core := by
    have htrail' : ∀ x ∈ trail.reverse, PyStr.isSpace x = true := by simpa using htrail
    rw [List.rdropWhile, List.reverse_append, List.dropWhile_append_of_pos htrail']
    refine List.rdropWhile_eq_self_iff.mpr fun h => ?_
    rw [hlast _ (List.getLast?_eq_some_getLast h)]
    exact Bool.false_ne_true
  rw [PyStr.strip, hleft, hright]

/-- The tables leave white space as it is. -/
def SpaceKept (u : Unicode) : Prop :=
  ∀ before c after, c.isAscii = false → PyStr.isSpace c = true → u.lowerOther before c after = [c]

lemma lowerFrom_eq_map (hspace : SpaceKept u) {s : PyStr}
    (hs : ∀ x ∈ s, x.isAscii = true ∨ PyStr.isSpace x = true) (before : PyStr) :
    PyStr.lowerFrom u before s = s.map PyChar.toLower := by
  induction s generalizing before with
  | nil => rfl
  | cons x s ih =>
    obtain ⟨hx, hs⟩ := List.forall_mem_cons.mp hs
    rw [PyStr.lowerFrom, ih hs, List.map_cons]
    split_ifs with hascii
    · rfl
    · have hother := hx.resolve_left hascii
      rw [hspace before x s (by simpa using hascii) hother, toLower_space hother]
      rfl

lemma lower_eq_map (hspace : SpaceKept u) {s : PyStr}
    (hs : ∀ x ∈ s, x.isAscii = true ∨ PyStr.isSpace x = true) : PyStr.lower u s = s.map PyChar.toLower :=
  lowerFrom_eq_map hspace hs []

lemma rstrip_of_not_suffix {c : Char} {s : PyStr} (h : ¬ [PyChar.scalar c] <:+ s) :
    PyStr.rstrip c s = s := by
  rw [PyStr.rstrip, List.rdropWhile_eq_self_iff]
  intro hne hlast
  refine h ?_
  rw [List.singleton_suffix_iff_getLast?_eq_some, List.getLast?_eq_some_getLast hne]
  exact congrArg some (eq_of_beq hlast)

lemma rstrip_rootDots (s : PyStr) (n : ℕ) : PyStr.rstrip '.' (s ++ rootDots n) = PyStr.rstrip '.' s := by
  induction n with
  | zero => simp [rootDots]
  | succ n ih =>
    have hcut : (s ++ rootDots (n + 1)) = s ++ rootDots n ++ [.scalar '.'] := by
      rw [rootDots, List.replicate_succ', ← List.append_assoc]
      rfl
    rw [hcut, PyStr.rstrip, List.rdropWhile_concat_pos _ _ _ (by rfl)]
    exact ih

/-- What a numeric group stands behind is left. -/
lemma normalizeHost_of_port {host left port : PyStr}
    (hs : spelling u host = left ++ .scalar ':' :: port) (hport : PyStr.isDigit u port = true) :
    normalizeHost u host = left := by
  rcases normalizeHost_cases (u := u) host with h | ⟨h, -⟩
  · exact h.unique ⟨port, hs, hport⟩
  · exact absurd ⟨port, hs, hport⟩ (h left)

lemma normalizeHost_of_colonless {host : PyStr} (h : PyChar.scalar ':' ∉ spelling u host) :
    normalizeHost u host = spelling u host := by
  rcases normalizeHost_cases (u := u) host with ⟨digits, hs, -⟩ | ⟨-, hs⟩
  · rw [hs] at h
    exact absurd (List.mem_append_right _ List.mem_cons_self) h
  · exact hs

lemma isSpace_dot : PyStr.isSpace (.scalar '.') = false := by decide

lemma Bare.space_free {s : PyStr} (h : Bare s) {x : PyChar} (hx : x ∈ s) : PyStr.isSpace x = false := by
  rcases h.chars x hx with hlabel | rfl
  · exact (isLabelChar_facts hlabel).2.1
  · exact isSpace_dot

lemma Bare.settles {s : PyStr} (h : Bare s) {x : PyChar} (hx : x ∈ s) :
    x.isAscii = true ∨ PyStr.isSpace x = true := by
  rcases h.chars x hx with hlabel | rfl
  · exact Or.inl (isLabelChar_facts hlabel).1
  · exact Or.inl (by decide)

lemma Bare.colon_notMem {s : PyStr} (h : Bare s) : PyChar.scalar ':' ∉ s := by
  intro hx
  rcases h.chars _ hx with hlabel | hdot
  · exact (isLabelChar_facts hlabel).2.2.2.1 rfl
  · exact absurd hdot (by decide)

lemma Bare.star_notMem {s : PyStr} (h : Bare s) : PyChar.scalar '*' ∉ s := by
  intro hx
  rcases h.chars _ hx with hlabel | hdot
  · exact (isLabelChar_facts hlabel).2.2.2.2 rfl
  · exact absurd hdot (by decide)

/-- White space around a text falls away, and so do the dots behind it. -/
lemma spelling_surrounded (hspace : SpaceKept u) {lead core trail : PyStr}
    (hlead : ∀ x ∈ lead, PyStr.isSpace x = true) (htrail : ∀ x ∈ trail, PyStr.isSpace x = true)
    (hne : core ≠ []) (hfirst : ∀ x ∈ core.head?, PyStr.isSpace x = false)
    (hlast : ∀ x ∈ core.getLast?, PyStr.isSpace x = false)
    (hchars : ∀ x ∈ core, x.isAscii = true ∨ PyStr.isSpace x = true) :
    spelling u (lead ++ core ++ trail) = PyStr.rstrip '.' (core.map PyChar.toLower) := by
  rw [spelling, strip_surrounded hlead htrail hne hfirst hlast, lower_eq_map hspace hchars]

/-- The same where nothing but the name is there. -/
lemma Bare.spelling_eq (hspace : SpaceKept u) {s lead trail : PyStr} (h : Bare s)
    (hlead : ∀ x ∈ lead, PyStr.isSpace x = true) (htrail : ∀ x ∈ trail, PyStr.isSpace x = true) :
    spelling u (lead ++ s ++ trail) = s.map PyChar.toLower := by
  rw [spelling_surrounded hspace hlead htrail h.ne_nil (fun x hx => h.space_free (List.mem_of_head? hx))
    (fun x hx => h.space_free (List.mem_of_getLast? hx)) fun x hx => h.settles hx]
  exact rstrip_of_not_suffix (bare_map_toLower.mpr h).last

/-- The normal form of a name is the name in lower case. -/
lemma Bare.normalizeHost_eq (hspace : SpaceKept u) {s : PyStr} (h : Bare s) :
    normalizeHost u s = s.map PyChar.toLower := by
  have hspelling := h.spelling_eq hspace (List.forall_mem_nil _) (List.forall_mem_nil _)
  rw [List.nil_append, List.append_nil] at hspelling
  have hcolon := (bare_map_toLower.mpr h).colon_notMem
  rw [normalizeHost_of_colonless (hspelling ▸ hcolon), hspelling]

namespace Respelling
variable {d : DnsName} (r : Respelling d)

lemma bare : Bare r.name := by
  rw [← bare_map_toLower, r.name_eq, bare_map_toLower]
  exact d.bare

lemma rootDots_toLower (n : ℕ) : (rootDots n).map PyChar.toLower = rootDots n := by
  simp [rootDots, PyChar.toLower]

lemma space_toLower {s : PyStr} (h : ∀ x ∈ s, PyStr.isSpace x = true) : s.map PyChar.toLower = s := by
  refine (List.map_congr_left fun x hx => ?_).trans (List.map_id s)
  exact toLower_space (h x hx)

lemma mem_rootDots {x : PyChar} {n : ℕ} (h : x ∈ rootDots n) : x = .scalar '.' := List.eq_of_mem_replicate h

/-- What is between the name and the port is white space or dots. -/
lemma leftover_chars {x : PyChar} (h : x ∈ r.leftover) : PyStr.isSpace x = true ∨ x = .scalar '.' := by
  unfold leftover at h
  split at h
  · split_ifs at h
    · cases h
    · exact Or.inl (r.gap_space x h)
  · rw [List.mem_append, List.mem_append] at h
    rcases h with (h | h) | h
    · exact Or.inl (r.gap_space x h)
    · exact Or.inr (mem_rootDots h)
    · exact Or.inl (r.gap'_space x h)

lemma head_space_free (rest : PyStr) : ∀ x ∈ (r.name ++ rest).head?, PyStr.isSpace x = false := by
  intro x hx
  rw [List.head?_append_of_ne_nil _ r.bare.ne_nil] at hx
  exact r.bare.space_free (List.mem_of_head? hx)

/-- The name and what may stand between it and its port. -/
lemma settles {x : PyChar} (h : x ∈ r.name ++ (r.gap ++ rootDots r.dots ++ r.gap')) :
    x.isAscii = true ∨ PyStr.isSpace x = true := by
  rw [List.mem_append, List.mem_append, List.mem_append] at h
  rcases h with h | (h | h) | h
  · exact r.bare.settles h
  · exact Or.inr (r.gap_space x h)
  · exact Or.inl (mem_rootDots h ▸ by decide)
  · exact Or.inr (r.gap'_space x h)

lemma spelling_port (hspace : SpaceKept u) {port : PyStr} (hport : r.port = some port) :
    spelling u r.text = d.text.map PyChar.toLower ++ r.leftover ++ .scalar ':' :: port := by
  obtain ⟨hne, hdigits⟩ := r.port_ok port hport
  have htext : r.text =
      r.lead ++ (r.name ++ (r.gap ++ rootDots r.dots ++ r.gap') ++ .scalar ':' :: port) ++ r.trail := by
    simp [text, portText, hport]
  have hleft : r.leftover = r.gap ++ rootDots r.dots ++ r.gap' := by
    rw [leftover, hport]
  obtain ⟨digits, digit, rfl⟩ : ∃ digits digit, port = digits ++ [digit] := by
    rcases List.eq_nil_or_concat' port with rfl | hsome
    · exact absurd rfl hne
    · exact hsome
  have hdigit := isLabelChar_facts (isLabelChar_of_digit (hdigits digit (by simp)))
  have hlast (front : PyStr) : (front ++ .scalar ':' :: (digits ++ [digit])).getLast? = some digit := by
    rw [← List.cons_append, ← List.append_assoc, List.getLast?_concat]
  have hkept : (digits ++ [digit]).map PyChar.toLower = digits ++ [digit] :=
    (List.map_congr_left fun x hx => toLower_digit (hdigits x hx)).trans (List.map_id _)
  rw [htext, spelling_surrounded hspace r.lead_space r.trail_space (by simp)]
  · rw [List.map_append, List.map_append, List.map_append, List.map_append, r.name_eq,
      space_toLower r.gap_space, rootDots_toLower, space_toLower r.gap'_space, List.map_cons, hkept, ← hleft]
    refine rstrip_of_not_suffix fun hends => ?_
    rw [List.singleton_suffix_iff_getLast?_eq_some] at hends
    exact hdigit.2.2.1 (Option.some.inj ((hlast _).symm.trans hends))
  · rw [List.append_assoc]
    exact r.head_space_free _
  · intro x hx
    rw [hlast] at hx
    obtain rfl : digit = x := by simpa using hx
    exact hdigit.2.1
  · intro x hx
    rcases List.mem_append.mp hx with hx | hx
    · exact r.settles hx
    · rcases List.mem_cons.mp hx with rfl | hx
      · exact Or.inl (by decide)
      · exact Or.inl (isLabelChar_facts (isLabelChar_of_digit (hdigits x hx))).1

/-- White space that ends in no root dot falls away. -/
lemma spelling_undotted (hspace : SpaceKept u) (hport : r.port = none) (hdots : r.dots = 0) :
    spelling u r.text = d.text.map PyChar.toLower ++ r.leftover := by
  have htext : r.text = r.lead ++ r.name ++ (r.gap ++ r.gap' ++ r.trail) := by
    simp [text, portText, hport, hdots, rootDots]
  have hleft : r.leftover = [] := by simp [leftover, hport, hdots]
  rw [htext, r.bare.spelling_eq hspace r.lead_space, r.name_eq, hleft, List.append_nil]
  intro x hx
  rw [List.mem_append, List.mem_append] at hx
  rcases hx with (hx | hx) | hx
  · exact r.gap_space x hx
  · exact r.gap'_space x hx
  · exact r.trail_space x hx

/-- White space before the root dots stays. -/
lemma spelling_dotted (hspace : SpaceKept u) (hport : r.port = none) (hdots : r.dots ≠ 0) :
    spelling u r.text = d.text.map PyChar.toLower ++ r.leftover := by
  obtain ⟨n, hn⟩ := Nat.exists_eq_succ_of_ne_zero hdots
  have htext : r.text = r.lead ++ (r.name ++ (r.gap ++ rootDots r.dots)) ++ (r.gap' ++ r.trail) := by
    simp [text, portText, hport]
  have hleft : r.leftover = r.gap := by simp [leftover, hport, hdots]
  rw [htext, spelling_surrounded hspace r.lead_space _ (by simp [r.bare.ne_nil]) (r.head_space_free _)]
  · rw [List.map_append, List.map_append, r.name_eq, space_toLower r.gap_space, rootDots_toLower,
      ← List.append_assoc, rstrip_rootDots, hleft]
    refine rstrip_of_not_suffix fun hends => ?_
    rw [List.singleton_suffix_iff_getLast?_eq_some] at hends
    rcases List.eq_nil_or_concat' r.gap with hgap | ⟨rest, last, hgap⟩
    · rw [hgap, List.append_nil] at hends
      exact (bare_map_toLower.mpr d.bare).last (List.singleton_suffix_iff_getLast?_eq_some.mpr hends)
    · rw [hgap, ← List.append_assoc, List.getLast?_concat] at hends
      have hlast := r.gap_space last (by simp [hgap])
      rw [Option.some.inj hends, isSpace_dot] at hlast
      cases hlast
  · intro x hx
    rw [hn, rootDots, List.replicate_succ', ← List.append_assoc, ← List.append_assoc,
      List.getLast?_concat] at hx
    obtain rfl : PyChar.scalar '.' = x := by simpa using hx
    exact isSpace_dot
  · intro x hx
    refine r.settles ?_
    rw [← List.append_assoc]
    exact List.mem_append_left _ hx
  · intro x hx
    rcases List.mem_append.mp hx with hx | hx
    · exact r.gap'_space x hx
    · exact r.trail_space x hx

lemma spelling_portless (hspace : SpaceKept u) (hport : r.port = none) :
    spelling u r.text = d.text.map PyChar.toLower ++ r.leftover := by
  by_cases hdots : r.dots = 0
  · exact r.spelling_undotted hspace hport hdots
  · exact r.spelling_dotted hspace hport hdots

/-- The normal form: the name in lower case, and what is left behind it. -/
theorem normalizeHost_eq (hspace : SpaceKept u) :
    normalizeHost u r.text = d.text.map PyChar.toLower ++ r.leftover := by
  cases hport : r.port with
  | some port =>
    obtain ⟨hne, hdigits⟩ := r.port_ok port hport
    refine normalizeHost_of_port (r.spelling_port hspace hport) ?_
    simp only [PyStr.isDigit, Bool.and_eq_true, List.all_eq_true]
    refine ⟨by simpa using hne, fun x hx => ?_⟩
    rw [if_pos (isLabelChar_facts (isLabelChar_of_digit (hdigits x hx))).1]
    exact hdigits x hx
  | none =>
    have hspelling := r.spelling_portless hspace hport
    rw [← hspelling]
    refine normalizeHost_of_colonless ?_
    rw [hspelling, List.mem_append, not_or]
    refine ⟨(bare_map_toLower.mpr d.bare).colon_notMem, fun hcolon => ?_⟩
    rcases r.leftover_chars hcolon with h | h
    · exact absurd h (by decide)
    · exact absurd h (by decide)

end Respelling

/-- A text that ends in white space or a dot is no normal form. -/
lemma normalizeHost_length_lt (hspace : SpaceKept u) {s : PyStr} {last : PyChar}
    (hs : ∀ x ∈ s, x.isAscii = true ∨ PyStr.isSpace x = true) (hlast : s.getLast? = some last)
    (hcut : PyStr.isSpace last = true ∨ last = .scalar '.') : (normalizeHost u s).length < s.length := by
  have hnormal : (normalizeHost u s).length ≤ (spelling u s).length := by
    rcases normalizeHost_cases (u := u) s with ⟨digits, h, -⟩ | ⟨-, h⟩
    · rw [h, List.length_append]
      omega
    · rw [h]
  have hrstrip : (spelling u s).length ≤ (PyStr.lower u (PyStr.strip s)).length :=
    (List.rdropWhile_prefix _ _).length_le
  have hlower : (PyStr.lower u (PyStr.strip s)).length = (PyStr.strip s).length := by
    rw [lower_eq_map hspace fun x hx => hs x (PyStr.mem_of_mem_strip hx), List.length_map]
  have hstrip : (PyStr.strip s).length ≤ (s.dropWhile PyStr.isSpace).length :=
    (List.rdropWhile_prefix _ _).length_le
  have hdrop : (s.dropWhile PyStr.isSpace).length ≤ s.length := (List.dropWhile_sublist _).length_le
  by_contra hnot
  -- nothing has been cut off then, not even at the end
  have hfront : s.dropWhile PyStr.isSpace = s := (List.dropWhile_suffix _).eq_of_length (by omega)
  have hback : s.rdropWhile PyStr.isSpace = s := by
    have hcut : PyStr.strip s = s.rdropWhile PyStr.isSpace := by rw [PyStr.strip, hfront]
    refine (List.rdropWhile_prefix _ _).eq_of_length ?_
    rw [hcut] at hrstrip hlower hstrip
    omega
  have hne : s ≠ [] := by
    rintro rfl
    cases hlast
  rcases hcut with hspaceLast | rfl
  · have hend := List.rdropWhile_eq_self_iff.mp hback hne
    rw [List.getLast?_eq_some_getLast hne, Option.some.injEq] at hlast
    rw [hlast] at hend
    exact hend hspaceLast
  · have hkept : PyStr.strip s = s := by rw [PyStr.strip, hfront, hback]
    have hspelling : spelling u s = PyStr.rstrip '.' (s.map PyChar.toLower) := by
      rw [spelling, hkept, lower_eq_map hspace hs]
    have hdots : PyStr.rstrip '.' (s.map PyChar.toLower) = s.map PyChar.toLower := by
      refine (List.rdropWhile_prefix _ _).eq_of_length (le_antisymm (List.rdropWhile_prefix _ _).length_le ?_)
      rw [hspelling] at hnormal
      rw [List.length_map]
      exact (not_lt.mp hnot).trans hnormal
    refine PyStr.not_suffix_rstrip '.' (s.map PyChar.toLower) ?_
    rw [hdots, List.singleton_suffix_iff_getLast?_eq_some, List.getLast?_map, hlast]
    rfl

/-! Patterns -/

/-- Which hosts a supported pattern matches rests on their normal forms. -/
lemma hostMatches_eq_iff {pattern : PyStr} (h : ∃ b, hostMatches u pattern probe = .ok b)
    (host host' : PyStr) : hostMatches u pattern host = hostMatches u pattern host' ↔
      (CoversHost (normalizeHost u pattern) (normalizeHost u host) ↔
        CoversHost (normalizeHost u pattern) (normalizeHost u host')) := by
  obtain ⟨b, hb⟩ := hostMatches_total h host
  obtain ⟨b', hb'⟩ := hostMatches_total h host'
  rw [← hostMatches_iff hb, ← hostMatches_iff hb', hb, hb', Except.ok.injEq, Bool.eq_iff_iff]

/-- No pattern covers a name and the name with something behind it. -/
lemma covers_apart {pattern name leftover : PyStr} (hname : Bare name) (hne : leftover ≠ [])
    (hleft : ∀ x ∈ leftover, PyStr.isSpace x = true ∨ x = .scalar '.')
    (h : CoversHost pattern name) (h' : CoversHost pattern (name ++ leftover)) : False := by
  have hends : ∀ base : PyStr, PyChar.scalar '.' :: base <:+ name →
      ¬ PyChar.scalar '.' :: base <:+ name ++ leftover := by
    intro base hbase hbase'
    obtain ⟨front, hfront⟩ := hbase
    obtain ⟨front', hfront'⟩ := hbase'
    have hlast : name.getLast? = (name ++ leftover).getLast? := by
      rw [← hfront', List.getLast?_append_of_ne_nil _ (List.cons_ne_nil _ _), ← hfront,
        List.getLast?_append_of_ne_nil _ (List.cons_ne_nil _ _)]
    rw [List.getLast?_append_of_ne_nil _ hne, List.getLast?_eq_some_getLast hname.ne_nil,
      List.getLast?_eq_some_getLast hne, Option.some.injEq] at hlast
    have hlabel : isLabelChar (name.getLast hname.ne_nil) = true := by
      refine (hname.chars _ (List.getLast_mem _)).resolve_right fun hdot => hname.last ?_
      rw [List.singleton_suffix_iff_getLast?_eq_some, List.getLast?_eq_some_getLast hname.ne_nil, hdot]
    obtain ⟨-, hspace, hdot, -⟩ := isLabelChar_facts hlabel
    rw [hlast] at hspace hdot
    rcases hleft _ (List.getLast_mem hne) with h | h
    · rw [hspace] at h
      cases h
    · exact hdot h
  rcases h with ⟨hstar, rfl⟩ | ⟨base, rfl, hbase⟩
  · rcases h' with ⟨-, heq⟩ | ⟨base, heq, -⟩
    · exact hne (List.self_eq_append_right.mp heq)
    · rw [heq] at hstar
      exact hstar (List.mem_append_left _ (by decide))
  · rcases h' with ⟨hstar, -⟩ | ⟨base', heq, hbase'⟩
    · exact hstar (List.mem_append_left _ (by decide))
    · obtain rfl := List.append_cancel_left heq
      exact hends base ((Separators.cons_suffix_iff _).mpr hbase) ((Separators.cons_suffix_iff _).mpr hbase')

lemma Bare.supported {s : PyStr} (h : Bare s) : ∃ b, hostMatches u s probe = .ok b :=
  ⟨_, hostMatches_exact h.ne_nil h.star_notMem probe⟩

/-- As a pattern a respelling is exact. -/
lemma Respelling.hostMatches_eq (hspace : SpaceKept u) {d : DnsName} (r : Respelling d) (host : PyStr) :
    hostMatches u r.text host =
      .ok (decide (normalizeHost u host = d.text.map PyChar.toLower ++ r.leftover)) := by
  have hnormal := r.normalizeHost_eq hspace
  have hstar : PyChar.scalar '*' ∉ normalizeHost u r.text := by
    rw [hnormal, List.mem_append, not_or]
    refine ⟨(bare_map_toLower.mpr d.bare).star_notMem, fun h => ?_⟩
    rcases r.leftover_chars h with h | h
    · exact absurd h (by decide)
    · exact absurd h (by decide)
  have hwild : ¬ PyStr.ofString "*." <+: normalizeHost u r.text := fun hstarts =>
    hstar (hstarts.mem (by decide))
  have hne : r.text ≠ [] := by simp [Respelling.text, r.bare.ne_nil]
  rw [hostMatches, if_neg hne, ← hnormal]
  simp only [if_neg hwild, if_neg hstar]

/-- What stands behind the name would be cut off another time. -/
lemma Respelling.normalizeHost_again (hspace : SpaceKept u) {d : DnsName} (r : Respelling d)
    (hleft : r.leftover ≠ []) : normalizeHost u (normalizeHost u r.text) ≠ normalizeHost u r.text := by
  have hr := r.normalizeHost_eq hspace
  have hchars : ∀ x ∈ normalizeHost u r.text, x.isAscii = true ∨ PyStr.isSpace x = true := by
    intro x hx
    rw [hr, List.mem_append] at hx
    rcases hx with hx | hx
    · exact (bare_map_toLower.mpr d.bare).settles hx
    · rcases r.leftover_chars hx with h | rfl
      · exact Or.inr h
      · exact Or.inl (by decide)
  have hlast : (normalizeHost u r.text).getLast? = some (r.leftover.getLast hleft) := by
    rw [hr, List.getLast?_append_of_ne_nil _ hleft, List.getLast?_eq_some_getLast hleft]
  have hlt := normalizeHost_length_lt hspace hchars hlast (r.leftover_chars (List.getLast_mem hleft))
  intro hidem
  rw [hidem] at hlt
  exact lt_irrefl _ hlt

/-- Spellings of a name are one host exactly when they are settled: in normal form, as a
host under every pattern, and as a pattern over every host. -/
theorem settled_iff (u : Unicode) (hspace : SpaceKept u) (d : DnsName) (r : Respelling d) :
    (normalizeHost u r.text = normalizeHost u d.text ↔ r.Settled) ∧
    (normalizeHost u (normalizeHost u r.text) = normalizeHost u r.text ↔ r.Settled) ∧
    ((∀ pattern, (∃ b, hostMatches u pattern probe = .ok b) →
      hostMatches u pattern r.text = hostMatches u pattern d.text) ↔ r.Settled) ∧
    ((∀ host, hostMatches u r.text host = hostMatches u d.text host) ↔ r.Settled) ∧
    ∀ pattern, (∃ b, hostMatches u pattern probe = .ok b) →
      (hostMatches u pattern r.text = hostMatches u pattern d.text ↔
        r.Settled ∨ ¬ CoversHost (normalizeHost u pattern) (d.text.map PyChar.toLower) ∧
          ¬ CoversHost (normalizeHost u pattern) (d.text.map PyChar.toLower ++ r.leftover)) := by
  have hd : normalizeHost u d.text = d.text.map PyChar.toLower := d.bare.normalizeHost_eq hspace
  have hr := r.normalizeHost_eq hspace
  have hL : Bare (d.text.map PyChar.toLower) := bare_map_toLower.mpr d.bare
  have hnormal : normalizeHost u r.text = normalizeHost u d.text ↔ r.Settled := by
    rw [hr, hd, List.append_right_eq_self, r.leftover_eq_nil]
  have hpattern : ∀ pattern, (∃ b, hostMatches u pattern probe = .ok b) →
      (hostMatches u pattern r.text = hostMatches u pattern d.text ↔
        r.Settled ∨ ¬ CoversHost (normalizeHost u pattern) (d.text.map PyChar.toLower) ∧
          ¬ CoversHost (normalizeHost u pattern) (d.text.map PyChar.toLower ++ r.leftover)) := by
    intro pattern hsupported
    rw [hostMatches_eq_iff hsupported, hr, hd, ← r.leftover_eq_nil]
    constructor
    · intro hsame
      by_cases hleft : r.leftover = []
      · exact Or.inl hleft
      · have hapart := @covers_apart (normalizeHost u pattern) _ _ hL hleft fun x => r.leftover_chars
        exact Or.inr ⟨fun h => hapart h (hsame.mpr h), fun h => hapart (hsame.mp h) h⟩
    · rintro (hleft | ⟨h, h'⟩)
      · rw [hleft, List.append_nil]
      · exact iff_of_false h' h
  refine ⟨hnormal, ?_, ?_, ?_, hpattern⟩
  · constructor
    · intro hidem
      rw [← r.leftover_eq_nil]
      by_contra hleft
      exact r.normalizeHost_again hspace hleft hidem
    · intro hsettled
      have hlower : (d.text.map PyChar.toLower).map PyChar.toLower = d.text.map PyChar.toLower := by
        simp
      rw [hnormal.mpr hsettled, hd, hL.normalizeHost_eq hspace, hlower]
  · constructor
    · intro hall
      have hself := hall d.text d.bare.supported
      rw [hostMatches_exact d.bare.ne_nil d.bare.star_notMem,
        hostMatches_exact d.bare.ne_nil d.bare.star_notMem, Except.ok.injEq, decide_eq_decide] at hself
      exact hnormal.mp (hself.mpr rfl)
    · exact fun hsettled pattern hsupported => (hpattern pattern hsupported).mpr (Or.inl hsettled)
  · constructor
    · intro hall
      have hself := hall d.text
      rw [r.hostMatches_eq hspace, hostMatches_exact d.bare.ne_nil d.bare.star_notMem,
        Except.ok.injEq, decide_eq_decide, ← hr] at hself
      exact hnormal.mp (hself.mpr rfl).symm
    · intro hsettled host
      rw [r.hostMatches_eq hspace, hostMatches_exact d.bare.ne_nil d.bare.star_notMem, ← hr,
        hnormal.mpr hsettled]

end

lemma ascii_spaceKept : SpaceKept .ascii := fun _ _ _ _ _ => rfl

lemma exampleCom_labels : ∀ label ∈ labels (.ofString "example.com"),
    label ≠ [] ∧ ∀ x ∈ label, isLabelChar x = true := by decide +kernel

def exampleCom : DnsName := ⟨.ofString "example.com", exampleCom_labels⟩

lemma blank_space : ∀ x ∈ PyStr.ofString " ", PyStr.isSpace x = true := by decide

lemma empty_space : ∀ x ∈ ([] : PyStr), PyStr.isSpace x = true := fun _ hx => absurd hx List.not_mem_nil

lemma port443_ok : ∀ p ∈ some (PyStr.ofString "443"), p ≠ [] ∧ ∀ x ∈ p, x.satisfies Char.isDigit = true := by
  decide

lemma exampleCOM_eq : (PyStr.ofString "Example.COM").map PyChar.toLower =
    exampleCom.text.map PyChar.toLower := by decide

/-- ` Example.COM:443`, with root dots before the port. -/
def exampleSpelling (dots : ℕ) : Respelling exampleCom where
  name := .ofString "Example.COM"
  name_eq := exampleCOM_eq
  lead := .ofString " "
  gap := []
  dots := dots
  gap' := []
  port := some (.ofString "443")
  trail := []
  lead_space := blank_space
  gap_space := empty_space
  gap'_space := empty_space
  trail_space := empty_space
  port_ok := port443_ok

theorem exampleSpelling_settled :
    normalizeHost .ascii (exampleSpelling 0).text = normalizeHost .ascii exampleCom.text :=
  (settled_iff .ascii ascii_spaceKept exampleCom (exampleSpelling 0)).1.mpr ⟨rfl, rfl, rfl⟩

/-- `Example.COM.:443` is not taken for `example.com`. -/
theorem rootDot_differs :
    hostMatches .ascii exampleCom.text exampleCom.text = .ok true ∧
      hostMatches .ascii exampleCom.text (exampleSpelling 1).text = .ok false ∧
      normalizeHost .ascii (normalizeHost .ascii (exampleSpelling 1).text) ≠
        normalizeHost .ascii (exampleSpelling 1).text := by
  rw [hostMatches_exact (by decide) (by decide), hostMatches_exact (by decide) (by decide)]
  refine ⟨?_, ?_, by decide +kernel⟩
  · exact congrArg Except.ok (decide_eq_true rfl)
  · exact congrArg Except.ok (decide_eq_false (by decide +kernel))

end T3dmium.Checker
