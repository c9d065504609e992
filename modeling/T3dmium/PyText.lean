import T3dmium.Urllib

/-! The methods of `str` the tools call, and `urlsplit`, on texts that may hold
lone surrogates. -/
namespace T3dmium

/-- `str.isspace`, which is what `\s` matches. -/
def isSpace (c : Char) : Bool :=
  let n := c.toNat
  decide (9 ≤ n ∧ n ≤ 13 ∨ 28 ≤ n ∧ n ≤ 32 ∨ n = 0x85 ∨ n = 0xa0 ∨ n = 0x1680 ∨
    0x2000 ≤ n ∧ n ≤ 0x200a ∨ n = 0x2028 ∨ n = 0x2029 ∨ n = 0x202f ∨ n = 0x205f ∨ n = 0x3000)

namespace PyChar

/-- No lone surrogate satisfies a test on characters. -/
def satisfies (p : Char → Bool) : PyChar → Bool
  | .scalar c => p c
  | .surrogate _ => false

def isAscii : PyChar → Bool := satisfies fun c => decide (c.toNat < 128)

def toLower : PyChar → PyChar
  | .scalar c => .scalar c.toLower
  | .surrogate s => .surrogate s

end PyChar

/-- What depends on the Unicode tables of the interpreter. -/
structure Unicode where
  /-- `str.lower` of a character outside ASCII, between what stands before and after it -/
  lowerOther : PyStr → PyChar → PyStr → PyStr
  lowerOther_alpha : ∀ before c after x, c.isAscii = false → x ∈ lowerOther before c after →
    x.isAscii = true → x.satisfies Char.isAlpha = true
  /-- `str.isdigit` outside ASCII -/
  isDigitOther : PyChar → Bool
  /-- what `urlsplit` accepts as a network location: brackets hold an IP address, and no
  character normalises to a delimiter -/
  netlocOk : PyStr → Bool

namespace PyStr

def isSpace : PyChar → Bool := PyChar.satisfies T3dmium.isSpace

/-- `s.strip()` -/
def strip (s : PyStr) : PyStr := (s.dropWhile isSpace).rdropWhile isSpace

/-- `s.rstrip(c)` for one character. -/
def rstrip (c : Char) (s : PyStr) : PyStr := s.rdropWhile (· == .scalar c)

/-- `s.rpartition(sep)` without the separator, where it occurs. -/
def rpartition (sep : Char) (s : PyStr) : PyStr × PyStr :=
  ((s.rdropWhile (· != .scalar sep)).dropLast, s.rtakeWhile (· != .scalar sep))

section
variable (u : Unicode)

def lowerFrom (before : PyStr) : PyStr → PyStr
  | [] => []
  | c :: after =>
    (if c.isAscii then [c.toLower] else u.lowerOther before c after) ++ lowerFrom (before ++ [c]) after

/-- `s.lower()` -/
def lower (s : PyStr) : PyStr := lowerFrom u [] s

/-- `s.isdigit()` -/
def isDigit (s : PyStr) : Bool :=
  !s.isEmpty && s.all fun c => if c.isAscii then c.satisfies Char.isDigit else u.isDigitOther c

lemma mem_of_mem_lowerFrom {c : Char} (hascii : (PyChar.scalar c).isAscii = true)
    (hc : c.isAlpha = false) {before s : PyStr} (h : .scalar c ∈ lowerFrom u before s) :
    .scalar c ∈ s := by
  induction s generalizing before with
  | nil => simp [lowerFrom] at h
  | cons x after ih =>
    rw [lowerFrom, List.mem_append] at h
    rcases h with h | h
    · split_ifs at h with hx
      · cases x with
        | surrogate s => simp [PyChar.toLower] at h
        | scalar d =>
          obtain rfl : c = d.toLower := by simpa [PyChar.toLower] using h
          rw [Char.isAlpha_toLower_eq_isAlpha] at hc
          have hupper : ¬ d.isUpper := by
            intro hd
            simp [Char.isAlpha, hd] at hc
          rw [Char.toLower_eq_of_not_isUpper hupper]
          exact List.mem_cons_self
      · have halpha := u.lowerOther_alpha before x after _ (by simpa using hx) h hascii
        rw [PyChar.satisfies, hc] at halpha
        exact absurd halpha Bool.false_ne_true
    · exact List.mem_cons_of_mem _ (ih h)

lemma mem_of_mem_strip {x : PyChar} {s : PyStr} (h : x ∈ strip s) : x ∈ s :=
  (List.dropWhile_sublist _).mem ((List.rdropWhile_prefix _ _).mem h)

lemma mem_of_mem_rstrip {x : PyChar} {c : Char} {s : PyStr} (h : x ∈ rstrip c s) : x ∈ s :=
  (List.rdropWhile_prefix _ _).mem h

/-- What is stripped off the end does not stand there any more. -/
lemma not_suffix_rstrip (c : Char) (s : PyStr) : ¬ [PyChar.scalar c] <:+ rstrip c s := by
  intro hends
  obtain ⟨pre, hpre⟩ := hends
  have hkeep : (rstrip c s).rdropWhile (· == .scalar c) = rstrip c s := List.rdropWhile_idempotent _ _
  have hdrop := List.rdropWhile_concat_pos (fun x : PyChar => x == .scalar c) pre (.scalar c) (by simp)
  have hlength := (List.rdropWhile_prefix (fun x : PyChar => x == .scalar c) pre).length_le
  rw [← hpre, hdrop] at hkeep
  rw [hkeep, List.length_append, List.length_singleton] at hlength
  omega

end

/-! `urllib.parse.urlsplit` -/

/-- Leading control characters and spaces go, and so do tabs and newlines anywhere. -/
def cleanUrl (url : PyStr) : PyStr :=
  (url.dropWhile (PyChar.satisfies fun c => decide (c.toNat ≤ 32))).filter fun x =>
    !x.satisfies fun c => decide (c ∈ ['\t', '\r', '\n'])

def splitScheme (url : PyStr) : PyStr × PyStr :=
  let scheme := url.takeWhile (· != .scalar ':')
  if url.contains (.scalar ':') && scheme.head?.any (PyChar.satisfies Char.isAlpha) &&
      scheme.all (PyChar.satisfies Urllib.isSchemeChar) then
    (scheme.map PyChar.toLower, url.drop (scheme.length + 1))
  else ([], url)

def isNetlocChar (x : PyChar) : Bool :=
  x != .scalar '/' && x != .scalar '?' && x != .scalar '#'

def splitNetloc (url : PyStr) : PyStr × PyStr :=
  if ofString "//" <+: url then ((url.drop 2).takeWhile isNetlocChar, (url.drop 2).dropWhile isNetlocChar)
  else ([], url)

/-- What stands before the first separator; all of it where there is none. -/
def before (sep : Char) (s : PyStr) : PyStr := s.takeWhile (· != .scalar sep)

/-- The components of `urlsplit` that are read. -/
structure SplitUrl where
  scheme : PyStr
  netloc : PyStr
  path : PyStr
  deriving DecidableEq

def urlsplit (u : Unicode) (url : PyStr) : Except PyError SplitUrl :=
  let s := splitScheme (cleanUrl url)
  let n := splitNetloc s.2
  if n.1 = [] ∨ u.netlocOk n.1 then .ok ⟨s.1, n.1, before '?' (before '#' n.2)⟩
  else .error .valueError

/-- `SplitResult.hostname` -/
def hostname (u : Unicode) (netloc : PyStr) : Option PyStr :=
  let hostinfo := netloc.rtakeWhile (· != .scalar '@')
  let name :=
    if PyChar.scalar '[' ∈ hostinfo then before ']' ((hostinfo.dropWhile (· != .scalar '[')).drop 1)
    else before ':' hostinfo
  if name = [] then none else some (lower u (before '%' name) ++ name.dropWhile (· != .scalar '%'))

end PyStr

/-- Tables that know ASCII only and take every network location. -/
def Unicode.ascii : Unicode where
  lowerOther _ c _ := [c]
  lowerOther_alpha := by
    intro _ c _ x hc hx hascii
    rw [List.mem_singleton.mp hx, hc] at hascii
    exact absurd hascii Bool.false_ne_true
  isDigitOther _ := false
  netlocOk _ := true

end T3dmium
