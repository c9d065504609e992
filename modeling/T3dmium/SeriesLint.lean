import T3dmium.JsonText
import T3dmium.Lines
import T3dmium.Pathlib

/-! The check of `patches/series` against the files under `patches/`. The check compares
the lines as they are written; what a line names, the file system decides. -/
namespace T3dmium.SeriesLint
open TreeWalk FileTree Pathlib Lines

/-- `read_series` on the text of the file. -/
def readSeries (text : List Char) : List PyStr :=
  ((splitlines (universalNewlines text)).map fun raw => PyStr.strip (raw.map .scalar)).filter
    fun line => decide (line ≠ [] ∧ line.head? ≠ some (.scalar '#'))

/-- What the file system holds: the files, the directories and where `patches/` is; and how many
bytes it takes for a name and for a path. -/
structure Disk where
  files : List (List PyStr)
  dirs : List (List PyStr)
  patches : List PyStr
  nameMax : ℕ
  pathMax : ℕ
  patches_mem : patches ∈ dirs
  apart : ∀ pos ∈ files, pos ∉ dirs
  closed : ∀ pos name, pos ++ [name] ∈ files ∨ pos ++ [name] ∈ dirs → pos ∈ dirs
  named : ∀ pos name, pos ++ [name] ∈ files ∨ pos ++ [name] ∈ dirs → FileName name

/-- The bytes of a text in UTF-8, which has no surrogates. -/
def byteLength (s : PyStr) : ℕ :=
  (s.map fun
    | .scalar c => c.utf8Size
    | .surrogate _ => 1).sum

def dotPatch : PyStr := .ofString ".patch"

/-- The last name matches `*.patch`. -/
def PatchName (names : List PyStr) : Prop := ∃ name ∈ names.getLast?, dotPatch <:+ name

instance (names : List PyStr) : Decidable (PatchName names) :=
  inferInstanceAs (Decidable (∃ name ∈ names.getLast?, _))

section
variable (d : Disk)

def Disk.tree : DiskTree PyStr Unit := fun pos =>
  if pos ∈ d.dirs then some .dir else if pos ∈ d.files then some (.file ()) else none

/-- The file that `PATCHES_DIR / entry` is. -/
def located (entry : PyStr) : Option (List PyStr) :=
  (follow d.tree d.patches entry).filter (isFile d.tree)

/-- `str(PATCHES_DIR / entry)`; of several slashes at the start `pathlib` keeps two if they are two. -/
def systemPath (entry : PyStr) : PyStr :=
  if isAbsolute entry then
    (if PyStr.ofString "//" <+: entry ∧ ¬ PyStr.ofString "///" <+: entry then .ofString "//" else .ofString "/") ++
      asPosix (parts entry)
  else .ofString "/" ++ asPosix (d.patches ++ parts entry)

/-- Looking the path up fails with `ENAMETOOLONG`: it is too long as a whole, or a name is that is
looked up in a directory. A path with a null character is not looked up. -/
def Overlong (entry : PyStr) : Prop :=
  .scalar '\x00' ∉ entry ∧ (d.pathMax < byteLength (systemPath d entry) ∨
    ∃ k < (parts entry).length,
      (lookup d.tree (if isAbsolute entry then [] else d.patches)
        (((parts entry).take k).map partStep)).any (FileTree.isDir d.tree) = true ∧
      d.nameMax < byteLength ((parts entry).getD k []))

instance (entry : PyStr) : Decidable (Overlong d entry) := inferInstanceAs (Decidable (_ ∧ (_ ∨ _)))

/-- The `OSError` of a path that is too long. -/
structure NameTooLong where
  path : PyStr

/-- `(PATCHES_DIR / entry).is_file()` -/
def isFileAt (entry : PyStr) : Except NameTooLong Bool :=
  if Overlong d entry then .error ⟨systemPath d entry⟩ else .ok (located d entry).isSome

/-- `PATCHES_DIR.rglob("*.patch")`, relative to `PATCHES_DIR`: directories too. -/
def rglobPatch : List (List PyStr) :=
  (d.files ++ d.dirs).filterMap fun pos =>
    let names := pos.drop d.patches.length
    if d.patches <+: pos ∧ PatchName names then some names else none

def onDisk : List PyStr := (rglobPatch d).map asPosix

/-- What the loop of `check_series` adds for one line, after the lines of `seen`. -/
def entryProblems (seen : List PyStr) (entry : PyStr) (found : Bool) : List PyStr :=
  (if seen.contains entry then [.ofString "series: duplicate entry " ++ entry] else []) ++
    (if dotPatch <:+ entry then []
      else [.ofString "series: " ++ entry ++ .ofString " lacks .patch suffix"]) ++
    if found then [] else [.ofString "series: entry has no file: " ++ entry]

def seriesProblems : List PyStr → List PyStr → Except NameTooLong (List PyStr)
  | _, [] => .ok []
  | seen, entry :: series => do
    let found ← isFileAt d entry
    let problems ← seriesProblems (entry :: seen) series
    .ok (entryProblems seen entry found ++ problems)

def pyLe (a b : PyStr) : Bool := decide (a.map PyChar.codePoint ≤ b.map PyChar.codePoint)

def orphans (series : List PyStr) : List PyStr :=
  ((onDisk d).filter fun name => !series.contains name).dedup.insertionSort fun a b => pyLe a b = true

/-- The problems `check_series` adds. -/
def checkSeries (text : List Char) : Except NameTooLong (List PyStr) := do
  let series := readSeries text
  let problems ← seriesProblems d [] series
  .ok (problems ++
    (orphans d series).map fun orphan => .ofString "patch file not listed in series: " ++ orphan)

/-! What the check is for -/

/-- A `.patch` file under `patches/`. -/
def PatchFile (pos : List PyStr) : Prop := pos ∈ d.files ∧ d.patches <+: pos ∧ PatchName pos

/-- The lines and the patch files match one to one, however the lines are spelled. -/
structure Matched (series : List PyStr) : Prop where
  lines : ∀ entry ∈ series, ∃ pos ∈ located d entry, PatchFile d pos
  files : ∀ pos, PatchFile d pos → series.countP (fun entry => decide (located d entry = some pos)) = 1

/-- The check ends, and finds nothing just when the series matches the files. -/
def Exact (text : List Char) : Prop :=
  ∃ problems, checkSeries d text = .ok problems ∧ (problems = [] ↔ Matched d (readSeries text))

/-! When it is exact -/

/-- Every line is spelled as `as_posix` spells, and no directory is called like a patch. -/
structure Regular (series : List PyStr) : Prop where
  plain : ∀ entry ∈ series, Plain entry
  dirs : ∀ pos ∈ d.dirs, d.patches <+: pos → ¬ PatchName (pos.drop d.patches.length)

/-- What the check objects to although the files are in order: a line that goes on behind the name of
a patch ("x.patch/"), a patch file that no line names in the spelling of `as_posix`, a directory
called like a patch. -/
inductive Misread (series : List PyStr) : Prop
  | suffix {entry : PyStr} {pos : List PyStr} (hentry : entry ∈ series)
      (hlocated : located d entry = some pos) (hname : PatchName pos) (hsuffix : ¬ dotPatch <:+ entry)
  | spelling {names : List PyStr} (hmem : d.patches ++ names ∈ d.files) (hname : PatchName names)
      (hlisted : asPosix names ∉ series)
  | dir {names : List PyStr} (hmem : d.patches ++ names ∈ d.dirs) (hname : PatchName names)

/-- What the check does not see: a line that leads to a patch outside `patches/`, and two lines that
spell one file differently. -/
inductive Missed (series : List PyStr) : Prop
  | outside {entry : PyStr} {pos : List PyStr} (hentry : entry ∈ series)
      (hlocated : located d entry = some pos) (hname : PatchName pos) (hout : ¬ d.patches <+: pos)
  | doubled {a b : PyStr} {pos : List PyStr} (ha : a ∈ series) (hb : b ∈ series) (hne : a ≠ b)
      (hla : located d a = some pos) (hlb : located d b = some pos)

/-- What is wrong in whatever spelling: a line that is written twice, names no file or names a file
that is not called like a patch, a patch file that no line names. Or one fault of the check hides
behind another. -/
inductive Wrong (series : List PyStr) : Prop
  | twice (h : ¬ series.Nodup)
  | noFile {entry : PyStr} (hentry : entry ∈ series) (h : located d entry = none)
  | otherFile {entry : PyStr} {pos : List PyStr} (hentry : entry ∈ series)
      (hlocated : located d entry = some pos) (h : ¬ PatchName pos)
  | unlisted {pos : List PyStr} (hpos : PatchFile d pos) (h : ∀ entry ∈ series, located d entry ≠ some pos)
  | both (hmisread : Misread d series) (hmissed : Missed d series)

/-- A line is written twice, or is not the name of a patch, or names no file; or something
called like a patch is not written in the series. -/
def Flagged (series : List PyStr) : Prop :=
  ¬ series.Nodup ∨ (∃ entry ∈ series, ¬ dotPatch <:+ entry ∨ located d entry = none) ∨
    ∃ name ∈ onDisk d, name ∉ series

/-- A line names no patch file, or no line or more than one names a patch file. -/
def Flawed (series : List PyStr) : Prop :=
  (∃ entry ∈ series, ∀ pos ∈ located d entry, ¬ PatchFile d pos) ∨
    ∃ pos, PatchFile d pos ∧ series.countP (fun entry => decide (located d entry = some pos)) ≠ 1

end

variable {d : Disk}

/-! The file system -/

lemma isDir_tree {pos : List PyStr} : isDir d.tree pos = true ↔ pos ∈ d.dirs := by
  rw [isDir, Disk.tree]
  by_cases hdir : pos ∈ d.dirs
  · rw [if_pos hdir]
    exact iff_of_true rfl hdir
  · rw [if_neg hdir]
    by_cases hfile : pos ∈ d.files
    · rw [if_pos hfile]
      exact iff_of_false Bool.false_ne_true hdir
    · rw [if_neg hfile]
      exact iff_of_false Bool.false_ne_true hdir

lemma isFile_tree {pos : List PyStr} : isFile d.tree pos = true ↔ pos ∈ d.files := by
  rw [isFile, Disk.tree]
  by_cases hdir : pos ∈ d.dirs
  · rw [if_pos hdir]
    exact iff_of_false Bool.false_ne_true fun hfile => d.apart pos hfile hdir
  · rw [if_neg hdir]
    by_cases hfile : pos ∈ d.files
    · rw [if_pos hfile]
      exact iff_of_true rfl hfile
    · rw [if_neg hfile]
      exact iff_of_false Bool.false_ne_true hfile

lemma tree_isSome {pos : List PyStr} : (d.tree pos).isSome = true ↔ pos ∈ d.files ∨ pos ∈ d.dirs := by
  rw [Disk.tree]
  by_cases hdir : pos ∈ d.dirs
  · simp [hdir]
  · by_cases hfile : pos ∈ d.files <;> simp [hdir, hfile]

lemma tree_closed (d : Disk) : Closed d.tree := by
  intro pos name h
  rw [isDir_tree]
  exact d.closed pos name (tree_isSome.mp h)

/-- Below `patches/` there are file names only. -/
lemma fileNames {pos names : List PyStr} (h : pos ++ names ∈ d.files ∨ pos ++ names ∈ d.dirs) :
    ∀ name ∈ names, FileName name := by
  induction names using List.reverseRecOn with
  | nil => exact fun _ hmem => absurd hmem List.not_mem_nil
  | append_singleton names last ih =>
    rw [← List.append_assoc] at h
    intro name hmem
    rcases List.mem_append.mp hmem with hmem | hmem
    · exact ih (Or.inr (d.closed _ last h)) name hmem
    · rw [List.mem_singleton.mp hmem]
      exact d.named _ last h

/-! Where a line leads -/

lemma located_mem {entry : PyStr} {pos : List PyStr} (h : located d entry = some pos) : pos ∈ d.files :=
  isFile_tree.mp (Option.filter_eq_some_iff.mp h).2

lemma located_plain {entry : PyStr} (hplain : Plain entry) {pos : List PyStr}
    (h : located d entry = some pos) : pos = d.patches ++ pieces entry :=
  hplain.of_follow (Option.filter_eq_some_iff.mp h).1

lemma located_of_mem {entry : PyStr} (hplain : Plain entry) (h : d.patches ++ pieces entry ∈ d.files) :
    located d entry = some (d.patches ++ pieces entry) := by
  rw [located, hplain.follow_of_closed (tree_closed d) (tree_isSome.mpr (Or.inl h))]
  exact Option.filter_eq_some_iff.mpr ⟨rfl, isFile_tree.mpr h⟩

lemma dotPatch_noSlash : PyChar.scalar '/' ∉ dotPatch := by decide

lemma patchName_ne_nil {names : List PyStr} (h : PatchName names) : names ≠ [] := by
  rintro rfl
  obtain ⟨name, hname, -⟩ := h
  cases hname

lemma patchName_append {pos names : List PyStr} (hne : names ≠ []) :
    PatchName (pos ++ names) ↔ PatchName names := by
  rw [PatchName, PatchName, List.getLast?_append_of_ne_nil _ hne]

/-- A line ends in `.patch` iff the name it spells last does. -/
lemma patchName_pieces {entry : PyStr} : PatchName (pieces entry) ↔ dotPatch <:+ entry := by
  obtain ⟨init, last, hpieces⟩ := List.eq_nil_or_concat' (pieces entry) |>.resolve_left (pieces_ne_nil entry)
  rw [suffix_iff dotPatch_noSlash hpieces, PatchName, hpieces, List.getLast?_concat]
  simp

lemma mem_onDisk {name : PyStr} :
    name ∈ onDisk d ↔ ∃ names, (d.patches ++ names ∈ d.files ∨ d.patches ++ names ∈ d.dirs) ∧
      PatchName names ∧ asPosix names = name := by
  rw [onDisk, List.mem_map]
  refine exists_congr fun names => ?_
  rw [← and_assoc]
  refine and_congr_left fun _ => ?_
  rw [rglobPatch, List.mem_filterMap]
  constructor
  · rintro ⟨pos, hpos, hnames⟩
    dsimp only at hnames
    split_ifs at hnames with h
    obtain ⟨⟨rest, rfl⟩, hpatch⟩ := h
    rw [List.drop_left, Option.some.injEq] at hnames
    rw [List.drop_left] at hpatch
    rw [← hnames]
    exact ⟨List.mem_append.mp hpos, hpatch⟩
  · rintro ⟨hpos, hpatch⟩
    refine ⟨d.patches ++ names, List.mem_append.mpr hpos, ?_⟩
    rw [List.drop_left, if_pos ⟨List.prefix_append _ _, hpatch⟩]

/-- What the check knows a patch file as. -/
structure Shown (d : Disk) (names : List PyStr) : Prop where
  mem : d.patches ++ names ∈ d.files
  patch : PatchName names

lemma PatchFile.shown {pos : List PyStr} (h : PatchFile d pos) :
    ∃ names, pos = d.patches ++ names ∧ Shown d names := by
  obtain ⟨hmem, ⟨names, rfl⟩, hpatch⟩ := h
  refine ⟨names, rfl, hmem, ?_⟩
  by_cases hne : names = []
  · rw [hne, List.append_nil] at hmem
    exact absurd d.patches_mem (d.apart _ hmem)
  · rwa [patchName_append hne] at hpatch

namespace Shown
variable {names : List PyStr}

lemma patchFile (h : Shown d names) : PatchFile d (d.patches ++ names) :=
  ⟨h.mem, List.prefix_append _ _, (patchName_append (patchName_ne_nil h.patch)).mpr h.patch⟩

lemma pieces_eq (h : Shown d names) : pieces (asPosix names) = names :=
  pieces_asPosix (patchName_ne_nil h.patch) (fileNames (Or.inl h.mem))

lemma plain (h : Shown d names) : Plain (asPosix names) :=
  plain_asPosix (patchName_ne_nil h.patch) (fileNames (Or.inl h.mem))

lemma mem_onDisk (h : Shown d names) : asPosix names ∈ onDisk d :=
  SeriesLint.mem_onDisk.mpr ⟨names, Or.inl h.mem, h.patch, rfl⟩

lemma located (h : Shown d names) : located d (asPosix names) = some (d.patches ++ names) := by
  have hmem := h.mem
  rw [← h.pieces_eq] at hmem
  rw [located_of_mem h.plain hmem, h.pieces_eq]

end Shown

/-! What the check reports -/

lemma entryProblems_eq_nil {seen : List PyStr} {entry : PyStr} {found : Bool} :
    entryProblems seen entry found = [] ↔ entry ∉ seen ∧ dotPatch <:+ entry ∧ found = true := by
  rw [entryProblems, List.append_eq_nil_iff, List.append_eq_nil_iff, and_assoc]
  by_cases hseen : entry ∈ seen <;> by_cases hpatch : dotPatch <:+ entry <;>
    cases found <;> simp [hseen, hpatch]

/-- Looking a line up ends where the line is not overlong. -/
lemma isFileAt_eq_ok {entry : PyStr} {found : Bool} :
    isFileAt d entry = .ok found ↔ ¬ Overlong d entry ∧ (located d entry).isSome = found := by
  unfold isFileAt
  split_ifs with h <;> simp [h]

lemma seriesProblems_total {seen series : List PyStr} :
    (∃ problems, seriesProblems d seen series = .ok problems) ↔ ∀ entry ∈ series, ¬ Overlong d entry := by
  induction series generalizing seen with
  | nil => simp [seriesProblems]
  | cons entry series ih =>
    simp only [seriesProblems, bind_eq_ok, isFileAt_eq_ok, List.forall_mem_cons, ← @ih (entry :: seen)]
    constructor
    · rintro ⟨_, found, ⟨hlong, -⟩, rest, hrest, -⟩
      exact ⟨hlong, rest, hrest⟩
    · rintro ⟨hlong, rest, hrest⟩
      exact ⟨_, _, ⟨hlong, rfl⟩, rest, hrest, rfl⟩

lemma seriesProblems_eq_nil {seen series problems : List PyStr}
    (h : seriesProblems d seen series = .ok problems) :
    problems = [] ↔ series.Nodup ∧ (∀ entry ∈ series, entry ∉ seen) ∧
      ∀ entry ∈ series, dotPatch <:+ entry ∧ (located d entry).isSome = true := by
  induction series generalizing seen problems with
  | nil =>
    obtain rfl := Except.ok.inj h
    simp
  | cons entry series ih =>
    simp only [seriesProblems, bind_eq_ok, isFileAt_eq_ok] at h
    obtain ⟨found, ⟨-, rfl⟩, rest, hrest, hproblems⟩ := h
    obtain rfl := Except.ok.inj hproblems
    rw [List.append_eq_nil_iff, entryProblems_eq_nil, ih hrest, List.nodup_cons,
      List.forall_mem_cons, List.forall_mem_cons]
    simp only [List.mem_cons, not_or]
    constructor
    · rintro ⟨⟨hnew, hok⟩, hnodup, hseen, hrest⟩
      exact ⟨⟨fun hmem => (hseen entry hmem).1 rfl, hnodup⟩, ⟨hnew, fun e he => (hseen e he).2⟩, hok, hrest⟩
    · rintro ⟨⟨hnot, hnodup⟩, ⟨hnew, hseen⟩, hok, hrest⟩
      refine ⟨⟨hnew, hok⟩, hnodup, ?_, hrest⟩
      intro e he
      refine ⟨?_, hseen e he⟩
      rintro rfl
      exact hnot he

lemma orphans_eq_nil {series : List PyStr} : orphans d series = [] ↔ ∀ name ∈ onDisk d, name ∈ series := by
  rw [List.eq_nil_iff_forall_not_mem]
  simp [orphans]

lemma checkSeries_total {text : List Char} :
    (∃ problems, checkSeries d text = .ok problems) ↔ ∀ entry ∈ readSeries text, ¬ Overlong d entry := by
  have htotal := @seriesProblems_total d [] (readSeries text)
  rw [← htotal]
  simp only [checkSeries, bind_eq_ok]
  constructor
  · rintro ⟨_, problems, h, -⟩
    exact ⟨problems, h⟩
  · rintro ⟨problems, h⟩
    exact ⟨_, problems, h, rfl⟩

lemma checkSeries_eq_nil {text : List Char} {problems : List PyStr}
    (h : checkSeries d text = .ok problems) : problems = [] ↔ ¬ Flagged d (readSeries text) := by
  simp only [checkSeries, bind_eq_ok] at h
  obtain ⟨found, hfound, hproblems⟩ := h
  obtain rfl := Except.ok.inj hproblems
  rw [List.append_eq_nil_iff, seriesProblems_eq_nil hfound, List.map_eq_nil_iff, orphans_eq_nil, Flagged]
  simp [Option.isSome_iff_ne_none]
  tauto

lemma matched_iff {series : List PyStr} : Matched d series ↔ ¬ Flawed d series := by
  rw [Flawed]
  constructor
  · rintro ⟨hlines, hfiles⟩ (⟨entry, hentry, hnot⟩ | ⟨pos, hpos, hcount⟩)
    · obtain ⟨pos, hpos, hpatch⟩ := hlines entry hentry
      exact hnot pos hpos hpatch
    · exact hcount (hfiles pos hpos)
  · intro h
    push Not at h
    exact ⟨h.1, h.2⟩

/-! The check against what it is for -/

/-- Of two lines that name one file, a count of one leaves room for one. -/
lemma eq_of_countP {series : List PyStr} {pos : List PyStr}
    (hcount : series.countP (fun entry => decide (located d entry = some pos)) = 1)
    {a b : PyStr} (ha : a ∈ series) (hb : b ∈ series) (hla : located d a = some pos)
    (hlb : located d b = some pos) : a = b := by
  rw [List.countP_eq_length_filter, List.length_eq_one_iff] at hcount
  obtain ⟨only, honly⟩ := hcount
  have hmem : ∀ entry ∈ series, located d entry = some pos → entry = only := by
    intro entry hentry hl
    have hfilter : entry ∈ series.filter fun entry => decide (located d entry = some pos) :=
      List.mem_filter.mpr ⟨hentry, decide_eq_true hl⟩
    rw [honly] at hfilter
    exact List.mem_singleton.mp hfilter
  rw [hmem a ha hla, hmem b hb hlb]

/-- What is not flagged. -/
structure Unflagged (d : Disk) (series : List PyStr) : Prop where
  nodup : series.Nodup
  patch : ∀ entry ∈ series, dotPatch <:+ entry
  found : ∀ entry ∈ series, ∃ pos, located d entry = some pos
  listed : ∀ name ∈ onDisk d, name ∈ series

lemma not_flagged_iff {series : List PyStr} : ¬ Flagged d series ↔ Unflagged d series := by
  rw [Flagged]
  constructor
  · intro h
    push Not at h
    obtain ⟨hnodup, hlines, hlisted⟩ := h
    exact ⟨hnodup, fun e he => (hlines e he).1, fun e he => Option.ne_none_iff_exists'.mp (hlines e he).2,
      hlisted⟩
  · rintro ⟨hnodup, hpatch, hfound, hlisted⟩ (h | ⟨e, he, hsuffix | hnone⟩ | ⟨name, hname, hnot⟩)
    · exact h hnodup
    · exact hsuffix (hpatch e he)
    · obtain ⟨pos, hpos⟩ := hfound e he
      rw [hnone] at hpos
      cases hpos
    · exact hnot (hlisted name hname)

lemma Unflagged.matched {series : List PyStr} (h : Unflagged d series)
    (hplain : ∀ entry ∈ series, Plain entry) : Matched d series := by
  have hshown : ∀ entry ∈ series, Shown d (pieces entry) := by
    intro entry hentry
    obtain ⟨pos, hpos⟩ := h.found entry hentry
    have hmem := located_mem hpos
    rw [located_plain (hplain entry hentry) hpos] at hmem
    exact ⟨hmem, patchName_pieces.mpr (h.patch entry hentry)⟩
  constructor
  · intro entry hentry
    have hs := hshown entry hentry
    exact ⟨_, located_of_mem (hplain entry hentry) hs.mem, hs.patchFile⟩
  · intro pos hpos
    obtain ⟨names, rfl, hs⟩ := hpos.shown
    have hcount : series.countP (fun entry => decide (located d entry = some (d.patches ++ names))) =
        series.count (asPosix names) := by
      refine List.countP_congr fun entry hentry => ?_
      rw [decide_eq_true_iff, beq_iff_eq]
      constructor
      · intro hl
        rw [List.append_cancel_left (located_plain (hplain entry hentry) hl), asPosix_pieces]
      · rintro rfl
        exact hs.located
    rw [hcount]
    exact List.count_eq_one_of_mem h.nodup (h.listed _ hs.mem_onDisk)

lemma Matched.unflagged {series : List PyStr} (h : Matched d series) (hregular : Regular d series) :
    Unflagged d series := by
  have hshown : ∀ entry ∈ series, Shown d (pieces entry) ∧
      located d entry = some (d.patches ++ pieces entry) := by
    intro entry hentry
    obtain ⟨pos, hpos, hpatch⟩ := h.lines entry hentry
    obtain ⟨names, rfl, hs⟩ := hpatch.shown
    have heq := List.append_cancel_left (located_plain (hregular.plain entry hentry) hpos)
    rw [← heq]
    exact ⟨hs, hpos⟩
  refine ⟨?_, ?_, ?_, ?_⟩
  · rw [List.nodup_iff_count_le_one]
    intro entry
    by_cases hentry : entry ∈ series
    · obtain ⟨hs, hl⟩ := hshown entry hentry
      rw [← h.files _ hs.patchFile, List.count]
      refine List.countP_mono_left fun other _ hother => ?_
      rw [beq_iff_eq.mp hother]
      exact decide_eq_true hl
    · rw [List.count_eq_zero_of_not_mem hentry]
      exact Nat.zero_le 1
  · exact fun entry hentry => patchName_pieces.mp (hshown entry hentry).1.patch
  · exact fun entry hentry => ⟨_, (hshown entry hentry).2⟩
  · intro name hname
    obtain ⟨names, hmem | hmem, hpatch, rfl⟩ := mem_onDisk.mp hname
    · have hs : Shown d names := ⟨hmem, hpatch⟩
      have hpos : 0 < series.countP fun entry => decide (located d entry = some (d.patches ++ names)) := by
        rw [h.files _ hs.patchFile]
        exact Nat.one_pos
      obtain ⟨entry, hentry, hl⟩ := List.countP_pos_iff.mp hpos
      have heq := List.append_cancel_left
        (located_plain (hregular.plain entry hentry) (of_decide_eq_true hl))
      rwa [heq, asPosix_pieces]
    · refine absurd ?_ (hregular.dirs _ hmem (List.prefix_append _ _))
      rwa [List.drop_left]

lemma located_of_dir {names : List PyStr} (hmem : d.patches ++ names ∈ d.dirs) (hname : PatchName names) :
    located d (asPosix names) = none := by
  have hnames := fileNames (Or.inr hmem)
  have hne := patchName_ne_nil hname
  by_contra hsome
  obtain ⟨pos, hpos⟩ := Option.ne_none_iff_exists'.mp hsome
  have hfile := located_mem hpos
  rw [located_plain (plain_asPosix hne hnames) hpos, pieces_asPosix hne hnames] at hfile
  exact d.apart _ hfile hmem

/-- Where neither finds anything, the lines are plain and no directory is called like a patch. -/
lemma Unflagged.regular {series : List PyStr} (h : Unflagged d series) (hmatched : Matched d series) :
    Regular d series := by
  constructor
  · intro entry hentry
    obtain ⟨pos, hpos, hpatch⟩ := hmatched.lines entry hentry
    have hcount := hmatched.files pos hpatch
    obtain ⟨names, rfl, hs⟩ := hpatch.shown
    rw [eq_of_countP hcount hentry (h.listed _ hs.mem_onDisk) hpos hs.located]
    exact hs.plain
  · rintro pos hmem ⟨names, rfl⟩ hpatch
    rw [List.drop_left] at hpatch
    have hname : asPosix names ∈ onDisk d := mem_onDisk.mpr ⟨names, Or.inr hmem, hpatch, rfl⟩
    obtain ⟨pos, hpos⟩ := h.found _ (h.listed _ hname)
    rw [located_of_dir hmem hpatch] at hpos
    cases hpos

/-! What is wrong in both readings -/

/-- A line that ends in `.patch` leads to what is called so. -/
lemma patchName_located {entry : PyStr} {pos : List PyStr} (hsuffix : dotPatch <:+ entry)
    (h : located d entry = some pos) : PatchName pos := by
  obtain ⟨init, last, hpieces⟩ := List.eq_nil_or_concat' (pieces entry) |>.resolve_left (pieces_ne_nil entry)
  have hlast : dotPatch <:+ last := (suffix_iff dotPatch_noSlash hpieces).mp hsuffix
  have hlong : 6 ≤ last.length := hlast.length_le
  have hpart : (decide (last ≠ [] ∧ last ≠ .ofString ".")) = true := by
    refine decide_eq_true ⟨?_, ?_⟩ <;>
    · rintro rfl
      exact absurd hlong (by decide)
  have hstep : partStep last = .down last := by
    refine if_neg ?_
    rintro rfl
    exact absurd hlong (by decide)
  obtain ⟨steps, hsteps⟩ : ∃ steps, (parts entry).map partStep = steps ++ [.down last] := by
    rw [parts, hpieces, List.filter_append, List.filter_singleton, hpart, cond_true, List.map_append,
      List.map_singleton, hstep]
    exact ⟨_, rfl⟩
  have hfollow := lookup_eq_walk (Option.filter_eq_some_iff.mp h).1
  rw [hsteps, walk_append] at hfollow
  refine ⟨last, ?_, hlast⟩
  rw [hfollow]
  simp [Step.apply]

lemma Misread.flagged {series : List PyStr} (h : Misread d series) : Flagged d series := by
  cases h with
  | suffix hentry _ _ hsuffix => exact Or.inr (Or.inl ⟨_, hentry, Or.inl hsuffix⟩)
  | spelling hmem hname hlisted =>
    exact Or.inr (Or.inr ⟨_, mem_onDisk.mpr ⟨_, Or.inl hmem, hname, rfl⟩, hlisted⟩)
  | @dir names hmem hname =>
    by_cases hlisted : asPosix names ∈ series
    · exact Or.inr (Or.inl ⟨_, hlisted, Or.inr (located_of_dir hmem hname)⟩)
    · exact Or.inr (Or.inr ⟨_, mem_onDisk.mpr ⟨_, Or.inr hmem, hname, rfl⟩, hlisted⟩)

/-- Two lines for one file are one too many. -/
lemma flawed_of_two {series : List PyStr} {pos : List PyStr} (hpos : PatchFile d pos)
    (h : 2 ≤ series.countP fun entry => decide (located d entry = some pos)) : Flawed d series :=
  Or.inr ⟨pos, hpos, by omega⟩

lemma flawed_of_not_patchFile {series : List PyStr} {entry : PyStr} {pos : List PyStr}
    (hentry : entry ∈ series) (hlocated : located d entry = some pos) (hpos : ¬ PatchFile d pos) :
    Flawed d series := by
  refine Or.inl ⟨entry, hentry, fun pos' hpos' => ?_⟩
  obtain rfl : pos = pos' := Option.some.inj (hlocated.symm.trans hpos')
  exact hpos

lemma Missed.flawed {series : List PyStr} (h : Missed d series) : Flawed d series := by
  cases h with
  | outside hentry hlocated _ hout =>
    exact flawed_of_not_patchFile hentry hlocated fun hpos => hout hpos.2.1
  | @doubled a b pos ha hb hne hla hlb =>
    by_cases hpos : PatchFile d pos
    · refine flawed_of_two hpos ?_
      by_contra hfew
      have hcount : series.countP (fun entry => decide (located d entry = some pos)) = 1 := by
        have hsome : 0 < series.countP fun entry => decide (located d entry = some pos) :=
          List.countP_pos_iff.mpr ⟨a, ha, decide_eq_true hla⟩
        omega
      exact hne (eq_of_countP hcount ha hb hla hlb)
    · exact flawed_of_not_patchFile ha hla hpos

lemma flawed_of_twice {series : List PyStr} (h : ¬ series.Nodup) : Flawed d series := by
  rw [List.nodup_iff_count_le_one] at h
  push Not at h
  obtain ⟨entry, hcount⟩ := h
  have hentry : entry ∈ series := List.count_pos_iff.mp (by omega)
  cases hlocated : located d entry with
  | none => exact Or.inl ⟨entry, hentry, fun pos hpos => by rw [hlocated] at hpos; cases hpos⟩
  | some pos =>
    by_cases hpos : PatchFile d pos
    · refine flawed_of_two hpos (le_trans hcount ?_)
      refine List.countP_mono_left fun other _ hother => ?_
      rw [beq_iff_eq.mp hother]
      exact decide_eq_true hlocated
    · exact flawed_of_not_patchFile hentry hlocated hpos

lemma Wrong.flagged {series : List PyStr} (h : Wrong d series) : Flagged d series := by
  cases h with
  | twice h => exact Or.inl h
  | noFile hentry h => exact Or.inr (Or.inl ⟨_, hentry, Or.inr h⟩)
  | otherFile hentry hlocated h =>
    exact Or.inr (Or.inl ⟨_, hentry, Or.inl fun hsuffix => h (patchName_located hsuffix hlocated)⟩)
  | unlisted hpos h =>
    obtain ⟨names, rfl, hs⟩ := hpos.shown
    exact Or.inr (Or.inr ⟨_, hs.mem_onDisk, fun hlisted => h _ hlisted hs.located⟩)
  | both hmisread _ => exact hmisread.flagged

lemma Wrong.flawed {series : List PyStr} (h : Wrong d series) : Flawed d series := by
  cases h with
  | twice h => exact flawed_of_twice h
  | @noFile entry hentry h => exact Or.inl ⟨entry, hentry, fun pos hpos => by rw [h] at hpos; cases hpos⟩
  | otherFile hentry hlocated h => exact flawed_of_not_patchFile hentry hlocated fun hpos => h hpos.2.2
  | @unlisted pos hpos h =>
    refine Or.inr ⟨pos, hpos, ?_⟩
    rw [List.countP_eq_zero.mpr fun entry hentry => by simpa using h entry hentry]
    exact Nat.zero_ne_one
  | both _ hmissed => exact hmissed.flawed

lemma Flagged.cases {series : List PyStr} (h : Flagged d series) : Wrong d series ∨ Misread d series := by
  rcases h with h | ⟨entry, hentry, hsuffix | hnone⟩ | ⟨name, hname, hlisted⟩
  · exact Or.inl (.twice h)
  · cases hlocated : located d entry with
    | none => exact Or.inl (.noFile hentry hlocated)
    | some pos =>
      by_cases hpatch : PatchName pos
      · exact Or.inr (.suffix hentry hlocated hpatch hsuffix)
      · exact Or.inl (.otherFile hentry hlocated hpatch)
  · exact Or.inl (.noFile hentry hnone)
  · obtain ⟨names, hmem | hmem, hpatch, rfl⟩ := mem_onDisk.mp hname
    · exact Or.inr (.spelling hmem hpatch hlisted)
    · exact Or.inr (.dir hmem hpatch)

/-- In a list without repetitions two that count are two. -/
lemma exists_two {α : Type} {p : α → Bool} {xs : List α} (hnodup : xs.Nodup) (h : 2 ≤ xs.countP p) :
    ∃ a ∈ xs, ∃ b ∈ xs, a ≠ b ∧ p a = true ∧ p b = true := by
  rw [List.countP_eq_length_filter] at h
  have hpair := hnodup.filter p
  rcases hfilter : xs.filter p with _ | ⟨a, _ | ⟨b, rest⟩⟩
  · rw [hfilter] at h
    simp at h
  · rw [hfilter] at h
    simp at h
  · have ha : a ∈ xs.filter p := by simp [hfilter]
    have hb : b ∈ xs.filter p := by simp [hfilter]
    rw [hfilter] at hpair
    refine ⟨a, (List.mem_filter.mp ha).1, b, (List.mem_filter.mp hb).1, ?_, (List.mem_filter.mp ha).2,
      (List.mem_filter.mp hb).2⟩
    rintro rfl
    simp at hpair

lemma Flawed.cases {series : List PyStr} (h : Flawed d series) : Wrong d series ∨ Missed d series := by
  rcases h with ⟨entry, hentry, hnot⟩ | ⟨pos, hpos, hcount⟩
  · cases hlocated : located d entry with
    | none => exact Or.inl (.noFile hentry hlocated)
    | some pos =>
      by_cases hpatch : PatchName pos
      · refine Or.inr (.outside hentry hlocated hpatch fun hin => hnot pos hlocated ?_)
        exact ⟨located_mem hlocated, hin, hpatch⟩
      · exact Or.inl (.otherFile hentry hlocated hpatch)
  · by_cases hnodup : series.Nodup
    · by_cases hzero : series.countP (fun entry => decide (located d entry = some pos)) = 0
      · refine Or.inl (.unlisted hpos fun entry hentry => ?_)
        simpa using List.countP_eq_zero.mp hzero entry hentry
      · obtain ⟨a, ha, b, hb, hne, hla, hlb⟩ := exists_two hnodup (p := fun entry =>
          decide (located d entry = some pos)) (by omega)
        exact Or.inr (.doubled ha hb hne (of_decide_eq_true hla) (of_decide_eq_true hlb))
    · exact Or.inl (.twice hnodup)

lemma wrong_iff {series : List PyStr} : Wrong d series ↔ Flagged d series ∧ Flawed d series := by
  refine ⟨fun h => ⟨h.flagged, h.flawed⟩, ?_⟩
  rintro ⟨hflagged, hflawed⟩
  rcases hflagged.cases with hwrong | hmisread
  · exact hwrong
  · exact hflawed.cases.elim id fun hmissed => .both hmisread hmissed

/-- The check is exact iff no line makes looking it up fail, and the lines are spelled as `as_posix`
spells and no directory is called like a patch, or the series is wrong in whatever spelling. -/
theorem checkSeries_exact_iff (d : Disk) (text : List Char) :
    Exact d text ↔ (∀ entry ∈ readSeries text, ¬ Overlong d entry) ∧
      (Regular d (readSeries text) ∨ Wrong d (readSeries text)) := by
  rw [Exact, ← checkSeries_total, wrong_iff, ← exists_and_right]
  refine exists_congr fun problems => and_congr_right fun hproblems => ?_
  rw [checkSeries_eq_nil hproblems]
  constructor
  · intro hexact
    by_cases hflagged : Flagged d (readSeries text)
    · refine Or.inr ⟨hflagged, ?_⟩
      by_contra hflawed
      exact hexact.mpr (matched_iff.mpr hflawed) hflagged
    · exact Or.inl ((not_flagged_iff.mp hflagged).regular (hexact.mp hflagged))
  · rintro (hregular | ⟨hflagged, hflawed⟩)
    · rw [not_flagged_iff]
      exact ⟨fun h => h.matched hregular.plain, fun h => h.unflagged hregular⟩
    · exact iff_of_false (not_not.mpr hflagged) fun h => matched_iff.mp h hflawed

/-! A file with two spellings -/

def patchesDir : PyStr := .ofString "patches"

def onlyPatch : PyStr := .ofString "x.patch"

lemma onlyPatch_place {pos : List PyStr} {name : PyStr}
    (h : pos ++ [name] ∈ [[patchesDir, onlyPatch]] ∨ pos ++ [name] ∈ [[], [patchesDir]]) :
    (pos = [patchesDir] ∧ name = onlyPatch) ∨ (pos = [] ∧ name = patchesDir) := by
  rcases h with h | h
  · have hplace : pos ++ [name] = [patchesDir] ++ [onlyPatch] := List.mem_singleton.mp h
    exact Or.inl (List.append_singleton_inj.mp hplace)
  · rcases List.mem_cons.mp h with h | h
    · exact absurd h (List.append_ne_nil_of_right_ne_nil pos (List.cons_ne_nil name []))
    · have hplace : pos ++ [name] = [] ++ [patchesDir] := List.mem_singleton.mp h
      exact Or.inr (List.append_singleton_inj.mp hplace)

lemma onlyPatch_fileName : FileName onlyPatch := ⟨by decide, by decide, by decide, by decide⟩

lemma patchesDir_fileName : FileName patchesDir := ⟨by decide, by decide, by decide, by decide⟩

lemma onlyPatch_closed (pos : List PyStr) (name : PyStr)
    (h : pos ++ [name] ∈ [[patchesDir, onlyPatch]] ∨ pos ++ [name] ∈ [[], [patchesDir]]) :
    pos ∈ [[], [patchesDir]] := by
  rcases onlyPatch_place h with ⟨rfl, -⟩ | ⟨rfl, -⟩
  · simp
  · simp

lemma onlyPatch_named (pos : List PyStr) (name : PyStr)
    (h : pos ++ [name] ∈ [[patchesDir, onlyPatch]] ∨ pos ++ [name] ∈ [[], [patchesDir]]) :
    FileName name := by
  rcases onlyPatch_place h with ⟨-, rfl⟩ | ⟨-, rfl⟩
  · exact onlyPatch_fileName
  · exact patchesDir_fileName

lemma onlyPatch_apart : ∀ pos ∈ [[patchesDir, onlyPatch]], pos ∉ [[], [patchesDir]] := by decide

lemma patchesDir_mem : [patchesDir] ∈ [[], [patchesDir]] := by decide

/-- `patches/` with the one file `x.patch`. -/
def onePatch : Disk where
  files := [[patchesDir, onlyPatch]]
  dirs := [[], [patchesDir]]
  patches := [patchesDir]
  nameMax := 255
  pathMax := 4095
  patches_mem := patchesDir_mem
  apart := onlyPatch_apart
  closed := onlyPatch_closed
  named := onlyPatch_named

/-- Listed as `x.patch` and as `./x.patch`, it passes; listed as `./x.patch` alone, it does not. -/
theorem spelledTwice_passes :
    checkSeries onePatch "x.patch\n./x.patch\n".toList = .ok [] ∧
    ¬ Exact onePatch "x.patch\n./x.patch\n".toList ∧
    checkSeries onePatch "./x.patch\n".toList =
      .ok [PyStr.ofString "patch file not listed in series: x.patch"] := by
  have htwice : checkSeries onePatch "x.patch\n./x.patch\n".toList = .ok [] := by rfl
  have hcount : (readSeries "x.patch\n./x.patch\n".toList).countP
      (fun entry => decide (located onePatch entry = some [patchesDir, onlyPatch])) = 2 := by decide +kernel
  have hpatch : PatchFile onePatch [patchesDir, onlyPatch] :=
    ⟨List.mem_cons_self, List.prefix_append [patchesDir] [onlyPatch], by decide⟩
  refine ⟨htwice, ?_, by rfl⟩
  rintro ⟨problems, hproblems, hexact⟩
  have hnone : problems = [] := Except.ok.inj (hproblems.symm.trans htwice)
  have hone := (hexact.mp hnone).files _ hpatch
  rw [hcount] at hone
  exact absurd hone (by decide)

end T3dmium.SeriesLint
