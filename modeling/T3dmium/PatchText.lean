import T3dmium.Firsts
import T3dmium.Lines
import T3dmium.PatchSeries

/-! Patch files as text. The grammar of unified diffs says what a line is by the counts of
its hunk; the scan for pre-images goes by the line alone. -/
namespace T3dmium.PatchText
open Lines

/-- `parse_patch_preimages` on the text of the file. -/
def parsePatchText (text : List Char) : List String :=
  parsePatchPreimages ((splitlines (universalNewlines text)).map String.ofList)

/-! The grammar -/

/-- A line holds no line feed; other breaks may stand in it. -/
abbrev Line := {line : List Char // '\n' ∉ line}

/-- A line of the text above a file's first line. -/
abbrev TextLine := {line : Line // ¬ ['-', '-', '-', ' '] <+: line.val}

abbrev FileName := {name : List Char // name ≠ [] ∧ ∀ c ∈ name, isSpace c = false}

/-- What follows a file name on its line. -/
abbrev Stamp := {stamp : Line // ∀ c ∈ stamp.val.head?, isSpace c = true}

/-- A line of a hunk body, the mark in front apart. -/
inductive HunkLine
  | keep (text : Line)
  /-- an empty line kept, its mark trimmed -/
  | blank
  | remove (text : Line)
  | add (text : Line)
  | noNewline (text : Line)

def HunkLine.chars : HunkLine → List Char
  | .keep text => ' ' :: text.val
  | .blank => []
  | .remove text => '-' :: text.val
  | .add text => '+' :: text.val
  | .noNewline text => '\\' :: text.val

def HunkLine.inOld : HunkLine → Bool
  | .keep _ | .blank | .remove _ => true
  | .add _ | .noNewline _ => false

def HunkLine.inNew : HunkLine → Bool
  | .keep _ | .blank | .add _ => true
  | .remove _ | .noNewline _ => false

/-- `start,count`, or `start` alone. -/
structure Range where
  start : ℕ
  count : ℕ
  short : Bool
  short_one : short = true → count = 1

def Range.chars (r : Range) : List Char :=
  if r.short then Nat.toDigits 10 r.start else Nat.toDigits 10 r.start ++ ',' :: Nat.toDigits 10 r.count

/-- The body has the counts of the header. -/
structure Hunk where
  old : Range
  new : Range
  heading : Line
  body : List HunkLine
  old_count : body.countP HunkLine.inOld = old.count
  new_count : body.countP HunkLine.inNew = new.count

def Hunk.header (h : Hunk) : List Char :=
  ['@', '@', ' ', '-'] ++ h.old.chars ++ [' ', '+'] ++ h.new.chars ++ [' ', '@', '@'] ++ h.heading.val

def Hunk.lines (h : Hunk) : List (List Char) := h.header :: h.body.map HunkLine.chars

/-- `lead` is what a tool writes above the file, as `diff --git`. -/
structure FileSection where
  lead : List TextLine
  oldName : FileName
  oldStamp : Stamp
  newName : FileName
  newStamp : Stamp
  hunks : List Hunk

namespace FileSection

def oldLine (s : FileSection) : List Char :=
  ['-', '-', '-', ' '] ++ (s.oldName.val ++ s.oldStamp.val.val)

def newLine (s : FileSection) : List Char :=
  ['+', '+', '+', ' '] ++ (s.newName.val ++ s.newStamp.val.val)

def lines (s : FileSection) : List (List Char) :=
  s.lead.map (·.val.val) ++ s.oldLine :: s.newLine :: s.hunks.flatMap Hunk.lines

def body (s : FileSection) : List HunkLine := s.hunks.flatMap Hunk.body

/-- The old file, without a leading `a/`; a file the patch creates has none. -/
def oldPath (s : FileSection) : Option String :=
  let name := String.ofList s.oldName.val
  if name = "/dev/null" then none else some (stripOld name)

end FileSection

structure PatchFile where
  header : List TextLine
  sections : List FileSection

namespace PatchFile

def lines (p : PatchFile) : List (List Char) :=
  p.header.map (·.val.val) ++ p.sections.flatMap FileSection.lines

def text (p : PatchFile) : List Char := p.lines.flatMap fun line => line ++ ['\n']

def body (p : PatchFile) : List HunkLine := p.sections.flatMap FileSection.body

/-- Each old file once, in order of first appearance. -/
def oldPaths (p : PatchFile) : List String := (p.sections.filterMap FileSection.oldPath).eraseDups

end PatchFile

/-- The scan cuts a line at its other breaks too; one of the pieces passes for the first
line of a file. -/
def TakenForHeader (line : List Char) : Prop :=
  ∃ piece ∈ splitlines (line ++ ['\n']), oldFile (String.ofList piece) ≠ none

/-- The scan finds the old files, and takes no line of a hunk for a file header. -/
def PatchFile.Exact (p : PatchFile) : Prop :=
  parsePatchText p.text = p.oldPaths ∧ ∀ line ∈ p.body, ¬ TakenForHeader line.chars

/-! When the scan is exact -/

/-- `--- ` and a character that is no space. -/
def headerLike : List Char → Bool
  | '-' :: '-' :: '-' :: ' ' :: c :: _ => !isSpace c
  | _ => false

/-- Neither the line nor what follows a break in it looks like a file header. -/
def HunkLine.Quiet (line : HunkLine) : Prop :=
  ∀ text ∈ line.chars :: later line.chars, headerLike text = false

/-- The files that what follows the breaks of a line seems to name. -/
def echoes (line : List Char) : List (Bool × String) :=
  ((later line).filterMap fun text => preimageOf (String.ofList text)).map fun name => (false, name)

def FileSection.events (s : FileSection) : List (Bool × String) :=
  s.lead.flatMap (fun line => echoes line.val.val) ++
    (s.oldPath.toList.map fun name => (true, name)) ++ echoes s.oldLine ++ echoes s.newLine ++
    s.hunks.flatMap fun h => echoes h.header

/-- Outside the hunk bodies: the files that file headers name, and those that a break in a
line makes the scan find. -/
def PatchFile.events (p : PatchFile) : List (Bool × String) :=
  p.header.flatMap (fun line => echoes line.val.val) ++ p.sections.flatMap FileSection.events

/-! What the scan finds in a line -/

lemma oldFile_ofList (text : List Char) :
    oldFile (String.ofList text) =
      if ['-', '-', '-', ' '] <+: text then
        if (text.drop 4).takeWhile (fun c => !isSpace c) = [] then none
        else some (String.ofList ((text.drop 4).takeWhile fun c => !isSpace c))
      else none := by
  rw [oldFile, String.toList_ofList]
  split
  · rfl
  · rename_i hother
    rw [if_neg]
    rintro ⟨rest, rfl⟩
    exact hother rest rfl

lemma oldFile_eq_none_iff (text : List Char) :
    oldFile (String.ofList text) = none ↔ headerLike text = false := by
  rw [oldFile_ofList]
  by_cases h : ['-', '-', '-', ' '] <+: text
  · rw [if_pos h]
    obtain ⟨rest, rfl⟩ := h
    cases rest with
    | nil => exact iff_of_true rfl rfl
    | cons c rest =>
      have hlike : headerLike (['-', '-', '-', ' '] ++ c :: rest) = !isSpace c := rfl
      have hdrop : (['-', '-', '-', ' '] ++ c :: rest).drop 4 = c :: rest := rfl
      rw [hlike, hdrop]
      cases hspace : isSpace c <;> simp [hspace]
  · rw [if_neg h]
    unfold headerLike
    split
    · exact absurd (List.prefix_append _ _) h
    · exact iff_of_true rfl rfl

lemma takeWhile_front (text : List Char) :
    (front text).takeWhile (fun c => !isSpace c) = text.takeWhile fun c => !isSpace c := by
  rw [front, List.takeWhile_takeWhile]
  congr 1
  funext c
  cases hspace : isSpace c with
  | true => simp
  | false =>
    have hbreak : isBreak c = false := by
      by_contra h
      rw [isSpace_of_isBreak (by simpa using h)] at hspace
      cases hspace
    simp [hbreak]

lemma oldFile_front (text : List Char) :
    oldFile (String.ofList (front text)) = oldFile (String.ofList text) := by
  rw [oldFile_ofList, oldFile_ofList]
  by_cases h : ['-', '-', '-', ' '] <+: text
  · obtain ⟨rest, rfl⟩ := h
    have hfront : front (['-', '-', '-', ' '] ++ rest) = ['-', '-', '-', ' '] ++ front rest := rfl
    have hdrop (rest : List Char) : (['-', '-', '-', ' '] ++ rest).drop 4 = rest := rfl
    rw [hfront, if_pos (List.prefix_append _ _), if_pos (List.prefix_append _ _), hdrop, hdrop,
      takeWhile_front]
  · rw [if_neg h, if_neg fun hp => h (hp.trans (List.takeWhile_prefix _))]

lemma preimageOf_front (text : List Char) :
    preimageOf (String.ofList (front text)) = preimageOf (String.ofList text) := by
  rw [preimageOf, preimageOf, oldFile_front]

lemma preimageOf_of_oldFile {line : String} (h : oldFile line = none) : preimageOf line = none := by
  rw [preimageOf, h]

lemma takenForHeader_iff (line : List Char) :
    TakenForHeader line ↔ ∃ text ∈ line :: later line, headerLike text = true := by
  have hfound := filterMap_splitlines_line (f := fun text => oldFile (String.ofList text)) rfl
    oldFile_front line
  rw [← not_iff_not, TakenForHeader]
  simp only [not_exists, not_and, not_not, Bool.not_eq_true, ← oldFile_eq_none_iff]
  rw [← List.filterMap_eq_nil_iff, ← List.filterMap_eq_nil_iff, hfound]

lemma parsePatchPreimages_eq (lines : List String) :
    parsePatchPreimages lines = (lines.filterMap preimageOf).eraseDups := by
  rw [parsePatchPreimages, ← Firsts.foldl_eq_eraseDups, List.foldl_filterMap]
  congr 1
  funext targets line
  cases preimageOf line <;> rfl

/-- What the scan takes from one line of the grammar. -/
def found (line : List Char) : List String :=
  (line :: later line).filterMap fun text => preimageOf (String.ofList text)

lemma parsePatchText_eq (p : PatchFile) : parsePatchText p.text = (p.lines.flatMap found).eraseDups := by
  rw [parsePatchText, parsePatchPreimages_eq, splitlines_universalNewlines, PatchFile.text,
    splitlines_flatMap, List.filterMap_map, List.filterMap_flatMap]
  congr 2
  funext line
  exact filterMap_splitlines_line rfl preimageOf_front line

lemma found_eq (line : List Char) :
    found line = (preimageOf (String.ofList line)).toList ++ (echoes line).map Prod.snd := by
  have hechoes : (echoes line).map Prod.snd =
      (later line).filterMap fun text => preimageOf (String.ofList text) := by
    rw [echoes, List.map_map]
    exact List.map_id _
  rw [hechoes, found, List.filterMap_cons]
  cases preimageOf (String.ofList line) <;> rfl

lemma found_quiet {line : HunkLine} (h : line.Quiet) : found line.chars = [] := by
  rw [found, List.filterMap_eq_nil_iff]
  intro text htext
  exact preimageOf_of_oldFile ((oldFile_eq_none_iff text).mpr (h text htext))

/-- Only a line that begins with `--- ` shows more than its echoes. -/
lemma found_of_not_header {line : List Char} (h : ¬ ['-', '-', '-', ' '] <+: line) :
    found line = (echoes line).map Prod.snd := by
  have hold : oldFile (String.ofList line) = none := by rw [oldFile_ofList, if_neg h]
  rw [found_eq, preimageOf_of_oldFile hold]
  rfl

lemma FileSection.preimageOf_oldLine (s : FileSection) :
    preimageOf (String.ofList s.oldLine) = s.oldPath := by
  have hstamp : s.oldStamp.val.val.takeWhile (fun c => !isSpace c) = [] := by
    cases hchars : s.oldStamp.val.val with
    | nil => rfl
    | cons c rest =>
      have hspace : isSpace c = true := s.oldStamp.property c (by rw [hchars]; rfl)
      rw [List.takeWhile_cons_of_neg (by simp [hspace])]
  have hname : (s.oldLine.drop 4).takeWhile (fun c => !isSpace c) = s.oldName.val := by
    have hdrop : s.oldLine.drop 4 = s.oldName.val ++ s.oldStamp.val.val := rfl
    rw [hdrop, List.takeWhile_append_of_pos fun c hc => by simp [s.oldName.property.2 c hc], hstamp,
      List.append_nil]
  have hold : oldFile (String.ofList s.oldLine) = some (String.ofList s.oldName.val) := by
    have hdashes : ['-', '-', '-', ' '] <+: s.oldLine := List.prefix_append _ _
    rw [oldFile_ofList, if_pos hdashes, hname, if_neg s.oldName.property.1]
  rw [preimageOf, hold]
  rfl

lemma FileSection.newLine_ne (s : FileSection) : ¬ ['-', '-', '-', ' '] <+: s.newLine := by
  rintro ⟨rest, h⟩
  cases h

lemma Hunk.header_ne (h : Hunk) : ¬ ['-', '-', '-', ' '] <+: h.header := by
  rintro ⟨rest, heq⟩
  cases heq

lemma found_lead (lines : List TextLine) :
    (lines.map (·.val.val)).flatMap found = (lines.flatMap fun line => echoes line.val.val).map Prod.snd := by
  rw [List.flatMap_map, List.map_flatMap]
  congr 1
  funext line
  exact found_of_not_header line.property

lemma Hunk.found_lines {h : Hunk} (hquiet : ∀ line ∈ h.body, line.Quiet) :
    h.lines.flatMap found = (echoes h.header).map Prod.snd := by
  have hbody : (h.body.map HunkLine.chars).flatMap found = [] := by
    rw [List.flatMap_map, List.flatMap_eq_nil_iff]
    exact fun line hline => found_quiet (hquiet line hline)
  rw [Hunk.lines, List.flatMap_cons, hbody, List.append_nil, found_of_not_header h.header_ne]

lemma FileSection.found_lines {s : FileSection} (hquiet : ∀ line ∈ s.body, line.Quiet) :
    s.lines.flatMap found = s.events.map Prod.snd := by
  have hhunks : (s.hunks.flatMap Hunk.lines).flatMap found =
      (s.hunks.flatMap fun h => echoes h.header).map Prod.snd := by
    rw [List.flatMap_assoc, List.map_flatMap]
    refine List.flatMap_congr fun h hh => Hunk.found_lines fun line hline => hquiet line ?_
    exact List.mem_flatMap.mpr ⟨h, hh, hline⟩
  have hold : found s.oldLine = s.oldPath.toList ++ (echoes s.oldLine).map Prod.snd := by
    rw [found_eq, s.preimageOf_oldLine]
  have hnamed : (s.oldPath.toList.map fun name => (true, name)).map Prod.snd = s.oldPath.toList := by
    rw [List.map_map]
    exact List.map_id _
  rw [FileSection.lines, List.flatMap_append, List.flatMap_cons, List.flatMap_cons, hhunks, hold,
    found_of_not_header s.newLine_ne, found_lead, FileSection.events]
  simp only [List.map_append, hnamed, List.append_assoc]

lemma PatchFile.found_lines {p : PatchFile} (hquiet : ∀ line ∈ p.body, line.Quiet) :
    p.lines.flatMap found = p.events.map Prod.snd := by
  have hsections : (p.sections.flatMap FileSection.lines).flatMap found =
      (p.sections.flatMap FileSection.events).map Prod.snd := by
    rw [List.flatMap_assoc, List.map_flatMap]
    refine List.flatMap_congr fun s hs => FileSection.found_lines fun line hline => hquiet line ?_
    exact List.mem_flatMap.mpr ⟨s, hs, hline⟩
  rw [PatchFile.lines, List.flatMap_append, found_lead, hsections, PatchFile.events, List.map_append]

/-! The events that count are the file headers -/

@[simp] lemma counted_echoes (line : List Char) : Firsts.counted (echoes line) = [] := by
  simp [Firsts.counted, echoes]

lemma counted_echoes_flatMap {β : Type*} (line : β → List Char) (xs : List β) :
    Firsts.counted (xs.flatMap fun x => echoes (line x)) = [] := by
  rw [Firsts.counted_flatMap, List.flatMap_eq_nil_iff]
  exact fun x _ => counted_echoes (line x)

lemma FileSection.counted_events (s : FileSection) : Firsts.counted s.events = s.oldPath.toList := by
  have hnamed : Firsts.counted (s.oldPath.toList.map fun name => (true, name)) = s.oldPath.toList := by
    cases s.oldPath <;> rfl
  rw [FileSection.events]
  simp only [Firsts.counted_append, counted_echoes, hnamed, List.append_nil]
  rw [counted_echoes_flatMap, counted_echoes_flatMap Hunk.header, List.nil_append, List.append_nil]

lemma PatchFile.counted_events (p : PatchFile) :
    Firsts.counted p.events = p.sections.filterMap FileSection.oldPath := by
  rw [PatchFile.events, Firsts.counted_append, counted_echoes_flatMap, Firsts.counted_flatMap,
    List.nil_append, List.filterMap_eq_flatMap_toList]
  exact List.flatMap_congr fun s _ => s.counted_events

/-- The scan is exact where no line of a hunk looks like a file header, and what looks like
one elsewhere names a file already listed or the next to be. -/
theorem parsePatchText_exact_iff (p : PatchFile) :
    p.Exact ↔ (∀ line ∈ p.body, line.Quiet) ∧ Firsts.Harmless [] p.events := by
  have htaken : (∀ line ∈ p.body, ¬ TakenForHeader line.chars) ↔ ∀ line ∈ p.body, line.Quiet := by
    refine forall₂_congr fun line _ => ?_
    rw [takenForHeader_iff, HunkLine.Quiet]
    simp only [not_exists, not_and, Bool.not_eq_true]
  rw [PatchFile.Exact, htaken, and_comm]
  refine and_congr_right fun hquiet => ?_
  rw [parsePatchText_eq, PatchFile.found_lines hquiet, PatchFile.oldPaths, ← p.counted_events,
    Firsts.eraseDups_eq_iff]

/-! A hunk that removes a comment of an SQL script -/

lemma noStamp_ok : ∀ c ∈ ([] : List Char).head?, isSpace c = true := by simp

def noStamp : Stamp := ⟨⟨[], List.not_mem_nil⟩, noStamp_ok⟩

lemma oldScript_ok : ['a', '/', 'q', '.', 's', 'q', 'l'] ≠ [] ∧
    ∀ c ∈ ['a', '/', 'q', '.', 's', 'q', 'l'], isSpace c = false := by
  simp [isSpace]

lemma newScript_ok : ['b', '/', 'q', '.', 's', 'q', 'l'] ≠ [] ∧
    ∀ c ∈ ['b', '/', 'q', '.', 's', 'q', 'l'], isSpace c = false := by
  simp [isSpace]

lemma statement_ok : '\n' ∉ ['b', 'e', 'g', 'i', 'n'] := by decide

lemma comment_ok : '\n' ∉ ['-', '-', ' ', 'o', 'l', 'd'] := by decide

lemma two_lines : false = true → 2 = 1 := Bool.false_ne_true.elim

def commentHunk : Hunk where
  old := ⟨1, 2, false, two_lines⟩
  new := ⟨1, 1, true, fun _ => rfl⟩
  heading := ⟨[], List.not_mem_nil⟩
  body := [.keep ⟨_, statement_ok⟩, .remove ⟨_, comment_ok⟩]
  old_count := rfl
  new_count := rfl

def commentPatch : PatchFile where
  header := []
  sections := [⟨[], ⟨_, oldScript_ok⟩, noStamp, ⟨_, newScript_ok⟩, noStamp, [commentHunk]⟩]

/-- Removed, the comment `-- old` reads `--- old`. -/
theorem commentPatch_misread :
    commentPatch.text = "--- a/q.sql\n+++ b/q.sql\n@@ -1,2 +1 @@\n begin\n--- old\n".toList ∧
    commentPatch.oldPaths = ["q.sql"] ∧ parsePatchText commentPatch.text = ["q.sql", "old"] ∧
    ¬ commentPatch.Exact := by
  have hold : commentPatch.oldPaths = ["q.sql"] := by decide +kernel
  have hfound : parsePatchText commentPatch.text = ["q.sql", "old"] := by decide +kernel
  refine ⟨by decide +kernel, hold, hfound, ?_⟩
  intro hexact
  have hpaths := hexact.1
  rw [hold, hfound] at hpaths
  simp at hpaths

end T3dmium.PatchText
