import T3dmium.KeyedEdits
import T3dmium.PyText

/-! The patch tools: applying a series to a source tree, and validating it on a
sparse tree whose files are fetched at the pin when a patch first needs them. -/
namespace T3dmium

/-- The files of a source tree, by path. -/
abbrev Tree := String → Option Bytes

inductive FileOp
  | modify
  | create
  | delete
  deriving DecidableEq

/-- What a patch says about one file. `stamp` follows the name in both header
lines; `body` is what stands below them, as `splitlines` cuts it. -/
structure FilePatch where
  op : FileOp
  path : String
  stamp : String
  body : List String

/-- `preamble` stands before the first file. -/
structure Patch where
  preamble : List String
  files : List FilePatch

def FilePatch.oldName (f : FilePatch) : String :=
  match f.op with
  | .create => "/dev/null"
  | .modify | .delete => "a/" ++ f.path

def FilePatch.newName (f : FilePatch) : String :=
  match f.op with
  | .delete => "/dev/null"
  | .modify | .create => "b/" ++ f.path

def FilePatch.lines (f : FilePatch) : List String :=
  ("--- " ++ f.oldName ++ f.stamp) :: ("+++ " ++ f.newName ++ f.stamp) :: f.body

def Patch.lines (p : Patch) : List String := p.preamble ++ p.files.flatMap FilePatch.lines

/-! Pre-images -/

/-- `OLD_FILE_RE`: what `^--- (\S+)` captures. -/
def oldFile (line : String) : Option String :=
  match line.toList with
  | '-' :: '-' :: '-' :: ' ' :: rest =>
    let name := rest.takeWhile fun c => !isSpace c
    if name = [] then none else some (.ofList name)
  | _ => none

/-- A leading `a/` is dropped. -/
def stripOld (name : String) : String :=
  match name.toList with
  | 'a' :: '/' :: rest => .ofList rest
  | _ => name

def preimageOf (line : String) : Option String :=
  match oldFile line with
  | none => none
  | some name => if name = "/dev/null" then none else some (stripOld name)

def parsePatchPreimages (lines : List String) : List String :=
  lines.foldl (fun targets line =>
    match preimageOf line with
    | none => targets
    | some name => if name ∈ targets then targets else targets ++ [name]) []

def Patch.preimages (p : Patch) : List String := parsePatchPreimages p.lines

/-! GNU patch -/

/-- How GNU patch applies the hunks below a file's header: whether all of them
match, and the file with those that do. -/
structure GnuPatch where
  hunks : List String → Bytes → Bool × Bytes

section
variable (gnu : GnuPatch)

/-- `patch -p1 --forward` on one file. -/
def FilePatch.run (f : FilePatch) (file : Option Bytes) : Bool × Option Bytes :=
  match f.op, file with
  | .create, some (b :: bs) => (false, some (b :: bs))
  | .create, _ => ((gnu.hunks f.body []).1, some (gnu.hunks f.body []).2)
  | .modify, some content => ((gnu.hunks f.body content).1, some (gnu.hunks f.body content).2)
  | .delete, some content =>
    if gnu.hunks f.body content = (true, []) then (true, none)
    else (false, some (gnu.hunks f.body content).2)
  | _, none => (false, none)

def FilePatch.edit (f : FilePatch) : Edit String Bytes := ⟨f.path, f.run gnu⟩

/-- Whether `patch` exits with 0, and the tree it leaves. -/
def runPatch (p : Patch) (tree : Tree) : Bool × Tree :=
  Edit.applyAll (p.files.map (FilePatch.edit gnu)) tree

/-! `validate_patches.py`, series mode -/

inductive Problem
  /-- `pre-image file absent at pin and not created by an earlier patch` -/
  | absent (entry path : String)
  /-- `failed to apply` -/
  | failedToApply (entry : String)
  deriving DecidableEq

/-- `pin` is what the fetcher serves. -/
def materialize (pin : Tree) (entry : String) (s : Tree × List Problem) (path : String) :
    Tree × List Problem :=
  match s.1 path, pin path with
  | some _, _ => s
  | none, none => (s.1, s.2 ++ [.absent entry path])
  | none, some content => (Function.update s.1 path (some content), s.2)

/-- One turn of the loop of `validate_series`, on the tree and the failures so far. -/
def validateEntry (pin : Tree) (entry : String) (p : Patch) (s : Tree × List Problem) :
    Tree × List Problem :=
  let m := p.preimages.foldl (materialize pin entry) (s.1, [])
  if m.2 = [] then
    let r := runPatch gnu p m.1
    (r.2, s.2 ++ if r.1 then [] else [.failedToApply entry])
  else (m.1, s.2 ++ m.2)

/-- `none` when an entry of the series has no file and the tool dies. -/
def validateLoop (patches : String → Option Patch) (pin : Tree) :
    List String → Tree × List Problem → Option (Tree × List Problem)
  | [], s => some s
  | entry :: series, s =>
    match patches entry with
    | none => none
    | some p => validateLoop patches pin series (validateEntry gnu pin entry p s)

/-- The exit code and the sparse tree. -/
def validateSeries (patches : String → Option Patch) (pin : Tree) (series : List String) :
    Option (ℕ × Tree) :=
  (validateLoop gnu patches pin series (fun _ => none, [])).map fun s =>
    (if s.2 = [] then 0 else 1, s.1)

/-! `apply_patches.py apply` without flags -/

/-- The exit code and the tree; the first patch that fails ends the loop. -/
def cmdApply (patches : String → Option Patch) : List String → Tree → Option (ℕ × Tree)
  | [], tree => some (0, tree)
  | entry :: series, tree =>
    match patches entry with
    | none => none
    | some p =>
      let r := runPatch gnu p tree
      if r.1 then cmdApply patches series r.2 else some (1, r.2)

end
end T3dmium
