import T3dmium.Deps
import T3dmium.Lines
import T3dmium.Machine
import T3dmium.Pathlib
import T3dmium.UrlText

/-! The cache of files fetched at the pin (`PinnedSourceFetcher`): processes that share one
directory, each at some step of a `get`. Files are written where they stay. -/
namespace T3dmium.SourceCache
open TreeWalk FileTree Pathlib

/-- The remote at the pin, and Python on a `DEPS` file. -/
structure Pin where
  /-- chromium/src, by path -/
  src : PyStr → Option Bytes
  /-- by repository, commit and path -/
  subrepo : PyStr → PyStr → PyStr → Option Bytes
  /-- the items of `deps` after `_exec_deps`, where it does not raise -/
  execDeps : List Char → Option (List (PyStr × Json))

def depsPath : PyStr := .ofString "DEPS"

/-- The name of the marker of a file that is nowhere. -/
def markerPath (relPath : PyStr) : PyStr := relPath ++ .ofString ".ABSENT"

/-- `bytes.decode("utf-8")` -/
def decodeStrict (bs : Bytes) : Option String := String.fromUTF8? ⟨bs.toArray⟩

namespace Pin

/-- What `load_dep_map` makes of the text of `DEPS`. -/
def load (pin : Pin) (source : List Char) : Option DepMap := (pin.execDeps source).map depMapOf

def depMap (pin : Pin) : Option DepMap :=
  (pin.src depsPath).bind fun bs => (decodeStrict bs).bind fun source => pin.load source.toList

/-- The bytes of a path at the pin, in chromium/src or else in the sub-repository it lies in. -/
def content (pin : Pin) (relPath : PyStr) : Option Bytes :=
  match pin.src relPath with
  | some bs => some bs
  | none =>
    match resolve relPath (pin.depMap.getD .empty) with
    | none => none
    | some (repo, commit, subpath) => pin.subrepo repo commit subpath

end Pin

/-! Processes -/

/-- What is read from the cache: a file, or `DEPS` on the way to one. -/
inductive Kept
  | file (relPath : PyStr)
  | deps (relPath : PyStr)

def Kept.path : Kept → PyStr
  | .file relPath => relPath
  | .deps _ => depsPath

/-- What is written to the cache. -/
inductive Store
  | file (relPath : PyStr) (content : Bytes)
  | marker (relPath : PyStr)
  | deps (relPath : PyStr) (source : String)

def Store.path : Store → PyStr
  | .file relPath _ => relPath
  | .marker relPath => markerPath relPath
  | .deps _ _ => depsPath

def Store.data : Store → Bytes
  | .file _ content => content
  | .marker _ => []
  | .deps _ source => encodeUtf8 source

/-- Where a process is in `get`. -/
inductive Phase
  | idle
  /-- `exists()` of a file, or of `DEPS` -/
  | checking (kept : Kept)
  | checkingMarker (relPath : PyStr)
  | opening (kept : Kept)
  | reading (kept : Kept) (loc : List PyStr) (bytes : Bytes)
  /-- `_fetch_from_src` -/
  | fetching (relPath : PyStr) (attempt : ℕ)
  /-- `self.dep_map()` -/
  | mapping (relPath : PyStr)
  | fetchingDeps (relPath : PyStr)
  /-- `fetch_subrepo_file` -/
  | resolving (relPath : PyStr) (depMap : DepMap)
  /-- `parent.mkdir(parents=True, exist_ok=True)` -/
  | making (store : Store)
  | creating (store : Store)
  /-- the file is open and `done` bytes are written -/
  | writing (store : Store) (loc : List PyStr) (done : ℕ)

structure Proc where
  offline : Bool
  depMap : Option DepMap
  phase : Phase

def Proc.goto (proc : Proc) (phase : Phase) : Proc := { proc with phase := phase }

/-- The files and the processes that live. -/
structure World where
  tree : DiskTree PyStr Bytes
  procs : ℕ → Option Proc

/-- What a step makes of its process. -/
inductive Outcome
  | goes (proc : Proc)
  | returns (relPath : PyStr) (value : Option Bytes) (proc : Proc)
  | exits

/-- An exception leaves `get`. -/
def raises (proc : Proc) : Outcome := .goes (proc.goto .idle)

/-- What `get` answers for a path. -/
abbrev Answer := Option (PyStr × Option Bytes)

def Outcome.proc : Outcome → Option Proc
  | .goes proc | .returns _ _ proc => some proc
  | .exits => none

def Outcome.answer : Outcome → Answer
  | .goes _ | .exits => none
  | .returns relPath value _ => some (relPath, value)

/-! The steps of a process -/

section
variable (pin : Pin) (root : List PyStr) (t : DiskTree PyStr Bytes) (proc : Proc)

/-- `(cache_root / path).exists()` -/
def found (path : PyStr) : Bool := ((follow t root path).bind t).isSome

/-- The file that `open` finds for reading. -/
def openedFile (path : PyStr) : Option (List PyStr) := (follow t root path).filter (isFile t)

/-- The path from the top of the file system. -/
def fullPath (path : PyStr) : List (Step PyStr) :=
  (if isAbsolute path then [] else root.map .down) ++ (parts path).map partStep

def mapped (relPath : PyStr) : Option DepMap → Outcome
  | none => raises proc
  | some depMap => .goes { proc with depMap := some depMap, phase := .resolving relPath depMap }

/-- A file is read to its end. -/
def finishRead (bytes : Bytes) : Kept → Outcome
  | .file relPath => .returns relPath (some bytes) (proc.goto .idle)
  | .deps relPath =>
    mapped proc relPath
      ((decodeStrict bytes).bind fun source => pin.load (Lines.universalNewlines source.toList))

/-- A file is written and closed. -/
def finishWrite : Store → Outcome
  | .file relPath content => .returns relPath (some content) (proc.goto .idle)
  | .marker relPath => .returns relPath none (proc.goto .idle)
  | .deps relPath source => mapped proc relPath (pin.load source.toList)

/-- Bytes written at an offset; a gap is filled with zeros. -/
def overwrite (content : Bytes) (offset : ℕ) (bytes : Bytes) : Bytes :=
  content.take offset ++ List.replicate (offset - content.length) 0 ++ bytes ++
    content.drop (offset + bytes.length)

def contentAt (loc : List PyStr) : Bytes :=
  match t loc with
  | some (.file content) => content
  | some .dir | none => []

/-- The next step that needs no remote. `chunk` is how much a read or a write moves. -/
def advance (chunk : ℕ) : Option (DiskTree PyStr Bytes × Outcome) :=
  match proc.phase with
  | .idle | .fetching _ _ | .fetchingDeps _ => none
  | .checking (.file relPath) =>
    some (t, .goes (proc.goto (if found root t relPath then .opening (.file relPath)
      else .checkingMarker relPath)))
  | .checking (.deps relPath) =>
    some (t, .goes (proc.goto (if found root t depsPath then .opening (.deps relPath)
      else .fetchingDeps relPath)))
  | .checkingMarker relPath =>
    some (t, if found root t (markerPath relPath) then .returns relPath none (proc.goto .idle)
      else if proc.offline then .exits
      else .goes (proc.goto (.fetching relPath 0)))
  | .opening kept =>
    match openedFile root t kept.path with
    | none => some (t, raises proc)
    | some loc => some (t, .goes (proc.goto (.reading kept loc [])))
  | .reading kept loc bytes =>
    let rest := (contentAt t loc).drop bytes.length
    if rest = [] then some (t, finishRead pin proc bytes kept)
    else some (t, .goes (proc.goto (.reading kept loc (bytes ++ rest.take (chunk + 1)))))
  | .mapping relPath =>
    match proc.depMap with
    | some depMap => some (t, .goes (proc.goto (.resolving relPath depMap)))
    | none =>
      if proc.offline then some (t, mapped proc relPath (some .empty))
      else some (t, .goes (proc.goto (.checking (.deps relPath))))
  | .resolving relPath depMap =>
    match resolve relPath depMap with
    | none => some (t, .goes (proc.goto (.making (.marker relPath))))
    | some _ => none
  | .making store =>
    match way t [] (fullPath root store.path).dropLast with
    | .there => some (t, .goes (proc.goto (.creating store)))
    | .missing pos => some (Function.update t pos (some .dir), .goes proc)
    | .blocked => some (t, raises proc)
  | .creating store =>
    match follow t root store.path with
    | none => some (t, raises proc)
    | some loc =>
      if isDir t loc then some (t, raises proc)
      else some (Function.update t loc (some (.file [])), .goes (proc.goto (.writing store loc 0)))
  | .writing store loc done =>
    let bytes := (store.data.drop done).take (chunk + 1)
    if bytes = [] then some (t, finishWrite pin proc store)
    else some (Function.update t loc (some (.file (overwrite (contentAt t loc) done bytes))),
      .goes (proc.goto (.writing store loc (done + bytes.length))))

/-- The remote answers: it has the file, or it has not. -/
def answered : Option Outcome :=
  match proc.phase with
  | .fetching relPath _ =>
    match pin.src relPath with
    | some content => some (.goes (proc.goto (.making (.file relPath content))))
    | none => some (.goes (proc.goto (.mapping relPath)))
  | .fetchingDeps relPath =>
    match (pin.src depsPath).bind decodeStrict with
    | none => some (raises proc)
    | some source => some (.goes (proc.goto (.making (.deps relPath source))))
  | .resolving relPath depMap =>
    match resolve relPath depMap with
    | none => none
    | some (repo, commit, subpath) =>
      match pin.subrepo repo commit subpath with
      | some content => some (.goes (proc.goto (.making (.file relPath content))))
      | none => some (.goes (proc.goto (.making (.marker relPath))))
  | _ => none

def fetchRetries : ℕ := 4

/-- The remote cannot be reached, or answers with an error that does or does not call for
another attempt. -/
def refused (again : Bool) : Option Outcome :=
  match proc.phase with
  | .fetching relPath attempt =>
    if again ∧ attempt < fetchRetries - 1 then some (.goes (proc.goto (.fetching relPath (attempt + 1))))
    else some (raises proc)
  | .fetchingDeps _ => some (raises proc)
  | .resolving relPath depMap =>
    match resolve relPath depMap with
    | none => none
    | some _ => some (raises proc)
  | _ => none

end

inductive Event
  | start (offline : Bool)
  | get (relPath : PyStr)
  | advance (chunk : ℕ)
  | answered
  | refused (again : Bool)
  /-- an operation of the process fails, and `get` raises -/
  | fault
  | kill

/-- What an event does to the files and to a process, where it can happen. -/
def effect (pin : Pin) (root : List PyStr) (t : DiskTree PyStr Bytes) (proc : Proc) :
    Event → Option (DiskTree PyStr Bytes × Outcome)
  | .start _ => none
  | .get relPath =>
    match proc.phase with
    | .idle => some (t, .goes (proc.goto (.checking (.file relPath))))
    | _ => none
  | .advance chunk => advance pin root t proc chunk
  | .answered => (answered pin proc).map fun o => (t, o)
  | .refused again => (refused proc again).map fun o => (t, o)
  | .fault => some (t, raises proc)
  | .kill => some (t, .exits)

/-- What can happen to process `pid`, and else nothing does. -/
def cacheMachine (pin : Pin) (root : List PyStr) : Machine World (ℕ × Event) Answer := fun step w =>
  match w.procs step.1 with
  | none =>
    match step.2 with
    | .start offline => (none, { w with procs := Function.update w.procs step.1 (some ⟨offline, none, .idle⟩) })
    | _ => (none, w)
  | some proc =>
    match effect pin root w.tree proc step.2 with
    | none => (none, w)
    | some (t, o) => (o.answer, ⟨t, Function.update w.procs step.1 o.proc⟩)

def World.start (t : DiskTree PyStr Bytes) : World := ⟨t, fun _ => none⟩

end T3dmium.SourceCache
