import T3dmium.Asking
import T3dmium.CacheReplay
import T3dmium.SeriesOrder

/-! Validation through the cache. What `validate_patches.py` reports is what the pin itself would make it
report; and where it has been through once, it goes through again without the remote. -/
namespace T3dmium

/-! `validate_patches.py` with its fetcher -/

/-- A program that calls `fetcher.get`. -/
abbrev Fetching := Asking PyStr (Option Bytes)

/-- What `fetcher.get` returns where it is the pin that answers. -/
def Fetching.pin (get : PyStr → Option Bytes) : Tree := fun path => get (.ofString path)

/-- The failures that are listed in the end: those of the series, or of the patches named on the
command line. -/
abbrev Failures := List Problem ⊕ List Refusal

def exitCode {α : Type} (failures : List α) : ℕ := if failures.isEmpty then 0 else 1

namespace Fetching

section
variable (gnu : GnuPatch)

def materialize (entry : String) (s : Tree × List Problem) (path : String) : Fetching (Tree × List Problem) :=
  match s.1 path with
  | some _ => pure s
  | none => do
    match ← Asking.ask (.ofString path) with
    | none => pure (s.1, s.2 ++ [.absent entry path])
    | some content => pure (Function.update s.1 path (some content), s.2)

/-- One turn of the loop of `validate_series`. -/
def validateEntry (entry : String) (p : Patch) (s : Tree × List Problem) : Fetching (Tree × List Problem) := do
  let m ← p.preimages.foldlM (materialize entry) (s.1, [])
  if m.2 = [] then
    let r := runPatch gnu p m.1
    pure (r.2, s.2 ++ if r.1 then [] else [.failedToApply entry])
  else
    pure (m.1, s.2 ++ m.2)

def validateLoop (patches : String → Option Patch) :
    List String → Tree × List Problem → Fetching (Option (Tree × List Problem))
  | [], s => pure (some s)
  | entry :: series, s =>
    match patches entry with
    | none => pure none
    | some p => do
      validateLoop patches series (← validateEntry gnu entry p s)

/-- One turn of the loop of `validate_isolated`. -/
def isolatedProblems (name : String) (p : Patch) : Fetching (List Refusal) := do
  let m ← p.preimages.foldlM (materialize name) (fun _ => none, [])
  if m.2 = [] then pure (if dryRunPatch gnu p m.1 then [] else [.doesNotApply name])
  else pure (m.2.map Problem.refusal)

def isolatedLoop (patches : String → Option Patch) (name : String → String) :
    List String → List Refusal → Fetching (Option (List Refusal))
  | [], failures => pure (some failures)
  | path :: paths, failures =>
    match patches path with
    | none => pure none
    | some p => do
      isolatedLoop patches name paths (failures ++ (← isolatedProblems gnu (name path) p))

/-- `main`: the exit code and the failures, or `none` where the tool dies. `patches` are the files of the
series, `files` those of the arguments. -/
def main (patches files : String → Option Patch) (name : String → String) (series args : List String) :
    Fetching (Option (ℕ × Failures)) :=
  if args = [] then do
    let s ← validateLoop gnu patches series (fun _ => none, [])
    pure (s.map fun s => (exitCode s.2, .inl s.2))
  else do
    let refusals ← isolatedLoop gnu files name args []
    pure (refusals.map fun refusals => (exitCode refusals, .inr refusals))

end

/-! What it returns -/

section
variable {gnu : GnuPatch} (get : PyStr → Option Bytes)

@[simp] lemma value_materialize (entry : String) (s : Tree × List Problem) (path : String) :
    (materialize entry s path).value get = T3dmium.materialize (pin get) entry s path := by
  rw [materialize, T3dmium.materialize, pin]
  cases s.1 path with
  | some _ => rfl
  | none =>
    simp only [Asking.value_bind, Asking.value_ask]
    cases get (.ofString path) <;> rfl

@[simp] lemma value_validateEntry (entry : String) (p : Patch) (s : Tree × List Problem) :
    (validateEntry gnu entry p s).value get = T3dmium.validateEntry gnu (pin get) entry p s := by
  simp only [validateEntry, Asking.value_bind, Asking.value_foldlM, value_materialize, T3dmium.validateEntry]
  split_ifs <;> rfl

@[simp] lemma value_validateLoop (patches : String → Option Patch) (series : List String)
    (s : Tree × List Problem) :
    (validateLoop gnu patches series s).value get = T3dmium.validateLoop gnu patches (pin get) series s := by
  induction series generalizing s with
  | nil => rfl
  | cons entry series ih =>
    rw [validateLoop, T3dmium.validateLoop]
    cases patches entry with
    | none => rfl
    | some p => simp only [Asking.value_bind, value_validateEntry, ih]

@[simp] lemma value_isolatedProblems (name : String) (p : Patch) :
    (isolatedProblems gnu name p).value get = T3dmium.isolatedProblems gnu (pin get) name p := by
  simp only [isolatedProblems, Asking.value_bind, Asking.value_foldlM, value_materialize,
    T3dmium.isolatedProblems]
  split_ifs <;> rfl

@[simp] lemma value_isolatedLoop (patches : String → Option Patch) (name : String → String)
    (paths : List String) (failures : List Refusal) :
    (isolatedLoop gnu patches name paths failures).value get =
      T3dmium.isolatedLoop gnu patches name (pin get) paths failures := by
  induction paths generalizing failures with
  | nil => rfl
  | cons path paths ih =>
    rw [isolatedLoop, T3dmium.isolatedLoop]
    cases patches path with
    | none => rfl
    | some p => simp only [Asking.value_bind, value_isolatedProblems, ih]

end

end Fetching

/-- What the tool reports of a pin that is there as a whole. -/
def validated (gnu : GnuPatch) (patches files : String → Option Patch) (name : String → String)
    (pin : Tree) (series args : List String) : Option (ℕ × Failures) :=
  if args = [] then
    (validateLoop gnu patches pin series (fun _ => none, [])).map fun s => (exitCode s.2, .inl s.2)
  else
    (isolatedLoop gnu files name pin args []).map fun refusals => (exitCode refusals, .inr refusals)

lemma Fetching.value_main {gnu : GnuPatch} (get : PyStr → Option Bytes) (patches files : String → Option Patch)
    (name : String → String) (series args : List String) :
    (main gnu patches files name series args).value get = validated gnu patches files name (pin get) series args := by
  rw [main, validated]
  split_ifs <;> simp

/-! Processes that share the cache -/

namespace SourceCache
open TreeWalk FileTree

section
variable (pin : Pin) (root : List PyStr) (pid : ℕ)

/-- What the process is answered, in order. -/
def answersTo : List (ℕ × Event) → World → List (PyStr × Option Bytes)
  | [], _ => []
  | step :: steps, w =>
    let (answer, w') := cacheMachine pin root step w
    if step.1 = pid then answer.toList ++ answersTo steps w' else answersTo steps w'

variable {pin root pid}

lemma mem_answersTo {steps : List (ℕ × Event)} {w : World} {p : PyStr × Option Bytes}
    (h : p ∈ answersTo pin root pid steps w) : some p ∈ Machine.answers (cacheMachine pin root) steps w := by
  induction steps generalizing w with
  | nil => cases h
  | cons step steps ih =>
    rw [Machine.answers_cons]
    simp only [answersTo] at h
    split_ifs at h
    · rcases List.mem_append.mp h with hfirst | hrest
      · rw [Option.mem_toList] at hfirst
        rw [hfirst]
        exact List.mem_cons_self
      · exact List.mem_cons_of_mem _ (ih hrest)
    · exact List.mem_cons_of_mem _ (ih h)

/-- A process that takes all the steps gets all the answers. -/
lemma answersTo_own (events : List Event) (w : World) :
    answersTo pin root pid (events.map fun e => (pid, e)) w =
      (Machine.answers (cacheMachine pin root) (events.map fun e => (pid, e)) w).reduceOption := by
  induction events generalizing w with
  | nil => rfl
  | cons e events ih =>
    simp only [List.map_cons, answersTo, if_true, Machine.answers_cons, ih]
    cases (cacheMachine pin root (pid, e) w).1 <;> rfl

variable {asked : Set PyStr} {t : DiskTree PyStr Bytes}

variable (pid) in
lemma answersTo_right (hlines : ∀ source, pin.execDeps (Lines.universalNewlines source) = pin.execDeps source)
    (hapart : Apart pin root asked) (hfresh : Fresh root asked t) {steps : List (ℕ × Event)}
    (hcareful : Machine.Throughout (cacheMachine pin root) (Careful root asked) steps (World.start t)) :
    ∀ p ∈ answersTo pin root pid steps (World.start t), p.2 = pin.content p.1 := by
  have hanswers := Machine.answers_of_invariant (Inv pin root asked)
    (fun a => ∀ path value, a = some (path, value) → value = pin.content path)
    (fun step w hstep hinv => (hinv.step hlines hapart hstep).inv)
    (fun step w hstep hinv => (hinv.step hlines hapart hstep).answer) hcareful (inv_start hfresh)
  exact fun p hp => hanswers _ (mem_answersTo hp) p.1 p.2 rfl

end

/-- However the cache got where it is, a validation that has been through has reported what the pin itself
would have made it report. Afterwards the same validation goes through in a new process, with or without
`--offline`, from the cache alone: it asks for the same files, gets the same answers without the remote,
reports the same and leaves the cache as it is. -/
theorem validation_cached (gnu : GnuPatch) (patches files : String → Option Patch) (name : String → String)
    (series args : List String) (pin : Pin) (root : List PyStr) (asked : Set PyStr) (t : DiskTree PyStr Bytes)
    (hlines : ∀ source, pin.execDeps (Lines.universalNewlines source) = pin.execDeps source)
    (hapart : Apart pin root asked) (hfresh : Fresh root asked t) (steps : List (ℕ × Event))
    (hcareful : Machine.Throughout (cacheMachine pin root) (Careful root asked) steps (World.start t))
    (pid : ℕ) {report : Option (ℕ × Failures)}
    (hdone : (Fetching.main gnu patches files name series args).follow
      (answersTo pin root pid steps (World.start t)) = some report) :
    let w := Machine.final (cacheMachine pin root) steps (World.start t)
    report = validated gnu patches files name (Fetching.pin pin.content) series args ∧
      ∀ later, w.procs later = none →
        (∀ pid' other, w.procs pid' = some other → ∀ loc, ¬ Torn loc other.phase) →
        (∀ p ∈ answersTo pin root pid steps (World.start t), p.2 = none → isDir w.tree (place root p.1) = false) →
        ∀ offline chunk, ∃ advances paths,
          let again := (replay offline advances chunk paths).map fun e => (later, e)
          (Fetching.main gnu patches files name series args).follow (answersTo pin root later again w) =
              some report ∧
            (Machine.final (cacheMachine pin root) again w).tree = w.tree := by
  intro w
  have hright := answersTo_right pid hlines hapart hfresh hcareful
  obtain ⟨htranscript, hreport⟩ := Asking.follow_eq_some hdone hright
  refine ⟨hreport.trans (Fetching.value_main _ _ _ _ _ _), fun later hlater hwhole hnodirs offline chunk => ?_⟩
  have hmem : ∀ path ∈ (Fetching.main gnu patches files name series args).asked pin.content,
      (path, pin.content path) ∈ answersTo pin root pid steps (World.start t) := by
    intro path hpath
    rw [htranscript]
    exact List.mem_map_of_mem hpath
  obtain ⟨advances, hanswers, htree⟩ := (recorded_run hlines hapart hfresh hcareful).replays hlater hwhole
    (fun path hpath => Or.inr (mem_gathered_of_answer (mem_answersTo (hmem path hpath))))
    (fun path hpath hnone => hnodirs _ (hmem path hpath) hnone) offline chunk
  refine ⟨advances, _, ?_, htree⟩
  rw [answersTo_own, hanswers, hreport]
  exact Asking.follow_asked pin.content _

/-! Two validations of a patch of the small remote -/

def sampleLenient : GnuPatch := ⟨fun _ content => (true, content)⟩

def sampleModify : Patch := ⟨[], [⟨.modify, "a", "", []⟩]⟩

theorem sampleValidation_cached :
    let w := Machine.final (cacheMachine samplePin sampleRoot) sampleSteps (World.start emptyDisk)
    ∃ advances paths,
      let again := (replay true advances 0 paths).map fun e => (1, e)
      (Fetching.main sampleLenient (fun _ => none) (fun _ => some sampleModify) id [] ["p", "p"]).follow
          (answersTo samplePin sampleRoot 1 again w) = some (some (0, .inr [])) ∧
        (Machine.final (cacheMachine samplePin sampleRoot) again w).tree = w.tree := by
  refine (validation_cached sampleLenient (fun _ => none) (fun _ => some sampleModify) id [] ["p", "p"] samplePin
    sampleRoot {sampleName} emptyDisk (fun _ => rfl) sample_apart sample_fresh sampleSteps sample_careful
    0 (by decide +kernel)).2 1 (sample_others one_ne_zero) sample_whole ?_ true 0
  have hcontents : ∀ p ∈ answersTo samplePin sampleRoot 0 sampleSteps (World.start emptyDisk), p.2 ≠ none := by
    decide +kernel
  exact fun p hp hnone => absurd hnone (hcontents p hp)

end SourceCache
end T3dmium
