import T3dmium.PatchSeries

/-! `apply_patches.py` with its flags, over any patch tool. Without flags and over the
file-by-file `runPatch` it is the `cmdApply` of the series validation. -/
namespace T3dmium.ApplyPatches

/-- What the tool does with a patch file: whether it exits with 0, and the tree it leaves. -/
structure PatchTool (π τ : Type*) where
  /-- `--forward` -/
  forward : π → τ → Bool × τ
  /-- `--reverse` -/
  reverse : π → τ → Bool × τ

structure Flags where
  dryRun : Bool
  reverse : Bool
  keepGoing : Bool

/-- What a command ends in: `die`, or its exit code and the patches it lists as failed. -/
inductive Outcome
  | died
  | returned (code : ℕ) (failed : List String)
  deriving DecidableEq

section
variable {π τ : Type*} (tool : PatchTool π τ) (flags : Flags)

def PatchTool.run (reverse : Bool) (p : π) (tree : τ) : Bool × τ :=
  if reverse then tool.reverse p tree else tool.forward p tree

/-- A dry run evaluates the patch and leaves the tree alone. -/
def applyOne (p : π) (tree : τ) : Bool × τ :=
  ((tool.run flags.reverse p tree).1, if flags.dryRun then tree else (tool.run flags.reverse p tree).2)

/-- The loop of `cmd_apply`, on the patches failed so far; `none` when an entry has no file. -/
def applyLoop (patches : String → Option π) : List String → List String → τ → Option (List String) × τ
  | [], failed, tree => (some failed, tree)
  | entry :: entries, failed, tree =>
    match patches entry with
    | none => (none, tree)
    | some p =>
      let r := applyOne tool flags p tree
      if r.1 then applyLoop patches entries failed r.2
      else if flags.keepGoing then applyLoop patches entries (failed ++ [entry]) r.2
      else (some (failed ++ [entry]), r.2)

def entries (series : List String) : List String :=
  if flags.reverse then series.reverse else series

/-- `patchFound` is false when there is no `patch` binary; `tree` is `none` when the
directory does not exist. -/
def cmdApply (patchFound : Bool) (patches : String → Option π) (series : List String) :
    Option τ → Outcome × Option τ
  | none => (if flags.dryRun && series.isEmpty then .returned 0 [] else .died, none)
  | some tree =>
    if !patchFound then (.died, some tree)
    else if series.isEmpty then (.returned 0 [], some tree)
    else
      let r := applyLoop tool flags patches (entries flags series) [] tree
      match r.1 with
      | none => (.died, some r.2)
      | some failed => (.returned (if failed.isEmpty then 0 else 1) failed, some r.2)

/-- In a directory that exists, with the `patch` binary, the outcome is that of the loop. -/
lemma cmdApply_eq_loop (patches : String → Option π) (series : List String) (tree : τ) :
    cmdApply tool flags true patches series (some tree) =
      match applyLoop tool flags patches (entries flags series) [] tree with
      | (none, last) => (.died, some last)
      | (some failed, last) => (.returned (if failed.isEmpty then 0 else 1) failed, some last) := by
  cases series with
  | nil => cases hr : flags.reverse <;> simp [cmdApply, entries, applyLoop, hr]
  | cons entry rest =>
    simp only [cmdApply, Bool.not_true, Bool.false_eq_true, if_false, List.isEmpty_cons]
    cases applyLoop tool flags patches (entries flags (entry :: rest)) [] tree with
    | mk failed last => cases failed <;> rfl

end

def Flags.plain : Flags := ⟨false, false, false⟩

/-- The apply the series validation is measured against is this one without flags. -/
theorem cmdApply_plain (gnu : GnuPatch) (unapply : Patch → Tree → Bool × Tree)
    (patches : String → Option Patch) (series : List String) (tree : Tree) :
    T3dmium.cmdApply gnu patches series tree =
      match cmdApply ⟨runPatch gnu, unapply⟩ .plain true patches series (some tree) with
      | (.returned code _, some last) => some (code, last)
      | _ => none := by
  have hloop : ∀ series tree, T3dmium.cmdApply gnu patches series tree =
      match applyLoop ⟨runPatch gnu, unapply⟩ .plain patches series [] tree with
      | (none, _) => none
      | (some failed, last) => some (if failed.isEmpty then 0 else 1, last) := by
    intro series
    induction series with
    | nil => exact fun _ => rfl
    | cons entry rest ih =>
      intro tree
      rw [T3dmium.cmdApply, applyLoop]
      cases patches entry with
      | none => rfl
      | some p =>
        cases hok : (runPatch gnu p tree).1 with
        | true => simp [applyOne, PatchTool.run, Flags.plain, hok, ih]
        | false => simp [applyOne, PatchTool.run, Flags.plain, hok]
  have horder : entries .plain series = series := rfl
  rw [hloop, cmdApply_eq_loop, horder]
  cases applyLoop ⟨runPatch gnu, unapply⟩ .plain patches series [] tree with
  | mk failed last => cases failed <;> rfl

/-! A run that every patch takes part in -/

section
variable {π τ : Type*} (tool : PatchTool π τ) (reverse : Bool) (patches : String → Option π)

/-- Every patch applies to the tree the ones before it leave. -/
inductive Takes : List String → τ → τ → Prop
  | nil (tree : τ) : Takes [] tree tree
  | cons {entry : String} {rest : List String} {p : π} {tree next last : τ}
      (hp : patches entry = some p) (hrun : tool.run reverse p tree = (true, next))
      (hrest : Takes rest next last) : Takes (entry :: rest) tree last

/-- The first patch that fails is that of `entry`, and it leaves the tree at `stopped`. -/
inductive StopsAt (entry : String) (stopped : τ) : List String → τ → Prop
  | here {rest : List String} {p : π} {tree : τ} (hp : patches entry = some p)
      (hrun : tool.run reverse p tree = (false, stopped)) : StopsAt entry stopped (entry :: rest) tree
  | later {first : String} {rest : List String} {p : π} {tree next : τ} (hp : patches first = some p)
      (hrun : tool.run reverse p tree = (true, next)) (hrest : StopsAt entry stopped rest next) :
      StopsAt entry stopped (first :: rest) tree

variable {tool reverse patches}

lemma takes_cons {entry : String} {rest : List String} {tree last : τ} :
    Takes tool reverse patches (entry :: rest) tree last ↔ ∃ p, patches entry = some p ∧
      (tool.run reverse p tree).1 = true ∧
      Takes tool reverse patches rest (tool.run reverse p tree).2 last := by
  constructor
  · rintro (_ | ⟨hp, hrun, hrest⟩)
    refine ⟨_, hp, ?_, ?_⟩
    · rw [hrun]
    · rwa [hrun]
  · rintro ⟨p, hp, hok, hrest⟩
    exact .cons hp (Prod.ext hok rfl) hrest

lemma stopsAt_cons {entry first : String} {rest : List String} {tree stopped : τ} :
    StopsAt tool reverse patches entry stopped (first :: rest) tree ↔ ∃ p, patches first = some p ∧
      ((tool.run reverse p tree).1 = false ∧ first = entry ∧ (tool.run reverse p tree).2 = stopped ∨
        (tool.run reverse p tree).1 = true ∧
          StopsAt tool reverse patches entry stopped rest (tool.run reverse p tree).2) := by
  constructor
  · rintro (⟨hp, hrun⟩ | ⟨hp, hrun, hrest⟩)
    · refine ⟨_, hp, Or.inl ?_⟩
      rw [hrun]
      exact ⟨rfl, rfl, rfl⟩
    · refine ⟨_, hp, Or.inr ?_⟩
      rw [hrun]
      exact ⟨rfl, hrest⟩
  · rintro ⟨p, hp, ⟨hfail, rfl, rfl⟩ | ⟨hok, hrest⟩⟩
    · exact .here hp (Prod.ext hfail rfl)
    · exact .later hp (Prod.ext hok rfl) hrest

lemma Takes.unique {series : List String} {tree last last' : τ}
    (h : Takes tool reverse patches series tree last)
    (h' : Takes tool reverse patches series tree last') : last = last' := by
  induction h with
  | nil tree =>
    cases h'
    rfl
  | cons hp hrun _ ih =>
    obtain ⟨p', hp', -, hrest'⟩ := takes_cons.mp h'
    obtain rfl := Option.some.inj (hp.symm.trans hp')
    rw [hrun] at hrest'
    exact ih hrest'

/-- The loop without `--keep-going` ends without a failure iff every patch applies. -/
lemma applyLoop_eq_nil_iff {series : List String} {tree last : τ} :
    applyLoop tool ⟨false, reverse, false⟩ patches series [] tree = (some [], last) ↔
      Takes tool reverse patches series tree last := by
  induction series generalizing tree with
  | nil =>
    constructor
    · intro h
      obtain rfl := (Prod.ext_iff.mp h).2
      exact .nil tree
    · intro h
      cases h
      rfl
  | cons entry rest ih =>
    rw [applyLoop, takes_cons]
    cases patches entry with
    | none => simp
    | some p =>
      cases hok : (tool.run reverse p tree).1 with
      | true => simp [applyOne, hok, ih]
      | false => simp [applyOne, hok]

lemma applyLoop_eq_singleton_iff {series : List String} {tree stopped : τ} {entry : String} :
    applyLoop tool ⟨false, reverse, false⟩ patches series [] tree = (some [entry], stopped) ↔
      StopsAt tool reverse patches entry stopped series tree := by
  induction series generalizing tree with
  | nil =>
    constructor
    · exact fun h => absurd (Prod.ext_iff.mp h).1 (by simp [applyLoop])
    · intro h
      cases h
  | cons first rest ih =>
    rw [applyLoop, stopsAt_cons]
    cases patches first with
    | none => simp
    | some p =>
      cases hok : (tool.run reverse p tree).1 with
      | true => simp [applyOne, hok, ih]
      | false => simp [applyOne, hok]

end
end T3dmium.ApplyPatches
