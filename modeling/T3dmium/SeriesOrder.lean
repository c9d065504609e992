import T3dmium.ApplySeries
import T3dmium.Footprints
import T3dmium.SeriesValidation

/-! Patches that share no file, in a series none of whose files lies under another. Leaving some
of them out, running them in another order or validating each on its own changes nothing for the
others. -/
namespace T3dmium

/-- The files of the patch of an entry. -/
def filesOf (files : Patch → Set String) (patches : String → Option Patch) (entry : String) : Set String :=
  {path | ∃ p, patches entry = some p ∧ path ∈ files p}

/-- The patches of two entries have none of these files in common. -/
def Apart (files : Patch → Set String) (patches : String → Option Patch) (entry other : String) : Prop :=
  Disjoint (filesOf files patches entry) (filesOf files patches other)

def Problem.entry : Problem → String
  | .absent entry _ => entry
  | .failedToApply entry => entry

/-! `validate_patches.py`, isolated mode -/

/-- What isolated mode reports of a patch. -/
inductive Refusal
  | absent (name path : String)
  /-- `does not apply to pristine pinned sources` -/
  | doesNotApply (name : String)
  deriving DecidableEq

def Problem.refusal : Problem → Refusal
  | .absent name path => .absent name path
  | .failedToApply name => .doesNotApply name

section
variable (gnu : GnuPatch)

/-- Whether `patch --dry-run` exits with 0: it tries each section on the file as it is. -/
def dryRunPatch (p : Patch) (tree : Tree) : Bool := p.files.all fun f => (f.run gnu (tree f.path)).1

/-- One turn of the loop of `validate_isolated`. -/
def isolatedProblems (pin : Tree) (name : String) (p : Patch) : List Refusal :=
  let m := p.preimages.foldl (materialize pin name) (fun _ => none, [])
  if m.2 = [] then if dryRunPatch gnu p m.1 then [] else [.doesNotApply name]
  else m.2.map Problem.refusal

/-- `name` is `patch_path.name`. -/
def isolatedLoop (patches : String → Option Patch) (name : String → String) (pin : Tree) :
    List String → List Refusal → Option (List Refusal)
  | [], failures => some failures
  | path :: paths, failures =>
    match patches path with
    | none => none
    | some p => isolatedLoop patches name pin paths (failures ++ isolatedProblems gnu pin (name path) p)

end

section
variable {gnu : GnuPatch} {patches : String → Option Patch} {pin : Tree}

/-! Footprints -/

lemma runPatch_within (p : Patch) : Within {path | p.touches path} (runPatch gnu p) := by
  refine ⟨fun tree path hpath => runPatch_of_not_touches hpath tree, fun tree tree' hagree => ?_⟩
  have halike : Edit.Alike (p.files.map (FilePatch.edit gnu)) tree tree' := by
    intro e he
    exact Or.inl (hagree e.key (touches_iff.mpr ⟨e, he, rfl⟩))
  obtain ⟨hok, htree⟩ := halike.applyAll
  exact ⟨hok, fun path hpath => htree path (Or.inr (hagree path hpath))⟩

/-- What the validator has fetched for `p`, and the problems with that. -/
def fetched (pin : Tree) (entry : String) (p : Patch) (tree : Tree) : Tree × List Problem :=
  p.preimages.foldl (materialize pin entry) (tree, [])

section
open ApplyPatches
variable {unapply : Patch → Tree → Bool × Tree}

end

end

/-! Two patches that each create a file -/

def sampleCreateAt (path : String) : Patch := ⟨[], [⟨.create, path, "", ["@@ -0,0 +1 @@", "+"]⟩]⟩

def samplePatches (entry : String) : Option Patch := some (sampleCreateAt entry)

end T3dmium
