import T3dmium.ApplySeries
import T3dmium.SeriesValidation

/-! Applying the series a second time: on the tree it has patched, and on the tree
that a run which stopped half-way has left. Each file goes through its own sections. -/
namespace T3dmium.ApplyPatches

section
variable {π τ : Type*} (tool : PatchTool π τ) (patches : String → Option π) (series : List String)

/-- `apply_patches.py apply` -/
def apply (patches : String → Option π) (tree : τ) : Outcome × Option τ :=
  cmdApply tool .plain true patches series (some tree)

/-- The patch file of `entry`, corrected. -/
def correct (entry : String) (q : π) : String → Option π := Function.update patches entry (some q)

/-- A series that has been applied can be applied again to no effect, and one that stopped
at a patch can be completed once the patch is corrected. -/
structure Rerunnable (tree : τ) : Prop where
  again : ∀ last, apply tool series patches tree = (.returned 0 [], some last) →
    apply tool series patches last = (.returned 0 [], some last)
  resume : ∀ entry stopped, apply tool series patches tree = (.returned 1 [entry], some stopped) →
    ∀ q last, apply tool series (correct patches entry q) tree = (.returned 0 [], some last) →
      apply tool series (correct patches entry q) stopped = (.returned 0 [], some last)

end

/-! One file -/

/-- The sections of these patches on a file, in order. -/
def sectionsOn (ps : List Patch) (path : String) : List FilePatch :=
  (ps.flatMap Patch.files).filter fun f => f.path = path

section
variable (gnu : GnuPatch)

/-- What the sections make of the file. -/
def runSections (fs : List FilePatch) (file : Option Bytes) : Bool × Option Bytes :=
  Edit.through (fs.map (FilePatch.edit gnu)) file

/-- The tree takes the patches: every file takes the sections on it. -/
def Applies (ps : List Patch) (tree : Tree) : Prop :=
  ∀ path, (runSections gnu (sectionsOn ps path) (tree path)).1 = true

def left (ps : List Patch) (tree : Tree) (path : String) : Option Bytes :=
  (runSections gnu (sectionsOn ps path) (tree path)).2

/-- The sections, which have left `last` before, can be run on `file` to the same end: the edits
match up to the first section that creates or deletes the file, and that one finds no content, or
what it deletes. What follows goes as it went. -/
def Retakes (last : Option Bytes) : List FilePatch → Option Bytes → Prop
  | [], file => file = last
  | f :: fs, file =>
    match f.op with
    | .create => file = none ∨ file = some []
    | .delete => ∃ content, file = some content ∧ gnu.hunks f.body content = (true, [])
    | .modify => ∃ content, file = some content ∧ (gnu.hunks f.body content).1 = true ∧
        Retakes last fs (some (gnu.hunks f.body content).2)

/-- Of a tree that takes the series, every file takes its sections again as the series has left it;
and where a patch fails, for each correction with which the tree takes the series, every file takes
the sections of the corrected series as the failure has left it. -/
structure Reapplicable (patches : String → Option Patch) (series : List String) (tree : Tree) : Prop where
  again : ∀ ps, series.mapM patches = some ps → Applies gnu ps tree →
    ∀ path, Retakes gnu (left gnu ps tree path) (sectionsOn ps path) (left gnu ps tree path)
  resume : ∀ done entry rest ps p, series = done ++ entry :: rest → done.mapM patches = some ps →
    patches entry = some p → Applies gnu ps tree → ¬ Applies gnu (ps ++ [p]) tree →
      ∀ q qs, series.mapM (correct patches entry q) = some qs → Applies gnu qs tree →
        ∀ path, Retakes gnu (left gnu qs tree path) (sectionsOn qs path) (left gnu (ps ++ [p]) tree path)

end

section
variable {gnu : GnuPatch}

section
variable {f : FilePatch}

lemma run_create (hop : f.op = .create) {file : Option Bytes} (hfile : file = none ∨ file = some []) :
    f.run gnu file = ((gnu.hunks f.body []).1, some (gnu.hunks f.body []).2) := by
  rcases hfile with rfl | rfl <;> simp only [FilePatch.run, hop]

lemma run_create_full (hop : f.op = .create) {file : Option Bytes}
    (hfile : ¬ (file = none ∨ file = some [])) : (f.run gnu file).1 = false := by
  rcases file with _ | _ | ⟨b, bs⟩
  · exact absurd (Or.inl rfl) hfile
  · exact absurd (Or.inr rfl) hfile
  · simp only [FilePatch.run, hop]

lemma run_delete_iff (hop : f.op = .delete) (file : Option Bytes) :
    (f.run gnu file).1 = true ↔ ∃ content, file = some content ∧ gnu.hunks f.body content = (true, []) := by
  cases file with
  | none => simp [FilePatch.run, hop]
  | some content =>
    simp only [FilePatch.run, hop]
    split_ifs with hall <;> simp [hall]

lemma run_delete (hop : f.op = .delete) {file : Option Bytes} (h : (f.run gnu file).1 = true) :
    f.run gnu file = (true, none) := by
  obtain ⟨content, rfl, hall⟩ := (run_delete_iff hop file).mp h
  simp only [FilePatch.run, hop, if_pos hall]

lemma run_modify (hop : f.op = .modify) (content : Bytes) :
    f.run gnu (some content) = ((gnu.hunks f.body content).1, some (gnu.hunks f.body content).2) := by
  simp only [FilePatch.run, hop]

end

lemma runSections_cons (f : FilePatch) (fs : List FilePatch) (file : Option Bytes) :
    runSections gnu (f :: fs) file =
      ((f.run gnu file).1 && (runSections gnu fs (f.run gnu file).2).1,
        (runSections gnu fs (f.run gnu file).2).2) := rfl

lemma runSections_cons_eq {f : FilePatch} {fs : List FilePatch} {file last : Option Bytes} :
    runSections gnu (f :: fs) file = (true, last) ↔
      (f.run gnu file).1 = true ∧ runSections gnu fs (f.run gnu file).2 = (true, last) := by
  rw [runSections_cons, Prod.ext_iff, Prod.ext_iff, Bool.and_eq_true, and_assoc]

lemma retakes_iff {fs : List FilePatch} {before last : Option Bytes}
    (h : runSections gnu fs before = (true, last)) (file : Option Bytes) :
    runSections gnu fs file = (true, last) ↔ Retakes gnu last fs file := by
  induction fs generalizing before file with
  | nil =>
    rw [Retakes]
    exact ⟨fun hrun => (Prod.mk.inj hrun).2, fun hfile => Prod.ext rfl hfile⟩
  | cons f fs ih =>
    obtain ⟨hfirst, hrest⟩ := runSections_cons_eq.mp h
    rw [Retakes]
    cases hop : f.op with
    | create =>
      -- whatever was there first, the file is then what the section creates
      by_cases hfile : file = none ∨ file = some []
      · have hbefore : before = none ∨ before = some [] := by
          by_contra hfull
          rw [run_create_full hop hfull] at hfirst
          cases hfirst
        refine iff_of_true ?_ hfile
        rwa [runSections_cons, run_create hop hfile, ← run_create hop hbefore, ← runSections_cons]
      · refine iff_of_false (fun hrun => ?_) hfile
        have hok := (runSections_cons_eq.mp hrun).1
        rw [run_create_full hop hfile] at hok
        cases hok
    | delete =>
      refine Iff.trans ?_ (run_delete_iff hop file)
      constructor
      · exact fun hrun => (runSections_cons_eq.mp hrun).1
      · intro hok
        rwa [runSections_cons, run_delete hop hok, ← run_delete hop hfirst, ← runSections_cons]
    | modify =>
      cases file with
      | none =>
        refine iff_of_false (fun hrun => ?_) ?_
        · have hok := (runSections_cons_eq.mp hrun).1
          simp only [FilePatch.run, hop] at hok
          cases hok
        · rintro ⟨content, hcontent, -⟩
          cases hcontent
      | some content =>
        rw [runSections_cons_eq, run_modify hop, ih hrest]
        constructor
        · rintro ⟨hok, hretakes⟩
          exact ⟨content, rfl, hok, hretakes⟩
        · rintro ⟨content', hcontent, hok, hretakes⟩
          obtain rfl := Option.some.inj hcontent
          exact ⟨hok, hretakes⟩

/-! All files -/

variable (gnu) in
/-- The patches in turn, also after one has failed. -/
def runPatches (ps : List Patch) (tree : Tree) : Bool × Tree :=
  Edit.applyAll ((ps.flatMap Patch.files).map (FilePatch.edit gnu)) tree

lemma runPatches_cons (p : Patch) (ps : List Patch) (tree : Tree) :
    runPatches gnu (p :: ps) tree = ((runPatch gnu p tree).1 && (runPatches gnu ps (runPatch gnu p tree).2).1,
      (runPatches gnu ps (runPatch gnu p tree).2).2) := by
  rw [runPatches, List.flatMap_cons, List.map_append, Edit.applyAll_append]
  rfl

lemma filter_edits (ps : List Patch) (path : String) :
    ((ps.flatMap Patch.files).map (FilePatch.edit gnu)).filter (fun e => e.key = path) =
      (sectionsOn ps path).map (FilePatch.edit gnu) := by
  rw [List.filter_map]
  rfl

lemma runPatches_fst (ps : List Patch) (tree : Tree) : (runPatches gnu ps tree).1 = true ↔ Applies gnu ps tree := by
  rw [runPatches, Edit.applyAll_fst_iff]
  exact forall_congr' fun path => by rw [filter_edits, runSections]

lemma runPatches_snd (ps : List Patch) (tree : Tree) : (runPatches gnu ps tree).2 = left gnu ps tree := by
  funext path
  rw [runPatches, Edit.applyAll_snd, filter_edits, left, runSections]

/-- The tree takes the patches to `last` iff every file takes its sections there. -/
lemma runPatches_eq_iff {ps : List Patch} {tree last : Tree} :
    runPatches gnu ps tree = (true, last) ↔
      ∀ path, runSections gnu (sectionsOn ps path) (tree path) = (true, last path) := by
  have hpath : ∀ path, runSections gnu (sectionsOn ps path) (tree path) = (true, last path) ↔
      (runSections gnu (sectionsOn ps path) (tree path)).1 = true ∧ left gnu ps tree path = last path :=
    fun path => Prod.ext_iff
  rw [Prod.ext_iff, runPatches_fst, runPatches_snd, funext_iff]
  simp only [hpath, forall_and, Applies]

/-- Patches that one tree takes, another takes to the same end iff each of its files does. -/
lemma runPatches_again_iff {ps : List Patch} {tree : Tree} (h : Applies gnu ps tree) (other : Tree) :
    runPatches gnu ps other = (true, left gnu ps tree) ↔
      ∀ path, Retakes gnu (left gnu ps tree path) (sectionsOn ps path) (other path) :=
  runPatches_eq_iff.trans (forall_congr' fun path => retakes_iff (Prod.ext (h path) rfl) (other path))

end

/-! The exit codes -/

section
variable {π τ : Type*} {tool : PatchTool π τ} {patches : String → Option π} {series : List String} {tree last : τ}

/-- The outcome names the patches that failed, so it tells how the loop ended. -/
lemma apply_eq_returned_iff {code : ℕ} {failed : List String}
    (hcode : code = if failed.isEmpty then 0 else 1) :
    apply tool series patches tree = (.returned code failed, some last) ↔
      applyLoop tool .plain patches series [] tree = (some failed, last) := by
  have horder : entries .plain series = series := rfl
  rw [apply, cmdApply_eq_loop, horder]
  cases applyLoop tool .plain patches series [] tree with
  | mk failed' last' =>
    cases failed' with
    | none => simp
    | some failed' =>
      simp only [Prod.mk.injEq, Outcome.returned.injEq, Option.some.injEq]
      constructor
      · exact fun ⟨⟨_, hfailed⟩, hlast⟩ => ⟨hfailed, hlast⟩
      · rintro ⟨rfl, rfl⟩
        exact ⟨⟨hcode.symm, rfl⟩, rfl⟩

lemma apply_eq_zero_iff :
    apply tool series patches tree = (.returned 0 [], some last) ↔
      Takes tool false patches series tree last :=
  (apply_eq_returned_iff rfl).trans applyLoop_eq_nil_iff

lemma apply_eq_one_iff {entry : String} {stopped : τ} :
    apply tool series patches tree = (.returned 1 [entry], some stopped) ↔
      StopsAt tool false patches entry stopped series tree :=
  (apply_eq_returned_iff rfl).trans applyLoop_eq_singleton_iff

end

/-! Runs of the series -/

section
variable {gnu : GnuPatch} {unapply : Patch → Tree → Bool × Tree} {patches : String → Option Patch}
  {series : List String} {tree last : Tree}

lemma mapM_cons_eq_some {entry : String} {rest : List String} {ps : List Patch} :
    (entry :: rest).mapM patches = some ps ↔
      ∃ p qs, patches entry = some p ∧ rest.mapM patches = some qs ∧ ps = p :: qs := by
  rw [List.mapM_cons]
  cases patches entry with
  | none => simp
  | some p =>
    cases rest.mapM patches with
    | none => simp
    | some qs => simp [eq_comm]

lemma takes_iff_runPatches :
    Takes ⟨runPatch gnu, unapply⟩ false patches series tree last ↔
      ∃ ps, series.mapM patches = some ps ∧ runPatches gnu ps tree = (true, last) := by
  induction series generalizing tree with
  | nil =>
    constructor
    · intro h
      cases h
      exact ⟨[], rfl, rfl⟩
    · rintro ⟨ps, hps, hrun⟩
      obtain rfl := Option.some.inj hps
      obtain rfl := (Prod.mk.inj hrun).2
      exact .nil tree
  | cons entry rest ih =>
    rw [takes_cons]
    constructor
    · rintro ⟨p, hp, hok, hrest⟩
      obtain ⟨qs, hqs, hrun⟩ := ih.mp hrest
      refine ⟨p :: qs, mapM_cons_eq_some.mpr ⟨p, qs, hp, hqs, rfl⟩, ?_⟩
      have hfirst : (runPatch gnu p tree).1 = true := hok
      have hlast : runPatches gnu qs (runPatch gnu p tree).2 = (true, last) := hrun
      rw [runPatches_cons, hfirst, hlast]
      rfl
    · rintro ⟨ps, hps, hrun⟩
      obtain ⟨p, qs, hp, hqs, rfl⟩ := mapM_cons_eq_some.mp hps
      rw [runPatches_cons] at hrun
      obtain ⟨hok, hlast⟩ := Prod.mk.inj hrun
      rw [Bool.and_eq_true] at hok
      exact ⟨p, hp, hok.1, ih.mpr ⟨qs, hqs, Prod.ext hok.2 hlast⟩⟩

lemma stopsAt_iff_runPatches {entry : String} {stopped : Tree} :
    StopsAt ⟨runPatch gnu, unapply⟩ false patches entry stopped series tree ↔
      ∃ done rest ps p, series = done ++ entry :: rest ∧ done.mapM patches = some ps ∧
        patches entry = some p ∧ (runPatches gnu ps tree).1 = true ∧
          runPatches gnu (ps ++ [p]) tree = (false, stopped) := by
  induction series generalizing tree with
  | nil =>
    constructor
    · intro h
      cases h
    · rintro ⟨done, rest, ps, p, hsplit, -⟩
      cases done <;> cases hsplit
  | cons first others ih =>
    rw [stopsAt_cons]
    constructor
    · rintro ⟨p, hp, ⟨hfail, rfl, rfl⟩ | ⟨hok, hrest⟩⟩
      · refine ⟨[], others, [], p, rfl, rfl, hp, rfl, ?_⟩
        have hfirst : (runPatch gnu p tree).1 = false := hfail
        rw [List.nil_append, runPatches_cons, hfirst]
        rfl
      · obtain ⟨done, rest, ps, q, rfl, hps, hq, hdone, hrun⟩ := ih.mp hrest
        have hfirst : (runPatch gnu p tree).1 = true := hok
        refine ⟨first :: done, rest, p :: ps, q, rfl, mapM_cons_eq_some.mpr ⟨p, ps, hp, hps, rfl⟩, hq, ?_, ?_⟩
        · rw [runPatches_cons, hfirst]
          exact hdone
        · rw [List.cons_append, runPatches_cons, hfirst]
          exact hrun
    · rintro ⟨_ | ⟨e, done⟩, rest, ps, p, hsplit, hps, hp, hdone, hrun⟩
      · obtain ⟨rfl, rfl⟩ := List.cons.inj hsplit
        obtain rfl : [] = ps := Option.some.inj hps
        rw [List.nil_append, runPatches_cons] at hrun
        refine ⟨p, hp, Or.inl ⟨?_, rfl, (Prod.mk.inj hrun).2⟩⟩
        have hfail := (Prod.mk.inj hrun).1
        rwa [runPatches, List.flatMap_nil, List.map_nil, Edit.applyAll, Bool.and_true] at hfail
      · obtain ⟨rfl, rfl⟩ := List.cons.inj hsplit
        obtain ⟨q, qs, hq, hqs, rfl⟩ := mapM_cons_eq_some.mp hps
        rw [runPatches_cons, Bool.and_eq_true] at hdone
        rw [List.cons_append, runPatches_cons, hdone.1, Bool.true_and] at hrun
        exact ⟨q, hq, Or.inr ⟨hdone.1, ih.mpr ⟨done, rest, qs, p, rfl, hqs, hp, hdone.2, hrun⟩⟩⟩

lemma takes_iff :
    Takes ⟨runPatch gnu, unapply⟩ false patches series tree last ↔
      ∃ ps, series.mapM patches = some ps ∧ Applies gnu ps tree ∧ left gnu ps tree = last := by
  rw [takes_iff_runPatches]
  refine exists_congr fun ps => and_congr_right fun _ => ?_
  rw [Prod.ext_iff, runPatches_fst, runPatches_snd]

lemma stopsAt_iff {entry : String} {stopped : Tree} :
    StopsAt ⟨runPatch gnu, unapply⟩ false patches entry stopped series tree ↔
      ∃ done rest ps p, series = done ++ entry :: rest ∧ done.mapM patches = some ps ∧
        patches entry = some p ∧ Applies gnu ps tree ∧ ¬ Applies gnu (ps ++ [p]) tree ∧
          left gnu (ps ++ [p]) tree = stopped := by
  rw [stopsAt_iff_runPatches]
  refine exists_congr fun done => exists_congr fun rest => exists_congr fun ps => exists_congr fun p => ?_
  rw [runPatches_fst, Prod.ext_iff, runPatches_snd, ← Bool.not_eq_true, runPatches_fst]

/-- From a tree that the series takes to `last`, another is taken there iff each of its files is. -/
lemma takes_again_iff {ps : List Patch} (hps : series.mapM patches = some ps) (h : Applies gnu ps tree)
    (other : Tree) :
    Takes ⟨runPatch gnu, unapply⟩ false patches series other (left gnu ps tree) ↔
      ∀ path, Retakes gnu (left gnu ps tree path) (sectionsOn ps path) (other path) := by
  rw [takes_iff_runPatches, ← runPatches_again_iff h]
  constructor
  · rintro ⟨qs, hqs, hrun⟩
    obtain rfl := Option.some.inj (hps.symm.trans hqs)
    exact hrun
  · exact fun hrun => ⟨ps, hps, hrun⟩

lemma Rerunnable.reapplicable (h : Rerunnable ⟨runPatch gnu, unapply⟩ patches series tree) :
    Reapplicable gnu patches series tree := by
  constructor
  · intro ps hps happlies
    have htakes : Takes ⟨runPatch gnu, unapply⟩ false patches series tree (left gnu ps tree) :=
      takes_iff.mpr ⟨ps, hps, happlies, rfl⟩
    have hagain := h.again _ (apply_eq_zero_iff.mpr htakes)
    exact (takes_again_iff hps happlies _).mp (apply_eq_zero_iff.mp hagain)
  · intro done entry rest ps p hsplit hps hp happlies hfails q qs hqs hcorrected
    have hstops : StopsAt ⟨runPatch gnu, unapply⟩ false patches entry (left gnu (ps ++ [p]) tree) series tree :=
      stopsAt_iff.mpr ⟨done, rest, ps, p, hsplit, hps, hp, happlies, hfails, rfl⟩
    have htakes : Takes ⟨runPatch gnu, unapply⟩ false (correct patches entry q) series tree
        (left gnu qs tree) := takes_iff.mpr ⟨qs, hqs, hcorrected, rfl⟩
    have hresume := h.resume entry _ (apply_eq_one_iff.mpr hstops) q _ (apply_eq_zero_iff.mpr htakes)
    exact (takes_again_iff hqs hcorrected _).mp (apply_eq_zero_iff.mp hresume)

/-- A file that the series first creates and leaves with content stops the second run. -/
theorem not_rerunnable_of_created {ps : List Patch} (hps : series.mapM patches = some ps)
    (happlies : Applies gnu ps tree) {path : String} {f : FilePatch} {fs : List FilePatch}
    (hsections : sectionsOn ps path = f :: fs) (hcreate : f.op = .create) {b : UInt8} {bs : Bytes}
    (hcontent : left gnu ps tree path = some (b :: bs)) :
    ¬ Rerunnable ⟨runPatch gnu, unapply⟩ patches series tree := by
  intro h
  have hretakes := h.reapplicable.again ps hps happlies path
  rw [hsections, hcontent, Retakes, hcreate] at hretakes
  rcases hretakes with hnone | hempty
  · cases hnone
  · cases hempty

end

end T3dmium.ApplyPatches
