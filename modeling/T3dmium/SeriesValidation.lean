import T3dmium.PatchSeries

/-! Series validation against the real apply. The validator fetches a file when a
`---` line first names it, so it misses what a patch creates over an existing file,
and fetches again what an earlier patch deleted. -/
namespace T3dmium

def Patch.touches (p : Patch) (path : String) : Prop := ∃ f ∈ p.files, f.path = path

def touched (patches : String → Option Patch) (series : List String) : Set String :=
  {path | ∃ entry ∈ series, ∃ p, patches entry = some p ∧ p.touches path}

/-- The paths some patch of the series writes or names in a `---` line. -/
def known (patches : String → Option Patch) (series : List String) : Set String :=
  {path | ∃ entry ∈ series, ∃ p, patches entry = some p ∧ (p.touches path ∨ path ∈ p.preimages)}

/-- What the claim of the validator is: it returns 0 just when the apply does, and
then both trees hold the same wherever a patch has written. -/
structure Agrees (gnu : GnuPatch) (patches : String → Option Patch) (pin : Tree)
    (series : List String) : Prop where
  codes : (∃ tree, validateSeries gnu patches pin series = some (0, tree)) ↔
    ∃ tree, cmdApply gnu patches series pin = some (0, tree)
  contents : ∀ sparse full, validateSeries gnu patches pin series = some (0, sparse) →
    cmdApply gnu patches series pin = some (0, full) →
      ∀ path ∈ touched patches series, sparse path = full path

open Classical in
/-- The validator's tree once it has fetched the pre-images of `p`, where `full` is
the tree patched so far. -/
noncomputable def sparseTree (pin full : Tree) (known : Set String) (p : Patch) : Tree := fun path =>
  if path ∈ p.preimages then (full path).or (pin path)
  else if path ∈ known then full path else none

/-- The validator reports no problem with `p`. -/
def Passes (gnu : GnuPatch) (pin full : Tree) (known : Set String) (p : Patch) : Prop :=
  (∀ path ∈ p.preimages, (sparseTree pin full known p path).isSome) ∧
    (runPatch gnu p (sparseTree pin full known p)).1 = true

/-- `p` creates the file where the pin has an empty one. -/
def Recreates (pin : Tree) (p : Patch) (path : String) : Prop :=
  pin path = some [] ∧ ∃ f, p.files.find? (fun f => f.path = path) = some f ∧ f.op = .create

/-- The files `p` needs are where the validator looks for them. -/
structure Served (pin full : Tree) (known : Set String) (p : Patch) : Prop where
  /-- a file in a `---` line is still there -/
  present : ∀ path ∈ p.preimages, (full path).isSome ∨ Recreates pin p path
  /-- a file in no `---` line so far is not at the pin -/
  fetched : ∀ path, p.touches path → path ∉ p.preimages → path ∉ known →
    pin path = none ∨ Recreates pin p path

/-- Every patch that follows patches which apply, and that itself applies to the tree
or passes validation, finds its files served. -/
def SeriesServed (gnu : GnuPatch) (patches : String → Option Patch) (pin : Tree)
    (series : List String) : Prop :=
  ∀ done entry p full, done ++ [entry] <+: series → patches entry = some p →
    cmdApply gnu patches done pin = some (0, full) →
    ((runPatch gnu p full).1 = true ∨ Passes gnu pin full (known patches done) p) →
    Served pin full (known patches done) p

section
variable {gnu : GnuPatch} {patches : String → Option Patch} {pin : Tree}

/-! Fetching -/

lemma materialize_tree (entry : String) (s : Tree × List Problem) (path x : String) :
    (materialize pin entry s path).1 x = if x = path then (s.1 x).or (pin x) else s.1 x := by
  unfold materialize
  split
  · next h => split_ifs with he <;> simp_all
  · next h h' => split_ifs with he <;> simp_all
  · next h h' => by_cases he : x = path <;> simp_all [Function.update_of_ne]

lemma materialize_problems (entry : String) (s : Tree × List Problem) (path : String) :
    (materialize pin entry s path).2 = [] ↔ s.2 = [] ∧ ((s.1 path).or (pin path)).isSome := by
  unfold materialize
  split <;> simp_all

lemma materializeAll (entry : String) (paths : List String) (s : Tree × List Problem) :
    (∀ x, (paths.foldl (materialize pin entry) s).1 x =
        if x ∈ paths then (s.1 x).or (pin x) else s.1 x) ∧
      ((paths.foldl (materialize pin entry) s).2 = [] ↔
        s.2 = [] ∧ ∀ x ∈ paths, ((s.1 x).or (pin x)).isSome) := by
  induction paths generalizing s with
  | nil => simp
  | cons path paths ih =>
    obtain ⟨htree, hprob⟩ := ih (materialize pin entry s path)
    constructor
    · intro x
      rw [List.foldl_cons, htree, materialize_tree]
      by_cases hx : x = path
      · subst hx
        cases s.1 x <;> simp
      · simp [hx]
    · rw [List.foldl_cons, hprob, materialize_problems, and_assoc]
      refine and_congr_right fun _ => ?_
      simp only [materialize_tree, List.forall_mem_cons]
      refine and_congr_right fun _ => forall₂_congr fun x _ => ?_
      split_ifs with hx
      · cases s.1 x <;> simp
      · rfl

lemma sparseTree_eq {full sparse : Tree} {K : Set String} (h : PartialCopy K pin sparse full)
    (p : Patch) (x : String) :
    (if x ∈ p.preimages then (sparse x).or (pin x) else sparse x) = sparseTree pin full K p x := by
  unfold sparseTree
  by_cases hk : x ∈ K
  · rw [h.of_mem x hk, if_pos hk]
  · obtain ⟨hs, hf⟩ := h.of_notMem x hk
    rw [hs, if_neg hk, hf]
    simp

/-- What the validator does with a patch, the failures before it aside. -/
lemma validateEntry_eq {full sparse : Tree} {K : Set String} (h : PartialCopy K pin sparse full)
    (entry : String) (p : Patch) :
    ((validateEntry gnu pin entry p (sparse, [])).2 = [] ↔ Passes gnu pin full K p) ∧
      (Passes gnu pin full K p →
        (validateEntry gnu pin entry p (sparse, [])).1 = (runPatch gnu p (sparseTree pin full K p)).2) := by
  obtain ⟨htree, hprob⟩ := @materializeAll pin entry p.preimages (sparse, [])
  have htree : (p.preimages.foldl (materialize pin entry) (sparse, [])).1 = sparseTree pin full K p :=
    funext fun x => (htree x).trans (sparseTree_eq h p x)
  have hpre : (∀ x ∈ p.preimages, ((sparse x).or (pin x)).isSome) ↔
      ∀ x ∈ p.preimages, (sparseTree pin full K p x).isSome := by
    refine forall₂_congr fun x hx => ?_
    rw [← sparseTree_eq h p x, if_pos hx]
  simp only [true_and, hpre] at hprob
  simp only [validateEntry, htree, Passes, List.nil_append]
  by_cases hm : (p.preimages.foldl (materialize pin entry) (sparse, [])).2 = []
  · rw [if_pos hm]
    have hall := hprob.mp hm
    refine ⟨?_, fun _ => rfl⟩
    rw [and_iff_right hall]
    cases (runPatch gnu p (sparseTree pin full K p)).1 <;> simp
  · rw [if_neg hm]
    have hnot : ¬ ∀ x ∈ p.preimages, (sparseTree pin full K p x).isSome := fun ha => hm (hprob.mpr ha)
    exact ⟨⟨fun he => (hm he).elim, fun hp => (hnot hp.1).elim⟩, fun hp => (hnot hp.1).elim⟩

/-! One patch -/

lemma touches_iff {p : Patch} {path : String} :
    p.touches path ↔ ∃ e ∈ p.files.map (FilePatch.edit gnu), e.key = path := by
  simp [Patch.touches, FilePatch.edit]

lemma runPatch_of_not_touches {p : Patch} {path : String} (h : ¬ p.touches path) (tree : Tree) :
    (runPatch gnu p tree).2 path = tree path :=
  Edit.applyAll_of_notMem (fun e he hk => h (touches_iff.mpr ⟨e, he, hk⟩)) tree

/-- The part of `p` that sees a touched file first, as an edit. -/
lemma firstAt_find (p : Patch) (path : String) :
    Edit.firstAt (p.files.map (FilePatch.edit gnu)) path =
      (p.files.find? fun f => f.path = path).map (FilePatch.edit gnu) := by
  rw [Edit.firstAt, List.find?_map]
  rfl

lemma run_create_blank {f : FilePatch} (hf : f.op = .create) : f.run gnu (some []) = f.run gnu none := by
  simp only [FilePatch.run, hf]

/-- A part that takes a missing file creates it, and takes no file with content. -/
lemma run_missing_and_some {f : FilePatch} {content : Bytes} (hnone : (f.run gnu none).1 = true)
    (hsome : (f.run gnu (some content)).1 = true) : f.op = .create ∧ content = [] := by
  cases hop : f.op with
  | modify => simp [FilePatch.run, hop] at hnone
  | delete => simp [FilePatch.run, hop] at hnone
  | create =>
    cases content with
    | nil => exact ⟨rfl, rfl⟩
    | cons b bs => simp [FilePatch.run, hop] at hsome

/-- If `p` applies to both trees and a file it touches is missing from one, then the
other has at most an empty one. -/
lemma recreates_of_run {p : Patch} {tree tree' : Tree} {path : String}
    (h : (runPatch gnu p tree).1 = true) (h' : (runPatch gnu p tree').1 = true)
    (htouch : p.touches path) (hnone : tree path = none) {content : Bytes}
    (hsome : tree' path = some content) (hpin : pin path = some content) : Recreates pin p path := by
  obtain ⟨e, -, hfirst, -⟩ := Edit.exists_firstAt ((@touches_iff gnu p path).mp htouch)
  rw [firstAt_find] at hfirst
  obtain ⟨f, hf, rfl⟩ := Option.map_eq_some_iff.mp hfirst
  have hedit : Edit.firstAt (p.files.map (FilePatch.edit gnu)) path = some (f.edit gnu) := by
    rw [firstAt_find, hf]
    rfl
  have hn := Edit.firstAt_succeeds h hedit
  have hs := Edit.firstAt_succeeds h' hedit
  rw [hnone] at hn
  rw [hsome] at hs
  obtain ⟨hop, rfl⟩ := run_missing_and_some hn hs
  exact ⟨hpin, f, hf, hop⟩

/-- A served patch cannot tell the sparse tree from the full one. -/
lemma Served.alike {full : Tree} {K : Set String} {p : Patch} (h : Served pin full K p)
    (hpin : ∀ x ∉ K, full x = pin x) :
    Edit.Alike (p.files.map (FilePatch.edit gnu)) (sparseTree pin full K p) full := by
  have hrecreates : ∀ path, Recreates pin p path → ∃ e,
      Edit.firstAt (p.files.map (FilePatch.edit gnu)) path = some e ∧
        e.run (some []) = e.run none := by
    rintro path ⟨-, f, hf, hop⟩
    exact ⟨f.edit gnu, by rw [firstAt_find, hf]; rfl, run_create_blank hop⟩
  intro e he
  have htouch : p.touches e.key := touches_iff.mpr ⟨e, he, rfl⟩
  by_cases hp : e.key ∈ p.preimages
  · simp only [sparseTree, if_pos hp]
    cases hf : full e.key with
    | some content => exact Or.inl rfl
    | none =>
      have hr := (h.present e.key hp).resolve_left (by simp [hf])
      obtain ⟨e', hfirst, hrun⟩ := hrecreates _ hr
      exact Or.inr ⟨e', hfirst, by rw [hr.1]; exact hrun⟩
  · by_cases hk : e.key ∈ K
    · exact Or.inl (by rw [sparseTree, if_neg hp, if_pos hk])
    · simp only [sparseTree, if_neg hp, if_neg hk, hpin e.key hk]
      rcases h.fetched e.key htouch hp hk with hnone | hr
      · exact Or.inl hnone.symm
      · obtain ⟨e', hfirst, hrun⟩ := hrecreates _ hr
        exact Or.inr ⟨e', hfirst, by rw [hr.1]; exact hrun.symm⟩

/-- The patch passes validation just when it applies, with the same files. -/
lemma Served.passes_iff {full : Tree} {K : Set String} {p : Patch} (h : Served pin full K p)
    (hpin : ∀ x ∉ K, full x = pin x) :
    (Passes gnu pin full K p ↔ (runPatch gnu p full).1 = true) ∧
      ∀ x, p.touches x ∨ sparseTree pin full K p x = full x →
        (runPatch gnu p (sparseTree pin full K p)).2 x = (runPatch gnu p full).2 x := by
  obtain ⟨hok, hres⟩ := (@Served.alike gnu pin full K p h hpin).applyAll
  refine ⟨?_, fun x hx => hres x (hx.imp_left touches_iff.mp)⟩
  have hsome : ∀ x ∈ p.preimages, (sparseTree pin full K p x).isSome := by
    intro x hx
    rw [sparseTree, if_pos hx]
    rcases h.present x hx with hf | hr
    · obtain ⟨content, hc⟩ := Option.isSome_iff_exists.mp hf
      simp [hc]
    · cases full x <;> simp [hr.1]
  rw [Passes, and_iff_right hsome]
  exact Eq.congr_left hok

/-- After a patch that applied, the sparse tree is a partial copy again. -/
lemma Served.partialCopy {full : Tree} {K : Set String} {p : Patch} (h : Served pin full K p)
    (hpin : ∀ x ∉ K, full x = pin x) :
    PartialCopy {x | x ∈ K ∨ p.touches x ∨ x ∈ p.preimages} pin
      (runPatch gnu p (sparseTree pin full K p)).2 (runPatch gnu p full).2 := by
  have hres := (@Served.passes_iff gnu pin full K p h hpin).2
  constructor
  · intro x hx
    by_cases ht : p.touches x
    · exact hres x (Or.inl ht)
    · refine hres x (Or.inr ?_)
      by_cases hp : x ∈ p.preimages
      · rw [sparseTree, if_pos hp]
        rcases h.present x hp with hf | ⟨-, f, hf, -⟩
        · obtain ⟨content, hc⟩ := Option.isSome_iff_exists.mp hf
          simp [hc]
        · have hfx := List.find?_some hf
          exact (ht ⟨f, List.mem_of_find?_eq_some hf, by simpa using hfx⟩).elim
      · have hk : x ∈ K := by simpa [ht, hp] using hx
        rw [sparseTree, if_neg hp, if_pos hk]
  · intro x hx
    obtain ⟨hk, ht, hp⟩ : x ∉ K ∧ ¬ p.touches x ∧ x ∉ p.preimages := by simpa using hx
    rw [runPatch_of_not_touches ht, runPatch_of_not_touches ht, sparseTree, if_neg hp, if_neg hk]
    exact ⟨rfl, hpin x hk⟩

/-! The series -/

lemma validateLoop_append (done rest : List String) (s : Tree × List Problem) :
    validateLoop gnu patches pin (done ++ rest) s =
      (validateLoop gnu patches pin done s).bind (validateLoop gnu patches pin rest) := by
  induction done generalizing s with
  | nil => rfl
  | cons entry done ih =>
    simp only [List.cons_append, validateLoop]
    cases patches entry with
    | none => rfl
    | some p => exact ih _

lemma cmdApply_append {done rest : List String} {tree full : Tree}
    (h : cmdApply gnu patches done tree = some (0, full)) :
    cmdApply gnu patches (done ++ rest) tree = cmdApply gnu patches rest full := by
  induction done generalizing tree with
  | nil =>
    cases h
    rfl
  | cons entry done ih =>
    simp only [List.cons_append, cmdApply] at h ⊢
    cases hp : patches entry with
    | none => simp [hp] at h
    | some p =>
      simp only [hp] at h ⊢
      split_ifs at h ⊢ with hok
      · exact ih h
      · simp at h

/-- Patches that follow a failure do not make the apply return 0. -/
lemma cmdApply_of_append {done rest : List String} {tree full : Tree}
    (h : cmdApply gnu patches (done ++ rest) tree = some (0, full)) :
    ∃ full', cmdApply gnu patches done tree = some (0, full') := by
  induction done generalizing tree with
  | nil => exact ⟨tree, rfl⟩
  | cons entry done ih =>
    simp only [List.cons_append, cmdApply] at h ⊢
    cases hp : patches entry with
    | none => simp [hp] at h
    | some p =>
      simp only [hp] at h ⊢
      split_ifs at h ⊢ with hok
      · exact ih h
      · simp at h

lemma validateLoop_problems {series : List String} {s : Tree × List Problem} {tree : Tree}
    (h : validateLoop gnu patches pin series s = some (tree, [])) : s.2 = [] := by
  induction series generalizing s with
  | nil =>
    cases h
    rfl
  | cons entry series ih =>
    simp only [validateLoop] at h
    cases hp : patches entry with
    | none => simp [hp] at h
    | some p =>
      simp only [hp] at h
      have hs := ih h
      simp only [validateEntry, apply_ite Prod.snd] at hs
      split at hs
      · exact (List.append_eq_nil_iff.mp hs).1
      · exact (List.append_eq_nil_iff.mp hs).1

lemma validateSeries_eq_zero {series : List String} {sparse : Tree} :
    validateSeries gnu patches pin series = some (0, sparse) ↔
      validateLoop gnu patches pin series (fun _ => none, []) = some (sparse, []) := by
  unfold validateSeries
  cases validateLoop gnu patches pin series (fun _ => none, []) with
  | none => simp
  | some s =>
    obtain ⟨tree, problems⟩ := s
    cases problems <;> simp

lemma cmdApply_snoc {done : List String} {entry : String} {p : Patch} {full full' : Tree}
    (hp : patches entry = some p) (h : cmdApply gnu patches done pin = some (0, full)) :
    cmdApply gnu patches (done ++ [entry]) pin = some (0, full') ↔
      (runPatch gnu p full).1 = true ∧ (runPatch gnu p full).2 = full' := by
  rw [cmdApply_append h]
  simp only [cmdApply, hp]
  cases (runPatch gnu p full).1 <;> simp

lemma validateSeries_snoc {done : List String} {entry : String} {p : Patch}
    {sparse full sparse' : Tree} {K : Set String} (hp : patches entry = some p)
    (h : validateSeries gnu patches pin done = some (0, sparse))
    (hcopy : PartialCopy K pin sparse full) :
    validateSeries gnu patches pin (done ++ [entry]) = some (0, sparse') ↔
      Passes gnu pin full K p ∧ (runPatch gnu p (sparseTree pin full K p)).2 = sparse' := by
  obtain ⟨hpass, htree⟩ := @validateEntry_eq gnu pin full sparse K hcopy entry p
  rw [validateSeries_eq_zero] at h ⊢
  rw [validateLoop_append, h]
  simp only [Option.bind_some, validateLoop, hp, Option.some.injEq, Prod.ext_iff, hpass]
  constructor
  · rintro ⟨htree', hok⟩
    exact ⟨hok, (htree hok).symm.trans htree'⟩
  · rintro ⟨hok, htree'⟩
    exact ⟨(htree hok).trans htree', hok⟩

lemma validateSeries_of_append {done rest : List String} {sparse : Tree}
    (h : validateSeries gnu patches pin (done ++ rest) = some (0, sparse)) :
    ∃ sparse', validateSeries gnu patches pin done = some (0, sparse') := by
  rw [validateSeries_eq_zero, validateLoop_append] at h
  obtain ⟨⟨tree, problems⟩, hdone, hrest⟩ := Option.bind_eq_some_iff.mp h
  obtain rfl : problems = [] := validateLoop_problems hrest
  exact ⟨tree, validateSeries_eq_zero.mpr hdone⟩

lemma known_snoc {done : List String} {entry : String} {p : Patch} (hp : patches entry = some p) :
    known patches (done ++ [entry]) =
      {x | x ∈ known patches done ∨ p.touches x ∨ x ∈ p.preimages} := by
  ext x
  constructor
  · rintro ⟨e, he, q, hq, hx⟩
    rcases List.mem_append.mp he with he | he
    · exact Or.inl ⟨e, he, q, hq, hx⟩
    · obtain rfl := List.mem_singleton.mp he
      rw [hp] at hq
      cases hq
      exact Or.inr hx
  · rintro (⟨e, he, q, hq, hx⟩ | hx)
    · exact ⟨e, List.mem_append_left _ he, q, hq, hx⟩
    · exact ⟨entry, by simp, p, hp, hx⟩

lemma touched_subset_known (series : List String) : touched patches series ⊆ known patches series :=
  fun _ ⟨entry, he, p, hp, hx⟩ => ⟨entry, he, p, hp, Or.inl hx⟩

/-- Both tools have come through, and the sparse tree is a partial copy of the full. -/
def InStep (gnu : GnuPatch) (patches : String → Option Patch) (pin : Tree) (done : List String)
    (full : Tree) : Prop :=
  cmdApply gnu patches done pin = some (0, full) ∧
    ∃ sparse, validateSeries gnu patches pin done = some (0, sparse) ∧
      PartialCopy (known patches done) pin sparse full

lemma inStep_nil : InStep gnu patches pin [] pin := by
  refine ⟨rfl, fun _ => none, rfl, ?_, fun _ _ => ⟨rfl, rfl⟩⟩
  rintro x ⟨entry, he, -⟩
  cases he

/-- One step: a served patch that applies keeps the tools in step, and another is
refused by both. -/
lemma InStep.snoc {done : List String} {full : Tree} (h : InStep gnu patches pin done full)
    {entry : String} {p : Patch} (hp : patches entry = some p)
    (hserved : (runPatch gnu p full).1 = true ∨ Passes gnu pin full (known patches done) p →
      Served pin full (known patches done) p) :
    (∃ full', InStep gnu patches pin (done ++ [entry]) full') ∨
      (∀ t, cmdApply gnu patches (done ++ [entry]) pin ≠ some (0, t)) ∧
        ∀ t, validateSeries gnu patches pin (done ++ [entry]) ≠ some (0, t) := by
  obtain ⟨happly, sparse, hvalid, hcopy⟩ := h
  have hpin : ∀ x ∉ known patches done, full x = pin x := fun x hx => (hcopy.of_notMem x hx).2
  by_cases hok : (runPatch gnu p full).1 = true
  · have hs := hserved (Or.inl hok)
    have hpass := (hs.passes_iff hpin).1.mpr hok
    refine Or.inl ⟨_, (cmdApply_snoc hp happly).mpr ⟨hok, rfl⟩, _,
      (validateSeries_snoc hp hvalid hcopy).mpr ⟨hpass, rfl⟩, ?_⟩
    rw [known_snoc hp]
    exact hs.partialCopy hpin
  · refine Or.inr ⟨fun t ht => hok ((cmdApply_snoc hp happly).mp ht).1, fun t ht => ?_⟩
    have hpass := ((validateSeries_snoc hp hvalid hcopy).mp ht).1
    exact hok (((hserved (Or.inr hpass)).passes_iff hpin).1.mp hpass)

/-- Along a served series the tools stay in step until both refuse. -/
theorem inStep_or_refused {series : List String} (hserved : SeriesServed gnu patches pin series) :
    (∃ full, InStep gnu patches pin series full) ∨
      (∀ t, cmdApply gnu patches series pin ≠ some (0, t)) ∧
        ∀ t, validateSeries gnu patches pin series ≠ some (0, t) := by
  induction series using List.reverseRecOn with
  | nil => exact Or.inl ⟨pin, inStep_nil⟩
  | append_singleton done entry ih =>
    have hdone : SeriesServed gnu patches pin done := fun d e p full hpre =>
      hserved d e p full (hpre.trans (List.prefix_append done [entry]))
    rcases ih hdone with ⟨full, hstep⟩ | ⟨happly, hvalid⟩
    · cases hp : patches entry with
      | some p => exact hstep.snoc hp (hserved done entry p full (List.prefix_refl _) hp hstep.1)
      | none =>
        refine Or.inr ⟨fun t => ?_, fun t ht => ?_⟩
        · rw [cmdApply_append hstep.1]
          simp [cmdApply, hp]
        · rw [validateSeries_eq_zero, validateLoop_append] at ht
          obtain ⟨s, -, hs⟩ := Option.bind_eq_some_iff.mp ht
          simp [validateLoop, hp] at hs
    · refine Or.inr ⟨fun t ht => ?_, fun t ht => ?_⟩
      · obtain ⟨t', ht'⟩ := cmdApply_of_append ht
        exact happly t' ht'
      · obtain ⟨t', ht'⟩ := validateSeries_of_append ht
        exact hvalid t' ht'

theorem agrees_of_served {series : List String} (hserved : SeriesServed gnu patches pin series) :
    Agrees gnu patches pin series := by
  rcases inStep_or_refused hserved with ⟨full, happly, sparse, hvalid, hcopy⟩ | ⟨happly, hvalid⟩
  · refine ⟨⟨fun _ => ⟨full, happly⟩, fun _ => ⟨sparse, hvalid⟩⟩, ?_⟩
    intro sparse' full' hs hf x hx
    rw [hvalid] at hs
    rw [happly] at hf
    cases hs
    cases hf
    exact hcopy.of_mem x (touched_subset_known series hx)
  · exact ⟨⟨fun ⟨t, ht⟩ => (hvalid t ht).elim, fun ⟨t, ht⟩ => (happly t ht).elim⟩,
      fun sparse' _ hs => (hvalid sparse' hs).elim⟩

lemma cmdApply_of_not_touched {series : List String} {tree full : Tree}
    (h : cmdApply gnu patches series tree = some (0, full)) {path : String}
    (hpath : path ∉ touched patches series) : full path = tree path := by
  induction series generalizing tree with
  | nil =>
    cases h
    rfl
  | cons entry series ih =>
    simp only [cmdApply] at h
    cases hp : patches entry with
    | none => simp [hp] at h
    | some p =>
      simp only [hp] at h
      split_ifs at h with hok
      · rw [ih h fun ⟨e, he, hx⟩ => hpath ⟨e, List.mem_cons_of_mem _ he, hx⟩]
        exact runPatch_of_not_touches (fun ht => hpath ⟨entry, List.mem_cons_self, p, hp, ht⟩) tree
      · simp at h

/-- If the tools agree on one more patch and one of them takes it, it is served. -/
theorem InStep.served {done : List String} {full : Tree} (h : InStep gnu patches pin done full)
    {entry : String} {p : Patch} (hp : patches entry = some p)
    (hagrees : Agrees gnu patches pin (done ++ [entry]))
    (htaken : (runPatch gnu p full).1 = true ∨ Passes gnu pin full (known patches done) p) :
    Served pin full (known patches done) p := by
  obtain ⟨happly, sparse, hvalid, hcopy⟩ := h
  have hcodes : Passes gnu pin full (known patches done) p ↔ (runPatch gnu p full).1 = true := by
    constructor
    · intro hpass
      obtain ⟨t, ht⟩ := hagrees.codes.mp ⟨_, (validateSeries_snoc hp hvalid hcopy).mpr ⟨hpass, rfl⟩⟩
      exact ((cmdApply_snoc hp happly).mp ht).1
    · intro hok
      obtain ⟨t, ht⟩ := hagrees.codes.mpr ⟨_, (cmdApply_snoc hp happly).mpr ⟨hok, rfl⟩⟩
      exact ((validateSeries_snoc hp hvalid hcopy).mp ht).1
  have hpass : Passes gnu pin full (known patches done) p := htaken.elim hcodes.mpr id
  have hok := hcodes.mp hpass
  have hcontents := hagrees.contents _ _
    ((validateSeries_snoc hp hvalid hcopy).mpr ⟨hpass, rfl⟩) ((cmdApply_snoc hp happly).mpr ⟨hok, rfl⟩)
  constructor
  · intro x hx
    cases hf : full x with
    | some content => exact Or.inl rfl
    | none =>
      have hsome := hpass.1 x hx
      have hsparse : sparseTree pin full (known patches done) p x = pin x := by
        rw [sparseTree, if_pos hx, hf, Option.none_or]
      rw [hsparse] at hsome
      obtain ⟨content, hc⟩ := Option.isSome_iff_exists.mp hsome
      by_cases ht : p.touches x
      · exact Or.inr (recreates_of_run hok hpass.2 ht hf (hsparse.trans hc) hc)
      · -- the file is gone, so an earlier patch has deleted it, and now it is back
        have hdone : x ∈ touched patches done := by
          by_contra hnot
          rw [cmdApply_of_not_touched happly hnot, hc] at hf
          cases hf
        obtain ⟨e, he, q, hq, hxq⟩ := hdone
        have heq := hcontents x ⟨e, List.mem_append_left _ he, q, hq, hxq⟩
        rw [runPatch_of_not_touches ht, runPatch_of_not_touches ht, hsparse, hf, hc] at heq
        cases heq
  · intro x ht hx hk
    obtain ⟨-, hpin⟩ := hcopy.of_notMem x hk
    have hsparse : sparseTree pin full (known patches done) p x = none := by
      rw [sparseTree, if_neg hx, if_neg hk]
    cases hc : pin x with
    | none => exact Or.inl rfl
    | some content => exact Or.inr (recreates_of_run hpass.2 hok ht hsparse (hpin.trans hc) hc)

lemma served_of_agrees {series : List String}
    (h : ∀ done, done <+: series → Agrees gnu patches pin done) :
    SeriesServed gnu patches pin series := by
  induction series using List.reverseRecOn with
  | nil =>
    intro done entry p full hpre
    simp at hpre
  | append_singleton series last ih =>
    have hseries := ih fun done hpre => h done (hpre.trans (List.prefix_append series [last]))
    intro done entry p full hpre hp happly htaken
    rcases List.prefix_concat_iff.mp hpre with heq | hpre'
    · obtain ⟨rfl, hlast⟩ := List.append_inj' heq rfl
      rcases inStep_or_refused hseries with ⟨full', hstep⟩ | ⟨hno, -⟩
      · have hfull : full' = full := by simpa [happly] using hstep.1.symm
        subst hfull
        exact hstep.served hp (h _ hpre) htaken
      · exact (hno full happly).elim
    · exact hseries done entry p full hpre' hp happly htaken

/-- The validator agrees with the apply on every beginning of a series just when each
patch finds the files it needs served. -/
theorem agrees_iff_served (gnu : GnuPatch) (patches : String → Option Patch) (pin : Tree)
    (series : List String) :
    (∀ done, done <+: series → Agrees gnu patches pin done) ↔
      SeriesServed gnu patches pin series := by
  constructor
  · exact served_of_agrees
  · intro hserved done hpre
    exact agrees_of_served fun d e p full hpre' => hserved d e p full (hpre'.trans hpre)

end

/-- Its one hunk adds an empty line to an empty file. -/
def sampleGnu : GnuPatch where
  hunks body content :=
    if body = ["@@ -0,0 +1 @@", "+"] ∧ content = [] then (true, [10]) else (false, content)

def sampleCreate : Patch := ⟨[], [⟨.create, "x", "", ["@@ -0,0 +1 @@", "+"]⟩]⟩

/-- A patch that creates a file which exists at the pin: validated, not applied. -/
theorem sampleCreate_disagrees :
    ¬ Agrees sampleGnu (fun _ => some sampleCreate) (fun path => if path = "x" then some [10] else none)
      ["create.patch"] := by
  intro h
  obtain ⟨tree, ht⟩ := h.codes.mp ⟨_, validateSeries_eq_zero.mpr rfl⟩
  have hcode : (cmdApply sampleGnu (fun _ => some sampleCreate) ["create.patch"] fun path =>
      if path = "x" then some [10] else none).map Prod.fst = some 1 := by decide
  rw [ht] at hcode
  cases hcode

end T3dmium
