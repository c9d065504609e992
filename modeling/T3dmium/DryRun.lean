import T3dmium.SeriesOrder

/-! A dry run tries every patch on the tree as it is, the real run on what the patches
before it have left. The two are sure to agree where no patch reads what one before it writes. -/
namespace T3dmium.ApplyPatches
variable {π τ : Type*}

section
variable (tool : PatchTool π τ) (patches : String → Option π) (reverse : Bool)

/-- The entries of a run that goes on past failures, each with whether its patch exits with 0. -/
def attempts (dryRun : Bool) : List String → τ → List (String × Bool)
  | [], _ => []
  | entry :: rest, tree =>
    match patches entry with
    | none => attempts dryRun rest tree
    | some p =>
      let r := applyOne tool ⟨dryRun, reverse, true⟩ p tree
      (entry, r.1) :: attempts dryRun rest r.2

def failures (attempts : List (String × Bool)) : List String :=
  (attempts.filter fun a => !a.2).map Prod.fst

/-- The tree once these patches have been run on it, whether or not they succeeded. -/
def treeAfter : List String → τ → τ
  | [], tree => tree
  | entry :: rest, tree =>
    match patches entry with
    | none => treeAfter rest tree
    | some p => treeAfter rest (tool.run reverse p tree).2

/-- What is asked of a dry run, with `--reverse` or without. -/
structure Predicts (series : List String) (tree : τ) : Prop where
  code : (∃ failed last, cmdApply tool ⟨true, reverse, false⟩ true patches series (some tree) =
      (.returned 0 failed, last)) ↔
    ∃ failed last, cmdApply tool ⟨false, reverse, false⟩ true patches series (some tree) =
      (.returned 0 failed, last)
  /-- with `--keep-going`, the outcome and with it the list of failed patches -/
  failed : (cmdApply tool ⟨true, reverse, true⟩ true patches series (some tree)).1 =
    (cmdApply tool ⟨false, reverse, true⟩ true patches series (some tree)).1
  unchanged : ∀ keepGoing,
    (cmdApply tool ⟨true, reverse, keepGoing⟩ true patches series (some tree)).2 = some tree

def order (series : List String) : List String := if reverse then series.reverse else series

/-- Running the patches before it changes the exit status of no patch: `order` is the order
they are run in. -/
def Independent (order : List String) (tree : τ) : Prop :=
  ∀ done entry rest p, order = done ++ entry :: rest → patches entry = some p →
    (tool.run reverse p (treeAfter tool patches reverse done tree)).1 = (tool.run reverse p tree).1

/-- No patch reads what one run before it writes. -/
def Unstacked {κ : Type*} (reads writes : π → Set κ) (order : List String) : Prop :=
  order.Pairwise fun entry later =>
    ∀ p q, patches entry = some p → patches later = some q → Disjoint (writes p) (reads q)

end

variable {tool : PatchTool π τ} {patches : String → Option π} {reverse : Bool}

/-! The loop -/

lemma applyLoop_keepGoing {dryRun : Bool} {order : List String}
    (hfiles : ∀ entry ∈ order, (patches entry).isSome = true) (failed : List String) (tree : τ) :
    (applyLoop tool ⟨dryRun, reverse, true⟩ patches order failed tree).1 =
      some (failed ++ failures (attempts tool patches reverse dryRun order tree)) := by
  induction order generalizing failed tree with
  | nil => simp [applyLoop, attempts, failures]
  | cons entry rest ih =>
    obtain ⟨p, hp⟩ := Option.isSome_iff_exists.mp (hfiles entry List.mem_cons_self)
    have hrest := fun e he => hfiles e (List.mem_cons_of_mem _ he)
    simp only [applyLoop, attempts, hp, if_true]
    cases hok : (applyOne tool ⟨dryRun, reverse, true⟩ p tree).1 with
    | true => simp [ih hrest, failures]
    | false => simp [ih hrest, failures]

lemma applyLoop_missing {dryRun : Bool} {order : List String} {entry : String}
    (hentry : entry ∈ order) (hnone : patches entry = none) (failed : List String) (tree : τ) :
    (applyLoop tool ⟨dryRun, reverse, true⟩ patches order failed tree).1 = none := by
  induction order generalizing failed tree with
  | nil => simp at hentry
  | cons first rest ih =>
    rw [applyLoop]
    cases hp : patches first with
    | none => rfl
    | some p =>
      have hrest : entry ∈ rest := by
        refine (List.mem_cons.mp hentry).resolve_left ?_
        rintro rfl
        rw [hnone] at hp
        cases hp
      simp only [if_true]
      split_ifs
      · exact ih hrest _ _
      · exact ih hrest _ _

lemma applyLoop_eq_nil {dryRun : Bool} (order : List String) (tree : τ) :
    (applyLoop tool ⟨dryRun, reverse, false⟩ patches order [] tree).1 = some [] ↔
      (∀ entry ∈ order, (patches entry).isSome = true) ∧
        failures (attempts tool patches reverse dryRun order tree) = [] := by
  induction order generalizing tree with
  | nil => simp [applyLoop, attempts, failures]
  | cons entry rest ih =>
    rw [applyLoop, attempts]
    cases hp : patches entry with
    | none => simp [hp]
    | some p =>
      have hsame : applyOne tool ⟨dryRun, reverse, false⟩ p tree =
        applyOne tool ⟨dryRun, reverse, true⟩ p tree := rfl
      dsimp only
      rw [hsame]
      cases hok : (applyOne tool ⟨dryRun, reverse, true⟩ p tree).1 with
      | true => simp [ih, hp, failures]
      | false => simp [failures]

lemma applyLoop_dry {keepGoing : Bool} (order failed : List String) (tree : τ) :
    (applyLoop tool ⟨true, reverse, keepGoing⟩ patches order failed tree).2 = tree := by
  induction order generalizing failed with
  | nil => rfl
  | cons entry rest ih =>
    rw [applyLoop]
    cases patches entry with
    | none => rfl
    | some p =>
      dsimp only
      split_ifs
      · exact ih _
      · exact ih _
      · rfl

/-! The command -/

lemma cmdApply_zero_iff {flags : Flags} {series : List String} {tree : τ} :
    (∃ failed last, cmdApply tool flags true patches series (some tree) =
      (.returned 0 failed, last)) ↔
      (applyLoop tool flags patches (entries flags series) [] tree).1 = some [] := by
  rw [cmdApply_eq_loop]
  cases applyLoop tool flags patches (entries flags series) [] tree with
  | mk failed last =>
    cases failed with
    | none => simp
    | some failed => cases failed <;> simp

lemma cmdApply_dry_tree {keepGoing : Bool} (series : List String) (tree : τ) :
    (cmdApply tool ⟨true, reverse, keepGoing⟩ true patches series (some tree)).2 = some tree := by
  rw [cmdApply_eq_loop]
  generalize entries ⟨true, reverse, keepGoing⟩ series = order
  have htree : (applyLoop tool ⟨true, reverse, keepGoing⟩ patches order [] tree).2 = tree :=
    applyLoop_dry order [] tree
  cases hloop : applyLoop tool ⟨true, reverse, keepGoing⟩ patches order [] tree with
  | mk failed last =>
    rw [hloop] at htree
    obtain rfl : last = tree := htree
    cases failed <;> rfl

lemma mem_order {series : List String} {entry : String} : entry ∈ order reverse series ↔ entry ∈ series := by
  cases reverse <;> simp [order]

lemma cmdApply_keepGoing {dryRun : Bool} {series : List String}
    (hfiles : ∀ entry ∈ series, (patches entry).isSome = true) (tree : τ) :
    (cmdApply tool ⟨dryRun, reverse, true⟩ true patches series (some tree)).1 =
      .returned
        (if (failures (attempts tool patches reverse dryRun (order reverse series) tree)).isEmpty
          then 0 else 1)
        (failures (attempts tool patches reverse dryRun (order reverse series) tree)) := by
  have hloop : (applyLoop tool ⟨dryRun, reverse, true⟩ patches (order reverse series) [] tree).1 =
      some (failures (attempts tool patches reverse dryRun (order reverse series) tree)) :=
    applyLoop_keepGoing (fun entry he => hfiles entry (mem_order.mp he)) [] tree
  have horder : entries ⟨dryRun, reverse, true⟩ series = order reverse series := rfl
  rw [cmdApply_eq_loop, horder]
  cases hr : applyLoop tool ⟨dryRun, reverse, true⟩ patches (order reverse series) [] tree with
  | mk failed last =>
    rw [hr] at hloop
    obtain rfl := hloop
    rfl

lemma cmdApply_missing {dryRun : Bool} {series : List String} {entry : String}
    (hentry : entry ∈ series) (hnone : patches entry = none) (tree : τ) :
    (cmdApply tool ⟨dryRun, reverse, true⟩ true patches series (some tree)).1 = .died := by
  have hloop : (applyLoop tool ⟨dryRun, reverse, true⟩ patches (order reverse series) [] tree).1 =
      none := applyLoop_missing (mem_order.mpr hentry) hnone [] tree
  have horder : entries ⟨dryRun, reverse, true⟩ series = order reverse series := rfl
  rw [cmdApply_eq_loop, horder]
  cases hr : applyLoop tool ⟨dryRun, reverse, true⟩ patches (order reverse series) [] tree with
  | mk failed last =>
    rw [hr] at hloop
    obtain rfl := hloop
    rfl

/-! The attempts -/

/-- Whether the patch of `entry` exits with 0 on this tree. -/
def verdictOn (tool : PatchTool π τ) (patches : String → Option π) (reverse : Bool) (tree : τ)
    (entry : String) : Bool :=
  match patches entry with
  | none => true
  | some p => (tool.run reverse p tree).1

lemma attempts_dry {order : List String} (hfiles : ∀ entry ∈ order, (patches entry).isSome = true)
    (tree : τ) : attempts tool patches reverse true order tree =
      order.map fun entry => (entry, verdictOn tool patches reverse tree entry) := by
  induction order with
  | nil => rfl
  | cons entry rest ih =>
    obtain ⟨p, hp⟩ := Option.isSome_iff_exists.mp (hfiles entry List.mem_cons_self)
    have hrest := ih fun e he => hfiles e (List.mem_cons_of_mem _ he)
    simp [attempts, verdictOn, hp, applyOne, hrest]

lemma attempts_fst {dryRun : Bool} {order : List String}
    (hfiles : ∀ entry ∈ order, (patches entry).isSome = true) (tree : τ) :
    (attempts tool patches reverse dryRun order tree).map Prod.fst = order := by
  induction order generalizing tree with
  | nil => rfl
  | cons entry rest ih =>
    obtain ⟨p, hp⟩ := Option.isSome_iff_exists.mp (hfiles entry List.mem_cons_self)
    have hrest := ih fun e he => hfiles e (List.mem_cons_of_mem _ he)
    simp [attempts, hp, hrest]

/-- What the real run attempts, patch by patch, against the original tree. -/
lemma attempts_agree_iff {order : List String} (start tree : τ) :
    (∀ a ∈ attempts tool patches reverse false order tree,
        a.2 = verdictOn tool patches reverse start a.1) ↔
      ∀ done entry rest p, order = done ++ entry :: rest → patches entry = some p →
        (tool.run reverse p (treeAfter tool patches reverse done tree)).1 =
          (tool.run reverse p start).1 := by
  induction order generalizing tree with
  | nil => simp [attempts]
  | cons first others ih =>
    cases hp : patches first with
    | none =>
      rw [attempts, hp]
      dsimp only
      rw [ih]
      constructor
      · rintro h (_ | ⟨e, done⟩) entry rest p hsplit hentry
        · obtain ⟨rfl, -⟩ := List.cons.inj hsplit
          rw [hp] at hentry
          cases hentry
        · obtain ⟨rfl, hrest⟩ := List.cons.inj hsplit
          rw [treeAfter, hp]
          exact h done entry rest p hrest hentry
      · intro h done entry rest p hsplit hentry
        have hlater := h (first :: done) entry rest p (by rw [hsplit, List.cons_append]) hentry
        rwa [treeAfter, hp] at hlater
    | some q =>
      rw [attempts, hp]
      have hfirst : verdictOn tool patches reverse start first = (tool.run reverse q start).1 := by
        rw [verdictOn, hp]
      simp only [applyOne, Bool.false_eq_true, if_false, List.forall_mem_cons, hfirst, ih]
      constructor
      · rintro ⟨hq, h⟩ (_ | ⟨e, done⟩) entry rest p hsplit hentry
        · obtain ⟨rfl, -⟩ := List.cons.inj hsplit
          obtain rfl := Option.some.inj (hp.symm.trans hentry)
          exact hq
        · obtain ⟨rfl, hrest⟩ := List.cons.inj hsplit
          rw [treeAfter, hp]
          exact h done entry rest p hrest hentry
      · intro h
        refine ⟨h [] first others q rfl hp, fun done entry rest p hsplit hentry => ?_⟩
        have hlater := h (first :: done) entry rest p (by rw [hsplit, List.cons_append]) hentry
        rwa [treeAfter, hp] at hlater

/-- Two lists of failures agree only if the attempts do, where one verdict is by the name
of the entry: of a name either all occurrences fail or none. -/
lemma agree_of_failures_eq {xs : List (String × Bool)} {verdict : String → Bool}
    (h : failures xs = failures ((xs.map Prod.fst).map fun e => (e, verdict e))) :
    ∀ x ∈ xs, x.2 = verdict x.1 := by
  intro x hx
  have hcount := congrArg (List.count x.1) h
  have hleft : (failures xs).count x.1 = (xs.filter fun a => !a.2).countP fun a => a.1 == x.1 := by
    rw [failures, List.count, List.countP_map]
    rfl
  have hright : failures ((xs.map Prod.fst).map fun e => (e, verdict e)) =
      (xs.map Prod.fst).filter fun e => !verdict e := by
    rw [failures, List.filter_map, List.map_map]
    exact List.map_id _
  have hnames : (xs.map Prod.fst).count x.1 = xs.countP fun a => a.1 == x.1 := by
    rw [List.count, List.countP_map]
    rfl
  rw [hleft, hright] at hcount
  cases hv : verdict x.1 with
  | true =>
    have hnone : ((xs.map Prod.fst).filter fun e => !verdict e).count x.1 = 0 := by
      rw [List.count_eq_zero]
      simp [hv]
    rw [hnone, List.countP_eq_zero] at hcount
    by_contra hfail
    exact hcount x (List.mem_filter.mpr ⟨hx, by simpa using hfail⟩) (beq_self_eq_true _)
  | false =>
    rw [List.count_filter (by simp [hv]), hnames,
      List.countP_eq_countP_filter_add xs (fun a => a.1 == x.1) fun a => a.2] at hcount
    have hnone : (xs.filter fun a => a.2).countP (fun a => a.1 == x.1) = 0 := by omega
    rw [List.countP_eq_zero] at hnone
    by_contra hok
    exact hnone x (List.mem_filter.mpr ⟨hx, by simpa using hok⟩) (beq_self_eq_true _)

lemma failures_eq_iff {order : List String}
    (hfiles : ∀ entry ∈ order, (patches entry).isSome = true) (tree : τ) :
    failures (attempts tool patches reverse true order tree) =
        failures (attempts tool patches reverse false order tree) ↔
      Independent tool patches reverse order tree := by
  have hnames : (attempts tool patches reverse false order tree).map Prod.fst = order :=
    attempts_fst hfiles tree
  have hdry : attempts tool patches reverse true order tree =
      ((attempts tool patches reverse false order tree).map Prod.fst).map fun entry =>
        (entry, verdictOn tool patches reverse tree entry) := by
    rw [attempts_dry hfiles, hnames]
  rw [Independent, ← attempts_agree_iff, hdry]
  constructor
  · exact fun h => agree_of_failures_eq h.symm
  · intro h
    rw [List.map_map]
    refine congrArg failures ((List.map_congr_left fun a ha => ?_).trans (List.map_id _))
    exact Prod.ext rfl (h a ha).symm

/-- A dry run predicts the real one iff, where every entry has its file, no patch has its
outcome changed by those before it. -/
lemma predicts_iff_independent (tool : PatchTool π τ) (patches : String → Option π)
    (reverse : Bool) (series : List String) (tree : τ) :
    Predicts tool patches reverse series tree ↔
      ((∀ entry ∈ series, (patches entry).isSome = true) →
        Independent tool patches reverse (order reverse series) tree) := by
  by_cases hfiles : ∀ entry ∈ series, (patches entry).isSome = true
  · have hordered : ∀ entry ∈ order reverse series, (patches entry).isSome = true :=
      fun entry he => hfiles entry (mem_order.mp he)
    rw [← failures_eq_iff hordered]
    constructor
    · intro h _
      have hfailed := h.failed
      rw [cmdApply_keepGoing hfiles, cmdApply_keepGoing hfiles] at hfailed
      exact (Outcome.returned.inj hfailed).2
    · intro h
      have hsame := h hfiles
      refine ⟨?_, ?_, fun _ => cmdApply_dry_tree series tree⟩
      · rw [cmdApply_zero_iff, cmdApply_zero_iff, applyLoop_eq_nil, applyLoop_eq_nil]
        have horder : ∀ dryRun, entries ⟨dryRun, reverse, false⟩ series = order reverse series :=
          fun _ => rfl
        rw [horder, horder, hsame]
      · rw [cmdApply_keepGoing hfiles, cmdApply_keepGoing hfiles, hsame]
  · refine ⟨fun _ h => absurd h hfiles, fun _ => ?_⟩
    have hcode : ∀ dryRun, ¬ ∃ failed last,
        cmdApply tool ⟨dryRun, reverse, false⟩ true patches series (some tree) =
          (.returned 0 failed, last) := by
      intro dryRun h
      rw [cmdApply_zero_iff, applyLoop_eq_nil] at h
      exact hfiles fun entry he => h.1 entry (mem_order.mpr he)
    obtain ⟨entry, hentry, hnone⟩ : ∃ entry ∈ series, patches entry = none := by
      simpa using hfiles
    refine ⟨iff_of_false (hcode true) (hcode false), ?_, fun _ => cmdApply_dry_tree series tree⟩
    rw [cmdApply_missing hentry hnone, cmdApply_missing hentry hnone]

/-! Patches that read and write some files only -/

section
variable {κ β : Type*} {reads writes : π → Set κ}

lemma treeAfter_frame {tool : PatchTool π (κ → β)}
    (hconfined : ∀ reverse p, Confined (reads p) (writes p) (tool.run reverse p)) {K : Set κ}
    {done : List String} (hdone : ∀ entry ∈ done, ∀ p, patches entry = some p → Disjoint (writes p) K)
    (tree : κ → β) : ∀ k ∈ K, treeAfter tool patches reverse done tree k = tree k := by
  induction done generalizing tree with
  | nil => exact fun _ _ => rfl
  | cons entry done ih =>
    intro k hk
    have hrest := fun e he => hdone e (List.mem_cons_of_mem entry he)
    rw [treeAfter]
    cases hp : patches entry with
    | none => exact ih hrest tree k hk
    | some p =>
      have hapart := hdone entry List.mem_cons_self p hp
      exact (ih hrest _ k hk).trans
        ((hconfined reverse p).frame tree k fun hmem => Set.disjoint_left.mp hapart hmem hk)

/-- Where no patch reads what was written before it, none has its outcome changed. -/
lemma Unstacked.independent {order : List String} (h : Unstacked patches reads writes order)
    {tool : PatchTool π (κ → β)} (hconfined : ∀ reverse p, Confined (reads p) (writes p) (tool.run reverse p))
    (tree : κ → β) : Independent tool patches reverse order tree := by
  rintro done entry rest q rfl hq
  have hdone := (List.pairwise_append.mp h).2.2
  refine (hconfined reverse q).result _ _ (treeAfter_frame hconfined (fun e he p hp => ?_) tree)
  exact hdone e he entry List.mem_cons_self p q hp hq

/-- The tool that watches one file. -/
noncomputable def probeTool (reads writes : π → Set κ) (k : κ) (fresh spoilt : β) : PatchTool π (κ → β) :=
  ⟨fun p => probe (reads p) (writes p) k fresh spoilt, fun p => probe (reads p) (writes p) k fresh spoilt⟩

lemma run_probeTool (k : κ) (fresh spoilt : β) (reverse : Bool) (p : π) :
    (probeTool reads writes k fresh spoilt).run reverse p = probe (reads p) (writes p) k fresh spoilt := by
  cases reverse <;> rfl

/-- Once a patch has spoilt the file, it stays so. -/
lemma treeAfter_probeTool {k : κ} {fresh spoilt : β} {done : List String} {tree : κ → β}
    (h : tree k = spoilt ∨ ∃ entry ∈ done, ∃ p, patches entry = some p ∧ k ∈ writes p) :
    treeAfter (probeTool reads writes k fresh spoilt) patches reverse done tree k = spoilt := by
  induction done generalizing tree with
  | nil =>
    rcases h with h | ⟨entry, hentry, -⟩
    · exact h
    · cases hentry
  | cons first done ih =>
    rw [treeAfter]
    cases hfirst : patches first with
    | none =>
      refine ih (h.imp_right ?_)
      rintro ⟨entry, hentry, p, hp, hk⟩
      refine ⟨entry, (List.mem_cons.mp hentry).resolve_left ?_, p, hp, hk⟩
      rintro rfl
      rw [hfirst] at hp
      cases hp
    | some q =>
      dsimp only
      rw [run_probeTool]
      rcases h with h | ⟨entry, hentry, p, hp, hk⟩
      · exact ih (Or.inl (probe_spoils (Or.inr h)))
      · rcases List.mem_cons.mp hentry with rfl | hmem
        · obtain rfl := Option.some.inj (hp.symm.trans hfirst)
          exact ih (Or.inl (probe_spoils (Or.inl hk)))
        · exact ih (Or.inr ⟨entry, hmem, p, hp, hk⟩)

/-- Of a patch that reads what one before it writes, the outcome can change. -/
lemma unstacked_of_independent [Nontrivial β] {order : List String}
    (h : ∀ tool : PatchTool π (κ → β),
      (∀ reverse p, Confined (reads p) (writes p) (tool.run reverse p)) →
        ∀ tree, Independent tool patches reverse order tree) :
    Unstacked patches reads writes order := by
  obtain ⟨fresh, spoilt, hne⟩ := exists_pair_ne β
  rw [Unstacked, List.pairwise_iff_getElem]
  intro i j hi hj hij p q hp hq
  rw [Set.disjoint_left]
  intro k hwrites hreads
  have hconfined : ∀ reverse p, Confined (reads p) (writes p)
      ((probeTool reads writes k fresh spoilt).run reverse p) := by
    intro reverse p
    rw [run_probeTool]
    exact probe_confined _ _ _ _ _
  have hsplit : order = order.take j ++ order[j] :: order.drop (j + 1) := by
    rw [List.getElem_cons_drop, List.take_append_drop]
  have hspoilt : treeAfter (probeTool reads writes k fresh spoilt) patches reverse (order.take j)
      (fun _ => fresh) k = spoilt :=
    treeAfter_probeTool (Or.inr ⟨order[i], List.mem_take_iff_getElem.mpr ⟨i, by omega, rfl⟩, p, hp, hwrites⟩)
  have hsame := h _ hconfined (fun _ => fresh) _ _ _ q hsplit hq
  rw [run_probeTool, Bool.eq_iff_iff, probe_fst hreads, probe_fst hreads, hspoilt] at hsame
  exact hne (hsame.mpr rfl).symm

end

/-- Of a series whose patches read and write these files, the dry run predicts the real one, whatever
the patches do there and whatever the tree, iff no patch reads a file that one run before it writes. -/
theorem predicts_iff_unstacked {κ β : Type*} [Nontrivial β] (patches : String → Option π)
    (reads writes : π → Set κ) (reverse : Bool) (series : List String) :
    (∀ tool : PatchTool π (κ → β), (∀ reverse p, Confined (reads p) (writes p) (tool.run reverse p)) →
        ∀ tree, Predicts tool patches reverse series tree) ↔
      ((∀ entry ∈ series, (patches entry).isSome = true) →
        Unstacked patches reads writes (order reverse series)) := by
  constructor
  · intro h hfiles
    exact unstacked_of_independent fun tool hconfined tree =>
      (predicts_iff_independent tool patches reverse series tree).mp (h tool hconfined tree) hfiles
  · intro h tool hconfined tree
    exact (predicts_iff_independent tool patches reverse series tree).mpr fun hfiles =>
      (h hfiles).independent hconfined tree

/-- One hunk adds a line to an empty file, the other a line to the file with that line. -/
def sampleStackGnu : GnuPatch where
  hunks body content :=
    if body = ["@@ -0,0 +1 @@", "+"] ∧ content = [] then (true, [10])
    else if body = ["@@ -1 +1,2 @@", " ", "+"] ∧ content = [10] then (true, [10, 10])
    else (false, content)

def sampleStackTool : PatchTool Patch Tree := ⟨runPatch sampleStackGnu, runPatch sampleStackGnu⟩

/-- A patch that creates a file, and one that edits it. -/
def sampleStack (entry : String) : Option Patch :=
  if entry = "create.patch" then some sampleCreate
  else some ⟨[], [⟨.modify, "x", "", ["@@ -1 +1,2 @@", " ", "+"]⟩]⟩

/-- Two patches that create a file each do not stack. -/
theorem samplePatches_predicted :
    Predicts sampleStackTool samplePatches false ["x", "y"] fun _ => none := by
  have hapart : Disjoint {path | (sampleCreateAt "x").touches path} {path | (sampleCreateAt "y").touches path} := by
    simp [sampleCreateAt, Patch.touches]
  refine (predicts_iff_unstacked samplePatches (fun p => {path | p.touches path})
    (fun p => {path | p.touches path}) false ["x", "y"]).mpr (fun _ => ?_) sampleStackTool ?_ _
  · refine List.pairwise_pair.mpr fun p q hp hq => ?_
    cases hp
    cases hq
    exact hapart
  · intro reverse p
    cases reverse <;> exact (runPatch_within p).confined

theorem sampleStack_not_predicted :
    ¬ Predicts sampleStackTool sampleStack false ["create.patch", "edit.patch"] fun _ => none := by
  intro h
  have hdry : (cmdApply sampleStackTool ⟨true, false, true⟩ true sampleStack
      ["create.patch", "edit.patch"] (some fun _ => none)).1 = .returned 1 ["edit.patch"] := by decide
  have hreal : (cmdApply sampleStackTool ⟨false, false, true⟩ true sampleStack
      ["create.patch", "edit.patch"] (some fun _ => none)).1 = .returned 0 [] := by decide
  have hfailed := h.failed
  rw [hdry, hreal] at hfailed
  cases hfailed

end T3dmium.ApplyPatches
