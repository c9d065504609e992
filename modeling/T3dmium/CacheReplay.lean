import T3dmium.CacheRuns

/-! What has been answered once is answered from the cache ever after: nothing there is
taken away, and a process that finds it needs no remote. -/
namespace T3dmium.SourceCache
open TreeWalk FileTree Pathlib

/-! Trees that grow -/

/-- Directories and files stay what they are. -/
structure Grows {ν β : Type*} (t t' : DiskTree ν β) : Prop where
  dir : ∀ pos, isDir t pos = true → isDir t' pos = true
  file : ∀ pos, isFile t pos = true → isFile t' pos = true

section
variable {ν β : Type*} {t t' : DiskTree ν β}

lemma Grows.refl (t : DiskTree ν β) : Grows t t := ⟨fun _ h => h, fun _ h => h⟩

lemma Grows.isSome (h : Grows t t') {pos : List ν} (hpos : (t pos).isSome = true) :
    (t' pos).isSome = true := by
  have hdir := h.dir pos
  have hfile := h.file pos
  rw [isDir, isDir] at hdir
  rw [isFile, isFile] at hfile
  cases hnode : t pos with
  | none =>
    rw [hnode] at hpos
    cases hpos
  | some node =>
    cases hnode' : t' pos with
    | some node' => rfl
    | none =>
      rw [hnode, hnode'] at hdir hfile
      cases node with
      | dir => cases hdir rfl
      | file c => cases hfile rfl

lemma Grows.lookup (h : Grows t t') {pos loc : List ν} {steps : List (Step ν)}
    (hloc : FileTree.lookup t pos steps = some loc) : FileTree.lookup t' pos steps = some loc := by
  induction steps generalizing pos with
  | nil => exact hloc
  | cons step steps ih =>
    rw [FileTree.lookup] at hloc ⊢
    split_ifs at hloc with hdir
    rw [if_pos (h.dir pos hdir)]
    exact ih hloc

variable [DecidableEq ν]

lemma grows_of_none {pos : List ν} (hnone : t pos = none) (node : Option (Node β)) :
    Grows t (Function.update t pos node) := by
  constructor <;> intro pos' hpos'
  · have hne : pos' ≠ pos := by
      rintro rfl
      rw [isDir, hnone] at hpos'
      cases hpos'
    rwa [isDir, Function.update_of_ne hne]
  · have hne : pos' ≠ pos := by
      rintro rfl
      rw [isFile, hnone] at hpos'
      cases hpos'
    rwa [isFile, Function.update_of_ne hne]

lemma grows_of_not_dir {loc : List ν} (hdir : isDir t loc = false) (content : β) :
    Grows t (Function.update t loc (some (.file content))) := by
  constructor <;> intro pos hpos
  · have hne : pos ≠ loc := by
      rintro rfl
      rw [hdir] at hpos
      cases hpos
    rwa [isDir, Function.update_of_ne hne]
  · by_cases heq : pos = loc
    · rw [isFile, heq, Function.update_self]
    · rwa [isFile, Function.update_of_ne heq]

end

section
variable {pin : Pin} {root : List PyStr} {asked : Set PyStr} {t t' : DiskTree PyStr Bytes} {proc : Proc}

lemma Grows.found (h : Grows t t') {path : PyStr} (hfound : found root t path = true) :
    found root t' path = true := by
  rw [SourceCache.found] at hfound ⊢
  cases hloc : follow t root path with
  | none =>
    rw [hloc] at hfound
    cases hfound
  | some loc =>
    rw [hloc] at hfound
    have hloc' : follow t' root path = some loc := h.lookup hloc
    rw [hloc']
    exact h.isSome hfound

lemma openedFile_eq {path : PyStr} {loc : List PyStr} {c : Bytes} (hloc : follow t root path = some loc)
    (hfile : t loc = some (.file c)) : openedFile root t path = some loc := by
  rw [openedFile, hloc, Option.filter_some, isFile, hfile]
  rfl

lemma file_of_opened {path : PyStr} {loc : List PyStr} (h : openedFile root t path = some loc) :
    follow t root path = some loc ∧ ∃ c, t loc = some (.file c) := by
  obtain ⟨hloc, hfile⟩ := Option.filter_eq_some_iff.mp h
  exact ⟨hloc, exists_content hfile⟩

lemma Grows.opened (h : Grows t t') {path : PyStr} {loc : List PyStr} (hopen : openedFile root t path = some loc) :
    openedFile root t' path = some loc := by
  obtain ⟨hloc, hfile⟩ := Option.filter_eq_some_iff.mp hopen
  exact Option.filter_eq_some_iff.mpr ⟨h.lookup hloc, h.file loc hfile⟩

lemma found_of_opened {path : PyStr} {loc : List PyStr} (h : openedFile root t path = some loc) :
    found root t path = true := by
  obtain ⟨hloc, c, hc⟩ := file_of_opened h
  rw [found, hloc, Option.bind_some, hc]
  rfl

/-! What has been seen in the cache -/

/-- The file of the path is there, or its marker. -/
def Cached (root : List PyStr) (t : DiskTree PyStr Bytes) (path : PyStr) : Prop :=
  (∃ loc, openedFile root t path = some loc) ∨ found root t (markerPath path) = true

/-- A file that is open is there. -/
def Seen (root : List PyStr) (t : DiskTree PyStr Bytes) : Phase → Prop
  | .reading kept _ _ => ∃ loc, openedFile root t kept.path = some loc
  | .writing store _ _ => ∃ loc, openedFile root t store.path = some loc
  | _ => True

lemma Cached.mono {path : PyStr} (h : Cached root t path) (hgrows : Grows t t') : Cached root t' path := by
  rcases h with ⟨loc, hloc⟩ | hmarker
  · exact Or.inl ⟨loc, hgrows.opened hloc⟩
  · exact Or.inr (hgrows.found hmarker)

lemma Seen.mono {phase : Phase} (h : Seen root t phase) (hgrows : Grows t t') : Seen root t' phase := by
  cases phase with
  | reading kept loc bytes =>
    obtain ⟨loc, hloc⟩ := h
    exact ⟨loc, hgrows.opened hloc⟩
  | writing store loc done =>
    obtain ⟨loc, hloc⟩ := h
    exact ⟨loc, hgrows.opened hloc⟩
  | _ => trivial

/-- A step takes nothing away, keeps what it has open and answers what is there. -/
structure Keeps (root : List PyStr) (asked : Set PyStr) (t t' : DiskTree PyStr Bytes) (o : Outcome) :
    Prop where
  grows : Grows t t'
  seen : ∀ new, o.proc = some new → Seen root t' new.phase
  cached : ∀ path value, o.answer = some (path, value) → path ∈ asked ∧ Cached root t' path

lemma keeps_goto {phase : Phase} (hgrows : Grows t t') (h : Seen root t' phase) :
    Keeps root asked t t' (.goes (proc.goto phase)) := by
  refine ⟨hgrows, ?_, nofun⟩
  intro new hnew
  cases hnew
  exact h

lemma keeps_raises : Keeps root asked t t (raises proc) := keeps_goto (.refl t) trivial

lemma keeps_mapped {path : PyStr} (depMap : Option DepMap) : Keeps root asked t t (mapped proc path depMap) := by
  cases depMap with
  | none => exact keeps_raises
  | some depMap =>
    refine ⟨.refl t, ?_, nofun⟩
    intro new hnew
    cases hnew
    trivial

lemma keeps_returns {path : PyStr} {value : Option Bytes} (hasked : path ∈ asked) (h : Cached root t path) :
    Keeps root asked t t (.returns path value (proc.goto .idle)) := by
  refine ⟨.refl t, ?_, ?_⟩
  · intro new hnew
    cases hnew
    trivial
  · intro path' value' hanswer
    cases hanswer
    exact ⟨hasked, h⟩

lemma keeps_exits : Keeps root asked t t .exits := ⟨.refl t, nofun, nofun⟩

lemma keeps_advance (hok : ProcOk pin root asked t proc) (hseen : Seen root t proc.phase) {chunk : ℕ}
    {o : Outcome} (h : advance pin root t proc chunk = some (t', o)) : Keeps root asked t t' o := by
  rw [advance] at h
  have hphaseOk := hok.phase
  cases hphase : proc.phase with
  | idle =>
    rw [hphase] at h
    cases h
  | fetching path attempt =>
    rw [hphase] at h
    cases h
  | fetchingDeps path =>
    rw [hphase] at h
    cases h
  | checking kept =>
    rw [hphase] at h
    cases kept with
    | file path =>
      obtain ⟨rfl, rfl⟩ := Prod.mk.inj (Option.some.inj h)
      refine keeps_goto (.refl t) ?_
      split_ifs <;> trivial
    | deps path =>
      obtain ⟨rfl, rfl⟩ := Prod.mk.inj (Option.some.inj h)
      refine keeps_goto (.refl t) ?_
      split_ifs <;> trivial
  | checkingMarker path =>
    rw [hphase] at h hphaseOk
    obtain ⟨rfl, rfl⟩ := Prod.mk.inj (Option.some.inj h)
    split_ifs with hmarker hoffline
    · exact keeps_returns hphaseOk (Or.inr hmarker)
    · exact keeps_exits
    · exact keeps_goto (.refl t) trivial
  | opening kept =>
    rw [hphase] at h
    dsimp only at h
    cases hfile : openedFile root t kept.path with
    | none =>
      rw [hfile] at h
      obtain ⟨rfl, rfl⟩ := Prod.mk.inj (Option.some.inj h)
      exact keeps_raises
    | some loc =>
      rw [hfile] at h
      obtain ⟨rfl, rfl⟩ := Prod.mk.inj (Option.some.inj h)
      exact keeps_goto (.refl t) ⟨loc, hfile⟩
  | reading kept loc bytes =>
    rw [hphase] at h hseen hphaseOk
    dsimp only at h
    split_ifs at h
    · obtain ⟨rfl, rfl⟩ := Prod.mk.inj (Option.some.inj h)
      cases kept with
      | file path => exact keeps_returns hphaseOk.1 (Or.inl hseen)
      | deps path => exact keeps_mapped _
    · obtain ⟨rfl, rfl⟩ := Prod.mk.inj (Option.some.inj h)
      exact keeps_goto (.refl t) hseen
  | mapping path =>
    rw [hphase] at h
    dsimp only at h
    cases hmap : proc.depMap with
    | some depMap =>
      rw [hmap] at h
      obtain ⟨rfl, rfl⟩ := Prod.mk.inj (Option.some.inj h)
      exact keeps_goto (.refl t) trivial
    | none =>
      rw [hmap] at h
      dsimp only at h
      split_ifs at h
      · obtain ⟨rfl, rfl⟩ := Prod.mk.inj (Option.some.inj h)
        exact keeps_mapped _
      · obtain ⟨rfl, rfl⟩ := Prod.mk.inj (Option.some.inj h)
        exact keeps_goto (.refl t) trivial
  | resolving path depMap =>
    rw [hphase] at h
    dsimp only at h
    cases hresolve : resolve path depMap with
    | none =>
      rw [hresolve] at h
      obtain ⟨rfl, rfl⟩ := Prod.mk.inj (Option.some.inj h)
      exact keeps_goto (.refl t) trivial
    | some found =>
      rw [hresolve] at h
      cases h
  | making store =>
    rw [hphase] at h
    dsimp only at h
    cases hway : way t [] (fullPath root store.path).dropLast with
    | there =>
      rw [hway] at h
      obtain ⟨rfl, rfl⟩ := Prod.mk.inj (Option.some.inj h)
      exact keeps_goto (.refl t) trivial
    | missing pos =>
      rw [hway] at h
      obtain ⟨rfl, rfl⟩ := Prod.mk.inj (Option.some.inj h)
      refine ⟨grows_of_none (missing_mem_passes hway).2 _, ?_, ?_⟩
      · intro new hnew
        cases hnew
        rw [hphase]
        trivial
      · intro path value hanswer
        cases hanswer
    | blocked =>
      rw [hway] at h
      obtain ⟨rfl, rfl⟩ := Prod.mk.inj (Option.some.inj h)
      exact keeps_raises
  | creating store =>
    rw [hphase] at h
    dsimp only at h
    cases hloc : follow t root store.path with
    | none =>
      rw [hloc] at h
      obtain ⟨rfl, rfl⟩ := Prod.mk.inj (Option.some.inj h)
      exact keeps_raises
    | some loc =>
      rw [hloc] at h
      dsimp only at h
      split_ifs at h with hdir
      · obtain ⟨rfl, rfl⟩ := Prod.mk.inj (Option.some.inj h)
        exact keeps_raises
      · obtain ⟨rfl, rfl⟩ := Prod.mk.inj (Option.some.inj h)
        have hgrows := grows_of_not_dir (Bool.eq_false_iff.mpr hdir) ([] : Bytes)
        exact keeps_goto hgrows ⟨loc, openedFile_eq (hgrows.lookup hloc) (Function.update_self ..)⟩
  | writing store loc done =>
    rw [hphase] at h hseen hphaseOk
    obtain ⟨opened, hopened⟩ := hseen
    dsimp only at h
    split_ifs at h with hend
    · obtain ⟨rfl, rfl⟩ := Prod.mk.inj (Option.some.inj h)
      cases store with
      | file path content => exact keeps_returns hphaseOk.1.1 (Or.inl ⟨opened, hopened⟩)
      | marker path => exact keeps_returns hphaseOk.1.1 (Or.inr (found_of_opened hopened))
      | deps path source => exact keeps_mapped _
    · obtain ⟨rfl, rfl⟩ := Prod.mk.inj (Option.some.inj h)
      have hlt : done < store.data.length := by
        by_contra hge
        rw [List.drop_eq_nil_of_le (Nat.le_of_not_lt hge)] at hend
        exact hend List.take_nil
      have hdir : isDir t loc = false := by rw [isDir, hphaseOk.2.2 hlt]
      have hgrows := grows_of_not_dir hdir
        (overwrite (contentAt t loc) done ((store.data.drop done).take (chunk + 1)))
      exact keeps_goto hgrows ⟨opened, hgrows.opened hopened⟩

lemma keeps_answered {o : Outcome} (h : answered pin proc = some o) : Keeps root asked t t o := by
  rw [answered] at h
  split at h
  · split at h <;> cases h <;> exact keeps_goto (.refl t) trivial
  · split at h
    · cases h
      exact keeps_raises
    · cases h
      exact keeps_goto (.refl t) trivial
  · split at h
    · cases h
    · split at h <;> cases h <;> exact keeps_goto (.refl t) trivial
  · cases h

lemma keeps_refused {again : Bool} {o : Outcome} (h : refused proc again = some o) : Keeps root asked t t o := by
  rw [refused] at h
  split at h
  · split_ifs at h
    · cases h
      exact keeps_goto (.refl t) trivial
    · cases h
      exact keeps_raises
  · cases h
    exact keeps_raises
  · split at h
    · cases h
    · cases h
      exact keeps_raises
  · cases h

lemma keeps_effect (hok : ProcOk pin root asked t proc) (hseen : Seen root t proc.phase) {e : Event}
    {o : Outcome} (h : effect pin root t proc e = some (t', o)) : Keeps root asked t t' o := by
  cases e with
  | start offline => cases h
  | get path =>
    rw [effect] at h
    split at h
    · obtain ⟨rfl, rfl⟩ := Prod.mk.inj (Option.some.inj h)
      exact keeps_goto (.refl t) trivial
    · cases h
  | advance chunk => exact keeps_advance hok hseen h
  | answered =>
    obtain ⟨o', ho', heq⟩ := Option.map_eq_some_iff.mp h
    obtain ⟨rfl, rfl⟩ := Prod.mk.inj heq
    exact keeps_answered ho'
  | refused again =>
    obtain ⟨o', ho', heq⟩ := Option.map_eq_some_iff.mp h
    obtain ⟨rfl, rfl⟩ := Prod.mk.inj heq
    exact keeps_refused ho'
  | fault =>
    obtain ⟨rfl, rfl⟩ := Prod.mk.inj (Option.some.inj h)
    exact keeps_raises
  | kill =>
    obtain ⟨rfl, rfl⟩ := Prod.mk.inj (Option.some.inj h)
    exact keeps_exits

/-! Runs -/

/-- The cache has all that has been answered so far. -/
structure Recorded (pin : Pin) (root : List PyStr) (asked answered : Set PyStr) (w : World) : Prop where
  inv : Inv pin root asked w
  seen : ∀ pid proc, w.procs pid = some proc → Seen root w.tree proc.phase
  cached : ∀ path ∈ answered, path ∈ asked ∧ Cached root w.tree path

/-- The paths that a step answers. -/
def answeredPaths (pin : Pin) (root : List PyStr) (step : ℕ × Event) (w : World) : Set PyStr :=
  {path | ∃ value, (cacheMachine pin root step w).1 = some (path, value)}

lemma Recorded.step (hlines : ∀ source, pin.execDeps (Lines.universalNewlines source) = pin.execDeps source)
    (hapart : Apart pin root asked) {step : ℕ × Event} {w : World} {answered : Set PyStr}
    (hcareful : Careful root asked step w) (h : Recorded pin root asked answered w) :
    Recorded pin root asked (answered ∪ answeredPaths pin root step w) (cacheMachine pin root step w).2 := by
  have hinv := (h.inv.step hlines hapart hcareful).inv
  obtain ⟨pid, e⟩ := step
  -- a step that answers nothing and takes nothing away
  have hquiet : ∀ w' : World, cacheMachine pin root (pid, e) w = (none, w') → w'.tree = w.tree →
      (∀ pid' proc, w'.procs pid' = some proc → Seen root w.tree proc.phase) →
      Recorded pin root asked (answered ∪ answeredPaths pin root (pid, e) w) w' := by
    intro w' hw' htree hprocs
    rw [hw'] at hinv
    refine ⟨hinv, ?_, ?_⟩
    · rw [htree]
      exact hprocs
    · rintro path (hpath | ⟨value, hvalue⟩)
      · rw [htree]
        exact h.cached path hpath
      · rw [hw'] at hvalue
        cases hvalue
  cases hproc : w.procs pid with
  | none =>
    cases e with
    | start offline =>
      have hstep : cacheMachine pin root (pid, .start offline) w =
          (none, { w with procs := Function.update w.procs pid (some ⟨offline, none, .idle⟩) }) := by
        simp only [cacheMachine, hproc]
      rw [hstep]
      refine hquiet _ hstep rfl fun pid' proc hproc' => ?_
      rcases update_eq_some hproc' with ⟨-, heq⟩ | ⟨-, hold⟩
      · cases heq
        trivial
      · exact h.seen pid' proc hold
    | _ =>
      rw [cacheMachine] at hquiet ⊢
      simp only [hproc] at hquiet ⊢
      exact hquiet w rfl rfl h.seen
  | some proc =>
    cases heffect : effect pin root w.tree proc e with
    | none =>
      have hstep := cacheMachine_stuck hproc heffect
      rw [hstep]
      exact hquiet w hstep rfl h.seen
    | some next =>
      obtain ⟨t', o⟩ := next
      have hkeeps := keeps_effect (h.inv.procs pid proc hproc) (h.seen pid proc hproc) heffect
      have hstep := cacheMachine_some hproc heffect
      rw [hstep] at hinv ⊢
      refine ⟨hinv, fun pid' proc' hproc' => ?_, ?_⟩
      · rcases update_eq_some hproc' with ⟨-, heq⟩ | ⟨-, hold⟩
        · exact hkeeps.seen proc' heq
        · exact (h.seen pid' proc' hold).mono hkeeps.grows
      · rintro path (hpath | ⟨value, hvalue⟩)
        · exact ⟨(h.cached path hpath).1, (h.cached path hpath).2.mono hkeeps.grows⟩
        · rw [hstep] at hvalue
          exact hkeeps.cached path value hvalue

lemma mem_gathered_of_answer {steps : List (ℕ × Event)} {w : World} {path : PyStr} {value : Option Bytes}
    (h : some (path, value) ∈ Machine.answers (cacheMachine pin root) steps w) :
    path ∈ Machine.gathered (cacheMachine pin root) (answeredPaths pin root) steps w := by
  induction steps generalizing w with
  | nil => cases h
  | cons step steps ih =>
    rcases List.mem_cons.mp h with hfirst | hrest
    · exact Or.inl ⟨value, hfirst.symm⟩
    · exact Or.inr (ih hrest)

lemma recorded_run (hlines : ∀ source, pin.execDeps (Lines.universalNewlines source) = pin.execDeps source)
    (hapart : Apart pin root asked) (hfresh : Fresh root asked t) {steps : List (ℕ × Event)}
    (hcareful : Machine.Throughout (cacheMachine pin root) (Careful root asked) steps (World.start t)) :
    Recorded pin root asked (∅ ∪ Machine.gathered (cacheMachine pin root) (answeredPaths pin root) steps
      (World.start t)) (Machine.final (cacheMachine pin root) steps (World.start t)) := by
  have hstart : Recorded pin root asked ∅ (World.start t) :=
    ⟨inv_start hfresh, nofun, fun _ hpath => hpath.elim⟩
  exact Machine.gathered_invariant (fun answered w => Recorded pin root asked answered w)
    (fun step w answered hstep h => h.step hlines hapart hstep) hcareful hstart

/-! A process with nobody in its way -/

def World.put (w : World) (pid : ℕ) (proc : Proc) : World :=
  ⟨w.tree, Function.update w.procs pid (some proc)⟩

/-- From where it is, the process does these steps, gives these answers and touches no file. -/
def Replays (pin : Pin) (root : List PyStr) (w : World) (pid : ℕ) (events : List Event) (proc proc' : Proc)
    (answers : List (PyStr × Option Bytes)) : Prop :=
  Machine.final (cacheMachine pin root) (events.map fun e => (pid, e)) (w.put pid proc) = w.put pid proc' ∧
    (Machine.answers (cacheMachine pin root) (events.map fun e => (pid, e)) (w.put pid proc)).reduceOption =
      answers

section
variable {w : World} {pid : ℕ} {proc' proc'' : Proc} {events events' : List Event}
  {answers answers' : List (PyStr × Option Bytes)}

lemma replays_nil : Replays pin root w pid [] proc proc [] := ⟨rfl, rfl⟩

lemma Replays.cons {e : Event} {o : Outcome} (heffect : effect pin root w.tree proc e = some (w.tree, o))
    (hproc : o.proc = some proc') (h : Replays pin root w pid events proc' proc'' answers) :
    Replays pin root w pid (e :: events) proc proc'' (o.answer.toList ++ answers) := by
  have hstep : cacheMachine pin root (pid, e) (w.put pid proc) = (o.answer, w.put pid proc') := by
    rw [cacheMachine_some (w := w.put pid proc) (Function.update_self ..) heffect, hproc]
    simp only [World.put, Function.update_idem]
  obtain ⟨hfinal, hanswers⟩ := h
  rw [Replays, List.map_cons, Machine.final_cons, Machine.answers_cons, hstep]
  refine ⟨hfinal, ?_⟩
  dsimp only
  cases o.answer with
  | none => exact hanswers
  | some a =>
    rw [List.reduceOption_cons_of_some, hanswers]
    rfl

lemma Replays.append (h : Replays pin root w pid events proc proc' answers)
    (h' : Replays pin root w pid events' proc' proc'' answers') :
    Replays pin root w pid (events ++ events') proc proc'' (answers ++ answers') := by
  rw [Replays, List.map_append, Machine.final_append, Machine.answers_append, h.1,
    List.reduceOption_append, h.2, h'.2]
  exact ⟨h'.1, rfl⟩

/-- A file is read to its end, however much a read moves. -/
lemma replays_reading {path : PyStr} {loc : List PyStr} {c bytes : Bytes} (chunk : ℕ)
    (hc : w.tree loc = some (.file c)) (hbytes : bytes <+: c) :
    ∃ n, Replays pin root w pid (List.replicate n (.advance chunk))
      (proc.goto (.reading (.file path) loc bytes)) (proc.goto .idle) [(path, some c)] := by
  have hat : contentAt w.tree loc = c := by rw [contentAt, hc]
  induction hleft : c.length - bytes.length using Nat.strong_induction_on generalizing bytes with
  | _ left ih =>
    by_cases hend : c.drop bytes.length = []
    · have hread : bytes = c := hbytes.eq_of_length_le (List.drop_eq_nil_iff.mp hend)
      subst bytes
      have heffect : effect pin root w.tree (proc.goto (.reading (.file path) loc c)) (.advance chunk) =
          some (w.tree, .returns path (some c) (proc.goto .idle)) := by
        rw [effect, advance]
        simp only [Proc.goto, hat, hend, if_true, finishRead]
      exact ⟨1, replays_nil.cons heffect rfl⟩
    · have hstep : bytes ++ (c.drop bytes.length).take (chunk + 1) <+: c := append_take_drop hbytes _
      have heffect : effect pin root w.tree (proc.goto (.reading (.file path) loc bytes)) (.advance chunk) =
          some (w.tree, .goes (proc.goto
            (.reading (.file path) loc (bytes ++ (c.drop bytes.length).take (chunk + 1))))) := by
        rw [effect, advance]
        simp only [Proc.goto, hat, if_neg hend]
      have hshorter : c.length - (bytes ++ (c.drop bytes.length).take (chunk + 1)).length < left := by
        have hpos := List.length_pos_iff.mpr hend
        rw [List.length_drop] at hpos
        simp only [List.length_append, List.length_take, List.length_drop]
        omega
      obtain ⟨n, hn⟩ := ih _ hshorter hstep rfl
      exact ⟨n + 1, hn.cons heffect rfl⟩

lemma content_of_marker (hinv : Inv pin root asked w) {path : PyStr} (hasked : path ∈ asked)
    (hmarker : found root w.tree (markerPath path) = true) : pin.content path = none := by
  refine hinv.markers path hasked fun hnone => ?_
  cases hloc : follow w.tree root (markerPath path) with
  | none =>
    rw [found, hloc] at hmarker
    cases hmarker
  | some loc =>
    rw [found, hloc, follow_place hloc, Option.bind_some, hnone] at hmarker
    cases hmarker

/-- What is in the cache is answered from there. -/
lemma replays_get (hinv : Inv pin root asked w)
    (hwhole : ∀ pid' other, w.procs pid' = some other → ∀ loc, ¬ Torn loc other.phase) {path : PyStr}
    (hasked : path ∈ asked) (hcached : Cached root w.tree path)
    (hnodir : pin.content path = none → isDir w.tree (place root path) = false) (chunk : ℕ) (hidle : proc.phase = .idle) :
    ∃ n, Replays pin root w pid (.get path :: List.replicate n (.advance chunk)) proc proc
      [(path, pin.content path)] := by
  have hback : proc.goto .idle = proc := by
    rw [Proc.goto, ← hidle]
  have hget : effect pin root w.tree proc (.get path) =
      some (w.tree, .goes (proc.goto (.checking (.file path)))) := by
    rw [effect, hidle]
  by_cases hfound : found root w.tree path = true
  · have hcheck : effect pin root w.tree (proc.goto (.checking (.file path))) (.advance chunk) =
        some (w.tree, .goes (proc.goto (.opening (.file path)))) := by
      rw [effect, advance]
      simp only [Proc.goto, hfound, if_true]
    obtain ⟨loc, hopened⟩ : ∃ loc, openedFile root w.tree path = some loc := by
      rcases hcached with hopened | hmarker
      · exact hopened
      -- what stands beside a true marker is no directory
      · have hcontent := content_of_marker hinv hasked hmarker
        cases hloc : follow w.tree root path with
        | none =>
          rw [found, hloc] at hfound
          cases hfound
        | some loc =>
          rw [found, hloc, Option.bind_some] at hfound
          obtain ⟨node, hnode⟩ := Option.isSome_iff_exists.mp hfound
          have hnot := hnodir hcontent
          rw [← follow_place hloc, isDir, hnode] at hnot
          cases node with
          | dir => cases hnot
          | file c => exact ⟨loc, openedFile_eq hloc hnode⟩
    obtain ⟨hloc, c, hc⟩ := file_of_opened hopened
    have hcontent : pin.content path = some c := by
      rw [follow_place hloc] at hc
      obtain ⟨b, hb, -, rfl | ⟨pid', other, hother, htorn⟩⟩ := hinv.files path (Or.inl hasked) c hc
      · exact hb
      · exact (hwhole pid' other hother _ htorn).elim
    have hopen : effect pin root w.tree (proc.goto (.opening (.file path))) (.advance chunk) =
        some (w.tree, .goes (proc.goto (.reading (.file path) loc []))) := by
      rw [effect, advance]
      simp only [Proc.goto, Kept.path, hopened]
    obtain ⟨n, hn⟩ : ∃ n, Replays pin root w pid (List.replicate n (.advance chunk))
        (proc.goto (.reading (.file path) loc [])) (proc.goto .idle) [(path, some c)] :=
      replays_reading chunk hc List.nil_prefix
    rw [hcontent, ← hback]
    exact ⟨n + 2, ((hn.cons hopen rfl).cons hcheck rfl).cons (hback ▸ hget) rfl⟩
  · have hmarker : found root w.tree (markerPath path) = true := by
      rcases hcached with ⟨loc, hloc⟩ | hmarker
      · exact (hfound (found_of_opened hloc)).elim
      · exact hmarker
    have hcheck : effect pin root w.tree (proc.goto (.checking (.file path))) (.advance chunk) =
        some (w.tree, .goes (proc.goto (.checkingMarker path))) := by
      rw [effect, advance]
      simp only [Proc.goto, if_neg hfound]
    have hanswer : effect pin root w.tree (proc.goto (.checkingMarker path)) (.advance chunk) =
        some (w.tree, .returns path none (proc.goto .idle)) := by
      rw [effect, advance]
      simp only [Proc.goto, hmarker, if_true]
    have hcontent := content_of_marker hinv hasked hmarker
    rw [hcontent]
    refine ⟨2, ?_⟩
    have hrun : Replays pin root w pid [.get path, .advance chunk, .advance chunk] proc (proc.goto .idle)
        [(path, none)] :=
      ((replays_nil.cons hanswer rfl).cons hcheck rfl).cons hget rfl
    rwa [hback] at hrun

lemma replays_gets (pid : ℕ) (proc : Proc) (hinv : Inv pin root asked w)
    (hwhole : ∀ pid' other, w.procs pid' = some other → ∀ loc, ¬ Torn loc other.phase) {paths : List PyStr}
    (hpaths : ∀ path ∈ paths, path ∈ asked ∧ Cached root w.tree path)
    (hnodirs : ∀ path ∈ paths, pin.content path = none → isDir w.tree (place root path) = false) (chunk : ℕ)
    (hidle : proc.phase = .idle) :
    ∃ advances : PyStr → ℕ, Replays pin root w pid
      (paths.flatMap fun path => .get path :: List.replicate (advances path) (.advance chunk)) proc proc
      (paths.map fun path => (path, pin.content path)) := by
  have heach : ∀ path, ∃ n, path ∈ paths → Replays pin root w pid
      (.get path :: List.replicate n (.advance chunk)) proc proc [(path, pin.content path)] := by
    intro path
    by_cases hpath : path ∈ paths
    · obtain ⟨hasked, hcached⟩ := hpaths path hpath
      obtain ⟨n, hn⟩ := replays_get hinv hwhole hasked hcached (hnodirs path hpath) chunk hidle
      exact ⟨n, fun _ => hn⟩
    · exact ⟨0, fun h => (hpath h).elim⟩
  choose advances hadvances using heach
  refine ⟨advances, ?_⟩
  clear hpaths hnodirs
  induction paths with
  | nil => exact replays_nil
  | cons path paths ih =>
    rw [List.flatMap_cons, List.map_cons]
    have hrest := ih fun p hp => hadvances p (List.mem_cons_of_mem _ hp)
    exact (hadvances path List.mem_cons_self).append hrest

/-- A process starts and calls `get` for one path after the other; there are no events of the network,
and nothing fails. -/
def replay (offline : Bool) (advances : PyStr → ℕ) (chunk : ℕ) (paths : List PyStr) : List Event :=
  .start offline :: paths.flatMap fun path => .get path :: List.replicate (advances path) (.advance chunk)

lemma Recorded.replays {recorded : Set PyStr} (h : Recorded pin root asked recorded w) (hpid : w.procs pid = none)
    (hwhole : ∀ pid' other, w.procs pid' = some other → ∀ loc, ¬ Torn loc other.phase) {paths : List PyStr}
    (hpaths : ∀ path ∈ paths, path ∈ recorded)
    (hnodirs : ∀ path ∈ paths, pin.content path = none → isDir w.tree (place root path) = false)
    (offline : Bool) (chunk : ℕ) :
    ∃ advances : PyStr → ℕ,
      let steps := (replay offline advances chunk paths).map fun e => (pid, e)
      (Machine.answers (cacheMachine pin root) steps w).reduceOption =
          paths.map (fun path => (path, pin.content path)) ∧
        (Machine.final (cacheMachine pin root) steps w).tree = w.tree := by
  obtain ⟨advances, hfinal, hanswers⟩ := replays_gets pid ⟨offline, none, .idle⟩ h.inv hwhole
    (fun path hpath => h.cached path (hpaths path hpath)) hnodirs chunk rfl
  have hstart : cacheMachine pin root (pid, .start offline) w = (none, w.put pid ⟨offline, none, .idle⟩) := by
    simp only [cacheMachine, hpid, World.put]
  refine ⟨advances, ?_, ?_⟩
  · rw [replay, List.map_cons, Machine.answers_cons, hstart]
    exact hanswers
  · rw [replay, List.map_cons, Machine.final_cons, hstart, hfinal]
    rfl

end

/-- What any process has ever been answered, a process started later is answered again, in any order and
with or without `--offline`, from the cache alone: it gets the same content without the remote and
leaves the files as they are. -/
theorem cache_replays (pin : Pin) (root : List PyStr) (asked : Set PyStr) (t : DiskTree PyStr Bytes)
    (hlines : ∀ source, pin.execDeps (Lines.universalNewlines source) = pin.execDeps source)
    (hapart : Apart pin root asked) (hfresh : Fresh root asked t) (steps : List (ℕ × Event))
    (hcareful : Machine.Throughout (cacheMachine pin root) (Careful root asked) steps (World.start t))
    {pid : ℕ} (hpid : (Machine.final (cacheMachine pin root) steps (World.start t)).procs pid = none)
    (hwhole : ∀ pid' other, (Machine.final (cacheMachine pin root) steps (World.start t)).procs pid' =
      some other → ∀ loc, ¬ Torn loc other.phase)
    (paths : List PyStr)
    (hanswered : ∀ path ∈ paths, ∃ value, some (path, value) ∈
      Machine.answers (cacheMachine pin root) steps (World.start t))
    (hnodirs : ∀ path ∈ paths, pin.content path = none →
      isDir (Machine.final (cacheMachine pin root) steps (World.start t)).tree (place root path) = false)
    (offline : Bool) (chunk : ℕ) :
    ∃ advances : PyStr → ℕ,
      let again := (replay offline advances chunk paths).map fun e => (pid, e)
      let w := Machine.final (cacheMachine pin root) steps (World.start t)
      (Machine.answers (cacheMachine pin root) again w).reduceOption =
          paths.map (fun path => (path, pin.content path)) ∧
        (Machine.final (cacheMachine pin root) again w).tree = w.tree := by
  refine (recorded_run hlines hapart hfresh hcareful).replays hpid hwhole (fun path hpath => ?_) hnodirs offline chunk
  obtain ⟨value, hvalue⟩ := hanswered path hpath
  exact Or.inr (mem_gathered_of_answer hvalue)

/-! The small remote -/

def Phase.isIdle : Phase → Bool
  | .idle => true
  | _ => false

/-- A process that takes no step stays as it is. -/
lemma final_procs (pin : Pin) (root : List PyStr) {steps : List (ℕ × Event)} {other : ℕ}
    (hother : ∀ step ∈ steps, other ≠ step.1) (w : World) :
    (Machine.final (cacheMachine pin root) steps w).procs other = w.procs other := by
  induction steps generalizing w with
  | nil => rfl
  | cons step steps ih =>
    rw [Machine.final_cons, ih fun s hs => hother s (List.mem_cons_of_mem _ hs)]
    exact cacheMachine_procs pin root (hother step List.mem_cons_self)

lemma sample_others {other : ℕ} (h : other ≠ 0) :
    (Machine.final (cacheMachine samplePin sampleRoot) sampleSteps (World.start emptyDisk)).procs other = none := by
  refine final_procs samplePin sampleRoot ?_ (World.start emptyDisk)
  intro step hstep
  obtain ⟨e, -, rfl⟩ := List.mem_map.mp hstep
  exact h

lemma sample_idle {proc : Proc}
    (h : (Machine.final (cacheMachine samplePin sampleRoot) sampleSteps (World.start emptyDisk)).procs 0 =
      some proc) (loc : List PyStr) : ¬ Torn loc proc.phase := by
  have hidle : ((Machine.final (cacheMachine samplePin sampleRoot) sampleSteps
      (World.start emptyDisk)).procs 0).all (fun p => p.phase.isIdle) = true := by
    decide +kernel
  rw [h, Option.all_some] at hidle
  cases hphase : proc.phase with
  | idle => exact fun htorn => htorn
  | _ =>
    rw [hphase] at hidle
    cases hidle

lemma sample_whole (other : ℕ) (proc : Proc)
    (h : (Machine.final (cacheMachine samplePin sampleRoot) sampleSteps (World.start emptyDisk)).procs other =
      some proc) : ∀ loc, ¬ Torn loc proc.phase := by
  by_cases hother : other = 0
  · rw [hother] at h
    exact sample_idle h
  · rw [sample_others hother] at h
    cases h

theorem sampleRun_replays : ∃ advances : PyStr → ℕ,
    let again := (replay true advances 0 [sampleName, sampleName]).map fun e => (1, e)
    let w := Machine.final (cacheMachine samplePin sampleRoot) sampleSteps (World.start emptyDisk)
    (Machine.answers (cacheMachine samplePin sampleRoot) again w).reduceOption =
        [sampleName, sampleName].map (fun path => (path, samplePin.content path)) ∧
      (Machine.final (cacheMachine samplePin sampleRoot) again w).tree = w.tree := by
  have hpaths : ∀ path ∈ [sampleName, sampleName], path = sampleName := by
    intro path hpath
    simpa using hpath
  refine cache_replays samplePin sampleRoot {sampleName} emptyDisk (fun _ => rfl) sample_apart sample_fresh
    sampleSteps sample_careful (sample_others one_ne_zero) sample_whole [sampleName, sampleName] ?_ ?_ true 0
  · intro path hpath
    rw [hpaths path hpath]
    exact ⟨some [1, 2], by decide +kernel⟩
  · intro path hpath
    rw [hpaths path hpath]
    intro h
    exact absurd h (by decide +kernel)

end
end T3dmium.SourceCache
