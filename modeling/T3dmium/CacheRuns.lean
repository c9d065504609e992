import T3dmium.CacheSteps

/-! When the cache is transparent. A file is in the cache before all of it is written, and
markers share the directory with the files. -/
namespace T3dmium.SourceCache
open TreeWalk FileTree Pathlib

section
variable (pin : Pin) (root : List PyStr) (asked : Set PyStr)

/-- A step that keeps files whole: no process ends in the middle of a file, none opens a file
that another has not finished writing, and none rewrites one that another has not finished
reading or writing. -/
structure Careful (step : ℕ × Event) (w : World) : Prop where
  asked : ∀ relPath, step.2 = .get relPath → relPath ∈ asked
  whole : step.2 = .kill ∨ step.2 = .fault → ∀ proc, w.procs step.1 = some proc →
    ∀ loc, ¬ Torn loc proc.phase
  readers : ∀ chunk proc kept loc, step.2 = .advance chunk → w.procs step.1 = some proc →
    proc.phase = .opening kept → follow w.tree root kept.path = some loc →
      ∀ pid other, w.procs pid = some other → ¬ Torn loc other.phase
  writers : ∀ chunk proc store loc, step.2 = .advance chunk → w.procs step.1 = some proc →
    proc.phase = .creating store → follow w.tree root store.path = some loc →
      ∀ pid other, w.procs pid = some other → ¬ Midway w.tree loc other.phase

/-- Every file has its content or is being written; every marker is true. -/
structure Inv (w : World) : Prop where
  files : ∀ q, Known asked q → ∀ c, w.tree (place root q) = some (.file c) →
    ∃ b, pin.content q = some b ∧ c <+: b ∧
      (c = b ∨ ∃ pid proc, w.procs pid = some proc ∧ Torn (place root q) proc.phase)
  markers : ∀ p ∈ asked, w.tree (place root (markerPath p)) ≠ none → pin.content p = none
  procs : ∀ pid proc, w.procs pid = some proc → ProcOk pin root asked w.tree proc
  alone : ∀ pid pid' proc proc' loc, w.procs pid = some proc → w.procs pid' = some proc' →
    Torn loc proc.phase → Torn loc proc'.phase → pid = pid'

end

variable {pin : Pin} {root : List PyStr} {asked : Set PyStr} {t : DiskTree PyStr Bytes} {proc : Proc}

/-! The invariant -/

lemma Torn.midway {loc : List PyStr} {phase : Phase} (h : Torn loc phase) (t : DiskTree PyStr Bytes) :
    Midway t loc phase := by
  cases phase with
  | writing store l done => exact h
  | _ => exact h.elim

/-- What stands at a place may change where nobody is in the middle of it. -/
lemma ProcOk.update (h : ProcOk pin root asked t proc) {loc : List PyStr} (hmid : ¬ Midway t loc proc.phase)
    (node : Option (Node Bytes)) : ProcOk pin root asked (Function.update t loc node) proc := by
  refine ⟨h.depMap, ?_⟩
  have hok := h.phase
  cases hphase : proc.phase with
  | reading kept l bytes =>
    rw [hphase] at hok hmid
    obtain ⟨hkept, hl, b, hcontent, hbytes, hwhole⟩ := hok
    refine ⟨hkept, hl, b, hcontent, hbytes, ?_⟩
    rcases hwhole with hwhole | hfile
    · exact Or.inl hwhole
    · by_cases heq : l = loc
      · left
        have hat : contentAt t loc = b := by rw [contentAt, ← heq, hfile]
        have hlong : ¬ bytes.length < b.length := fun hlt => hmid ⟨heq, by rwa [hat]⟩
        exact hbytes.eq_of_length_le (Nat.le_of_not_lt hlong)
      · right
        rwa [Function.update_of_ne heq]
  | writing store l done =>
    rw [hphase] at hok hmid
    obtain ⟨hstore, hl, hfile⟩ := hok
    refine ⟨hstore, hl, ?_⟩
    intro hlt
    have hne : l ≠ loc := fun heq => hmid ⟨heq, hlt⟩
    rw [Function.update_of_ne hne]
    exact hfile hlt
  | _ =>
    rw [hphase] at hok
    exact hok

lemma ProcOk.not_midway_of_none (h : ProcOk pin root asked t proc) {loc : List PyStr} (hnone : t loc = none) :
    ¬ Midway t loc proc.phase := by
  have hok := h.phase
  cases hphase : proc.phase with
  | reading kept l bytes =>
    rintro ⟨-, hlt⟩
    rw [contentAt, hnone] at hlt
    exact absurd hlt (Nat.not_lt_zero _)
  | writing store l done =>
    rw [hphase] at hok
    rintro ⟨rfl, hlt⟩
    rw [hok.2.2 hlt] at hnone
    cases hnone
  | _ => exact not_false

lemma StoreOk.content (hapart : Apart pin root asked) {store : Store} (h : StoreOk pin asked store) {q : PyStr}
    (hq : Known asked q) (hplace : place root q = place root store.path) :
    pin.content q = some store.data := by
  cases store with
  | file relPath content => exact (hapart.same q relPath hq (Or.inl h.1) hplace).trans h.2
  | marker relPath =>
    have hmem := place_mem_passes root q
    rw [hplace] at hmem
    exact absurd hmem (hapart.marker relPath h.1 q hq)
  | deps relPath source =>
    exact (hapart.same q depsPath hq (Or.inr rfl) hplace).trans (content_of_src h.2.2)

lemma StoreOk.marker (hapart : Apart pin root asked) {store : Store} (h : StoreOk pin asked store) {p : PyStr}
    (hp : p ∈ asked) (hpass : place root (markerPath p) ∈ passes root store.path) : pin.content p = none := by
  cases store with
  | file relPath content => exact absurd hpass (hapart.marker p hp relPath (Or.inl h.1))
  | marker relPath => exact hapart.markers p hp relPath h.1 hpass h.2
  | deps relPath source => exact absurd hpass (hapart.marker p hp depsPath (Or.inr rfl))

section
variable {w : World} {pid : ℕ}

lemma update_eq_some {procs : ℕ → Option Proc} {new : Option Proc} {pid' : ℕ} {other : Proc}
    (h : Function.update procs pid new pid' = some other) :
    (pid' = pid ∧ new = some other) ∨ (pid' ≠ pid ∧ procs pid' = some other) := by
  by_cases heq : pid' = pid
  · subst heq
    rw [Function.update_self] at h
    exact Or.inl ⟨rfl, h⟩
  · rw [Function.update_of_ne heq] at h
    exact Or.inr ⟨heq, h⟩

/-- A step that touches no file. -/
lemma Inv.settle (hinv : Inv pin root asked w) {new : Option Proc}
    (hold : ∀ proc, w.procs pid = some proc → ∀ loc, ¬ Torn loc proc.phase)
    (hnew : ∀ proc, new = some proc → ProcOk pin root asked w.tree proc ∧ ∀ loc, ¬ Torn loc proc.phase) :
    Inv pin root asked ⟨w.tree, Function.update w.procs pid new⟩ := by
  constructor
  · intro q hq c hc
    obtain ⟨b, hb, hprefix, hwhole⟩ := hinv.files q hq c hc
    refine ⟨b, hb, hprefix, hwhole.imp_right ?_⟩
    rintro ⟨pid', other, hother, htorn⟩
    have hne : pid' ≠ pid := by
      rintro rfl
      exact hold other hother _ htorn
    exact ⟨pid', other, (Function.update_of_ne hne _ _).trans hother, htorn⟩
  · exact hinv.markers
  · intro pid' other h
    rcases update_eq_some h with ⟨-, h⟩ | ⟨-, h⟩
    · exact (hnew other h).1
    · exact hinv.procs pid' other h
  · intro a b proc proc' loc ha hb hta htb
    rcases update_eq_some ha with ⟨-, ha⟩ | ⟨-, ha⟩
    · exact absurd hta ((hnew proc ha).2 loc)
    · rcases update_eq_some hb with ⟨-, hb⟩ | ⟨-, hb⟩
      · exact absurd htb ((hnew proc' hb).2 loc)
      · exact hinv.alone a b proc proc' loc ha hb hta htb

/-- A directory is made on the way to what will be stored. -/
lemma Inv.made (hinv : Inv pin root asked w) (hapart : Apart pin root asked) {store : Store}
    (hstore : StoreOk pin asked store) {pos : List PyStr} (hpos : pos ∈ passes root store.path)
    (hnone : w.tree pos = none) :
    Inv pin root asked ⟨Function.update w.tree pos (some .dir), w.procs⟩ := by
  constructor
  · intro q hq c hc
    have hne : place root q ≠ pos := by
      rintro rfl
      dsimp only at hc
      rw [Function.update_self] at hc
      cases hc
    dsimp only at hc
    rw [Function.update_of_ne hne] at hc
    exact hinv.files q hq c hc
  · intro p hp hsome
    by_cases heq : place root (markerPath p) = pos
    · rw [← heq] at hpos
      exact hstore.marker hapart hp hpos
    · dsimp only at hsome
      rw [Function.update_of_ne heq] at hsome
      exact hinv.markers p hp hsome
  · intro pid' other h
    have hok := hinv.procs pid' other h
    exact hok.update (hok.not_midway_of_none hnone) _
  · exact hinv.alone

/-- The first bytes of what is to be stored are in place, and nobody else is in the middle of
the file. -/
lemma Inv.wrote (hinv : Inv pin root asked w) (hapart : Apart pin root asked)
    (hproc : w.procs pid = some proc) {store : Store} (hstore : StoreOk pin asked store)
    (hold : ∀ loc, Torn loc proc.phase → loc = place root store.path)
    (hothers : ∀ pid' other, pid' ≠ pid → w.procs pid' = some other →
      ¬ Midway w.tree (place root store.path) other.phase) (n : ℕ) :
    Inv pin root asked
      ⟨Function.update w.tree (place root store.path) (some (.file (store.data.take n))),
        Function.update w.procs pid (some (proc.goto (.writing store (place root store.path) n)))⟩ := by
  constructor
  · intro q hq c hc
    by_cases heq : place root q = place root store.path
    · dsimp only at hc
      rw [heq, Function.update_self] at hc
      obtain rfl := Node.file.inj (Option.some.inj hc)
      refine ⟨store.data, hstore.content hapart hq heq, List.take_prefix _ _, ?_⟩
      rcases Nat.lt_or_ge n store.data.length with hlt | hge
      · exact Or.inr ⟨pid, _, Function.update_self _ _ _, heq.symm, hlt⟩
      · exact Or.inl (List.take_of_length_le hge)
    · dsimp only at hc
      rw [Function.update_of_ne heq] at hc
      obtain ⟨b, hb, hprefix, hwhole⟩ := hinv.files q hq c hc
      refine ⟨b, hb, hprefix, hwhole.imp_right ?_⟩
      rintro ⟨pid', other, hother, htorn⟩
      have hne : pid' ≠ pid := by
        rintro rfl
        rw [hproc] at hother
        obtain rfl := Option.some.inj hother
        exact heq (hold _ htorn)
      exact ⟨pid', other, (Function.update_of_ne hne _ _).trans hother, htorn⟩
  · intro p hp hsome
    by_cases heq : place root (markerPath p) = place root store.path
    · refine hstore.marker hapart hp ?_
      rw [heq]
      exact place_mem_passes root store.path
    · dsimp only at hsome
      rw [Function.update_of_ne heq] at hsome
      exact hinv.markers p hp hsome
  · intro pid' other h
    rcases update_eq_some h with ⟨-, h⟩ | ⟨hne, h⟩
    · obtain rfl := Option.some.inj h
      have hphase : PhaseOk pin root asked
          (Function.update w.tree (place root store.path) (some (.file (store.data.take n))))
          proc.offline (.writing store (place root store.path) n) :=
        ⟨hstore, rfl, fun _ => Function.update_self _ _ _⟩
      exact ⟨(hinv.procs pid proc hproc).depMap, hphase⟩
    · exact (hinv.procs pid' other h).update (hothers pid' other hne h) _
  · intro a b proc₁ proc₂ loc ha hb hta htb
    rcases update_eq_some ha with ⟨hpida, hnewa⟩ | ⟨hnea, holda⟩
    · rcases update_eq_some hb with ⟨hpidb, -⟩ | ⟨hneb, holdb⟩
      · rw [hpida, hpidb]
      · obtain rfl := Option.some.inj hnewa
        obtain ⟨rfl, -⟩ := hta
        exact absurd (htb.midway w.tree) (hothers b proc₂ hneb holdb)
    · rcases update_eq_some hb with ⟨-, hnewb⟩ | ⟨hneb, holdb⟩
      · obtain rfl := Option.some.inj hnewb
        obtain ⟨rfl, -⟩ := htb
        exact absurd (hta.midway w.tree) (hothers a proc₁ hnea holda)
      · exact hinv.alone a b proc₁ proc₂ loc holda holdb hta htb

end

/-- Bytes go where the last ones ended. -/
lemma overwrite_take {data bytes : Bytes} {done : ℕ} (h : bytes <+: data.drop done) (hne : bytes ≠ []) :
    overwrite (data.take done) done bytes = data.take (done + bytes.length) := by
  have hlength : (data.take done).length = done := by
    have hle := h.length_le
    have hpos := List.length_pos_iff.mpr hne
    rw [List.length_drop] at hle
    rw [List.length_take]
    omega
  have hgap : done - (data.take done).length = 0 := by omega
  have hpast : (data.take done).drop (done + bytes.length) = [] := by
    rw [List.drop_eq_nil_iff]
    omega
  obtain ⟨rest, hrest⟩ := h
  have hbytes : bytes = (data.drop done).take bytes.length := by rw [← hrest, List.take_left]
  rw [overwrite, hgap, hpast, List.take_take, Nat.min_self, List.replicate_zero, List.append_nil,
    List.append_nil, List.take_add, ← hbytes]

/-! Steps -/

lemma not_torn_of_answered {o : Outcome} (h : answered pin proc = some o) (loc : List PyStr) :
    ¬ Torn loc proc.phase := by
  cases hphase : proc.phase with
  | writing store l done =>
    rw [answered, hphase] at h
    cases h
  | _ => exact not_false

lemma not_torn_of_refused {again : Bool} {o : Outcome} (h : refused proc again = some o) (loc : List PyStr) :
    ¬ Torn loc proc.phase := by
  cases hphase : proc.phase with
  | writing store l done =>
    rw [refused, hphase] at h
    cases h
  | _ => exact not_false

/-- What is right after a step: the files and the processes, and what the step returns. -/
structure StepOk (pin : Pin) (root : List PyStr) (asked : Set PyStr) (next : Answer × World) : Prop where
  inv : Inv pin root asked next.2
  answer : ∀ relPath value, next.1 = some (relPath, value) → value = pin.content relPath

section
variable {w : World} {pid : ℕ}

lemma Inv.stepOk_none (hinv : Inv pin root asked w) : StepOk pin root asked (none, w) := by
  refine ⟨hinv, ?_⟩
  intro relPath value h
  cases h

lemma Inv.stepOk (hinv : Inv pin root asked w) {o : Outcome}
    (hold : ∀ proc, w.procs pid = some proc → ∀ loc, ¬ Torn loc proc.phase)
    (ho : OutcomeOk pin root asked w.tree o) :
    StepOk pin root asked (o.answer, ⟨w.tree, Function.update w.procs pid o.proc⟩) :=
  ⟨hinv.settle hold ho.proc, ho.answer⟩

/-- While a file is being written, who has it open has read all of it before. -/
lemma Inv.not_midway_of_torn (hinv : Inv pin root asked w) (hapart : Apart pin root asked)
    (hproc : w.procs pid = some proc) {store : Store} {done : ℕ}
    (hphase : proc.phase = .writing store (place root store.path) done) (hlt : done < store.data.length)
    {pid' : ℕ} {other : Proc} (hne : pid' ≠ pid) (hother : w.procs pid' = some other) :
    ¬ Midway w.tree (place root store.path) other.phase := by
  have hok := (hinv.procs pid proc hproc).phase
  have hok' := (hinv.procs pid' other hother).phase
  rw [hphase] at hok
  obtain ⟨hstore, -, hfile⟩ := hok
  have htorn : Torn (place root store.path) proc.phase := by
    rw [hphase]
    exact ⟨rfl, hlt⟩
  have htake : (store.data.take done).length = done := by
    rw [List.length_take]
    omega
  cases hphase' : other.phase with
  | writing store' l done' =>
    intro hmid
    refine hne (hinv.alone pid' pid other proc _ hother hproc ?_ htorn)
    rw [hphase']
    exact hmid
  | reading kept l bytes =>
    rw [hphase'] at hok'
    obtain ⟨hkept, hl, b, hcontent, -, hwhole⟩ := hok'
    rintro ⟨hplace, hshort⟩
    rw [hplace] at hl hwhole
    rw [hstore.content hapart hkept.known hl.symm] at hcontent
    obtain rfl := Option.some.inj hcontent
    rw [contentAt, hfile hlt, htake] at hshort
    rcases hwhole with rfl | hall
    · omega
    · rw [hfile hlt] at hall
      rw [Node.file.inj (Option.some.inj hall)] at htake
      omega
  | _ => exact not_false

/-- A step that touches a file. -/
lemma Inv.touched (hinv : Inv pin root asked w) (hapart : Apart pin root asked)
    (hproc : w.procs pid = some proc) {t' : DiskTree PyStr Bytes} {o : Outcome}
    (htouches : Touches root w.tree proc t' o)
    (hwriters : ∀ store loc, proc.phase = .creating store → follow w.tree root store.path = some loc →
      ∀ pid' other, w.procs pid' = some other → ¬ Midway w.tree loc other.phase) :
    StepOk pin root asked (o.answer, ⟨t', Function.update w.procs pid o.proc⟩) := by
  have hok := (hinv.procs pid proc hproc).phase
  cases htouches with
  | makes store pos hphase hpos hnone =>
    rw [hphase] at hok
    have hsame : Function.update w.procs pid (some proc) = w.procs := by
      rw [← hproc]
      exact Function.update_eq_self pid w.procs
    refine ⟨?_, ?_⟩
    · dsimp only [Outcome.proc]
      rw [hsame]
      exact hinv.made hapart hok hpos hnone
    · intro relPath value h
      cases h
  | creates store loc hphase hloc hdir =>
    rw [hphase] at hok
    refine ⟨?_, ?_⟩
    · obtain rfl := follow_place hloc
      refine hinv.wrote hapart hproc hok ?_ ?_ 0
      · intro loc htorn
        rw [hphase] at htorn
        exact htorn.elim
      · exact fun pid' other _ hother => hwriters store _ hphase hloc pid' other hother
    · intro relPath value h
      cases h
  | writes store loc done bytes hphase hbytes hne =>
    rw [hphase] at hok
    obtain ⟨hstore, rfl, hfile⟩ := hok
    have hlt : done < store.data.length := by
      have hle := hbytes.length_le
      have hpos := List.length_pos_iff.mpr hne
      rw [List.length_drop] at hle
      omega
    have htorn : Torn (place root store.path) proc.phase := by
      rw [hphase]
      exact ⟨rfl, hlt⟩
    have hat : contentAt w.tree (place root store.path) = store.data.take done := by
      rw [contentAt, hfile hlt]
    refine ⟨?_, ?_⟩
    · dsimp only
      rw [hat, overwrite_take hbytes hne]
      refine hinv.wrote hapart hproc hstore ?_ ?_ _
      · intro loc h
        rw [hphase] at h
        exact h.1.symm
      · exact fun pid' other hne hother => hinv.not_midway_of_torn hapart hproc hphase hlt hne hother
    · intro relPath value h
      cases h

/-- What is opened for reading is all there. -/
lemma Inv.opened (hinv : Inv pin root asked w) (hproc : w.procs pid = some proc) {kept : Kept}
    {loc : List PyStr} (hphase : proc.phase = .opening kept) (hfollow : follow w.tree root kept.path = some loc)
    (hwhole : ∀ pid' other, w.procs pid' = some other → ¬ Torn loc other.phase) {c : Bytes}
    (hc : w.tree loc = some (.file c)) : pin.content kept.path = some c := by
  have hok := (hinv.procs pid proc hproc).phase
  rw [hphase] at hok
  have hkept : KeptOk pin asked kept := hok
  obtain rfl := follow_place hfollow
  obtain ⟨b, hb, -, hcases⟩ := hinv.files kept.path hkept.known c hc
  rcases hcases with rfl | ⟨pid', other, hother, htorn⟩
  · exact hb
  · exact absurd htorn (hwhole pid' other hother)

lemma cacheMachine_some {e : Event} {t' : DiskTree PyStr Bytes} {o : Outcome} (hproc : w.procs pid = some proc)
    (h : effect pin root w.tree proc e = some (t', o)) :
    cacheMachine pin root (pid, e) w = (o.answer, ⟨t', Function.update w.procs pid o.proc⟩) := by
  rw [cacheMachine]
  dsimp only
  rw [hproc]
  dsimp only
  rw [h]

lemma cacheMachine_stuck {e : Event} (hproc : w.procs pid = some proc)
    (h : effect pin root w.tree proc e = none) : cacheMachine pin root (pid, e) w = (none, w) := by
  rw [cacheMachine]
  dsimp only
  rw [hproc]
  dsimp only
  rw [h]

lemma start_ok (offline : Bool) : OutcomeOk pin root asked t (.goes ⟨offline, none, .idle⟩) := by
  constructor
  · intro new hnew
    obtain rfl := Option.some.inj hnew
    refine ⟨⟨?_, trivial⟩, fun _ => not_false⟩
    intro depMap hmap
    cases hmap
  · intro relPath value h
    cases h

/-- What a careful step does to a process that lives. -/
lemma Inv.effect (hlines : ∀ source, pin.execDeps (Lines.universalNewlines source) = pin.execDeps source)
    (hapart : Apart pin root asked) (hinv : Inv pin root asked w) (hproc : w.procs pid = some proc) {e : Event}
    (hcareful : Careful root asked (pid, e) w) {t' : DiskTree PyStr Bytes} {o : Outcome}
    (h : effect pin root w.tree proc e = some (t', o)) :
    StepOk pin root asked (o.answer, ⟨t', Function.update w.procs pid o.proc⟩) := by
  have hok := hinv.procs pid proc hproc
  have hold : (∀ loc, ¬ Torn loc proc.phase) → ∀ other, w.procs pid = some other →
      ∀ loc, ¬ Torn loc other.phase := by
    intro hwhole other hother
    rw [hproc] at hother
    rwa [← Option.some.inj hother]
  cases e with
  | start offline => cases h
  | get relPath =>
    rw [SourceCache.effect] at h
    cases hphase : proc.phase with
    | idle =>
      rw [hphase] at h
      obtain ⟨rfl, rfl⟩ := Prod.mk.inj (Option.some.inj h)
      refine hinv.stepOk (hold ?_) (hok.goes (hcareful.asked relPath rfl) fun _ => not_false)
      rw [hphase]
      exact fun _ => not_false
    | _ =>
      rw [hphase] at h
      cases h
  | advance chunk =>
    have hquiet := hok.advance hlines hinv.markers
      (fun q hq c hc => (hinv.files q hq c hc).imp fun _ hb => ⟨hb.1, hb.2.1⟩)
      (fun kept loc hphase hfollow c hc => hinv.opened hproc hphase hfollow
        (hcareful.readers chunk proc kept loc rfl hproc hphase hfollow) hc) h
    rcases hquiet with ⟨rfl, hwhole, ho⟩ | htouches
    · exact hinv.stepOk (hold hwhole) ho
    · exact hinv.touched hapart hproc htouches fun store loc hphase hfollow =>
        hcareful.writers chunk proc store loc rfl hproc hphase hfollow
  | answered =>
    obtain ⟨o', ho', heq⟩ := Option.map_eq_some_iff.mp h
    obtain ⟨rfl, rfl⟩ := Prod.mk.inj heq
    exact hinv.stepOk (hold (not_torn_of_answered ho')) (hok.answered ho')
  | refused again =>
    obtain ⟨o', ho', heq⟩ := Option.map_eq_some_iff.mp h
    obtain ⟨rfl, rfl⟩ := Prod.mk.inj heq
    exact hinv.stepOk (hold (not_torn_of_refused ho')) (hok.refused ho')
  | fault =>
    obtain ⟨rfl, rfl⟩ := Prod.mk.inj (Option.some.inj h)
    exact hinv.stepOk (hcareful.whole (Or.inr rfl)) hok.raises
  | kill =>
    obtain ⟨rfl, rfl⟩ := Prod.mk.inj (Option.some.inj h)
    refine hinv.stepOk (hcareful.whole (Or.inl rfl)) ⟨?_, ?_⟩
    · intro new hnew
      cases hnew
    · intro relPath value hanswer
      cases hanswer

lemma Inv.step (hlines : ∀ source, pin.execDeps (Lines.universalNewlines source) = pin.execDeps source)
    (hapart : Apart pin root asked) {step : ℕ × Event} (hcareful : Careful root asked step w)
    (hinv : Inv pin root asked w) : StepOk pin root asked (cacheMachine pin root step w) := by
  obtain ⟨pid, e⟩ := step
  cases hproc : w.procs pid with
  | none =>
    rw [cacheMachine]
    dsimp only
    rw [hproc]
    dsimp only
    cases e with
    | start offline =>
      refine hinv.stepOk (o := .goes ⟨offline, none, .idle⟩) ?_ (start_ok offline)
      intro proc h
      rw [hproc] at h
      cases h
    | _ => exact hinv.stepOk_none
  | some proc =>
    cases heffect : SourceCache.effect pin root w.tree proc e with
    | none =>
      rw [cacheMachine_stuck hproc heffect]
      exact hinv.stepOk_none
    | some next =>
      obtain ⟨t', o⟩ := next
      rw [cacheMachine_some hproc heffect]
      exact hinv.effect hlines hapart hproc hcareful heffect

end

lemma inv_start (hfresh : Fresh root asked t) : Inv pin root asked (World.start t) := by
  constructor
  · intro q hq c hc
    have hfile := hfresh.files q hq
    rw [isFile] at hfile
    have hnode : t (place root q) = some (.file c) := hc
    rw [hnode] at hfile
    cases hfile
  · intro p hp hsome
    exact absurd (hfresh.markers p hp) hsome
  · intro pid proc h
    cases h
  · intro pid pid' proc proc' loc h
    cases h

/-! One process -/

/-- Process `pid` is the only one. -/
def Alone (pid : ℕ) (w : World) : Prop := ∀ other, other ≠ pid → w.procs other = none

/-- A step of process `pid` that does not stop it. -/
structure Undisturbed (asked : Set PyStr) (pid : ℕ) (step : ℕ × Event) : Prop where
  own : step.1 = pid
  notKill : step.2 ≠ .kill
  notFault : step.2 ≠ .fault
  asked : ∀ relPath, step.2 = .get relPath → relPath ∈ asked

lemma cacheMachine_procs (pin : Pin) (root : List PyStr) {step : ℕ × Event} {w : World} {other : ℕ}
    (h : other ≠ step.1) : (cacheMachine pin root step w).2.procs other = w.procs other := by
  rw [cacheMachine]
  split
  · split
    · exact Function.update_of_ne h _ _
    · rfl
  · split
    · rfl
    · exact Function.update_of_ne h _ _

lemma Alone.careful {pid : ℕ} {w : World} {step : ℕ × Event} (hw : Alone pid w)
    (hstep : Undisturbed asked pid step) : Careful root asked step w := by
  have honly : ∀ proc, w.procs step.1 = some proc → ∀ pid' other, w.procs pid' = some other → other = proc := by
    intro proc hproc pid' other hother
    by_cases heq : pid' = pid
    · rw [heq, ← hstep.own, hproc] at hother
      exact (Option.some.inj hother).symm
    · rw [hw pid' heq] at hother
      cases hother
  refine ⟨hstep.asked, ?_, ?_, ?_⟩
  · rintro (h | h)
    · exact absurd h hstep.notKill
    · exact absurd h hstep.notFault
  · intro chunk proc kept loc _ hproc hphase _ pid' other hother
    rw [honly proc hproc pid' other hother, hphase]
    exact not_false
  · intro chunk proc store loc _ hproc hphase _ pid' other hother
    rw [honly proc hproc pid' other hother, hphase]
    exact not_false

/-- One process that nothing stops keeps files whole. -/
lemma careful_of_alone {pid : ℕ} {steps : List (ℕ × Event)} {w : World} (hw : Alone pid w)
    (hsteps : ∀ step ∈ steps, Undisturbed asked pid step) :
    Machine.Throughout (cacheMachine pin root) (Careful root asked) steps w := by
  induction steps generalizing w with
  | nil => trivial
  | cons step steps ih =>
    have hstep := hsteps step List.mem_cons_self
    refine ⟨hw.careful hstep, ih ?_ fun s hs => hsteps s (List.mem_cons_of_mem _ hs)⟩
    intro other hne
    rw [← hstep.own] at hne
    rw [cacheMachine_procs pin root hne]
    rw [hstep.own] at hne
    exact hw other hne

/-- In every run that keeps files whole and asks for paths whose markers are apart, what `get`
returns is what the pin has; every marker is true, and every file is complete or being written. -/
theorem cache_transparent (pin : Pin) (root : List PyStr) (asked : Set PyStr) (t : DiskTree PyStr Bytes)
    (hlines : ∀ source, pin.execDeps (Lines.universalNewlines source) = pin.execDeps source)
    (hapart : Apart pin root asked) (hfresh : Fresh root asked t) (steps : List (ℕ × Event))
    (hcareful : Machine.Throughout (cacheMachine pin root) (Careful root asked) steps (World.start t)) :
    (∀ relPath value,
      some (relPath, value) ∈ Machine.answers (cacheMachine pin root) steps (World.start t) →
        value = pin.content relPath) ∧
    (∀ relPath ∈ asked,
      (Machine.final (cacheMachine pin root) steps (World.start t)).tree (place root (markerPath relPath)) ≠ none →
        pin.content relPath = none) ∧
    ∀ relPath ∈ asked, ∀ content,
      (Machine.final (cacheMachine pin root) steps (World.start t)).tree (place root relPath) =
        some (.file content) →
      pin.content relPath = some content ∨ ∃ pid proc,
        (Machine.final (cacheMachine pin root) steps (World.start t)).procs pid = some proc ∧
          Torn (place root relPath) proc.phase := by
  have hstart : Inv pin root asked (World.start t) := inv_start hfresh
  have hfinal := Machine.final_invariant (Inv pin root asked)
    (fun step w hstep hinv => (hinv.step hlines hapart hstep).inv) hcareful hstart
  have hanswers := Machine.answers_of_invariant (Inv pin root asked)
    (fun a => ∀ relPath value, a = some (relPath, value) → value = pin.content relPath)
    (fun step w hstep hinv => (hinv.step hlines hapart hstep).inv)
    (fun step w hstep hinv => (hinv.step hlines hapart hstep).answer) hcareful hstart
  refine ⟨fun relPath value h => hanswers _ h relPath value rfl, hfinal.markers, ?_⟩
  intro relPath hasked content hcontent
  obtain ⟨b, hb, -, hwhole⟩ := hfinal.files relPath (Or.inl hasked) content hcontent
  rcases hwhole with rfl | htorn
  · exact Or.inl hb
  · exact Or.inr htorn

/-! A small remote -/

def sampleName : PyStr := .ofString "a"

def sampleAbsent : PyStr := .ofString "b"

/-- chromium/src has `a` and an empty `DEPS`. -/
def samplePin : Pin where
  src := fun path => if path = sampleName then some [1, 2] else if path = depsPath then some [] else none
  subrepo := fun _ _ _ => none
  execDeps := fun _ => some []

def sampleRoot : List PyStr := [.ofString "cache"]

def emptyDisk : DiskTree PyStr Bytes := fun pos => if pos = [] then some .dir else none

/-- `a` is fetched at the second attempt, and read from the cache the next time. -/
def sampleSteps : List (ℕ × Event) :=
  [.start false, .get sampleName, .advance 0, .advance 0, .refused true, .answered, .advance 0, .advance 0,
    .advance 0, .advance 7, .advance 7, .get sampleName, .advance 0, .advance 0, .advance 0, .advance 0,
    .advance 0].map fun e => (0, e)

lemma sample_apart : Apart samplePin sampleRoot {sampleName} := by
  apply apart_of_plain
  · rintro p rfl
    have hpieces : pieces sampleName = [sampleName] := by decide
    intro piece hpiece
    rw [hpieces] at hpiece
    rw [List.mem_singleton.mp hpiece]
    exact ⟨by decide, by decide, by decide, by decide⟩
  · rintro p rfl q (rfl | rfl)
    · decide
    · decide

lemma sample_fresh : Fresh sampleRoot {sampleName} emptyDisk := by
  constructor
  · rintro p (rfl | rfl)
    · decide
    · decide
  · rintro p rfl
    decide

lemma sample_careful :
    Machine.Throughout (cacheMachine samplePin sampleRoot) (Careful sampleRoot {sampleName}) sampleSteps
      (World.start emptyDisk) := by
  have halone : Alone 0 (World.start emptyDisk) := fun _ _ => rfl
  refine careful_of_alone halone ?_
  intro step hstep
  obtain ⟨e, he, rfl⟩ := List.mem_map.mp hstep
  refine ⟨rfl, ?_, ?_, ?_⟩
  · rintro rfl
    simp at he
  · rintro rfl
    simp at he
  · rintro relPath rfl
    simpa using he

theorem sampleRun_transparent :
    (some (sampleName, some [1, 2]) ∈
      Machine.answers (cacheMachine samplePin sampleRoot) sampleSteps (World.start emptyDisk)) ∧
    ∀ relPath value, some (relPath, value) ∈
      Machine.answers (cacheMachine samplePin sampleRoot) sampleSteps (World.start emptyDisk) →
        value = samplePin.content relPath :=
  ⟨by decide +kernel, (cache_transparent samplePin sampleRoot {sampleName} emptyDisk (fun _ => rfl) sample_apart
    sample_fresh sampleSteps sample_careful).1⟩

/-- A process is killed when half of `a` is written; another, offline, reads it. -/
def tornSteps : List (ℕ × Event) :=
  ([.start false, .get sampleName, .advance 0, .advance 0, .answered, .advance 0, .advance 0, .advance 0,
    .advance 0, .kill].map fun e => (0, e)) ++
  [.start true, .get sampleName, .advance 0, .advance 0, .advance 0, .advance 0].map fun e => (1, e)

/-- `b` is nowhere; then its marker is asked for. -/
def markerSteps : List (ℕ × Event) :=
  [.start false, .get sampleAbsent, .advance 0, .advance 0, .answered, .advance 0, .advance 0, .answered,
    .advance 0, .advance 0, .advance 0, .advance 0, .advance 0, .advance 0, .advance 0, .advance 0,
    .get (markerPath sampleAbsent), .advance 0, .advance 0, .advance 0].map fun e => (0, e)

/-- Half a file is returned for the whole one, and a marker for a file that is nowhere. -/
theorem cache_opaque :
    (some (sampleName, some [1]) ∈
      Machine.answers (cacheMachine samplePin sampleRoot) tornSteps (World.start emptyDisk) ∧
      samplePin.content sampleName = some [1, 2]) ∧
    (some (markerPath sampleAbsent, some []) ∈
      Machine.answers (cacheMachine samplePin sampleRoot) markerSteps (World.start emptyDisk) ∧
      samplePin.content (markerPath sampleAbsent) = none) := by
  refine ⟨⟨by decide +kernel, by decide +kernel⟩, by decide +kernel, by decide +kernel⟩

end T3dmium.SourceCache
