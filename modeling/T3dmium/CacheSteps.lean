import T3dmium.CachePlaces

/-! The steps of a process that uses the cache: those that touch no file, and what the others
do to the files. -/
namespace T3dmium.SourceCache
open TreeWalk FileTree Pathlib

section
variable (pin : Pin) (root : List PyStr) (asked : Set PyStr)

/-- `loc` is open for writing and not all there yet. -/
def Torn (loc : List PyStr) : Phase → Prop
  | .writing store l done => l = loc ∧ done < store.data.length
  | _ => False

/-- `loc` is open for writing and not all there yet, or for reading and not read to its end. -/
def Midway (t : DiskTree PyStr Bytes) (loc : List PyStr) : Phase → Prop
  | .writing store l done => l = loc ∧ done < store.data.length
  | .reading _ l bytes => l = loc ∧ bytes.length < (contentAt t loc).length
  | _ => False

/-! What holds in between -/

def KeptOk : Kept → Prop
  | .file relPath => relPath ∈ asked
  | .deps relPath => relPath ∈ asked ∧ pin.src relPath = none

def StoreOk : Store → Prop
  | .file relPath content => relPath ∈ asked ∧ pin.content relPath = some content
  | .marker relPath => relPath ∈ asked ∧ pin.content relPath = none
  | .deps relPath source =>
    relPath ∈ asked ∧ pin.src relPath = none ∧ pin.src depsPath = some (encodeUtf8 source)

def PhaseOk (t : DiskTree PyStr Bytes) (offline : Bool) : Phase → Prop
  | .idle => True
  | .checking kept | .opening kept => KeptOk pin asked kept
  | .checkingMarker relPath => relPath ∈ asked
  | .reading kept loc bytes => KeptOk pin asked kept ∧ loc = place root kept.path ∧
    ∃ b, pin.content kept.path = some b ∧ bytes <+: b ∧ (bytes = b ∨ t loc = some (.file b))
  | .fetching relPath _ => relPath ∈ asked ∧ offline = false
  | .mapping relPath => relPath ∈ asked ∧ pin.src relPath = none ∧ offline = false
  | .fetchingDeps relPath => relPath ∈ asked ∧ pin.src relPath = none
  | .resolving relPath depMap =>
    relPath ∈ asked ∧ pin.src relPath = none ∧ pin.depMap = some depMap
  | .making store | .creating store => StoreOk pin asked store
  | .writing store loc done => StoreOk pin asked store ∧ loc = place root store.path ∧
    (done < store.data.length → t loc = some (.file (store.data.take done)))

structure ProcOk (t : DiskTree PyStr Bytes) (proc : Proc) : Prop where
  depMap : ∀ depMap, proc.depMap = some depMap → pin.depMap = some depMap
  phase : PhaseOk pin root asked t proc.offline proc.phase

/-- A step of one process that touches no file leaves it in order, and what it returns is
right. -/
structure OutcomeOk (t : DiskTree PyStr Bytes) (o : Outcome) : Prop where
  proc : ∀ proc, o.proc = some proc → ProcOk pin root asked t proc ∧ ∀ loc, ¬ Torn loc proc.phase
  answer : ∀ relPath value, o.answer = some (relPath, value) → value = pin.content relPath

end

variable {pin : Pin} {root : List PyStr} {asked : Set PyStr} {t : DiskTree PyStr Bytes} {proc : Proc}

/-! The content of the pin -/

lemma decodeStrict_encodeUtf8 (s : String) : decodeStrict (encodeUtf8 s) = some s := by
  have hvalid : (⟨(encodeUtf8 s).toArray⟩ : ByteArray) = s.toByteArray := by simp [encodeUtf8]
  rw [decodeStrict, hvalid, String.fromUTF8?, dif_pos s.isValidUTF8]
  rfl

lemma encodeUtf8_of_decodeStrict {bs : Bytes} {s : String} (h : decodeStrict bs = some s) :
    encodeUtf8 s = bs := by
  rw [decodeStrict, String.fromUTF8?] at h
  split_ifs at h
  obtain rfl := Option.some.inj h
  rfl

lemma content_of_src {p : PyStr} {bs : Bytes} (h : pin.src p = some bs) : pin.content p = some bs := by
  rw [Pin.content, h]

lemma content_of_subrepo {p repo commit subpath : PyStr} {depMap : DepMap} (hsrc : pin.src p = none)
    (hmap : pin.depMap = some depMap) (h : resolve p depMap = some (repo, commit, subpath)) :
    pin.content p = pin.subrepo repo commit subpath := by
  rw [Pin.content, hsrc, hmap, Option.getD_some, h]

lemma content_of_unmanaged {p : PyStr} {depMap : DepMap} (hsrc : pin.src p = none)
    (hmap : pin.depMap = some depMap) (h : resolve p depMap = none) : pin.content p = none := by
  rw [Pin.content, hsrc, hmap, Option.getD_some, h]

/-- Only chromium/src has `DEPS`. -/
lemma src_of_content_deps {bs : Bytes} (h : pin.content depsPath = some bs) : pin.src depsPath = some bs := by
  rw [Pin.content] at h
  cases hsrc : pin.src depsPath with
  | some found =>
    rw [hsrc] at h
    exact h
  | none =>
    have hmap : pin.depMap = none := by rw [Pin.depMap, hsrc, Option.bind_none]
    rw [hsrc, hmap] at h
    cases h

lemma contentAt_cases (t : DiskTree PyStr Bytes) (loc : List PyStr) :
    contentAt t loc = [] ∨ t loc = some (.file (contentAt t loc)) := by
  rw [contentAt]
  cases t loc with
  | none => exact Or.inl rfl
  | some node =>
    cases node with
    | dir => exact Or.inl rfl
    | file content => exact Or.inr rfl

/-! Steps that touch no file -/

lemma ProcOk.goto (h : ProcOk pin root asked t proc) {phase : Phase}
    (hphase : PhaseOk pin root asked t proc.offline phase) : ProcOk pin root asked t (proc.goto phase) :=
  ⟨h.depMap, hphase⟩

lemma ProcOk.goes (h : ProcOk pin root asked t proc) {phase : Phase}
    (hphase : PhaseOk pin root asked t proc.offline phase) (hwhole : ∀ loc, ¬ Torn loc phase) :
    OutcomeOk pin root asked t (.goes (proc.goto phase)) := by
  constructor
  · intro new hnew
    obtain rfl := Option.some.inj hnew
    exact ⟨h.goto hphase, hwhole⟩
  · intro relPath value hanswer
    cases hanswer

lemma ProcOk.branches (h : ProcOk pin root asked t proc) {b : Bool} {phase phase' : Phase}
    (hphase : PhaseOk pin root asked t proc.offline phase)
    (hphase' : PhaseOk pin root asked t proc.offline phase') (hwhole : ∀ loc, ¬ Torn loc phase)
    (hwhole' : ∀ loc, ¬ Torn loc phase') :
    OutcomeOk pin root asked t (.goes (proc.goto (if b then phase else phase'))) := by
  cases b with
  | true => exact h.goes hphase hwhole
  | false => exact h.goes hphase' hwhole'

lemma ProcOk.raises (h : ProcOk pin root asked t proc) : OutcomeOk pin root asked t (raises proc) :=
  h.goes trivial fun _ => not_false

lemma ProcOk.returns (h : ProcOk pin root asked t proc) {relPath : PyStr} {value : Option Bytes}
    (hvalue : value = pin.content relPath) :
    OutcomeOk pin root asked t (.returns relPath value (proc.goto .idle)) := by
  constructor
  · intro new hnew
    obtain rfl := Option.some.inj hnew
    exact ⟨h.goto trivial, fun _ => not_false⟩
  · intro path v hanswer
    obtain ⟨rfl, rfl⟩ := Prod.mk.inj (Option.some.inj hanswer)
    exact hvalue

lemma ProcOk.mapped (h : ProcOk pin root asked t proc) {relPath : PyStr} {depMap : Option DepMap}
    (hasked : relPath ∈ asked) (hsrc : pin.src relPath = none)
    (hmap : ∀ m, depMap = some m → pin.depMap = some m) :
    OutcomeOk pin root asked t (mapped proc relPath depMap) := by
  cases depMap with
  | none => exact h.raises
  | some m =>
    have hm := hmap m rfl
    have hnew : ProcOk pin root asked t { proc with depMap := some m, phase := .resolving relPath m } := by
      refine ⟨?_, hasked, hsrc, hm⟩
      intro m' hm'
      rwa [← Option.some.inj hm']
    exact hnew.goes hnew.phase fun _ => not_false

/-- The file is read to its end. -/
lemma ProcOk.finishRead (hlines : ∀ source, pin.execDeps (Lines.universalNewlines source) = pin.execDeps source)
    (h : ProcOk pin root asked t proc) {kept : Kept} {bytes : Bytes} (hkept : KeptOk pin asked kept)
    (hcontent : pin.content kept.path = some bytes) :
    OutcomeOk pin root asked t (finishRead pin proc bytes kept) := by
  cases kept with
  | file relPath => exact h.returns hcontent.symm
  | deps relPath =>
    refine h.mapped hkept.1 hkept.2 ?_
    intro m hm
    rw [Pin.depMap, src_of_content_deps hcontent, Option.bind_some, ← hm]
    congr 1
    funext source
    rw [Pin.load, Pin.load, hlines]

/-- All of it is written. -/
lemma ProcOk.finishWrite (h : ProcOk pin root asked t proc) {store : Store} (hstore : StoreOk pin asked store) :
    OutcomeOk pin root asked t (finishWrite pin proc store) := by
  cases store with
  | file relPath content => exact h.returns hstore.2.symm
  | marker relPath => exact h.returns hstore.2.symm
  | deps relPath source =>
    obtain ⟨hasked, hsrc, hdeps⟩ := hstore
    refine h.mapped hasked hsrc ?_
    intro m hm
    rw [Pin.depMap, hdeps, Option.bind_some, decodeStrict_encodeUtf8, Option.bind_some]
    exact hm

lemma ProcOk.answered (h : ProcOk pin root asked t proc) {o : Outcome} (ho : answered pin proc = some o) :
    OutcomeOk pin root asked t o := by
  have hok := h.phase
  rw [SourceCache.answered] at ho
  cases hphase : proc.phase with
  | fetching relPath attempt =>
    rw [hphase] at ho hok
    dsimp only at ho
    cases hsrc : pin.src relPath with
    | some content =>
      rw [hsrc] at ho
      obtain rfl := Option.some.inj ho
      exact h.goes ⟨hok.1, content_of_src hsrc⟩ fun _ => not_false
    | none =>
      rw [hsrc] at ho
      obtain rfl := Option.some.inj ho
      exact h.goes ⟨hok.1, hsrc, hok.2⟩ fun _ => not_false
  | fetchingDeps relPath =>
    rw [hphase] at ho hok
    dsimp only at ho
    cases hsource : (pin.src depsPath).bind decodeStrict with
    | none =>
      rw [hsource] at ho
      obtain rfl := Option.some.inj ho
      exact h.raises
    | some source =>
      rw [hsource] at ho
      obtain rfl := Option.some.inj ho
      obtain ⟨bs, hsrc, hdecode⟩ := Option.bind_eq_some_iff.mp hsource
      rw [← encodeUtf8_of_decodeStrict hdecode] at hsrc
      exact h.goes ⟨hok.1, hok.2, hsrc⟩ fun _ => not_false
  | resolving relPath depMap =>
    rw [hphase] at ho hok
    dsimp only at ho
    obtain ⟨hasked, hsrc, hmap⟩ := hok
    cases hresolve : resolve relPath depMap with
    | none =>
      rw [hresolve] at ho
      cases ho
    | some found =>
      obtain ⟨repo, commit, subpath⟩ := found
      rw [hresolve] at ho
      dsimp only at ho
      have hcontent := content_of_subrepo hsrc hmap hresolve
      cases hsub : pin.subrepo repo commit subpath with
      | some content =>
        rw [hsub] at ho
        obtain rfl := Option.some.inj ho
        exact h.goes ⟨hasked, hcontent.trans hsub⟩ fun _ => not_false
      | none =>
        rw [hsub] at ho
        obtain rfl := Option.some.inj ho
        exact h.goes ⟨hasked, hcontent.trans hsub⟩ fun _ => not_false
  | _ =>
    rw [hphase] at ho
    cases ho

lemma ProcOk.refused (h : ProcOk pin root asked t proc) {again : Bool} {o : Outcome}
    (ho : refused proc again = some o) : OutcomeOk pin root asked t o := by
  have hok := h.phase
  rw [SourceCache.refused] at ho
  cases hphase : proc.phase with
  | fetching relPath attempt =>
    rw [hphase] at ho hok
    dsimp only at ho
    split_ifs at ho with hagain
    · obtain rfl := Option.some.inj ho
      exact h.goes hok fun _ => not_false
    · obtain rfl := Option.some.inj ho
      exact h.raises
  | fetchingDeps relPath =>
    rw [hphase] at ho
    obtain rfl := Option.some.inj ho
    exact h.raises
  | resolving relPath depMap =>
    rw [hphase] at ho
    dsimp only at ho
    cases hresolve : resolve relPath depMap with
    | none =>
      rw [hresolve] at ho
      cases ho
    | some found =>
      rw [hresolve] at ho
      obtain rfl := Option.some.inj ho
      exact h.raises
  | _ =>
    rw [hphase] at ho
    cases ho

/-! Steps that touch a file -/

/-- A directory is made, a file is opened for writing, or bytes are written. -/
inductive Touches (root : List PyStr) (t : DiskTree PyStr Bytes) (proc : Proc) :
    DiskTree PyStr Bytes → Outcome → Prop
  | makes (store : Store) (pos : List PyStr) (hphase : proc.phase = .making store)
      (hpos : pos ∈ passes root store.path) (hnone : t pos = none) :
      Touches root t proc (Function.update t pos (some .dir)) (.goes proc)
  | creates (store : Store) (loc : List PyStr) (hphase : proc.phase = .creating store)
      (hloc : follow t root store.path = some loc) (hdir : isDir t loc = false) :
      Touches root t proc (Function.update t loc (some (.file [])))
        (.goes (proc.goto (.writing store loc 0)))
  | writes (store : Store) (loc : List PyStr) (done : ℕ) (bytes : Bytes)
      (hphase : proc.phase = .writing store loc done) (hbytes : bytes <+: store.data.drop done)
      (hne : bytes ≠ []) :
      Touches root t proc (Function.update t loc (some (.file (overwrite (contentAt t loc) done bytes))))
        (.goes (proc.goto (.writing store loc (done + bytes.length))))

lemma KeptOk.known {kept : Kept} (h : KeptOk pin asked kept) : Known asked kept.path := by
  cases kept with
  | file relPath => exact Or.inl h
  | deps relPath => exact Or.inr rfl

lemma append_take_drop {bytes b : Bytes} (h : bytes <+: b) (n : ℕ) :
    bytes ++ (b.drop bytes.length).take n <+: b := by
  obtain ⟨rest, rfl⟩ := h
  rw [List.drop_left]
  exact (List.prefix_append_right_inj bytes).mpr (List.take_prefix n rest)

/-- Who reads to the end of a file has read all of it. -/
lemma read_whole {loc : List PyStr} {bytes b : Bytes} (hbytes : bytes <+: b)
    (hwhole : bytes = b ∨ t loc = some (.file b)) (hend : (contentAt t loc).drop bytes.length = []) :
    bytes = b := by
  rcases hwhole with hwhole | hfile
  · exact hwhole
  · rw [contentAt, hfile] at hend
    exact hbytes.eq_of_length_le (List.drop_eq_nil_iff.mp hend)

/-- Where there is more to read, the file is all there. -/
lemma file_of_unread {loc : List PyStr} {bytes b : Bytes} (hwhole : bytes = b ∨ t loc = some (.file b))
    (hshorter : ∀ c, t loc = some (.file c) → c <+: b)
    (hmore : (contentAt t loc).drop bytes.length ≠ []) : t loc = some (.file b) := by
  rcases hwhole with rfl | hfile
  · rcases contentAt_cases t loc with hnil | hsome
    · rw [hnil, List.drop_nil] at hmore
      exact absurd rfl hmore
    · exact absurd (List.drop_eq_nil_iff.mpr (hshorter _ hsome).length_le) hmore
  · exact hfile

lemma eq_nil_of_take_succ {bytes : Bytes} {n : ℕ} (h : bytes.take (n + 1) = []) : bytes = [] := by
  cases bytes with
  | nil => rfl
  | cons b bytes => cases h

/-- Where markers are true and what is opened for reading is whole, a step touches a file or
is in order. -/
lemma ProcOk.advance (hlines : ∀ source, pin.execDeps (Lines.universalNewlines source) = pin.execDeps source)
    (h : ProcOk pin root asked t proc)
    (hmarkers : ∀ p ∈ asked, t (place root (markerPath p)) ≠ none → pin.content p = none)
    (hfiles : ∀ q, Known asked q → ∀ c, t (place root q) = some (.file c) →
      ∃ b, pin.content q = some b ∧ c <+: b)
    (hopen : ∀ kept loc, proc.phase = .opening kept → follow t root kept.path = some loc →
      ∀ c, t loc = some (.file c) → pin.content kept.path = some c)
    {chunk : ℕ} {t' : DiskTree PyStr Bytes} {o : Outcome}
    (ho : advance pin root t proc chunk = some (t', o)) :
    (t' = t ∧ (∀ loc, ¬ Torn loc proc.phase) ∧ OutcomeOk pin root asked t o) ∨ Touches root t proc t' o := by
  have hok := h.phase
  rw [SourceCache.advance] at ho
  cases hphase : proc.phase with
  | idle =>
    rw [hphase] at ho
    cases ho
  | fetching relPath attempt =>
    rw [hphase] at ho
    cases ho
  | fetchingDeps relPath =>
    rw [hphase] at ho
    cases ho
  | checking kept =>
    left
    rw [hphase] at ho hok
    cases kept with
    | file relPath =>
      obtain ⟨rfl, rfl⟩ := Prod.mk.inj (Option.some.inj ho)
      exact ⟨rfl, fun _ => not_false, h.branches hok hok (fun _ => not_false) fun _ => not_false⟩
    | deps relPath =>
      obtain ⟨rfl, rfl⟩ := Prod.mk.inj (Option.some.inj ho)
      exact ⟨rfl, fun _ => not_false, h.branches hok hok (fun _ => not_false) fun _ => not_false⟩
  | checkingMarker relPath =>
    left
    rw [hphase] at ho hok
    obtain ⟨rfl, rfl⟩ := Prod.mk.inj (Option.some.inj ho)
    refine ⟨rfl, fun _ => not_false, ?_⟩
    split_ifs with hfound hoffline
    · rw [found, Option.isSome_iff_exists] at hfound
      obtain ⟨node, hnode⟩ := hfound
      obtain ⟨loc, hloc, hsome⟩ := Option.bind_eq_some_iff.mp hnode
      rw [follow_place hloc] at hsome
      refine h.returns (hmarkers relPath hok ?_).symm
      rw [hsome]
      exact Option.some_ne_none node
    · constructor
      · intro new hnew
        cases hnew
      · intro path value hanswer
        cases hanswer
    · exact h.goes ⟨hok, by simpa using hoffline⟩ fun _ => not_false
  | opening kept =>
    left
    rw [hphase] at ho hok
    dsimp only at ho
    cases hfile : openedFile root t kept.path with
    | none =>
      rw [hfile] at ho
      obtain ⟨rfl, rfl⟩ := Prod.mk.inj (Option.some.inj ho)
      exact ⟨rfl, fun _ => not_false, h.raises⟩
    | some loc =>
      rw [hfile] at ho
      obtain ⟨rfl, rfl⟩ := Prod.mk.inj (Option.some.inj ho)
      obtain ⟨hfollow, hisFile⟩ := Option.filter_eq_some_iff.mp hfile
      obtain ⟨c, hc⟩ := exists_content hisFile
      have hcontent := hopen kept loc hphase hfollow c hc
      refine ⟨rfl, fun _ => not_false, h.goes ?_ fun _ => not_false⟩
      exact ⟨hok, follow_place hfollow, c, hcontent, List.nil_prefix, Or.inr hc⟩
  | reading kept loc bytes =>
    left
    rw [hphase] at ho hok
    obtain ⟨hkept, hloc, b, hcontent, hbytes, hwhole⟩ := hok
    dsimp only at ho
    split_ifs at ho with hend
    · obtain ⟨rfl, rfl⟩ := Prod.mk.inj (Option.some.inj ho)
      have hread := read_whole hbytes hwhole hend
      rw [← hread] at hcontent
      exact ⟨rfl, fun _ => not_false, h.finishRead hlines hkept hcontent⟩
    · obtain ⟨rfl, rfl⟩ := Prod.mk.inj (Option.some.inj ho)
      have hshorter : ∀ c, t loc = some (.file c) → c <+: b := by
        intro c hc
        rw [hloc] at hc
        obtain ⟨b', hb', hprefix⟩ := hfiles kept.path hkept.known c hc
        rw [hcontent] at hb'
        rwa [Option.some.inj hb']
      have hfile := file_of_unread hwhole hshorter hend
      have hat : contentAt t loc = b := by rw [contentAt, hfile]
      rw [hat]
      refine ⟨rfl, fun _ => not_false, h.goes ?_ fun _ => not_false⟩
      exact ⟨hkept, hloc, b, hcontent, append_take_drop hbytes _, Or.inr hfile⟩
  | mapping relPath =>
    left
    rw [hphase] at ho hok
    obtain ⟨hasked, hsrc, honline⟩ := hok
    dsimp only at ho
    cases hmap : proc.depMap with
    | some depMap =>
      rw [hmap] at ho
      obtain ⟨rfl, rfl⟩ := Prod.mk.inj (Option.some.inj ho)
      refine ⟨rfl, fun _ => not_false, h.goes ?_ fun _ => not_false⟩
      exact ⟨hasked, hsrc, h.depMap depMap hmap⟩
    | none =>
      rw [hmap] at ho
      dsimp only at ho
      rw [honline, if_neg Bool.false_ne_true] at ho
      obtain ⟨rfl, rfl⟩ := Prod.mk.inj (Option.some.inj ho)
      exact ⟨rfl, fun _ => not_false, h.goes ⟨hasked, hsrc⟩ fun _ => not_false⟩
  | resolving relPath depMap =>
    left
    rw [hphase] at ho hok
    obtain ⟨hasked, hsrc, hmap⟩ := hok
    dsimp only at ho
    cases hresolve : resolve relPath depMap with
    | some found =>
      rw [hresolve] at ho
      cases ho
    | none =>
      rw [hresolve] at ho
      obtain ⟨rfl, rfl⟩ := Prod.mk.inj (Option.some.inj ho)
      refine ⟨rfl, fun _ => not_false, h.goes ?_ fun _ => not_false⟩
      exact ⟨hasked, content_of_unmanaged hsrc hmap hresolve⟩
  | making store =>
    rw [hphase] at ho hok
    dsimp only at ho
    cases hway : way t [] (fullPath root store.path).dropLast with
    | there =>
      rw [hway] at ho
      obtain ⟨rfl, rfl⟩ := Prod.mk.inj (Option.some.inj ho)
      exact Or.inl ⟨rfl, fun _ => not_false, h.goes hok fun _ => not_false⟩
    | missing pos =>
      rw [hway] at ho
      obtain ⟨rfl, rfl⟩ := Prod.mk.inj (Option.some.inj ho)
      obtain ⟨hpos, hnone⟩ := missing_mem_passes hway
      exact Or.inr (.makes store pos hphase hpos hnone)
    | blocked =>
      rw [hway] at ho
      obtain ⟨rfl, rfl⟩ := Prod.mk.inj (Option.some.inj ho)
      exact Or.inl ⟨rfl, fun _ => not_false, h.raises⟩
  | creating store =>
    rw [hphase] at ho hok
    dsimp only at ho
    cases hfollow : follow t root store.path with
    | none =>
      rw [hfollow] at ho
      obtain ⟨rfl, rfl⟩ := Prod.mk.inj (Option.some.inj ho)
      exact Or.inl ⟨rfl, fun _ => not_false, h.raises⟩
    | some loc =>
      rw [hfollow] at ho
      dsimp only at ho
      split_ifs at ho with hdir
      · obtain ⟨rfl, rfl⟩ := Prod.mk.inj (Option.some.inj ho)
        exact Or.inl ⟨rfl, fun _ => not_false, h.raises⟩
      · obtain ⟨rfl, rfl⟩ := Prod.mk.inj (Option.some.inj ho)
        exact Or.inr (.creates store loc hphase hfollow (by simpa using hdir))
  | writing store loc done =>
    rw [hphase] at ho hok
    dsimp only at ho
    split_ifs at ho with hend
    · obtain ⟨rfl, rfl⟩ := Prod.mk.inj (Option.some.inj ho)
      refine Or.inl ⟨rfl, ?_, h.finishWrite hok.1⟩
      rintro l ⟨-, hlt⟩
      have hdone := List.drop_eq_nil_iff.mp (eq_nil_of_take_succ hend)
      omega
    · obtain ⟨rfl, rfl⟩ := Prod.mk.inj (Option.some.inj ho)
      exact Or.inr (.writes store loc done _ hphase (List.take_prefix _ _) hend)

end T3dmium.SourceCache
