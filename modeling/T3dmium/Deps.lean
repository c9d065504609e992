import T3dmium.KeyedTable
import T3dmium.PyText

/-! The dependencies a source tree takes from repositories of their own (`_deps.py`): which
of them a path lies in. -/
namespace T3dmium

/-- An entry of the map: the tree below `path` is `repo` at `commit`. -/
structure Dep where
  path : PyStr
  repo : PyStr
  commit : PyStr
  deriving DecidableEq

/-- A dict, with its items in the order of insertion. -/
abbrev DepMap := KeyedTable Dep PyStr fun d => some d.path

/-- What `load_dep_map` makes of an item of `deps`; not every dependency is a git repository. -/
def depOf (localPath : PyStr) (spec : Json) : Option Dep :=
  let url := match spec with
    | .dict items => items.lookup (PyStr.ofString "url")
    | spec => some spec
  match url with
  | some (.str url) =>
    if PyChar.scalar '@' ∈ url then
      let r := PyStr.rpartition '@' url
      let key := if PyStr.ofString "src/" <+: localPath then localPath.drop 4 else localPath
      some ⟨PyStr.rstrip '/' key, r.1, r.2⟩
    else none
  | _ => none

def addDep (depMap : DepMap) (item : PyStr × Json) : DepMap :=
  match depOf item.1 item.2 with
  | none => depMap
  | some dep => depMap.upsert dep

def depMapOf (deps : List (PyStr × Json)) : DepMap := deps.foldl addDep .empty

/-- `path` is `key`, or begins with it and a slash. -/
def Under (key path : PyStr) : Prop := path = key ∨ key ++ [.scalar '/'] <+: path

instance (key path : PyStr) : Decidable (Under key path) :=
  inferInstanceAs (Decidable (_ ∨ _))

/-- One turn of the loop of `resolve`. -/
def longer (relPath : PyStr) (best : Option Dep) (dep : Dep) : Option Dep :=
  if Under dep.path relPath then
    match best with
    | none => some dep
    | some b => if b.path.length < dep.path.length then some dep else some b
  else best

def resolve (relPath : PyStr) (depMap : DepMap) : Option (PyStr × PyStr × PyStr) :=
  (depMap.rows.foldl (longer relPath) none).map fun best =>
    (best.repo, best.commit, (relPath.drop best.path.length).dropWhile (· == .scalar '/'))

/-! Keys -/

lemma depOf_bare {localPath : PyStr} {spec : Json} {dep : Dep} (h : depOf localPath spec = some dep) :
    ¬ [PyChar.scalar '/'] <:+ dep.path := by
  unfold depOf at h
  dsimp only at h
  split at h
  · split_ifs at h <;>
    · obtain rfl := Option.some.inj h
      exact PyStr.not_suffix_rstrip '/' _
  · cases h

lemma foldl_addDep_bare {deps : List (PyStr × Json)} {depMap : DepMap}
    (hbare : ∀ dep ∈ depMap.rows, ¬ [PyChar.scalar '/'] <:+ dep.path) :
    ∀ dep ∈ (deps.foldl addDep depMap).rows, ¬ [PyChar.scalar '/'] <:+ dep.path := by
  induction deps generalizing depMap with
  | nil => exact hbare
  | cons item deps ih =>
    refine ih ?_
    unfold addDep
    split
    · exact hbare
    · next new hnew =>
      intro dep hdep
      rcases KeyedTable.mem_of_mem_upsertRows hdep with rfl | hdep
      · exact depOf_bare hnew
      · exact hbare dep hdep

/-- No key of a map that is loaded ends in a slash. -/
theorem depMapOf_bare (deps : List (PyStr × Json)) :
    ∀ dep ∈ (depMapOf deps).rows, ¬ [PyChar.scalar '/'] <:+ dep.path :=
  foldl_addDep_bare fun _ hdep => absurd hdep List.not_mem_nil

/-! The longest key -/

lemma Under.length_le {key path : PyStr} (h : Under key path) : key.length ≤ path.length := by
  rcases h with rfl | h
  · exact le_rfl
  · have hlength := h.length_le
    rw [List.length_append] at hlength
    omega

lemma Under.isPrefix {key path : PyStr} (h : Under key path) : key <+: path := by
  rcases h with rfl | h
  · exact List.prefix_rfl
  · exact (List.prefix_append _ _).trans h

/-- Two keys of one length that a path lies under are one. -/
lemma Under.unique {key key' path : PyStr} (h : Under key path) (h' : Under key' path)
    (hlength : key.length = key'.length) : key = key' :=
  (List.prefix_of_prefix_length_le h.isPrefix h'.isPrefix hlength.le).eq_of_length hlength

/-- The loop looks for the longest of the keys the path lies under. -/
lemma foldl_longer_eq (relPath : PyStr) (deps : List Dep) :
    deps.foldl (longer relPath) none =
      (deps.filter fun dep => Under dep.path relPath).argmax fun dep => dep.path.length := by
  rw [List.argmax, List.foldl_filter]
  refine List.foldl_ext _ _ _ fun best dep _ => ?_
  by_cases hunder : Under dep.path relPath
  · cases best <;> simp [longer, hunder, List.argAux]
  · simp [longer, hunder]

lemma resolve_eq_none {relPath : PyStr} {depMap : DepMap} :
    resolve relPath depMap = none ↔ ∀ dep ∈ depMap.rows, ¬ Under dep.path relPath := by
  rw [resolve, foldl_longer_eq, Option.map_eq_none_iff, List.argmax_eq_none, List.filter_eq_nil_iff]
  simp

/-- `dep` has the longest of the keys `relPath` lies under. -/
structure Innermost (relPath : PyStr) (depMap : DepMap) (dep : Dep) : Prop where
  mem : dep ∈ depMap.rows
  under : Under dep.path relPath
  longest : ∀ other ∈ depMap.rows, Under other.path relPath → other ≠ dep →
    other.path.length < dep.path.length

lemma Innermost.unique {relPath : PyStr} {depMap : DepMap} {dep dep' : Dep}
    (h : Innermost relPath depMap dep) (h' : Innermost relPath depMap dep') : dep = dep' := by
  by_contra hne
  have hlt := h.longest dep' h'.mem h'.under (Ne.symm hne)
  have hgt := h'.longest dep h.mem h.under hne
  omega

lemma resolve_eq_some {relPath : PyStr} {depMap : DepMap} {r : PyStr × PyStr × PyStr} :
    resolve relPath depMap = some r ↔ ∃ dep, Innermost relPath depMap dep ∧
      r = (dep.repo, dep.commit, (relPath.drop dep.path.length).dropWhile (· == .scalar '/')) := by
  have hfind : ∀ dep, depMap.rows.foldl (longer relPath) none = some dep →
      Innermost relPath depMap dep := by
    intro dep hdep
    rw [foldl_longer_eq] at hdep
    obtain ⟨hmem, hunder⟩ := List.mem_filter.mp (List.argmax_mem hdep)
    have hunder : Under dep.path relPath := of_decide_eq_true hunder
    refine ⟨hmem, hunder, fun other hother hunder' hne => ?_⟩
    have hle := List.le_of_mem_argmax (List.mem_filter.mpr ⟨hother, decide_eq_true hunder'⟩) hdep
    refine lt_of_le_of_ne hle fun heq => hne ?_
    exact depMap.rows_inj hother hmem (congrArg some (hunder'.unique hunder heq)) rfl
  rw [resolve, Option.map_eq_some_iff]
  constructor
  · intro h
    obtain ⟨dep, hdep, hr⟩ := h
    exact ⟨dep, hfind dep hdep, hr.symm⟩
  · intro h
    obtain ⟨dep, hdep, hr⟩ := h
    cases hbest : depMap.rows.foldl (longer relPath) none with
    | none =>
      have hnone : resolve relPath depMap = none := by rw [resolve, hbest, Option.map_none]
      exact absurd hdep.under (resolve_eq_none.mp hnone dep hdep.mem)
    | some best =>
      obtain rfl := (hfind best hbest).unique hdep
      exact ⟨_, rfl, hr.symm⟩

lemma dropWhile_slash {s : PyStr} (h : ¬ [PyChar.scalar '/'] <+: s) :
    (PyChar.scalar '/' :: s).dropWhile (· == .scalar '/') = s := by
  cases s with
  | nil => rfl
  | cons x s =>
    have hx : x ≠ .scalar '/' := by
      rintro rfl
      exact h (List.prefix_append [_] s)
    simp [hx]

/-- A path is resolved by the longest key it lies under, in whatever order the keys stand. -/
theorem resolve_exact (relPath : PyStr) (depMap : DepMap) :
    (resolve relPath depMap = none ↔
      ∀ dep ∈ depMap.rows, ¬ (relPath = dep.path ∨ dep.path ++ [.scalar '/'] <+: relPath)) ∧
    (∀ repo commit subpath, resolve relPath depMap = some (repo, commit, subpath) →
      ∃ key, ⟨key, repo, commit⟩ ∈ depMap.rows ∧ (relPath = key ∨ key ++ [.scalar '/'] <+: relPath) ∧
        (∀ other ∈ depMap.rows, relPath = other.path ∨ other.path ++ [.scalar '/'] <+: relPath →
          other.path ≠ key → other.path.length < key.length) ∧
        (relPath = key → subpath = []) ∧
        ∀ s, relPath = key ++ .scalar '/' :: s → ¬ [PyChar.scalar '/'] <+: s →
          relPath = key ++ .scalar '/' :: subpath) ∧
    ∀ depMap' : DepMap, depMap'.rows.Perm depMap.rows → resolve relPath depMap' = resolve relPath depMap := by
  refine ⟨resolve_eq_none, ?_, ?_⟩
  · intro repo commit subpath h
    obtain ⟨⟨key, repo', commit'⟩, hdep, hr⟩ := resolve_eq_some.mp h
    obtain ⟨rfl, rfl, rfl⟩ : repo = repo' ∧ commit = commit' ∧ subpath = _ := by simpa using hr
    refine ⟨key, hdep.mem, hdep.under, ?_, ?_, ?_⟩
    · intro other hother hunder hne
      refine hdep.longest other hother hunder ?_
      rintro rfl
      exact hne rfl
    · rintro rfl
      simp
    · intro s hs hslash
      have hrest : (relPath.drop key.length).dropWhile (· == .scalar '/') = s := by
        rw [hs, List.drop_left' rfl, dropWhile_slash hslash]
      rw [hrest]
      exact hs
  · intro depMap' hperm
    have hsame : ∀ dep, Innermost relPath depMap' dep ↔ Innermost relPath depMap dep := by
      intro dep
      constructor
      · intro h
        exact ⟨hperm.mem_iff.mp h.mem, h.under, fun other hother => h.longest other (hperm.mem_iff.mpr hother)⟩
      · intro h
        exact ⟨hperm.mem_iff.mpr h.mem, h.under, fun other hother => h.longest other (hperm.mem_iff.mp hother)⟩
    refine Option.ext fun r => ?_
    simp only [resolve_eq_some, hsame]

end T3dmium
