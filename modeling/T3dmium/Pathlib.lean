import T3dmium.FileTree
import T3dmium.PyText
import T3dmium.Separators

/-! POSIX paths as `pathlib` takes them: which parts a text has, and where `root / path`
leads in a file system. -/
namespace T3dmium.Pathlib
open TreeWalk FileTree

def pieces (path : PyStr) : List PyStr := path.splitOn (.scalar '/')

/-- Empty parts and `.` are dropped; `..` is kept. -/
def parts (path : PyStr) : List PyStr :=
  (pieces path).filter fun piece => decide (piece ≠ [] ∧ piece ≠ .ofString ".")

def isAbsolute (path : PyStr) : Bool := decide (path.head? = some (.scalar '/'))

/-- How the system follows a part. -/
def partStep (part : PyStr) : Step PyStr := if part = .ofString ".." then .up else .down part

/-- Where `root / path` leads; an absolute path replaces the root. -/
def follow {β : Type*} (t : DiskTree PyStr β) (root : List PyStr) (path : PyStr) : Option (List PyStr) :=
  lookup t (if isAbsolute path then [] else root) ((parts path).map partStep)

/-- `as_posix` of a relative path. -/
def asPosix (names : List PyStr) : PyStr := [.scalar '/'].intercalate names

/-- What a directory may call one of its entries. -/
structure FileName (name : PyStr) : Prop where
  ne_nil : name ≠ []
  noSlash : PyChar.scalar '/' ∉ name
  ne_here : name ≠ .ofString "."
  ne_up : name ≠ .ofString ".."

/-- A relative path as `as_posix` writes it, without `..`. -/
def Plain (path : PyStr) : Prop := ∀ piece ∈ pieces path, FileName piece

lemma pieces_ne_nil (path : PyStr) : pieces path ≠ [] := List.splitOn_ne_nil _ _

lemma asPosix_pieces (path : PyStr) : asPosix (pieces path) = path := List.intercalate_splitOn _

lemma pieces_asPosix {names : List PyStr} (hne : names ≠ []) (hnames : ∀ name ∈ names, FileName name) :
    pieces (asPosix names) = names :=
  List.splitOn_intercalate (PyChar.scalar '/') (fun name hname => (hnames name hname).noSlash) hne

lemma plain_asPosix {names : List PyStr} (hne : names ≠ []) (hnames : ∀ name ∈ names, FileName name) :
    Plain (asPosix names) := by
  rw [Plain, pieces_asPosix hne hnames]
  exact hnames

/-- What is added to a path is added to its last name. -/
lemma asPosix_concat (init : List PyStr) (last more : PyStr) :
    asPosix (init ++ [last]) ++ more = asPosix (init ++ [last ++ more]) := by
  cases init with
  | nil => simp [asPosix]
  | cons name init =>
    have hjoin (final : PyStr) : asPosix (name :: init ++ [final]) = asPosix (name :: init) ++ .scalar '/' :: final := by
      rw [asPosix, Separators.intercalate_append _ (List.cons_ne_nil _ _) (List.cons_ne_nil _ _),
        List.intercalate_singleton]
      rfl
    rw [hjoin, hjoin, List.append_assoc, List.cons_append]

lemma Plain.parts_eq {path : PyStr} (h : Plain path) : parts path = pieces path := by
  rw [parts, List.filter_eq_self]
  intro piece hpiece
  exact decide_eq_true ⟨(h piece hpiece).ne_nil, (h piece hpiece).ne_here⟩

lemma Plain.steps_eq {path : PyStr} (h : Plain path) :
    (parts path).map partStep = (pieces path).map .down := by
  rw [h.parts_eq]
  refine List.map_congr_left fun piece hpiece => ?_
  rw [partStep, if_neg (h piece hpiece).ne_up]

lemma Plain.relative {path : PyStr} (h : Plain path) : isAbsolute path = false := by
  rw [isAbsolute, decide_eq_false_iff_not]
  intro habs
  obtain ⟨rest, rfl⟩ := List.head?_eq_some_iff.mp habs
  have hpieces : pieces (.scalar '/' :: rest) = [] :: pieces rest :=
    List.splitOn_append_cons_self_of_not_mem (List.not_mem_nil (a := PyChar.scalar '/')) rest
  exact (h [] (by rw [hpieces]; exact List.mem_cons_self)).ne_nil rfl

section
variable {β : Type*} {t : DiskTree PyStr β} {root : List PyStr} {path : PyStr}

lemma Plain.follow_eq (h : Plain path) : follow t root path = lookup t root ((pieces path).map .down) := by
  rw [follow, h.relative, h.steps_eq]
  rfl

/-- A plain path leads to the place it spells. -/
lemma Plain.of_follow (h : Plain path) {loc : List PyStr} (hloc : follow t root path = some loc) :
    loc = root ++ pieces path := by
  rw [h.follow_eq] at hloc
  exact lookup_down hloc

lemma Plain.follow_of_closed (h : Plain path) (hclosed : Closed t)
    (hsome : (t (root ++ pieces path)).isSome = true) : follow t root path = some (root ++ pieces path) := by
  rw [h.follow_eq, lookup_of_closed hclosed hsome]

end

/-- A text without a slash ends a path iff it ends its last piece. -/
lemma suffix_iff {suffix path last : PyStr} {init : List PyStr} (h : PyChar.scalar '/' ∉ suffix)
    (hpieces : pieces path = init ++ [last]) : suffix <:+ path ↔ suffix <:+ last := by
  have hpath := asPosix_pieces path
  rw [hpieces, asPosix] at hpath
  cases init with
  | nil =>
    rw [List.nil_append, List.intercalate_singleton] at hpath
    rw [hpath]
  | cons piece init =>
    rw [Separators.intercalate_append _ (List.cons_ne_nil _ _) (List.cons_ne_nil _ _),
      List.intercalate_singleton] at hpath
    have hcut : PyChar.scalar '/' :: last <:+ path := by
      rw [← hpath]
      exact List.suffix_append _ _
    have hlast : last <:+ path := (List.suffix_cons _ _).trans hcut
    refine ⟨fun hsuffix => ?_, fun hsuffix => hsuffix.trans hlast⟩
    rcases Nat.lt_or_ge last.length suffix.length with hlt | hge
    · exact absurd ((List.suffix_of_suffix_length_le hcut hsuffix hlt).subset List.mem_cons_self) h
    · exact List.suffix_of_suffix_length_le hsuffix hlast hge

end T3dmium.Pathlib
