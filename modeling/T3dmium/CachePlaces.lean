import T3dmium.SourceCache

/-! Where files and markers of the cache lie: they share one directory tree. -/
namespace T3dmium.SourceCache
open TreeWalk FileTree Pathlib

/-- Where a path leads from `root`, through whatever is there. -/
def place (root : List PyStr) (path : PyStr) : List PyStr := walk [] (fullPath root path)

/-- The places on the way, the last one among them. -/
def passes (root : List PyStr) (path : PyStr) : List (List PyStr) := trail [] (fullPath root path)

section
variable (pin : Pin) (root : List PyStr) (asked : Set PyStr)

/-- `DEPS` is read whatever is asked for. -/
def Known (path : PyStr) : Prop := path ∈ asked ∨ path = depsPath

/-- No marker stands for a file that is there: it is not on the way to another path, and
paths to one place have one content. -/
structure Apart : Prop where
  marker : ∀ p ∈ asked, ∀ q, Known asked q → place root (markerPath p) ∉ passes root q
  markers : ∀ p ∈ asked, ∀ q ∈ asked, place root (markerPath p) ∈ passes root (markerPath q) →
    pin.content q = none → pin.content p = none
  same : ∀ p q, Known asked p → Known asked q → place root p = place root q →
    pin.content p = pin.content q

/-- Nothing is cached of what is asked for. -/
structure Fresh (t : DiskTree PyStr Bytes) : Prop where
  files : ∀ p, Known asked p → isFile t (place root p) = false
  markers : ∀ p ∈ asked, t (place root (markerPath p)) = none

end

variable {pin : Pin} {root : List PyStr} {asked : Set PyStr} {t : DiskTree PyStr Bytes}

lemma follow_place {path : PyStr} {loc : List PyStr} (h : follow t root path = some loc) :
    loc = place root path := by
  have hstart : (if isAbsolute path then [] else root.map Step.down) =
      (if isAbsolute path then [] else root).map Step.down := by
    split_ifs <;> rfl
  rw [place, fullPath, hstart, walk_append, walk_down, List.nil_append]
  exact lookup_eq_walk h

lemma place_mem_passes (root : List PyStr) (path : PyStr) : place root path ∈ passes root path :=
  walk_mem_trail _ _

lemma missing_mem_passes {path : PyStr} {pos : List PyStr}
    (h : way t [] (fullPath root path).dropLast = .missing pos) : pos ∈ passes root path ∧ t pos = none := by
  obtain ⟨hmem, hnone⟩ := way_missing h
  obtain ⟨rest, hrest⟩ := List.dropLast_prefix (fullPath root path)
  refine ⟨?_, hnone⟩
  rw [passes, ← hrest]
  exact mem_trail_append rest hmem

/-! Plain paths -/

lemma fullPath_plain {path : PyStr} (h : Plain path) (root : List PyStr) :
    fullPath root path = (root ++ pieces path).map .down := by
  rw [fullPath, h.relative, h.steps_eq, List.map_append]
  rfl

lemma place_plain {path : PyStr} (h : Plain path) (root : List PyStr) :
    place root path = root ++ pieces path := by
  rw [place, fullPath_plain h, walk_down, List.nil_append]

lemma mem_passes_plain {path : PyStr} (h : Plain path) {names : List PyStr} :
    root ++ names ∈ passes root path ↔ names <+: pieces path := by
  rw [passes, fullPath_plain h, mem_trail_down, List.nil_append, List.prefix_append_right_inj]
  exact and_iff_right List.nil_prefix

lemma fileName_marker {name : PyStr} (h : FileName name) : FileName (markerPath name) := by
  have hlong : 7 ≤ (markerPath name).length := by
    rw [markerPath, List.length_append]
    exact Nat.le_add_left 7 name.length
  refine ⟨?_, ?_, ?_, ?_⟩
  · intro heq
    rw [heq] at hlong
    exact absurd hlong (by decide)
  · intro hslash
    rcases List.mem_append.mp hslash with hslash | hslash
    · exact h.noSlash hslash
    · exact absurd hslash (by decide)
  · intro heq
    rw [heq] at hlong
    exact absurd hlong (by decide)
  · intro heq
    rw [heq] at hlong
    exact absurd hlong (by decide)

/-- The marker of a plain path stands beside it. -/
lemma marker_plain {path : PyStr} (h : Plain path) :
    Plain (markerPath path) ∧
      ∃ init last, pieces path = init ++ [last] ∧ pieces (markerPath path) = init ++ [markerPath last] := by
  obtain ⟨init, last, hpieces⟩ := (List.eq_nil_or_concat' (pieces path)).resolve_left (pieces_ne_nil path)
  have hpath : markerPath path = asPosix (init ++ [markerPath last]) := by
    rw [markerPath, ← asPosix_pieces path, hpieces, asPosix_concat, markerPath]
  have hnames : ∀ name ∈ init ++ [markerPath last], FileName name := by
    intro name hname
    rcases List.mem_append.mp hname with hname | hname
    · exact h name (by rw [hpieces]; exact List.mem_append_left _ hname)
    · rw [List.mem_singleton.mp hname]
      exact fileName_marker (h last (by rw [hpieces]; exact List.mem_append_right _ (List.mem_singleton_self _)))
  have hne : init ++ [markerPath last] ≠ [] := List.concat_ne_nil _ _
  rw [hpath]
  exact ⟨plain_asPosix hne hnames, init, last, hpieces, pieces_asPosix hne hnames⟩

lemma depsPath_plain : Plain depsPath := by
  have hpieces : pieces depsPath = [depsPath] := by decide
  intro piece hpiece
  rw [hpieces] at hpiece
  rw [List.mem_singleton.mp hpiece]
  exact ⟨by decide, by decide, by decide, by decide⟩

/-- Plain paths are apart where none of them is the marker of another or lies below it. -/
lemma apart_of_plain (hplain : ∀ p ∈ asked, Plain p)
    (hmarker : ∀ p ∈ asked, ∀ q, Known asked q → ¬ pieces (markerPath p) <+: pieces q) :
    Apart pin root asked := by
  have hknown : ∀ q, Known asked q → Plain q := by
    rintro q (hq | rfl)
    · exact hplain q hq
    · exact depsPath_plain
  constructor
  · intro p hp q hq
    rw [place_plain (marker_plain (hplain p hp)).1, mem_passes_plain (hknown q hq)]
    exact hmarker p hp q hq
  · intro p hp q hq hpass hnone
    obtain ⟨hplainq, init, last, hpieces, hmark⟩ := marker_plain (hplain q hq)
    rw [place_plain (marker_plain (hplain p hp)).1, mem_passes_plain hplainq, hmark] at hpass
    rcases List.prefix_concat_iff.mp hpass with heq | hinit
    · rw [← hmark] at heq
      have hsame : markerPath p = markerPath q := by
        rw [← asPosix_pieces (markerPath p), heq, asPosix_pieces]
      rwa [List.append_cancel_right hsame]
    · refine absurd (hinit.trans ?_) (hmarker p hp q (Or.inl hq))
      rw [hpieces]
      exact List.prefix_append _ _
  · intro p q hp hq hplace
    rw [place_plain (hknown p hp), place_plain (hknown q hq)] at hplace
    rw [← asPosix_pieces p, List.append_cancel_left hplace, asPosix_pieces]

end T3dmium.SourceCache
