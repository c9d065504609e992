import T3dmium.PyText

/-! Texts cut into lines: what `Path.read_text` makes of line ends, and
`str.splitlines`. -/
namespace T3dmium.Lines

/-- What `str.splitlines` ends a line at. -/
def isBreak (c : Char) : Bool :=
  let n := c.toNat
  decide (10 ≤ n ∧ n ≤ 13 ∨ 28 ≤ n ∧ n ≤ 30 ∨ n = 0x85 ∨ n = 0x2028 ∨ n = 0x2029)

/-- `text.splitlines()`: `\r\n` is one break, and no line follows a break at the end. -/
def splitlines : List Char → List (List Char)
  | [] => []
  | c :: text =>
    if c = '\r' ∧ text.head? = some '\n' then splitlines text
    else if isBreak c then [] :: splitlines text
    else
      match splitlines text with
      | [] => [[c]]
      | line :: lines => (c :: line) :: lines

/-- `read_text` turns `\r\n` and `\r` into `\n`. -/
def universalNewlines : List Char → List Char
  | [] => []
  | c :: text =>
    if c = '\r' then
      if text.head? = some '\n' then universalNewlines text else '\n' :: universalNewlines text
    else c :: universalNewlines text

/-- What follows each break of a text. -/
def later : List Char → List (List Char)
  | [] => []
  | c :: text => if isBreak c then text :: later text else later text

/-- A text up to its first break. -/
def front (text : List Char) : List Char := text.takeWhile fun c => !isBreak c

lemma isSpace_of_isBreak {c : Char} (h : isBreak c = true) : isSpace c = true := by
  simp only [isBreak, isSpace, decide_eq_true_eq] at h ⊢
  omega

lemma front_break {c : Char} (h : isBreak c = true) (text : List Char) : front (c :: text) = [] := by
  simp [front, h]

lemma front_cons {c : Char} (h : isBreak c = false) (text : List Char) :
    front (c :: text) = c :: front text := by
  simp [front, h]

/-- Reading the file as text first changes no line. -/
lemma splitlines_universalNewlines (text : List Char) :
    splitlines (universalNewlines text) = splitlines text := by
  induction text with
  | nil => rfl
  | cons c text ih =>
    rw [universalNewlines]
    split_ifs with hc hn
    · rw [ih, splitlines, if_pos ⟨hc, hn⟩]
    · have hbreak : isBreak c = true := by rw [hc]; rfl
      have hpair : ¬ (c = '\r' ∧ text.head? = some '\n') := fun h => hn h.2
      rw [splitlines, splitlines, if_neg hpair, if_pos hbreak, ih]
      rfl
    · have hpair (rest : List Char) : ¬ (c = '\r' ∧ rest.head? = some '\n') := fun h => hc h.1
      rw [splitlines, splitlines, if_neg (hpair _), if_neg (hpair _), ih]

lemma splitlines_eq_front {text : List Char} (h : text ≠ []) :
    ∃ lines, splitlines text = front text :: lines := by
  induction text with
  | nil => exact absurd rfl h
  | cons c text ih =>
    rw [splitlines]
    split_ifs with hpair hbreak
    · obtain ⟨rfl, hn⟩ := hpair
      obtain ⟨rest, rfl⟩ := List.head?_eq_some_iff.mp hn
      obtain ⟨lines, hlines⟩ := ih (List.cons_ne_nil _ _)
      exact ⟨lines, by rw [hlines, front_break (by rfl), front_break (by rfl)]⟩
    · exact ⟨splitlines text, by rw [front_break hbreak]⟩
    · rw [Bool.not_eq_true] at hbreak
      rw [front_cons hbreak]
      cases text with
      | nil => exact ⟨[], rfl⟩
      | cons d text =>
        obtain ⟨lines, hlines⟩ := ih (List.cons_ne_nil _ _)
        exact ⟨lines, by rw [hlines]⟩

/-- A line feed ends a line wherever it stands. -/
lemma splitlines_append (line text : List Char) :
    splitlines (line ++ '\n' :: text) = splitlines (line ++ ['\n']) ++ splitlines text := by
  induction line with
  | nil => rfl
  | cons c line ih =>
    have hhead : (line ++ '\n' :: text).head? = (line ++ ['\n']).head? := by cases line <;> rfl
    rw [List.cons_append, List.cons_append, splitlines, splitlines, hhead, ih]
    split_ifs
    · rfl
    · rfl
    · obtain ⟨lines, hlines⟩ : ∃ lines, splitlines (line ++ ['\n']) = front (line ++ ['\n']) :: lines :=
        splitlines_eq_front (by simp)
      rw [hlines]
      rfl

lemma splitlines_flatMap (lines : List (List Char)) :
    splitlines (lines.flatMap fun line => line ++ ['\n']) =
      lines.flatMap fun line => splitlines (line ++ ['\n']) := by
  induction lines with
  | nil => rfl
  | cons line lines ih =>
    rw [List.flatMap_cons, List.flatMap_cons, ← ih, List.append_assoc]
    exact splitlines_append line _

/-- A search that looks at no more than the front of a line finds in the lines of a text
what it finds at its start and after its breaks. -/
lemma filterMap_splitlines {β : Type*} {f : List Char → Option β} (hnil : f [] = none)
    (hfront : ∀ text, f (front text) = f text) (text : List Char) :
    (splitlines text).filterMap f = (text :: later text).filterMap f := by
  have hbroken : ∀ {c : Char} (rest : List Char), isBreak c = true → f (c :: rest) = none := by
    intro c rest hc
    rw [← hfront, front_break hc, hnil]
  induction text with
  | nil => simp [splitlines, later, hnil]
  | cons c text ih =>
    rw [splitlines, later]
    split_ifs with hpair hbreak hbreak
    · rw [ih, List.filterMap_cons_none (hbroken text hbreak)]
    · exact absurd (by rw [hpair.1]; rfl) hbreak
    · rw [List.filterMap_cons_none hnil, ih, List.filterMap_cons_none (hbroken text hbreak)]
    · rw [Bool.not_eq_true] at hbreak
      cases text with
      | nil =>
        have hsingle : f (front [c]) = f [c] := hfront [c]
        simp [splitlines, later]
      | cons d text =>
        obtain ⟨lines, hlines⟩ := splitlines_eq_front (List.cons_ne_nil d text)
        have htail : lines.filterMap f = (later (d :: text)).filterMap f := by
          rw [hlines, List.filterMap_cons, List.filterMap_cons, hfront] at ih
          cases hf : f (d :: text) with
          | none => simpa [hf] using ih
          | some name => simpa [hf] using ih
        rw [hlines]
        change ((c :: front (d :: text)) :: lines).filterMap f = _
        rw [← front_cons hbreak, List.filterMap_cons, List.filterMap_cons, hfront, htail]

lemma front_append (text rest : List Char) : front (text ++ '\n' :: rest) = front text := by
  induction text with
  | nil => rfl
  | cons c text ih =>
    rw [List.cons_append]
    cases hbreak : isBreak c with
    | true => rw [front_break hbreak, front_break hbreak]
    | false => rw [front_cons hbreak, front_cons hbreak, ih]

lemma later_append (text : List Char) :
    later (text ++ ['\n']) = (later text).map (· ++ ['\n']) ++ [[]] := by
  induction text with
  | nil => rfl
  | cons c text ih =>
    rw [List.cons_append, later, later, ih]
    split_ifs <;> rfl

/-- The same on the lines that a terminated line is cut into. -/
lemma filterMap_splitlines_line {β : Type*} {f : List Char → Option β} (hnil : f [] = none)
    (hfront : ∀ text, f (front text) = f text) (line : List Char) :
    (splitlines (line ++ ['\n'])).filterMap f = (line :: later line).filterMap f := by
  have hend : ∀ text, f (text ++ ['\n']) = f text := by
    intro text
    rw [← hfront, front_append, hfront]
  have hmap : ((later line).map (· ++ ['\n'])).filterMap f = (later line).filterMap f := by
    rw [List.filterMap_map]
    exact congrArg (List.filterMap · _) (funext hend)
  rw [filterMap_splitlines hnil hfront, later_append, List.filterMap_cons, List.filterMap_cons, hend,
    List.filterMap_append, hmap, List.filterMap_cons_none hnil, List.filterMap_nil, List.append_nil]

end T3dmium.Lines
