import T3dmium.JsonParse

/-! `json.dumps(..., indent=2)`: each element and each item on a line of its own. -/
namespace T3dmium

/-- `'\n' + _indent * level` -/
def newline (level : ℕ) : Bytes := 10 :: List.replicate (2 * level) 32

section
variable (floatRepr : PyFloat → FloatText)

mutual

def dumpsIndent : ℕ → Json → Bytes
  | _, .null => ascii "null"
  | _, .bool b => ascii (if b then "true" else "false")
  | _, .int i => decimal i
  | _, .float f => (floatRepr f).bytes
  | _, .str s => quoted s
  | level, .list xs =>
    if xs.isEmpty then [91, 93]
    else 91 :: (newline (level + 1) ++
      ((44 :: newline (level + 1)).intercalate (indentList (level + 1) xs) ++ (newline level ++ [93])))
  | level, .dict items =>
    if items.isEmpty then [123, 125]
    else 123 :: (newline (level + 1) ++
      ((44 :: newline (level + 1)).intercalate (indentItems (level + 1) items) ++
        (newline level ++ [125])))

def indentList : ℕ → List Json → List Bytes
  | _, [] => []
  | level, x :: xs => dumpsIndent level x :: indentList level xs

def indentItems : ℕ → List (PyStr × Json) → List Bytes
  | _, [] => []
  | level, (k, v) :: items =>
    (quoted k ++ 58 :: 32 :: dumpsIndent level v) :: indentItems level items

end

variable {floatRepr}

lemma indentList_eq (level : ℕ) (xs : List Json) :
    indentList floatRepr level xs = xs.map (dumpsIndent floatRepr level) := by
  induction xs with
  | nil => rw [indentList, List.map_nil]
  | cons x xs ih => rw [indentList, ih, List.map_cons]

lemma indentItems_eq (level : ℕ) (items : List (String × Json)) :
    indentItems floatRepr level (items.map fun i => (PyStr.ofString i.1, i.2)) =
      items.map (writtenItem (dumpsIndent floatRepr level)) := by
  induction items with
  | nil => rw [List.map_nil, indentItems, List.map_nil]
  | cons i items ih =>
    rw [List.map_cons, indentItems, ih, List.map_cons]
    rfl

lemma blank_newline (level : ℕ) : Blank (newline level) := by
  intro b hb
  rw [newline, List.mem_cons] at hb
  rcases hb with rfl | hb
  · rfl
  · rw [List.eq_of_mem_replicate hb]
    rfl

lemma Json.Plain.dumpsIndent_starts {v : Json} (hv : v.Plain) (level : ℕ) :
    Starts (dumpsIndent floatRepr level v) := by
  cases hv with
  | null => exact ⟨110, _, rfl, rfl, by decide⟩
  | bool b => cases b <;> exact ⟨_, _, rfl, rfl, by decide⟩
  | int i =>
    rw [dumpsIndent]
    exact decimal_starts i
  | str h => exact ⟨34, _, by rw [dumpsIndent, quoted], rfl, by decide⟩
  | list h =>
    rw [dumpsIndent]
    split_ifs <;> exact ⟨91, _, rfl, rfl, by decide⟩
  | object hk hv =>
    rw [Json.object, dumpsIndent]
    split_ifs <;> exact ⟨123, _, rfl, rfl, by decide⟩

/-- Indentation is space between tokens. -/
lemma Json.Plain.dumpsIndent_readAs {v : Json} (hv : v.Plain) (level : ℕ) :
    ReadAs v (dumpsIndent floatRepr level v) := by
  induction hv generalizing level with
  | null =>
    rw [dumpsIndent]
    exact readAs_null
  | bool b =>
    rw [dumpsIndent]
    exact readAs_bool b
  | int i =>
    rw [dumpsIndent]
    exact readAs_int i
  | str hs =>
    rw [dumpsIndent]
    exact readAs_str hs
  | @list xs hplain h =>
    rw [dumpsIndent]
    cases xs with
    | nil =>
      intro n x hx hn
      obtain ⟨m, rfl⟩ := Nat.exists_eq_succ_of_ne_zero (by rintro rfl; simp at hn : n ≠ 0)
      rfl
    | cons v xs =>
      rw [List.isEmpty_cons, if_neg (by decide), indentList_eq]
      exact readAs_list (by simp) (fun u hu => (hplain u hu).dumpsIndent_starts _)
        (fun u hu => h u hu _) (blank_newline _) (blank_newline _) (blank_newline _)
  | @object items hk _ h =>
    rw [Json.object, dumpsIndent]
    cases items with
    | nil =>
      intro n x hx hn
      obtain ⟨m, rfl⟩ := Nat.exists_eq_succ_of_ne_zero (by rintro rfl; simp at hn : n ≠ 0)
      rfl
    | cons i items =>
      rw [indentItems_eq, List.map_cons, List.isEmpty_cons, if_neg (by decide)]
      exact readAs_object (by simp) hk (fun j hj => h j hj _) (blank_newline _) (blank_newline _)
        (blank_newline _)

/-- A plain value is read back from its lines. -/
theorem loadsText_dumpsIndent {v : Json} (hv : v.Plain) :
    loadsText (dumpsIndent floatRepr 0 v ++ [10]) = .ok v := by
  have hread : readValue ((dumpsIndent floatRepr 0 v ++ [10]).length + 1)
      (dumpsIndent floatRepr 0 v ++ [10]) = some (v, [10]) := by
    refine hv.dumpsIndent_readAs 0 _ _ (fun b hb => ?_) ?_
    · cases hb
      exact .inl rfl
    · rw [List.length_append]
      omega
  rw [loadsText, hread]
  rfl

end
end T3dmium
