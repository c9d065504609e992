import T3dmium.PyValue
import T3dmium.SelfDelimiting

/-! `json.dumps(...).encode("utf-8")`. The encoder writes ASCII only, so the
model writes bytes: text goes out as UTF-16 code units, and whatever is not
printable ASCII is escaped. -/
namespace T3dmium

def ascii (s : String) : Bytes := s.toList.map fun c => UInt8.ofNat c.toNat

/-- Characters above U+FFFF become a surrogate pair; a lone surrogate stays. -/
def codeUnits : PyChar → List UInt16
  | .scalar c =>
    if c.toNat < 0x10000 then [UInt16.ofNat c.toNat]
    else [UInt16.ofNat (0xd800 + (c.toNat - 0x10000) / 0x400),
      UInt16.ofNat (0xdc00 + (c.toNat - 0x10000) % 0x400)]
  | .surrogate s => [UInt16.ofNat (0xd800 + s)]

def utf16 (s : PyStr) : List UInt16 := s.flatMap codeUnits

def hexDigit (n : ℕ) : UInt8 := UInt8.ofNat (if n < 10 then 48 + n else 87 + n)

def escapeUnit (u : UInt16) : Bytes :=
  if u = 34 then [92, 34]
  else if u = 92 then [92, 92]
  else if u = 10 then [92, 110]
  else if u = 13 then [92, 114]
  else if u = 9 then [92, 116]
  else if u = 12 then [92, 102]
  else if u = 8 then [92, 98]
  else if 32 ≤ u.toNat ∧ u.toNat ≤ 126 then [UInt8.ofNat u.toNat]
  else [92, 117, hexDigit (u.toNat / 4096), hexDigit (u.toNat / 256 % 16),
    hexDigit (u.toNat / 16 % 16), hexDigit (u.toNat % 16)]

def quoted (s : PyStr) : Bytes := 34 :: ((utf16 s).flatMap escapeUnit ++ [34])

def digits (n : ℕ) : Bytes :=
  if n = 0 then [48] else (Nat.digits 10 n).reverse.map fun d => UInt8.ofNat (48 + d)

def decimal (i : ℤ) : Bytes := if i < 0 then 45 :: digits i.natAbs else digits i.natAbs

/-- What `repr` writes for a float: no quote, no comma, and always some byte
(a point, an exponent, a letter) that no integer has. -/
structure FloatText where
  bytes : Bytes
  plain : 34 ∉ bytes ∧ 44 ∉ bytes
  marked : ∃ b ∈ bytes, b ≠ 45 ∧ ¬ (48 ≤ b.toNat ∧ b.toNat ≤ 57)

structure DumpStyle where
  itemSep : Bytes
  keySep : Bytes
  sortKeys : Bool

/-- `json.dumps` without options. -/
def DumpStyle.default : DumpStyle := ⟨[44, 32], [58, 32], false⟩

/-- `separators=(",", ":"), sort_keys=True` -/
def DumpStyle.compact : DumpStyle := ⟨[44], [58], true⟩

/-- Code points in the order Python compares them. -/
def PyChar.codePoint : PyChar → ℕ
  | .scalar c => c.toNat
  | .surrogate s => 0xd800 + s

def keyLe (a b : PyStr × Bytes) : Bool :=
  decide (a.1.map PyChar.codePoint ≤ b.1.map PyChar.codePoint)

section Dumps
variable (floatRepr : PyFloat → FloatText) (style : DumpStyle)

mutual

def dumps : Json → Bytes
  | .null => ascii "null"
  | .bool b => ascii (if b then "true" else "false")
  | .int i => decimal i
  | .float f => (floatRepr f).bytes
  | .str s => quoted s
  | .list xs => 91 :: (style.itemSep.intercalate (dumpsList xs) ++ [93])
  | .dict items =>
    let ds := dumpsItems items
    let ds := if style.sortKeys then ds.insertionSort fun a b => keyLe a b = true else ds
    123 :: (style.itemSep.intercalate (ds.map fun p => quoted p.1 ++ style.keySep ++ p.2) ++ [125])

def dumpsList : List Json → List Bytes
  | [] => []
  | x :: xs => dumps x :: dumpsList xs

def dumpsItems : List (PyStr × Json) → List (PyStr × Bytes)
  | [] => []
  | (k, v) :: items => (k, dumps v) :: dumpsItems items

end

@[simp] lemma dumps_bool (b : Bool) :
    dumps floatRepr style (.bool b) = ascii (if b then "true" else "false") := by
  rw [dumps]

@[simp] lemma dumps_int (i : ℤ) : dumps floatRepr style (.int i) = decimal i := by rw [dumps]

@[simp] lemma dumps_float (f : PyFloat) :
    dumps floatRepr style (.float f) = (floatRepr f).bytes := by
  rw [dumps]

@[simp] lemma dumps_str (s : PyStr) : dumps floatRepr style (.str s) = quoted s := by rw [dumps]

lemma dumps_list (xs : List Json) :
    dumps floatRepr style (.list xs) =
      91 :: (style.itemSep.intercalate (xs.map (dumps floatRepr style)) ++ [93]) := by
  have hl : dumpsList floatRepr style xs = xs.map (dumps floatRepr style) := by
    induction xs with
    | nil => rw [dumpsList, List.map_nil]
    | cons x xs ih => rw [dumpsList, List.map_cons, ih]
  rw [dumps, hl]

lemma dumps_dict_head (items : List (PyStr × Json)) :
    ∃ w, dumps floatRepr style (.dict items) = 123 :: w := by
  rw [dumps]
  exact ⟨_, rfl⟩

end Dumps

/-! The escapes and the numerals are self-delimiting. -/

def hexValue (b : UInt8) : ℕ :=
  if b.toNat < 58 then b.toNat - 48 else if b.toNat < 71 then b.toNat - 55 else b.toNat - 87

lemma hexValue_hexDigit {n : ℕ} (h : n < 16) : hexValue (hexDigit n) = n := by
  have hh : ∀ m : Fin 16, hexValue (hexDigit m) = m := by decide
  exact hh ⟨n, h⟩

def unescape (b : UInt8) : UInt16 :=
  if b = 110 then 10
  else if b = 114 then 13
  else if b = 116 then 9
  else if b = 102 then 12
  else if b = 98 then 8
  else b.toUInt16

/-- A code unit is escaped by one letter, stands for itself, or is written in hexadecimal. -/
lemma escapeUnit_cases (u : UInt16) :
    (∃ e ∈ ([34, 92, 110, 114, 116, 102, 98] : Bytes), escapeUnit u = [92, e] ∧ unescape e = u) ∨
      (u ≠ 34 ∧ u ≠ 92 ∧ (32 ≤ u.toNat ∧ u.toNat ≤ 126) ∧ escapeUnit u = [UInt8.ofNat u.toNat]) ∨
      escapeUnit u = [92, 117, hexDigit (u.toNat / 4096), hexDigit (u.toNat / 256 % 16),
        hexDigit (u.toNat / 16 % 16), hexDigit (u.toNat % 16)] := by
  by_cases hletter : u ∈ ([34, 92, 10, 13, 9, 12, 8] : List UInt16)
  · left
    simp only [List.mem_cons, List.not_mem_nil, or_false] at hletter
    rcases hletter with rfl | rfl | rfl | rfl | rfl | rfl | rfl
    · exact ⟨34, by decide, rfl, rfl⟩
    · exact ⟨92, by decide, rfl, rfl⟩
    · exact ⟨110, by decide, rfl, rfl⟩
    · exact ⟨114, by decide, rfl, rfl⟩
    · exact ⟨116, by decide, rfl, rfl⟩
    · exact ⟨102, by decide, rfl, rfl⟩
    · exact ⟨98, by decide, rfl, rfl⟩
  · simp only [List.mem_cons, List.not_mem_nil, or_false, not_or] at hletter
    obtain ⟨h1, h2, h3, h4, h5, h6, h7⟩ := hletter
    right
    rw [escapeUnit, if_neg h1, if_neg h2, if_neg h3, if_neg h4, if_neg h5, if_neg h6, if_neg h7]
    by_cases hplain : 32 ≤ u.toNat ∧ u.toNat ≤ 126
    · exact .inl ⟨h1, h2, hplain, if_pos hplain⟩
    · exact .inr (if_neg hplain)

/-- Reads one escaped code unit and returns the rest. -/
def readUnit : Bytes → Option (UInt16 × Bytes)
  | [] => none
  | b :: r =>
    if b = 92 then
      match r with
      | [] => none
      | e :: r =>
        if e = 117 then
          match r with
          | a :: b :: c :: d :: r =>
            some (UInt16.ofNat
              (hexValue a * 4096 + hexValue b * 256 + hexValue c * 16 + hexValue d), r)
          | _ => none
        else some (unescape e, r)
    else some (b.toUInt16, r)

lemma readUnit_plain {u : UInt16} (h1 : 32 ≤ u.toNat) (h2 : u.toNat ≤ 126) (h3 : u ≠ 92)
    (x : Bytes) : readUnit (UInt8.ofNat u.toNat :: x) = some (u, x) := by
  have hn : (UInt8.ofNat u.toNat).toNat = u.toNat := by
    rw [UInt8.toNat_ofNat']
    omega
  have h92 : UInt8.ofNat u.toNat ≠ 92 := by
    intro he
    have hh := congrArg UInt8.toNat he
    rw [hn] at hh
    exact h3 (UInt16.toNat_inj.mp hh)
  have hu : (UInt8.ofNat u.toNat).toUInt16 = u := by
    apply UInt16.toNat_inj.mp
    rw [UInt8.toNat_toUInt16, hn]
  simp only [readUnit, if_neg h92, hu]

lemma readUnit_escapeUnit (u : UInt16) (x : Bytes) :
    readUnit (escapeUnit u ++ x) = some (u, x) := by
  rcases escapeUnit_cases u with ⟨e, he, hescape, hback⟩ | ⟨-, h92, hplain, hescape⟩ | hescape
  · have hletter : e ≠ 117 := by
      rintro rfl
      exact absurd he (by decide)
    rw [hescape]
    simp only [List.cons_append, List.nil_append, readUnit, ↓reduceIte, if_neg hletter, hback]
  · rw [hescape]
    exact readUnit_plain hplain.1 hplain.2 h92 x
  · have hu := u.toNat_lt
    rw [hescape]
    simp only [List.cons_append, List.nil_append, readUnit, ↓reduceIte]
    rw [hexValue_hexDigit (by omega), hexValue_hexDigit (by omega), hexValue_hexDigit (by omega),
      hexValue_hexDigit (by omega)]
    rw [show u.toNat / 4096 * 4096 + u.toNat / 256 % 16 * 256 + u.toNat / 16 % 16 * 16 +
      u.toNat % 16 = u.toNat by omega, UInt16.ofNat_toNat]

lemma escapeUnit_selfDelimiting : SelfDelimiting escapeUnit :=
  .of_reader readUnit readUnit_escapeUnit

lemma escapeUnit_head (u : UInt16) : ∃ b w, escapeUnit u = b :: w ∧ b ≠ 34 := by
  rcases escapeUnit_cases u with ⟨e, -, hescape, -⟩ | ⟨h1, -, hplain, hescape⟩ | hescape
  · exact ⟨_, _, hescape, by decide⟩
  · refine ⟨_, _, hescape, ?_⟩
    intro he
    have hh := congrArg UInt8.toNat he
    rw [UInt8.toNat_ofNat'] at hh
    apply h1
    apply UInt16.toNat_inj.mp
    have h34 : (34 : UInt8).toNat = 34 := rfl
    have h34' : (34 : UInt16).toNat = 34 := rfl
    omega
  · exact ⟨_, _, hescape, by decide⟩

/-- Two quoted texts with anything after them agree only on texts of the same
code units. -/
lemma quoted_append {s t : PyStr} {x y : Bytes} (h : quoted s ++ x = quoted t ++ y) :
    utf16 s = utf16 t ∧ x = y := by
  simp only [quoted, List.cons_append, List.cons.injEq, true_and] at h
  exact escapeUnit_selfDelimiting.terminated escapeUnit_head _ _ _ _ h

lemma digits_mem {n : ℕ} {b : UInt8} (h : b ∈ digits n) : 48 ≤ b.toNat ∧ b.toNat ≤ 57 := by
  unfold digits at h
  split_ifs at h
  · rw [List.mem_singleton.mp h]
    decide
  · obtain ⟨d, hd, rfl⟩ := List.mem_map.mp h
    have hlt := Nat.digits_lt_base (by norm_num : 1 < 10) (List.mem_reverse.mp hd)
    rw [UInt8.toNat_ofNat']
    omega

lemma digits_ne_nil (n : ℕ) : digits n ≠ [] := by
  unfold digits
  split_ifs with h
  · simp
  · simpa [Nat.digits_ne_nil_iff_ne_zero] using h

/-- The number some decimal digits stand for. -/
def numeral (ds : Bytes) : ℕ := Nat.ofDigits 10 (ds.reverse.map fun b => b.toNat - 48)

@[simp] lemma numeral_digits (n : ℕ) : numeral (digits n) = n := by
  unfold numeral digits
  split_ifs with h
  · subst h
    rfl
  · rw [← List.map_reverse, List.reverse_reverse, List.map_map]
    have hid : (Nat.digits 10 n).map ((fun b : UInt8 => b.toNat - 48) ∘
        fun d => UInt8.ofNat (48 + d)) = Nat.digits 10 n := by
      conv_rhs => rw [← List.map_id (Nat.digits 10 n)]
      refine List.map_congr_left fun d hd => ?_
      have hlt := Nat.digits_lt_base (by norm_num : 1 < 10) hd
      simp only [Function.comp_apply, UInt8.toNat_ofNat', id]
      omega
    rw [hid, Nat.ofDigits_digits]

lemma digits_injective : Function.Injective digits := Function.LeftInverse.injective numeral_digits

lemma decimal_mem {i : ℤ} {b : UInt8} (h : b ∈ decimal i) :
    b = 45 ∨ (48 ≤ b.toNat ∧ b.toNat ≤ 57) := by
  unfold decimal at h
  split_ifs at h
  · rcases List.mem_cons.mp h with h | h
    · exact Or.inl h
    · exact Or.inr (digits_mem h)
  · exact Or.inr (digits_mem h)

lemma decimal_ne_nil (i : ℤ) : decimal i ≠ [] := by
  unfold decimal
  split_ifs
  · simp
  · exact digits_ne_nil _

lemma decimal_injective : Function.Injective decimal := by
  have hhead : ∀ n w, digits n ≠ 45 :: w := by
    intro n w h
    have hm : (45 : UInt8) ∈ digits n := h ▸ List.mem_cons_self
    exact absurd (digits_mem hm).1 (by decide)
  intro i j h
  unfold decimal at h
  split_ifs at h with hi hj hj
  · have hn := digits_injective (List.cons.inj h).2
    omega
  · exact (hhead _ _ h.symm).elim
  · exact (hhead _ _ h).elim
  · have hn := digits_injective h
    omega

lemma comma_notMem_decimal (i : ℤ) : (44 : UInt8) ∉ decimal i := by
  intro h
  rcases decimal_mem h with h | h
  · exact absurd h (by decide)
  · exact absurd h.1 (by decide)

/-! What a dumped value can be confused with when anything may follow it. -/

section Confusion
variable {floatRepr : PyFloat → FloatText} {style : DumpStyle} {v : Json} {x y : Bytes}

lemma dumps_head_of_not_str (hv : ∀ s, v ≠ .str s) :
    ∃ b w, dumps floatRepr style v = b :: w ∧ b ≠ 34 := by
  cases v with
  | null => exact ⟨_, _, rfl, by decide⟩
  | bool b => cases b <;> exact ⟨_, _, rfl, by decide⟩
  | int i =>
    obtain ⟨b, w, hw⟩ := List.exists_cons_of_ne_nil (decimal_ne_nil i)
    refine ⟨b, w, by rw [dumps_int, hw], ?_⟩
    rintro rfl
    have hm : (34 : UInt8) ∈ decimal i := hw ▸ List.mem_cons_self
    rcases decimal_mem hm with h | h
    · exact absurd h (by decide)
    · exact absurd h.1 (by decide)
  | float f =>
    obtain ⟨b, hb, -⟩ := (floatRepr f).marked
    obtain ⟨c, w, hw⟩ := List.exists_cons_of_ne_nil (List.ne_nil_of_mem hb)
    refine ⟨c, w, by rw [dumps_float, hw], ?_⟩
    rintro rfl
    exact (floatRepr f).plain.1 (hw ▸ List.mem_cons_self)
  | str s => exact (hv s rfl).elim
  | list xs => exact ⟨91, _, dumps_list _ _ xs, by decide⟩
  | dict items =>
    obtain ⟨w, hw⟩ := dumps_dict_head floatRepr style items
    exact ⟨123, w, hw, by decide⟩

/-- Only a text of the same code units is dumped like a given text. -/
lemma dumps_eq_quoted {s : PyStr} (h : dumps floatRepr style v ++ x = quoted s ++ y) :
    (∃ t, v = .str t ∧ utf16 t = utf16 s) ∧ x = y := by
  by_cases hv : ∃ t, v = .str t
  · obtain ⟨t, rfl⟩ := hv
    rw [dumps_str] at h
    obtain ⟨hu, hxy⟩ := quoted_append h
    exact ⟨⟨t, rfl, hu⟩, hxy⟩
  · have hhead : ∃ b w, dumps floatRepr style v = b :: w ∧ b ≠ 34 :=
      dumps_head_of_not_str fun s hs => hv ⟨s, hs⟩
    obtain ⟨b, w, hb, hne⟩ := hhead
    rw [hb, quoted] at h
    simp only [List.cons_append, List.cons.injEq] at h
    exact (hne h.1).elim

lemma dumps_head_ne_decimal {b : UInt8} {w : Bytes} {i : ℤ}
    (hb : b ≠ 45 ∧ ¬ (48 ≤ b.toNat ∧ b.toNat ≤ 57)) : b :: w ++ x ≠ decimal i ++ y := by
  intro h
  obtain ⟨c, u, hu⟩ := List.exists_cons_of_ne_nil (decimal_ne_nil i)
  have hm : c ∈ decimal i := hu ▸ List.mem_cons_self
  rw [hu, List.cons_append, List.cons_append, List.cons.injEq] at h
  rcases decimal_mem (h.1 ▸ hm) with hc | hc
  · exact hb.1 hc
  · exact hb.2 hc

/-- Only the same integer is dumped like a given integer before a comma. -/
lemma dumps_eq_decimal {i : ℤ}
    (h : dumps floatRepr style v ++ 44 :: x = decimal i ++ 44 :: y) : v = .int i ∧ x = y := by
  cases v with
  | null => exact (dumps_head_ne_decimal (by decide) h).elim
  | bool b => cases b <;> exact (dumps_head_ne_decimal (by decide) h).elim
  | int j =>
    rw [dumps_int] at h
    obtain ⟨hd, hxy⟩ :=
      SelfDelimiting.split_at_first (comma_notMem_decimal j) (comma_notMem_decimal i) h
    exact ⟨by rw [decimal_injective hd], hxy⟩
  | float f =>
    rw [dumps_float] at h
    obtain ⟨hd, -⟩ :=
      SelfDelimiting.split_at_first (floatRepr f).plain.2 (comma_notMem_decimal i) h
    obtain ⟨b, hb, hne, hnd⟩ := (floatRepr f).marked
    rcases decimal_mem (hd ▸ hb) with hc | hc
    · exact (hne hc).elim
    · exact (hnd hc).elim
  | str s =>
    rw [dumps_str, quoted] at h
    exact (dumps_head_ne_decimal (by decide) h).elim
  | list xs =>
    rw [dumps_list] at h
    exact (dumps_head_ne_decimal (by decide) h).elim
  | dict items =>
    obtain ⟨w, hw⟩ := dumps_dict_head floatRepr style items
    rw [hw] at h
    exact (dumps_head_ne_decimal (by decide) h).elim

end Confusion
/-! Lengths -/

lemma escapeUnit_length_le (u : UInt16) : (escapeUnit u).length ≤ 6 := by
  rcases escapeUnit_cases u with ⟨e, -, hescape, -⟩ | ⟨-, -, -, hescape⟩ | hescape
  all_goals
    rw [hescape]
    simp

lemma quoted_length_le (s : String) : (quoted (.ofString s)).length ≤ 12 * s.length + 2 := by
  have hescape : ∀ us : List UInt16, (us.flatMap escapeUnit).length ≤ 6 * us.length := by
    intro us
    induction us with
    | nil => rfl
    | cons u us ih =>
      have hu := escapeUnit_length_le u
      simp only [List.flatMap_cons, List.length_append, List.length_cons]
      omega
  have hunits : ∀ cs : List Char, (utf16 (cs.map .scalar)).length ≤ 2 * cs.length := by
    intro cs
    induction cs with
    | nil => rfl
    | cons c cs ih =>
      have hc : (codeUnits (.scalar c)).length ≤ 2 := by
        rw [codeUnits]
        split_ifs <;> simp
      simp only [utf16, List.map_cons, List.flatMap_cons, List.length_append, List.length_cons] at ih ⊢
      omega
  have h1 := hescape (utf16 (.ofString s))
  have h2 := hunits s.toList
  rw [String.length_toList] at h2
  simp only [quoted, List.length_cons, List.length_append, List.length_nil]
  change (utf16 (.ofString s)).length ≤ _ at h2
  omega

end T3dmium
