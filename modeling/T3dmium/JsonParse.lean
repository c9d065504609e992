import T3dmium.JsonText

/-! A reader for JSON texts in ASCII without floats. It returns what `dumps` was
given, provided that no two surrogates of a text make a pair and the keys of a dict
are distinct. -/
namespace T3dmium

def isWs (b : UInt8) : Bool := b = 32 || b = 9 || b = 10 || b = 13

def skipWs (bs : Bytes) : Bytes := bs.dropWhile isWs

def isDigit (b : UInt8) : Bool := decide (48 ≤ b.toNat ∧ b.toNat ≤ 57)

def isHex (b : UInt8) : Bool :=
  isDigit b || decide (65 ≤ b.toNat ∧ b.toNat ≤ 70) || decide (97 ≤ b.toNat ∧ b.toNat ≤ 102)

/-! Texts -/

/-- Whether a code unit may stand here: a known escape, or a printable character. -/
def validUnit : Bytes → Bool
  | [] => false
  | b :: r =>
    if b = 92 then
      match r with
      | [] => false
      | e :: r => if e = 117 then decide (4 ≤ r.length) && (r.take 4).all isHex
          else ([34, 92, 47, 98, 102, 110, 114, 116] : Bytes).contains e
    else decide (32 ≤ b.toNat ∧ b.toNat < 128)

/-- The code units up to the closing quote. -/
def readUnits : ℕ → Bytes → Option (List UInt16 × Bytes)
  | 0, _ => none
  | n + 1, bs =>
    if bs.head? = some 34 then some ([], bs.tail)
    else if validUnit bs then
      (readUnit bs).bind fun p => (readUnits n p.2).map fun q => (p.1 :: q.1, q.2)
    else none

def unitChar (u : UInt16) : PyChar :=
  if h : 0xd800 ≤ u.toNat ∧ u.toNat < 0xe000 then .surrogate ⟨u.toNat - 0xd800, by omega⟩
  else .scalar (Char.ofNat u.toNat)

/-- A high and a low surrogate make one character. -/
def decodeUnits : List UInt16 → PyStr
  | [] => []
  | [u] => [unitChar u]
  | u :: v :: us =>
    if (0xd800 ≤ u.toNat ∧ u.toNat < 0xdc00) ∧ 0xdc00 ≤ v.toNat ∧ v.toNat < 0xe000 then
      .scalar (Char.ofNat (0x10000 + (u.toNat - 0xd800) * 0x400 + (v.toNat - 0xdc00))) ::
        decodeUnits us
    else unitChar u :: decodeUnits (v :: us)

def readString (bs : Bytes) : Option (PyStr × Bytes) :=
  (readUnits (bs.length + 1) bs).map fun p => (decodeUnits p.1, p.2)

/-! Values -/

def readNumber (bs : Bytes) : Option (Json × Bytes) :=
  let neg := decide (bs.head? = some 45)
  let text := if neg then bs.tail else bs
  let ds := text.takeWhile isDigit
  let rest := text.dropWhile isDigit
  if ds = [] ∨ (ds.head? = some 48 ∧ ds ≠ [48]) ∨ rest.head? ∈ [some 46, some 69, some 101] then none
  else some (.int (if neg then -(numeral ds : ℤ) else numeral ds), rest)

def readScalar (bs : Bytes) : Option (Json × Bytes) :=
  if ascii "null" <+: bs then some (.null, bs.drop 4)
  else if ascii "true" <+: bs then some (.bool true, bs.drop 4)
  else if ascii "false" <+: bs then some (.bool false, bs.drop 5)
  else readNumber bs

/-- A later value for a key replaces the earlier one. -/
def dictOf (items : List (PyStr × Json)) : List (PyStr × Json) :=
  items.foldl (fun d p =>
    if (d.lookup p.1).isSome then d.map fun q => if q.1 = p.1 then p else q else d ++ [p]) []

mutual

def readValue : ℕ → Bytes → Option (Json × Bytes)
  | 0, _ => none
  | n + 1, bs =>
    match skipWs bs with
    | [] => none
    | b :: r =>
      if b = 34 then (readString r).map fun p => (.str p.1, p.2)
      else if b = 91 then
        if (skipWs r).head? = some 93 then some (.list [], (skipWs r).tail)
        else (readElements n r).map fun p => (.list p.1, p.2)
      else if b = 123 then
        if (skipWs r).head? = some 125 then some (.dict [], (skipWs r).tail)
        else (readItems n r).map fun p => (.dict (dictOf p.1), p.2)
      else readScalar (b :: r)

def readElements : ℕ → Bytes → Option (List Json × Bytes)
  | 0, _ => none
  | n + 1, bs =>
    (readValue n bs).bind fun p =>
      match skipWs p.2 with
      | [] => none
      | b :: r =>
        if b = 44 then (readElements n r).map fun q => (p.1 :: q.1, q.2)
        else if b = 93 then some ([p.1], r)
        else none

def readItems : ℕ → Bytes → Option (List (PyStr × Json) × Bytes)
  | 0, _ => none
  | n + 1, bs =>
    match skipWs bs with
    | [] => none
    | b :: r =>
      if b = 34 then
        (readString r).bind fun k =>
          if (skipWs k.2).head? = some 58 then
            (readValue n (skipWs k.2).tail).bind fun p =>
              match skipWs p.2 with
              | [] => none
              | b :: r =>
                if b = 44 then (readItems n r).map fun q => ((k.1, p.1) :: q.1, q.2)
                else if b = 125 then some ([(k.1, p.1)], r)
                else none
          else none
      else none

end

/-- `json.loads` on such a text. -/
def loadsText (body : Bytes) : Except PyError Json :=
  match readValue (body.length + 1) body with
  | some (v, r) => if skipWs r = [] then .ok v else .error .valueError
  | none => .error .valueError

/-! Reading texts back -/

lemma isHex_hexDigit {n : ℕ} (h : n < 16) : isHex (hexDigit n) = true := by
  have hh : ∀ m : Fin 16, isHex (hexDigit m) = true := by decide
  exact hh ⟨n, h⟩

lemma validUnit_escapeUnit (u : UInt16) (x : Bytes) : validUnit (escapeUnit u ++ x) = true := by
  rcases escapeUnit_cases u with ⟨e, he, hescape, -⟩ | ⟨-, h2, h8, hescape⟩ | hescape
  · rw [hescape]
    simp only [List.mem_cons, List.not_mem_nil, or_false] at he
    rcases he with rfl | rfl | rfl | rfl | rfl | rfl | rfl
    all_goals rfl
  · rw [hescape]
    have hn : (UInt8.ofNat u.toNat).toNat = u.toNat := by
      rw [UInt8.toNat_ofNat']
      omega
    have h92 : UInt8.ofNat u.toNat ≠ 92 := by
      intro he
      have hh := congrArg UInt8.toNat he
      rw [hn] at hh
      exact h2 (UInt16.toNat_inj.mp hh)
    simp only [List.cons_append, List.nil_append, validUnit, if_neg h92, hn, decide_eq_true_eq]
    omega
  · have hu := u.toNat_lt
    rw [hescape]
    simp only [List.cons_append, List.nil_append, validUnit, ↓reduceIte, List.length_cons,
      List.take_succ_cons, List.take_zero, List.all_cons, List.all_nil, Bool.and_true,
      Bool.and_eq_true, decide_eq_true_eq]
    exact ⟨by omega, isHex_hexDigit (by omega), isHex_hexDigit (by omega),
      isHex_hexDigit (by omega), isHex_hexDigit (by omega)⟩

lemma readUnits_escape (us : List UInt16) (x : Bytes) {n : ℕ} (hn : us.length < n) :
    readUnits n (us.flatMap escapeUnit ++ 34 :: x) = some (us, x) := by
  induction us generalizing n with
  | nil =>
    obtain ⟨m, rfl⟩ := Nat.exists_eq_succ_of_ne_zero (by omega : n ≠ 0)
    rfl
  | cons u us ih =>
    obtain ⟨m, rfl⟩ := Nat.exists_eq_succ_of_ne_zero (by omega : n ≠ 0)
    obtain ⟨b, w, hb, hne⟩ := escapeUnit_head u
    rw [List.flatMap_cons, List.append_assoc, readUnits, validUnit_escapeUnit, readUnit_escapeUnit]
    have hhead : (escapeUnit u ++ (us.flatMap escapeUnit ++ 34 :: x)).head? ≠ some 34 := by
      rw [hb]
      simpa using hne
    simp only [if_neg hhead, if_true, Option.bind_some, ih (by simp at hn; omega), Option.map_some]

lemma decodeUnits_cons {u : UInt16} (hu : ¬ (0xd800 ≤ u.toNat ∧ u.toNat < 0xdc00))
    (us : List UInt16) : decodeUnits (u :: us) = unitChar u :: decodeUnits us := by
  cases us with
  | nil => rfl
  | cons v us =>
    rw [decodeUnits, if_neg]
    exact fun h => hu h.1

/-- No low surrogate follows a high one, as in a text of Unicode scalar values. -/
def PyStr.Unpaired (s : PyStr) : Prop :=
  s.IsChain fun a b => ∀ u v, a = .surrogate u → b = .surrogate v → ¬ (u.val < 1024 ∧ 1024 ≤ v.val)

lemma unpaired_ofString (s : String) : (PyStr.ofString s).Unpaired := by
  rw [PyStr.Unpaired, PyStr.ofString, List.isChain_map]
  exact (List.pairwise_of_forall fun _ _ _ _ h => by cases h).isChain

lemma codeUnits_decoded (c : Char) (us : List UInt16) :
    decodeUnits (codeUnits (.scalar c) ++ us) = .scalar c :: decodeUnits us := by
  have hvalid : c.toNat < 0xd800 ∨ 0xdfff < c.toNat ∧ c.toNat < 0x110000 := c.valid
  simp only [codeUnits]
  split_ifs with hc
  · have hn : (UInt16.ofNat c.toNat).toNat = c.toNat := by
      rw [UInt16.toNat_ofNat']
      omega
    rw [List.singleton_append, decodeUnits_cons (by rw [hn]; omega), unitChar, dif_neg (by rw [hn]; omega),
      hn, Char.ofNat_toNat]
  · have hhigh : (UInt16.ofNat (0xd800 + (c.toNat - 0x10000) / 0x400)).toNat =
        0xd800 + (c.toNat - 0x10000) / 0x400 := by
      rw [UInt16.toNat_ofNat']
      omega
    have hlow : (UInt16.ofNat (0xdc00 + (c.toNat - 0x10000) % 0x400)).toNat =
        0xdc00 + (c.toNat - 0x10000) % 0x400 := by
      rw [UInt16.toNat_ofNat']
      omega
    simp only [List.cons_append, List.nil_append, decodeUnits]
    rw [if_pos (by rw [hhigh, hlow]; omega), hhigh, hlow]
    rw [show 0x10000 + (0xd800 + (c.toNat - 0x10000) / 0x400 - 0xd800) * 0x400 +
      (0xdc00 + (c.toNat - 0x10000) % 0x400 - 0xdc00) = c.toNat by omega, Char.ofNat_toNat]

/-- The first code unit of a text is a low surrogate only if the text starts with one. -/
lemma utf16_head {s : PyStr} {u : UInt16} (h : (utf16 s).head? = some u)
    (hlow : 0xdc00 ≤ u.toNat ∧ u.toNat < 0xe000) :
    ∃ v s', s = .surrogate v :: s' ∧ 1024 ≤ v.val := by
  cases s with
  | nil => cases h
  | cons x s =>
    cases x with
    | surrogate v =>
      refine ⟨v, s, rfl, ?_⟩
      have hu : UInt16.ofNat (0xd800 + v) = u := by simpa [utf16, codeUnits] using h
      have hn := congrArg UInt16.toNat hu
      rw [UInt16.toNat_ofNat'] at hn
      have hv := v.isLt
      omega
    | scalar c =>
      have hvalid : c.toNat < 0xd800 ∨ 0xdfff < c.toNat ∧ c.toNat < 0x110000 := c.valid
      exfalso
      by_cases hc : c.toNat < 0x10000
      · have hu : UInt16.ofNat c.toNat = u := by simpa [utf16, codeUnits, hc] using h
        have hn := congrArg UInt16.toNat hu
        rw [UInt16.toNat_ofNat'] at hn
        omega
      · have hu : UInt16.ofNat (0xd800 + (c.toNat - 0x10000) / 0x400) = u := by
          simpa [utf16, codeUnits, hc] using h
        have hn := congrArg UInt16.toNat hu
        rw [UInt16.toNat_ofNat'] at hn
        omega

lemma decodeUnits_cons_of_head {u : UInt16} {us : List UInt16}
    (h : 0xd800 ≤ u.toNat ∧ u.toNat < 0xdc00 →
      ∀ v ∈ us.head?, ¬ (0xdc00 ≤ v.toNat ∧ v.toNat < 0xe000)) :
    decodeUnits (u :: us) = unitChar u :: decodeUnits us := by
  cases us with
  | nil => rfl
  | cons v us =>
    rw [decodeUnits, if_neg]
    rintro ⟨hhigh, hlow⟩
    exact h hhigh v rfl hlow

/-- Reading code units inverts writing them where no pair can form. -/
lemma PyStr.Unpaired.decodeUnits_utf16 {s : PyStr} (h : s.Unpaired) :
    decodeUnits (utf16 s) = s := by
  induction s with
  | nil => rfl
  | cons x s ih =>
    have hs : PyStr.Unpaired s := List.IsChain.tail h
    have hsplit : utf16 (x :: s) = codeUnits x ++ utf16 s := rfl
    cases x with
    | scalar c => rw [hsplit, codeUnits_decoded, ih hs]
    | surrogate u =>
      have hu := u.isLt
      have hn : (UInt16.ofNat (0xd800 + u)).toNat = 0xd800 + u := by
        rw [UInt16.toNat_ofNat']
        omega
      have hunit : unitChar (UInt16.ofNat (0xd800 + u)) = .surrogate u := by
        have hval : (UInt16.ofNat (0xd800 + u)).toNat - 0xd800 = u := by omega
        rw [unitChar, dif_pos (by rw [hn]; omega)]
        exact congrArg PyChar.surrogate (Fin.ext hval)
      have hhead : 0xd800 ≤ (UInt16.ofNat (0xd800 + u)).toNat ∧
          (UInt16.ofNat (0xd800 + u)).toNat < 0xdc00 →
          ∀ v ∈ (utf16 s).head?, ¬ (0xdc00 ≤ v.toNat ∧ v.toNat < 0xe000) := by
        rintro ⟨-, hhigh⟩ v hv hlow
        obtain ⟨w, s', rfl, hw⟩ := utf16_head hv hlow
        rw [hn] at hhigh
        rw [PyStr.Unpaired, List.isChain_cons_cons] at h
        exact h.1 u w rfl rfl ⟨by omega, hw⟩
      have hcode : codeUnits (.surrogate u) = [UInt16.ofNat (0xd800 + u)] := rfl
      rw [hsplit, hcode, List.singleton_append, decodeUnits_cons_of_head hhead, hunit, ih hs]

/-- Texts of Unicode scalar values are told apart by their code units. -/
lemma utf16_ofString_injective : Function.Injective fun s : String => utf16 (.ofString s) := by
  intro s s' h
  have hs := (unpaired_ofString s).decodeUnits_utf16
  rw [show utf16 (.ofString s) = utf16 (.ofString s') from h,
    (unpaired_ofString s').decodeUnits_utf16] at hs
  exact (PyStr.ofString_inj.mp hs).symm

lemma readString_quoted {s : PyStr} (hs : s.Unpaired) (x : Bytes) :
    readString ((quoted s).tail ++ x) = some (s, x) := by
  have hlen : ∀ us : List UInt16, us.length ≤ (us.flatMap escapeUnit).length := by
    intro us
    induction us with
    | nil => rfl
    | cons u us ih =>
      obtain ⟨b, w, hb, -⟩ := escapeUnit_head u
      rw [List.flatMap_cons, List.length_append, hb]
      simp only [List.length_cons]
      omega
  have htail : (quoted s).tail ++ x = (utf16 s).flatMap escapeUnit ++ 34 :: x := by
    simp [quoted]
  rw [readString, htail, readUnits_escape, Option.map_some, hs.decodeUnits_utf16]
  have hle := hlen (utf16 s)
  rw [List.length_append]
  omega

/-! Reading numbers back -/

/-- What may come after a value: nothing, a comma or a closing bracket. -/
def Follows (x : Bytes) : Prop := ∀ b ∈ x.head?, b = 44 ∨ b = 93 ∨ b = 125

lemma digits_isDigit {n : ℕ} {b : UInt8} (h : b ∈ digits n) : isDigit b = true :=
  decide_eq_true (digits_mem h)

/-- Or space. -/
def Ends (x : Bytes) : Prop := ∀ b ∈ x.head?, isWs b = true ∨ b = 44 ∨ b = 93 ∨ b = 125

lemma Follows.ends {x : Bytes} (h : Follows x) : Ends x := fun b hb => .inr (h b hb)

lemma Ends.head_ne {b : UInt8} {x : Bytes} (h : Ends (b :: x)) :
    isDigit b = false ∧ b ≠ 46 ∧ b ≠ 69 ∧ b ≠ 101 := by
  rcases h b rfl with hws | rfl | rfl | rfl
  · simp only [isWs, Bool.or_eq_true, decide_eq_true_eq] at hws
    rcases hws with ((rfl | rfl) | rfl) | rfl
    all_goals decide
  all_goals decide

lemma Ends.not_digit {x : Bytes} (hx : Ends x) : x.takeWhile isDigit = [] ∧ x.dropWhile isDigit = x := by
  cases x with
  | nil => exact ⟨rfl, rfl⟩
  | cons b x =>
    have hb : isDigit b = false := hx.head_ne.1
    simp [hb]

lemma digits_head {n : ℕ} (h : (digits n).head? = some 48) : digits n = [48] := by
  unfold digits at h ⊢
  split_ifs at h ⊢ with hn
  · rfl
  · have hne := Nat.digits_ne_nil_iff_ne_zero (b := 10).mpr hn
    rw [List.head?_map, List.head?_reverse, List.getLast?_eq_getLast_of_ne_nil hne] at h
    have hlast := Nat.getLast_digit_ne_zero 10 hn
    have hlt := Nat.digits_lt_base (by norm_num : 1 < 10) (List.getLast_mem hne)
    have hh := congrArg UInt8.toNat (Option.some.inj h)
    rw [UInt8.toNat_ofNat'] at hh
    have h48 : (48 : UInt8).toNat = 48 := rfl
    omega

lemma readNumber_decimal (i : ℤ) {x : Bytes} (hx : Ends x) :
    readNumber (decimal i ++ x) = some (.int i, x) := by
  obtain ⟨htake, hdrop⟩ := hx.not_digit
  have hspan : ∀ n, (digits n ++ x).takeWhile isDigit = digits n ∧
      (digits n ++ x).dropWhile isDigit = x := by
    intro n
    rw [List.takeWhile_append_of_pos fun b => digits_isDigit,
      List.dropWhile_append_of_pos fun b => digits_isDigit, htake, hdrop, List.append_nil]
    exact ⟨rfl, rfl⟩
  have hcond : ∀ n, ¬ (digits n = [] ∨ ((digits n).head? = some 48 ∧ digits n ≠ [48]) ∨
      x.head? ∈ [some 46, some 69, some 101]) := by
    rintro n (h | ⟨h, hne⟩ | h)
    · exact digits_ne_nil n h
    · exact hne (digits_head h)
    · cases x with
      | nil => simp at h
      | cons b x =>
        obtain ⟨-, hpoint, hupper, hlower⟩ := hx.head_ne
        simp [hpoint, hupper, hlower] at h
  unfold decimal
  split_ifs with hi
  · have habs : -((i.natAbs : ℕ) : ℤ) = i := by omega
    simp only [readNumber, List.cons_append, List.head?_cons, decide_true, if_true, List.tail_cons,
      (hspan _).1, (hspan _).2, if_neg (hcond _), numeral_digits, habs]
  · obtain ⟨b, w, hw⟩ := List.exists_cons_of_ne_nil (digits_ne_nil i.natAbs)
    have hb : b ≠ 45 := by
      rintro rfl
      exact absurd (digits_mem (hw ▸ List.mem_cons_self : (45 : UInt8) ∈ digits i.natAbs)).1 (by decide)
    have hneg : ¬ (digits i.natAbs ++ x).head? = some 45 := by
      rw [hw]
      simpa using hb
    have habs : ((i.natAbs : ℕ) : ℤ) = i := by omega
    simp only [readNumber, hneg, decide_false, Bool.false_eq_true, if_false, (hspan _).1, (hspan _).2,
      if_neg (hcond _), numeral_digits, habs]

/-! Reading values back -/

/-- Values `loads` returns as they were: no floats, no surrogate pairs, distinct keys. -/
inductive Json.Plain : Json → Prop
  | null : Plain .null
  | bool (b) : Plain (.bool b)
  | int (i) : Plain (.int i)
  | str {s} (h : PyStr.Unpaired s) : Plain (.str s)
  | list {xs} (h : ∀ v ∈ xs, Plain v) : Plain (.list xs)
  | object {items} (hk : (items.map Prod.fst).Nodup) (hv : ∀ p ∈ items, Plain p.2) :
      Plain (.object items)

lemma Json.Plain.text (s : String) : Plain (.text s) := .str (unpaired_ofString s)

lemma skipWs_cons_of_not_ws {b : UInt8} (h : isWs b = false) (bs : Bytes) :
    skipWs (b :: bs) = b :: bs := by
  simp [skipWs, h]

/-- Nothing but space. -/
def Blank (p : Bytes) : Prop := ∀ b ∈ p, isWs b = true

lemma skipWs_blank {p : Bytes} (hp : Blank p) (bs : Bytes) : skipWs (p ++ bs) = skipWs bs :=
  List.dropWhile_append_of_pos hp

lemma readValue_blank {p : Bytes} (hp : Blank p) (n : ℕ) (bs : Bytes) :
    readValue n (p ++ bs) = readValue n bs := by
  cases n with
  | zero => rw [readValue, readValue]
  | succ n => rw [readValue, readValue, skipWs_blank hp]

lemma readElements_blank {p : Bytes} (hp : Blank p) (n : ℕ) (bs : Bytes) :
    readElements n (p ++ bs) = readElements n bs := by
  cases n with
  | zero => rw [readElements, readElements]
  | succ n => rw [readElements, readElements, readValue_blank hp]

lemma readItems_blank {p : Bytes} (hp : Blank p) (n : ℕ) (bs : Bytes) :
    readItems n (p ++ bs) = readItems n bs := by
  cases n with
  | zero => rw [readItems, readItems]
  | succ n => rw [readItems, readItems, skipWs_blank hp]

lemma Blank.ends {p : Bytes} (hp : Blank p) {b : UInt8} (hb : b = 44 ∨ b = 93 ∨ b = 125) (x : Bytes) :
    Ends (p ++ b :: x) := by
  cases p with
  | nil =>
    intro c hc
    cases hc
    exact .inr hb
  | cons a p =>
    intro c hc
    cases hc
    exact .inl (hp a List.mem_cons_self)

lemma intercalate_cons_cons {α : Type} (sep a b : List α) (l : List (List α)) :
    sep.intercalate (a :: b :: l) = a ++ (sep ++ sep.intercalate (b :: l)) := by
  simp [List.intercalate]

lemma intercalate_head {α : Type} {b : α} {w : List α} (sep : List α) (l : List (List α))
    (y : List α) : ∃ u, sep.intercalate ((b :: w) :: l) ++ y = b :: u := by
  cases l with
  | nil => exact ⟨w ++ y, by simp [List.intercalate]⟩
  | cons a l => exact ⟨_, by rw [intercalate_cons_cons]; rfl⟩

lemma dictOf_nodup {items : List (PyStr × Json)} (h : (items.map Prod.fst).Nodup) :
    dictOf items = items := by
  have hfold : ∀ d : List (PyStr × Json), ((d ++ items).map Prod.fst).Nodup →
      items.foldl (fun d p =>
        if (d.lookup p.1).isSome then d.map fun q => if q.1 = p.1 then p else q else d ++ [p]) d =
        d ++ items := by
    clear h
    induction items with
    | nil => intro d _; simp
    | cons p items ih =>
      intro d hd
      have hnot : d.lookup p.1 = none := by
        rw [List.lookup_eq_none_iff]
        intro q hq
        have hpq : p.1 ≠ q.1 := by
          rintro heq
          rw [List.map_append, List.map_cons] at hd
          exact List.disjoint_of_nodup_append hd (List.mem_map_of_mem hq) (heq ▸ List.mem_cons_self)
        simpa using hpq
      rw [List.foldl_cons, hnot]
      simp only [Option.isSome_none, Bool.false_eq_true, if_false]
      rw [ih (d ++ [p]) (by simpa using hd)]
      simp
  exact hfold [] (by simpa using h)

/-! Lists and dicts, with space between their tokens -/

/-- `v` is read from `text`, whatever may stand behind it. -/
def ReadAs (v : Json) (text : Bytes) : Prop :=
  ∀ n x, Ends x → text.length ≤ n → readValue n (text ++ x) = some (v, x)

/-- Neither space nor a closing bracket, as any value begins. -/
def Starts (text : Bytes) : Prop := ∃ b w, text = b :: w ∧ isWs b = false ∧ b ≠ 93

section
variable {text : Json → Bytes} {p q : Bytes}

lemma readElements_join {xs : List Json} (hne : xs ≠ []) (h : ∀ v ∈ xs, ReadAs v (text v))
    (hp : Blank p) (hq : Blank q) {n : ℕ} (x : Bytes)
    (hn : ((44 :: p).intercalate (xs.map text)).length < n) :
    readElements n ((44 :: p).intercalate (xs.map text) ++ (q ++ 93 :: x)) = some (xs, x) := by
  obtain ⟨m, rfl⟩ := Nat.exists_eq_succ_of_ne_zero (by omega : n ≠ 0)
  induction xs generalizing m with
  | nil => exact (hne rfl).elim
  | cons v xs ih =>
    have hv := h v List.mem_cons_self
    cases xs with
    | nil =>
      simp only [List.map_cons, List.map_nil, List.intercalate, List.intersperse, List.flatten_cons,
        List.flatten_nil, List.append_nil] at hn ⊢
      rw [readElements, hv m _ (hq.ends (by decide) x) (by omega)]
      simp only [Option.bind_some, skipWs_blank hq]
      rfl
    | cons w ws =>
      simp only [List.map_cons, intercalate_cons_cons, List.length_append, List.length_cons] at hn ⊢
      obtain ⟨k, rfl⟩ := Nat.exists_eq_succ_of_ne_zero (by omega : m ≠ 0)
      simp only [List.append_assoc, List.cons_append]
      rw [readElements, hv (k + 1) _ (by rintro b ⟨⟩; decide) (by omega)]
      simp only [Option.bind_some, skipWs_cons_of_not_ws (show isWs 44 = false from rfl), if_true]
      have hrest := ih (by simp) (fun u hu => h u (List.mem_cons_of_mem _ hu)) k
        (by simp only [List.map_cons]; omega)
      rw [readElements_blank hp]
      simp only [List.map_cons] at hrest
      rw [hrest]
      rfl

/-- An item of a dict whose values are written by `text`. -/
def writtenItem (text : Json → Bytes) (p : String × Json) : Bytes :=
  quoted (.ofString p.1) ++ 58 :: 32 :: text p.2

lemma writtenItem_append (p : String × Json) (x : Bytes) :
    writtenItem text p ++ x = 34 :: ((quoted (.ofString p.1)).tail ++ 58 :: 32 :: (text p.2 ++ x)) := by
  simp [writtenItem, quoted]

lemma readItems_item {p : String × Json} (hp : ReadAs p.2 (text p.2)) {n : ℕ} {x : Bytes}
    (hx : Ends x) (hn : (writtenItem text p).length ≤ n) :
    readItems (n + 1) (writtenItem text p ++ x) =
      match skipWs x with
      | [] => none
      | b :: r =>
        if b = 44 then
          (readItems n r).map fun q => ((PyStr.ofString p.1, p.2) :: q.1, q.2)
        else if b = 125 then some ([(PyStr.ofString p.1, p.2)], r)
        else none := by
  have hlen : (text p.2).length ≤ n := by
    simp only [writtenItem, List.length_append, List.length_cons] at hn
    omega
  have hspace : Blank [32] := by simp [Blank, isWs]
  have hvalue : readValue n (32 :: (text p.2 ++ x)) = some (p.2, x) :=
    (readValue_blank hspace n _).trans (hp n x hx hlen)
  rw [writtenItem_append, readItems, skipWs_cons_of_not_ws rfl]
  simp only [if_true, readString_quoted (unpaired_ofString p.1), Option.bind_some,
    skipWs_cons_of_not_ws (show isWs 58 = false from rfl), List.head?_cons, List.tail_cons, hvalue]

lemma readItems_join {items : List (String × Json)} (hne : items ≠ [])
    (h : ∀ i ∈ items, ReadAs i.2 (text i.2)) (hp : Blank p) (hq : Blank q) {n : ℕ} (x : Bytes)
    (hn : ((44 :: p).intercalate (items.map (writtenItem text))).length < n) :
    readItems n ((44 :: p).intercalate (items.map (writtenItem text)) ++ (q ++ 125 :: x)) =
      some (items.map fun i => (PyStr.ofString i.1, i.2), x) := by
  obtain ⟨m, rfl⟩ := Nat.exists_eq_succ_of_ne_zero (by omega : n ≠ 0)
  induction items generalizing m with
  | nil => exact (hne rfl).elim
  | cons i items ih =>
    have hi := h i List.mem_cons_self
    cases items with
    | nil =>
      simp only [List.map_cons, List.map_nil, List.intercalate, List.intersperse, List.flatten_cons,
        List.flatten_nil, List.append_nil] at hn ⊢
      rw [readItems_item hi (hq.ends (by decide) x) (by omega), skipWs_blank hq]
      rfl
    | cons j items =>
      simp only [List.map_cons, intercalate_cons_cons, List.length_append, List.length_cons] at hn ⊢
      obtain ⟨k, rfl⟩ := Nat.exists_eq_succ_of_ne_zero (by omega : m ≠ 0)
      simp only [List.append_assoc, List.cons_append]
      rw [readItems_item hi (by rintro b ⟨⟩; decide) (by omega)]
      simp only [skipWs_cons_of_not_ws (show isWs 44 = false from rfl), if_true]
      have hrest := ih (by simp) (fun u hu => h u (List.mem_cons_of_mem _ hu)) k
        (by simp only [List.map_cons]; omega)
      rw [readItems_blank hp]
      simp only [List.map_cons] at hrest
      rw [hrest]
      rfl

/-- A list read from its elements, with `o` behind the bracket, `p` behind a comma and `q` before the
closing bracket. -/
lemma readAs_list {xs : List Json} (hne : xs ≠ []) (hstarts : ∀ v ∈ xs, Starts (text v))
    (h : ∀ v ∈ xs, ReadAs v (text v)) {o : Bytes} (ho : Blank o) (hp : Blank p) (hq : Blank q) :
    ReadAs (.list xs) (91 :: (o ++ ((44 :: p).intercalate (xs.map text) ++ (q ++ [93])))) := by
  intro n x hx hn
  simp only [List.length_cons, List.length_append, List.length_nil] at hn
  obtain ⟨m, rfl⟩ := Nat.exists_eq_succ_of_ne_zero (by omega : n ≠ 0)
  simp only [List.cons_append, List.append_assoc, List.nil_append]
  rw [readValue, skipWs_cons_of_not_ws rfl]
  simp only [if_true, show (91 : UInt8) ≠ 34 by decide, if_false]
  have helems := readElements_join hne h hp hq x (n := m) (by omega)
  rw [skipWs_blank ho, readElements_blank ho]
  cases xs with
  | nil => exact (hne rfl).elim
  | cons v xs =>
    obtain ⟨b, w, hb, hws, hclose⟩ := hstarts v List.mem_cons_self
    obtain ⟨u, hu⟩ := intercalate_head (b := b) (w := w) (44 :: p) (xs.map text) (q ++ 93 :: x)
    rw [List.map_cons, hb, hu] at helems ⊢
    rw [skipWs_cons_of_not_ws hws, helems]
    simp [hclose]

lemma readAs_object {items : List (String × Json)} (hne : items ≠ [])
    (hk : (items.map Prod.fst).Nodup) (h : ∀ i ∈ items, ReadAs i.2 (text i.2)) {o : Bytes}
    (ho : Blank o) (hp : Blank p) (hq : Blank q) :
    ReadAs (.object items)
      (123 :: (o ++ ((44 :: p).intercalate (items.map (writtenItem text)) ++ (q ++ [125])))) := by
  intro n x hx hn
  simp only [List.length_cons, List.length_append, List.length_nil] at hn
  obtain ⟨m, rfl⟩ := Nat.exists_eq_succ_of_ne_zero (by omega : n ≠ 0)
  simp only [List.cons_append, List.append_assoc, List.nil_append]
  rw [readValue, skipWs_cons_of_not_ws rfl]
  simp only [if_true, show (123 : UInt8) ≠ 34 by decide, show (123 : UInt8) ≠ 91 by decide, if_false]
  have hitems := readItems_join hne h hp hq x (n := m) (by omega)
  have hnodup : (items.map fun i => (PyStr.ofString i.1, i.2)).map Prod.fst |>.Nodup := by
    rw [List.map_map]
    have hmap := hk.map PyStr.ofString_injective
    rwa [List.map_map] at hmap
  rw [skipWs_blank ho, readItems_blank ho]
  cases items with
  | nil => exact (hne rfl).elim
  | cons i items =>
    have hi : writtenItem text i = 34 :: (writtenItem text i).tail := by simp [writtenItem, quoted]
    obtain ⟨u, hu⟩ := intercalate_head (b := 34) (w := (writtenItem text i).tail) (44 :: p)
      (items.map (writtenItem text)) (q ++ 125 :: x)
    rw [← hi] at hu
    rw [List.map_cons, hu] at hitems ⊢
    rw [skipWs_cons_of_not_ws rfl, hitems, Option.map_some, dictOf_nodup hnodup]
    rfl

/-- A text that is no quote and no bracket is read as a scalar. -/
lemma readValue_scalar {n : ℕ} {b : UInt8} {r : Bytes} (hws : isWs b = false) (h34 : b ≠ 34)
    (h91 : b ≠ 91) (h123 : b ≠ 123) : readValue (n + 1) (b :: r) = readScalar (b :: r) := by
  rw [readValue, skipWs_cons_of_not_ws hws]
  simp only [if_neg h34, if_neg h91, if_neg h123]

lemma decimal_head (i : ℤ) : ∃ b w, decimal i = b :: w ∧
    ∀ c : UInt8, c ≠ 45 → ¬ (48 ≤ c.toNat ∧ c.toNat ≤ 57) → b ≠ c := by
  obtain ⟨b, w, hw⟩ := List.exists_cons_of_ne_nil (decimal_ne_nil i)
  refine ⟨b, w, hw, ?_⟩
  rintro c h45 hd rfl
  exact (decimal_mem (hw ▸ List.mem_cons_self : b ∈ decimal i)).elim h45 hd

lemma decimal_starts (i : ℤ) : Starts (decimal i) := by
  obtain ⟨b, w, hw, hne⟩ := decimal_head i
  refine ⟨b, w, hw, ?_, hne 93 (by decide) (by decide)⟩
  simp only [isWs, Bool.or_eq_false_iff, decide_eq_false_iff_not]
  exact ⟨⟨⟨hne 32 (by decide) (by decide), hne 9 (by decide) (by decide)⟩,
    hne 10 (by decide) (by decide)⟩, hne 13 (by decide) (by decide)⟩

lemma readAs_int (i : ℤ) : ReadAs (.int i) (decimal i) := by
  intro n x hx hn
  obtain ⟨b, w, hw, hne⟩ := decimal_head i
  obtain ⟨m, rfl⟩ := Nat.exists_eq_succ_of_ne_zero (by rw [hw] at hn; simp at hn; omega : n ≠ 0)
  have hws : isWs b = false := by
    obtain ⟨b', w', hw', hws, -⟩ := decimal_starts i
    rw [hw] at hw'
    cases hw'
    exact hws
  have hstart : ∀ c u, b ≠ c → ¬ (c :: u <+: decimal i ++ x) := by
    intro c u hbc hpre
    rw [hw, List.cons_append, List.cons_prefix_cons] at hpre
    exact hbc hpre.1.symm
  have hscalar : readScalar (decimal i ++ x) = some (.int i, x) := by
    have hnull : ascii "null" = 110 :: [117, 108, 108] := by decide
    have htrue : ascii "true" = 116 :: [114, 117, 101] := by decide
    have hfalse : ascii "false" = 102 :: [97, 108, 115, 101] := by decide
    rw [readScalar, hnull, htrue, hfalse, if_neg (hstart 110 _ (hne 110 (by decide) (by decide))),
      if_neg (hstart 116 _ (hne 116 (by decide) (by decide))),
      if_neg (hstart 102 _ (hne 102 (by decide) (by decide))), readNumber_decimal i hx]
  rw [hw, List.cons_append] at hscalar ⊢
  rw [readValue_scalar hws (hne 34 (by decide) (by decide)) (hne 91 (by decide) (by decide))
    (hne 123 (by decide) (by decide)), hscalar]

lemma readAs_str {s : PyStr} (hs : s.Unpaired) : ReadAs (.str s) (quoted s) := by
  intro n x hx hn
  have hq : quoted s = 34 :: (quoted s).tail := by simp [quoted]
  obtain ⟨m, rfl⟩ := Nat.exists_eq_succ_of_ne_zero (by rw [hq] at hn; simp at hn; omega : n ≠ 0)
  rw [hq, List.cons_append, readValue, skipWs_cons_of_not_ws rfl]
  simp only [if_true, readString_quoted hs, Option.map_some]

lemma readAs_null : ReadAs .null (ascii "null") := by
  intro n x hx hn
  obtain ⟨m, rfl⟩ := Nat.exists_eq_succ_of_ne_zero (by rintro rfl; simp [ascii] at hn : n ≠ 0)
  rfl

lemma readAs_bool (b : Bool) : ReadAs (.bool b) (ascii (if b then "true" else "false")) := by
  intro n x hx hn
  obtain ⟨m, rfl⟩ := Nat.exists_eq_succ_of_ne_zero
    (by rintro rfl; cases b <;> simp [ascii] at hn : n ≠ 0)
  cases b <;> rfl

end

/-! What `dumps` writes -/

section
variable (floatRepr : PyFloat → FloatText)

/-- `v` is read back from its text, whatever follows. -/
def ReadBack (v : Json) : Prop :=
  ∀ n x, Follows x → (dumps floatRepr .default v).length ≤ n →
    readValue n (dumps floatRepr .default v ++ x) = some (v, x)

variable {floatRepr}

/-- One item of a dict as it is written. -/
def itemText (floatRepr : PyFloat → FloatText) (p : String × Json) : Bytes :=
  quoted (.ofString p.1) ++ 58 :: 32 :: dumps floatRepr .default p.2

lemma dumps_object (items : List (String × Json)) :
    dumps floatRepr .default (.object items) =
      123 :: (([44, 32] : Bytes).intercalate (items.map (itemText floatRepr)) ++ [125]) := by
  have hitems : ∀ items : List (String × Json),
      dumpsItems floatRepr .default (items.map fun p => (PyStr.ofString p.1, p.2)) =
        items.map fun p => (PyStr.ofString p.1, dumps floatRepr .default p.2) := by
    intro items
    induction items with
    | nil => rw [List.map_nil, dumpsItems, List.map_nil]
    | cons p items ih => rw [List.map_cons, dumpsItems, ih, List.map_cons]
  rw [Json.object, dumps, hitems]
  change 123 :: (([44, 32] : Bytes).intercalate ((items.map fun p =>
    (PyStr.ofString p.1, dumps floatRepr .default p.2)).map fun p => quoted p.1 ++ [58, 32] ++ p.2) ++
      [125]) = _
  simp only [List.map_map, Function.comp_def, List.append_assoc, List.cons_append, List.nil_append]
  rfl

lemma dumps_elements (xs : List Json) :
    dumps floatRepr .default (.list xs) =
      91 :: (([44, 32] : Bytes).intercalate (xs.map (dumps floatRepr .default)) ++ [93]) :=
  dumps_list floatRepr .default xs

/-- The text of a plain value starts with no space and no closing bracket. -/
lemma Json.Plain.dumps_starts {v : Json} (hv : v.Plain) : Starts (dumps floatRepr .default v) := by
  cases hv with
  | null => exact ⟨_, _, rfl, rfl, by decide⟩
  | bool b => cases b <;> exact ⟨_, _, rfl, rfl, by decide⟩
  | int i => simpa only [dumps_int] using decimal_starts i
  | str h => exact ⟨34, _, by rw [dumps_str, quoted], rfl, by decide⟩
  | list h => exact ⟨91, _, dumps_list _ _ _, rfl, by decide⟩
  | object hk hv => exact ⟨123, _, dumps_object _, rfl, by decide⟩

lemma Json.Plain.dumps_readAs {v : Json} (hv : v.Plain) : ReadAs v (dumps floatRepr .default v) := by
  have hnone : Blank [] := by simp [Blank]
  have hspace : Blank [32] := by simp [Blank, isWs]
  induction hv with
  | null => exact readAs_null
  | bool b => simpa only [dumps_bool] using readAs_bool b
  | int i => simpa only [dumps_int] using readAs_int i
  | str hs => simpa only [dumps_str] using readAs_str hs
  | @list xs hplain h =>
    cases xs with
    | nil =>
      intro n x hx hn
      obtain ⟨m, rfl⟩ := Nat.exists_eq_succ_of_ne_zero (by rintro rfl; simp [dumps] at hn : n ≠ 0)
      rfl
    | cons v xs =>
      rw [dumps_elements]
      exact readAs_list (by simp) (fun u hu => (hplain u hu).dumps_starts) h hnone hspace hnone
  | @object items hk _ h =>
    cases items with
    | nil =>
      intro n x hx hn
      obtain ⟨m, rfl⟩ := Nat.exists_eq_succ_of_ne_zero
        (by rintro rfl; simp [dumps, Json.object] at hn : n ≠ 0)
      rfl
    | cons i items =>
      rw [dumps_object]
      exact readAs_object (by simp) hk h hnone hspace hnone

/-- Reading inverts writing. -/
theorem Json.Plain.readBack {v : Json} (hv : v.Plain) : ReadBack floatRepr v :=
  fun n x hx hn => hv.dumps_readAs n x hx.ends hn

theorem loadsText_dumps {v : Json} (hv : v.Plain) :
    loadsText (dumps floatRepr .default v) = .ok v := by
  have hread : readValue ((dumps floatRepr .default v).length + 1)
      (dumps floatRepr .default v ++ []) = some (v, []) :=
    hv.readBack _ [] (by rintro b ⟨⟩) (Nat.le_succ _)
  rw [List.append_nil] at hread
  rw [loadsText, hread]
  rfl

/-! Lengths -/

variable (floatRepr)

lemma intercalate_length_le (l : List Bytes) :
    (([44, 32] : Bytes).intercalate l).length ≤ (l.map fun x => x.length + 2).sum := by
  induction l with
  | nil => simp [List.intercalate]
  | cons x l ih =>
    cases l with
    | nil => simp [List.intercalate]
    | cons y l =>
      rw [intercalate_cons_cons, List.map_cons, List.sum_cons]
      simp only [List.length_append, List.length_cons, List.length_nil]
      omega

lemma dumps_object_length_le (items : List (String × Json)) :
    (dumps floatRepr .default (.object items)).length ≤
      (items.map fun p => 12 * p.1.length + (dumps floatRepr .default p.2).length + 6).sum + 2 := by
  have hitems := intercalate_length_le (items.map (itemText floatRepr))
  have hsum : ((items.map (itemText floatRepr)).map fun x => x.length + 2).sum ≤
      (items.map fun p => 12 * p.1.length + (dumps floatRepr .default p.2).length + 6).sum := by
    rw [List.map_map]
    refine List.sum_le_sum fun p _ => ?_
    have hquoted := quoted_length_le p.1
    simp only [Function.comp_apply, itemText, List.length_append, List.length_cons]
    omega
  rw [dumps_object]
  simp only [List.length_cons, List.length_append, List.length_nil]
  omega

lemma dumps_elements_length_le (xs : List Json) :
    (dumps floatRepr .default (.list xs)).length ≤
      (xs.map fun v => (dumps floatRepr .default v).length + 2).sum + 2 := by
  have helems := intercalate_length_le (xs.map (dumps floatRepr .default))
  rw [List.map_map] at helems
  rw [dumps_elements]
  simp only [List.length_cons, List.length_append, List.length_nil]
  exact Nat.add_le_add_right helems 2

lemma dumps_text_length_le (s : String) :
    (dumps floatRepr .default (.text s)).length ≤ 12 * s.length + 2 := by
  rw [Json.text, dumps_str]
  exact quoted_length_le s

end

end T3dmium
