import T3dmium.PyValue

/-! Numerals and percent-encoding as text: `int`, `quote` and `unquote`, and that
reading inverts writing. -/
namespace T3dmium

def encodeUtf8 (s : String) : Bytes := s.toByteArray.data.toList

/-- Bytes that are UTF-8. -/
def decodeUtf8 (bs : Bytes) : String := (String.fromUTF8? ⟨bs.toArray⟩).getD ""

lemma encodeUtf8_injective : Function.Injective encodeUtf8 := by
  intro a b h
  apply String.toByteArray_inj.mp
  apply ByteArray.ext
  exact Array.toList_inj.mp h

@[simp] lemma decodeUtf8_encodeUtf8 (s : String) : decodeUtf8 (encodeUtf8 s) = s := by
  have hvalid : (⟨(encodeUtf8 s).toArray⟩ : ByteArray) = s.toByteArray := by simp [encodeUtf8]
  rw [decodeUtf8, hvalid, String.fromUTF8?, dif_pos s.isValidUTF8]
  rfl

/-! Numerals -/

def decimalNat (cs : List Char) : Except PyError ℤ :=
  if cs ≠ [] ∧ cs.all Char.isDigit then .ok (Nat.ofDigitChars 10 cs 0) else .error .valueError

/-- `int(text)` on decimal digits, perhaps after a minus. -/
def decimalInt (s : PyStr) : Except PyError ℤ :=
  match s.scalars with
  | none => .error .valueError
  | some cs => if cs.head? = some '-' then (decimalNat cs.tail).map (- ·) else decimalNat cs

lemma decimalNat_toDigits (n : ℕ) : decimalNat (Nat.toDigits 10 n) = .ok n := by
  have hall : (Nat.toDigits 10 n).all Char.isDigit = true := by
    rw [List.all_eq_true]
    exact fun c hc => Nat.isDigit_of_mem_toDigits (by norm_num) (by norm_num) hc
  rw [decimalNat, if_pos ⟨Nat.toDigits_ne_nil, hall⟩, Nat.ofDigitChars_ten_toDigits]

lemma toList_toString_int (i : ℤ) :
    (toString i).toList =
      if 0 ≤ i then Nat.toDigits 10 i.toNat else '-' :: Nat.toDigits 10 (-i).toNat := by
  rw [Int.toString_eq_repr, Int.repr_eq_if]
  split_ifs
  · exact Nat.toList_repr
  · rw [String.toList_append, Nat.toList_repr]
    rfl

lemma mem_toString_int {i : ℤ} {c : Char} (h : c ∈ (toString i).toList) : c = '-' ∨ c.isDigit = true := by
  have hdigits : ∀ n, c ∈ Nat.toDigits 10 n → c.isDigit = true :=
    fun n hn => Nat.isDigit_of_mem_toDigits (by norm_num) (by norm_num) hn
  rw [toList_toString_int] at h
  split_ifs at h
  · exact Or.inr (hdigits _ h)
  · exact (List.mem_cons.mp h).imp_right (hdigits _)

lemma toDigits_head (n : ℕ) : (Nat.toDigits 10 n).head? ≠ some '-' := by
  intro h
  have hmem : '-' ∈ Nat.toDigits 10 n := List.mem_of_head? h
  exact absurd (Nat.isDigit_of_mem_toDigits (by norm_num) (by norm_num) hmem) (by decide)

lemma decimalInt_toString (i : ℤ) : decimalInt (.ofString (toString i)) = .ok i := by
  rw [decimalInt, PyStr.ofString, PyStr.scalars_map_scalar, toList_toString_int]
  simp only
  split_ifs with hi h h
  · exact (toDigits_head _ h).elim
  · rw [decimalNat_toDigits, Int.toNat_of_nonneg hi]
  · simp only [List.tail_cons, decimalNat_toDigits, Except.map, Except.ok.injEq]
    omega
  · simp at h

/-! Percent-encoding -/

/-- `quote` leaves letters, digits and `_.-~/` alone. -/
def isSafe (b : UInt8) : Bool :=
  let n := b.toNat
  decide (48 ≤ n ∧ n ≤ 57 ∨ 65 ≤ n ∧ n ≤ 90 ∨ 97 ≤ n ∧ n ≤ 122 ∨ n ∈ [95, 46, 45, 126, 47])

def hexUpper (n : ℕ) : Char := Char.ofNat (if n < 10 then 48 + n else 55 + n)

def quoteByte (b : UInt8) : List Char :=
  if isSafe b then [Char.ofNat b.toNat]
  else ['%', hexUpper (b.toNat / 16), hexUpper (b.toNat % 16)]

def percentQuote (s : String) : String := .ofList ((encodeUtf8 s).flatMap quoteByte)

def hexNumber (c : Char) : Option ℕ :=
  if '0' ≤ c ∧ c ≤ '9' then some (c.toNat - 48)
  else if 'A' ≤ c ∧ c ≤ 'F' then some (c.toNat - 55)
  else if 'a' ≤ c ∧ c ≤ 'f' then some (c.toNat - 87)
  else none

/-- The byte of an escape whose sign is `c`. -/
def escapedByte (c a b : Char) : Option UInt8 :=
  if c = '%' then (hexNumber a).bind fun x => (hexNumber b).map fun y => UInt8.ofNat (16 * x + y)
  else none

def plainBytes (c : Char) : Bytes := encodeUtf8 (String.singleton c)

def unquoteBytes : List Char → Bytes
  | [] => []
  | [c] => plainBytes c
  | [c, d] => plainBytes c ++ plainBytes d
  | c :: a :: b :: r =>
    match escapedByte c a b with
    | some v => v :: unquoteBytes r
    | none => plainBytes c ++ unquoteBytes (a :: b :: r)

/-- `unquote` after plus signs became spaces; `decode` is `bytes.decode("utf-8", "replace")`. -/
def unquotePlus (decode : Bytes → String) (cs : List Char) : String :=
  decode (unquoteBytes (cs.map fun c => if c = '+' then ' ' else c))

lemma unquoteBytes_plain {c : Char} (hc : c ≠ '%') (r : List Char) :
    unquoteBytes (c :: r) = plainBytes c ++ unquoteBytes r := by
  match r with
  | [] => simp [unquoteBytes]
  | [d] => simp [unquoteBytes]
  | a :: b :: r => rw [unquoteBytes, escapedByte, if_neg hc]

/-- What `quote` writes with. -/
def isQuoted (c : Char) : Bool := c.isAlphanum || ['_', '.', '-', '~', '/', '%'].contains c

lemma ne_of_isQuoted {c d : Char} (hc : isQuoted c = true) (hd : isQuoted d = false) : c ≠ d := by
  rintro rfl
  rw [hc] at hd
  cases hd

lemma isQuoted_printable {c : Char} (h : isQuoted c = true) : 32 < c.toNat := by
  by_contra hle
  have hall : ∀ n : Fin 33, isQuoted (Char.ofNat n) = false := by decide
  have hc := hall ⟨c.toNat, by omega⟩
  rw [Char.ofNat_toNat, h] at hc
  cases hc

lemma isQuoted_toString_int {i : ℤ} {c : Char} (h : c ∈ (toString i).toList) : isQuoted c = true := by
  rcases mem_toString_int h with rfl | hd
  · rfl
  · simp [isQuoted, Char.isAlphanum, hd]

lemma plainBytes_safe {b : UInt8} (hb : isSafe b = true) :
    plainBytes (Char.ofNat b.toNat) = [b] ∧ Char.ofNat b.toNat ≠ '%' ∧
      isQuoted (Char.ofNat b.toNat) = true := by
  have hall : ∀ n : Fin 256, isSafe (UInt8.ofNat n) = true →
      plainBytes (Char.ofNat n) = [UInt8.ofNat n] ∧ Char.ofNat n ≠ '%' ∧
        isQuoted (Char.ofNat n) = true := by decide +kernel
  have hh := hall ⟨b.toNat, b.toNat_lt⟩ (by simpa using hb)
  simpa using hh

lemma hexNumber_hexUpper {n : ℕ} (h : n < 16) : hexNumber (hexUpper n) = some n := by
  have hall : ∀ m : Fin 16, hexNumber (hexUpper m) = some (m : ℕ) := by decide
  exact hall ⟨n, h⟩

lemma escapedByte_hexUpper (b : UInt8) :
    escapedByte '%' (hexUpper (b.toNat / 16)) (hexUpper (b.toNat % 16)) = some b := by
  have hb := b.toNat_lt
  rw [escapedByte, if_pos rfl, hexNumber_hexUpper (by omega), hexNumber_hexUpper (by omega),
    Option.bind_some, Option.map_some, Nat.div_add_mod, UInt8.ofNat_toNat]

lemma unquoteBytes_quoteByte (b : UInt8) (r : List Char) :
    unquoteBytes (quoteByte b ++ r) = b :: unquoteBytes r := by
  unfold quoteByte
  split_ifs with hb
  · obtain ⟨hplain, hpercent, -⟩ := plainBytes_safe hb
    rw [List.singleton_append, unquoteBytes_plain hpercent, hplain, List.singleton_append]
  · simp only [List.cons_append, List.nil_append]
    rw [unquoteBytes, escapedByte_hexUpper]

lemma mem_quoteByte {b : UInt8} {c : Char} (h : c ∈ quoteByte b) : isQuoted c = true := by
  unfold quoteByte at h
  split_ifs at h with hb
  · rw [List.mem_singleton.mp h]
    exact (plainBytes_safe hb).2.2
  · have hhex : ∀ m : Fin 16, isQuoted (hexUpper m) = true := by decide
    have hlt := b.toNat_lt
    simp only [List.mem_cons, List.not_mem_nil, or_false] at h
    rcases h with rfl | rfl | rfl
    · rfl
    · exact hhex ⟨b.toNat / 16, by omega⟩
    · exact hhex ⟨b.toNat % 16, by omega⟩

lemma mem_percentQuote {s : String} {c : Char} (h : c ∈ (percentQuote s).toList) :
    isQuoted c = true := by
  rw [percentQuote, String.toList_ofList] at h
  obtain ⟨b, -, hb⟩ := List.mem_flatMap.mp h
  exact mem_quoteByte hb

lemma map_plus {cs : List Char} (h : '+' ∉ cs) :
    (cs.map fun c => if c = '+' then ' ' else c) = cs := by
  refine (List.map_congr_left fun c hc => ?_).trans (List.map_id cs)
  have hne : c ≠ '+' := fun he => h (he ▸ hc)
  exact if_neg hne

lemma unquotePlus_percentQuote {decode : Bytes → String} (hdecode : ∀ s, decode (encodeUtf8 s) = s)
    (s : String) : unquotePlus decode (percentQuote s).toList = s := by
  have hbytes : ∀ bs : Bytes, unquoteBytes (bs.flatMap quoteByte) = bs := by
    intro bs
    induction bs with
    | nil => rfl
    | cons b bs ih => rw [List.flatMap_cons, unquoteBytes_quoteByte, ih]
  rw [unquotePlus, map_plus fun h => ne_of_isQuoted (mem_percentQuote h) rfl rfl, percentQuote, String.toList_ofList,
    hbytes, hdecode]

lemma encodeUtf8_cons (c : Char) (cs : List Char) :
    encodeUtf8 (.ofList (c :: cs)) = plainBytes c ++ encodeUtf8 (.ofList cs) := by
  simp [encodeUtf8, plainBytes, String.ofList_cons]

lemma percentQuote_ne_empty {s : String} (h : s ≠ "") : percentQuote s ≠ "" := by
  intro he
  have hempty := unquotePlus_percentQuote decodeUtf8_encodeUtf8 s
  rw [he] at hempty
  exact h hempty.symm

lemma unquotePlus_plain {decode : Bytes → String} (hdecode : ∀ s, decode (encodeUtf8 s) = s)
    {cs : List Char} (h : ∀ c ∈ cs, c ≠ '%' ∧ c ≠ '+') : unquotePlus decode cs = .ofList cs := by
  have hbytes : ∀ cs : List Char, (∀ c ∈ cs, c ≠ '%' ∧ c ≠ '+') →
      unquoteBytes cs = encodeUtf8 (.ofList cs) := by
    intro cs hcs
    induction cs with
    | nil => rfl
    | cons c cs ih =>
      rw [unquoteBytes_plain (hcs c List.mem_cons_self).1,
        ih fun d hd => hcs d (List.mem_cons_of_mem _ hd), encodeUtf8_cons]
  rw [unquotePlus, map_plus fun hp => (h '+' hp).2 rfl, hbytes cs h, hdecode]

lemma length_le_percentQuote (s : String) : s.length ≤ (percentQuote s).length := by
  have hbytes : ∀ bs : Bytes, bs.length ≤ (bs.flatMap quoteByte).length := by
    intro bs
    induction bs with
    | nil => rfl
    | cons b bs ih =>
      have hb : 1 ≤ (quoteByte b).length := by
        unfold quoteByte
        split_ifs <;> simp
      simp only [List.flatMap_cons, List.length_append, List.length_cons]
      omega
  have hchars : ∀ cs : List Char, cs.length ≤ (encodeUtf8 (.ofList cs)).length := by
    intro cs
    induction cs with
    | nil => exact Nat.zero_le _
    | cons c cs ih =>
      have hc : plainBytes c ≠ [] := by
        intro he
        have hempty : String.singleton c = "" := encodeUtf8_injective (he.trans rfl)
        exact absurd (congrArg String.length hempty) (by simp)
      have hpos := List.length_pos_iff.mpr hc
      rw [encodeUtf8_cons, List.length_append, List.length_cons]
      omega
  have h1 := hchars s.toList
  rw [String.ofList_toList, String.length_toList] at h1
  rw [percentQuote, String.length_ofList]
  exact h1.trans (hbytes _)

end T3dmium
