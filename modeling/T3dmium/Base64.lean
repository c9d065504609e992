import T3dmium.PyValue

/-! URL-safe base64 without padding, over the encoder and the lenient decoder of
Python's `base64` module. The decoder skips characters outside the alphabet and
stops at the padding that completes a group. -/
namespace T3dmium

/-- The alphabet `A–Z a–z 0–9 - _`. -/
def b64Char (n : ℕ) : Char :=
  if n < 26 then Char.ofNat (65 + n)
  else if n < 52 then Char.ofNat (71 + n)
  else if n < 62 then Char.ofNat (n - 4)
  else if n = 62 then '-'
  else '_'

/-- `urlsafe_b64decode` maps `-_` to `+/` first, so both spellings decode. -/
def b64Value (c : Char) : Option ℕ :=
  let n := c.toNat
  if 65 ≤ n ∧ n ≤ 90 then some (n - 65)
  else if 97 ≤ n ∧ n ≤ 122 then some (n - 71)
  else if 48 ≤ n ∧ n ≤ 57 then some (n + 4)
  else if c = '-' ∨ c = '+' then some 62
  else if c = '_' ∨ c = '/' then some 63
  else none

/-- `base64.urlsafe_b64encode` -/
def urlsafeB64encode : Bytes → List Char
  | [] => []
  | [a] => [b64Char (a.toNat / 4), b64Char (a.toNat % 4 * 16), '=', '=']
  | [a, b] =>
    [b64Char (a.toNat / 4), b64Char (a.toNat % 4 * 16 + b.toNat / 16),
      b64Char (b.toNat % 16 * 4), '=']
  | a :: b :: c :: rest =>
    b64Char (a.toNat / 4) :: b64Char (a.toNat % 4 * 16 + b.toNat / 16) ::
      b64Char (b.toNat % 16 * 4 + c.toNat / 64) :: b64Char (c.toNat % 64) ::
      urlsafeB64encode rest

/-- The loop of `binascii.a2b_base64`: position in the group, bits left over, and
padding characters seen since the last data character. -/
def a2bBase64 : List Char → (quadPos leftchar pads : ℕ) → Except PyError Bytes
  | [], quadPos, _, _ => if quadPos = 0 then .ok [] else .error .valueError
  | ch :: rest, quadPos, leftchar, pads =>
    if ch = '=' then
      if 2 ≤ quadPos then
        if 4 ≤ quadPos + (pads + 1) then .ok [] else a2bBase64 rest quadPos leftchar (pads + 1)
      else a2bBase64 rest quadPos leftchar pads
    else
      match b64Value ch with
      | none => a2bBase64 rest quadPos leftchar pads
      | some v =>
        match quadPos with
        | 0 => a2bBase64 rest 1 v 0
        | 1 => (a2bBase64 rest 2 (v % 16) 0).map (UInt8.ofNat (leftchar * 4 + v / 16) :: ·)
        | 2 => (a2bBase64 rest 3 (v % 4) 0).map (UInt8.ofNat (leftchar * 16 + v / 4) :: ·)
        | _ => (a2bBase64 rest 0 0 0).map (UInt8.ofNat (leftchar * 64 + v) :: ·)

/-- `b64u` of the client and `_b64u` of the server. -/
def b64u (data : Bytes) : String := String.ofList ((urlsafeB64encode data).rdropWhile (· == '='))

/-- `b64u_dec` of the client and `_b64u_dec` of the server; text outside ASCII
raises. -/
def b64uDec (s : PyStr) : Except PyError Bytes :=
  match s.scalars with
  | none => .error .valueError
  | some cs =>
    if cs.all fun c => decide (c.val < 128) then
      a2bBase64 (cs ++ List.replicate ((4 - cs.length % 4) % 4) '=') 0 0 0
    else .error .valueError

/-- A token, proof or nonce that is no text at all has no `len`. -/
def b64uDecJson : Json → Except PyError Bytes
  | .str s => b64uDec s
  | .null | .bool _ | .int _ | .float _ | .list _ | .dict _ => .error .typeError

lemma b64Char_spec : ∀ n : Fin 64, b64Value (b64Char n) = some n.val ∧ b64Char n ≠ '=' ∧
    (b64Char n).val < 128 := by
  decide

lemma b64Value_b64Char {n : ℕ} (h : n < 64) : b64Value (b64Char n) = some n :=
  (b64Char_spec ⟨n, h⟩).1

lemma b64Char_data {n : ℕ} (h : n < 64) : b64Char n ≠ '=' ∧ (b64Char n).val < 128 :=
  (b64Char_spec ⟨n, h⟩).2

section Decoding
variable {n : ℕ} (h : n < 64) (rest : List Char) (left pads : ℕ)
include h

lemma a2bBase64_pos0 : a2bBase64 (b64Char n :: rest) 0 left pads = a2bBase64 rest 1 n 0 := by
  simp [a2bBase64, (b64Char_data h).1, b64Value_b64Char h]

lemma a2bBase64_pos1 : a2bBase64 (b64Char n :: rest) 1 left pads =
    (a2bBase64 rest 2 (n % 16) 0).map (UInt8.ofNat (left * 4 + n / 16) :: ·) := by
  simp [a2bBase64, (b64Char_data h).1, b64Value_b64Char h]

lemma a2bBase64_pos2 : a2bBase64 (b64Char n :: rest) 2 left pads =
    (a2bBase64 rest 3 (n % 4) 0).map (UInt8.ofNat (left * 16 + n / 4) :: ·) := by
  simp [a2bBase64, (b64Char_data h).1, b64Value_b64Char h]

lemma a2bBase64_pos3 : a2bBase64 (b64Char n :: rest) 3 left pads =
    (a2bBase64 rest 0 0 0).map (UInt8.ofNat (left * 64 + n) :: ·) := by
  simp [a2bBase64, (b64Char_data h).1, b64Value_b64Char h]

end Decoding

lemma byte_of_parts {a : UInt8} {m : ℕ} (h : m = a.toNat) : UInt8.ofNat m = a := by
  subst h
  exact UInt8.ofNat_toNat

/-- The decoder reads every encoding back, group by group. -/
lemma a2bBase64_encode (data : Bytes) : a2bBase64 (urlsafeB64encode data) 0 0 0 = .ok data := by
  induction data using urlsafeB64encode.induct with
  | case1 => simp [urlsafeB64encode, a2bBase64]
  | case2 a =>
    have ha := a.toNat_lt
    have h1 : UInt8.ofNat (a.toNat / 4 * 4 + a.toNat % 4 * 16 / 16) = a := byte_of_parts (by omega)
    rw [urlsafeB64encode, a2bBase64_pos0 (by omega), a2bBase64_pos1 (by omega), h1]
    simp [a2bBase64, Except.map]
  | case3 a b =>
    have ha := a.toNat_lt
    have hb := b.toNat_lt
    have h1 : UInt8.ofNat (a.toNat / 4 * 4 + (a.toNat % 4 * 16 + b.toNat / 16) / 16) = a :=
      byte_of_parts (by omega)
    have h2 : UInt8.ofNat ((a.toNat % 4 * 16 + b.toNat / 16) % 16 * 16 + b.toNat % 16 * 4 / 4) = b :=
      byte_of_parts (by omega)
    rw [urlsafeB64encode, a2bBase64_pos0 (by omega), a2bBase64_pos1 (by omega),
      a2bBase64_pos2 (by omega), h1, h2]
    simp [a2bBase64, Except.map]
  | case4 a b c rest ih =>
    have ha := a.toNat_lt
    have hb := b.toNat_lt
    have hc := c.toNat_lt
    have h1 : UInt8.ofNat (a.toNat / 4 * 4 + (a.toNat % 4 * 16 + b.toNat / 16) / 16) = a :=
      byte_of_parts (by omega)
    have h2 : UInt8.ofNat ((a.toNat % 4 * 16 + b.toNat / 16) % 16 * 16 +
        (b.toNat % 16 * 4 + c.toNat / 64) / 4) = b := byte_of_parts (by omega)
    have h3 : UInt8.ofNat ((b.toNat % 16 * 4 + c.toNat / 64) % 4 * 64 + c.toNat % 64) = c :=
      byte_of_parts (by omega)
    rw [urlsafeB64encode, a2bBase64_pos0 (by omega), a2bBase64_pos1 (by omega),
      a2bBase64_pos2 (by omega), a2bBase64_pos3 (by omega), ih, h1, h2, h3]
    rfl

lemma urlsafeB64encode_split (data : Bytes) :
    ∃ cs : List Char, urlsafeB64encode data = cs ++ List.replicate ((4 - cs.length % 4) % 4) '=' ∧
      (∀ c ∈ cs, c ≠ '=' ∧ c.val < 128) := by
  induction data using urlsafeB64encode.induct with
  | case1 => exact ⟨[], by simp [urlsafeB64encode], by simp⟩
  | case2 a =>
    have ha := a.toNat_lt
    refine ⟨[b64Char (a.toNat / 4), b64Char (a.toNat % 4 * 16)], rfl, ?_⟩
    intro c hc
    simp only [List.mem_cons, List.not_mem_nil, or_false] at hc
    rcases hc with rfl | rfl <;> exact b64Char_data (by omega)
  | case3 a b =>
    have ha := a.toNat_lt
    have hb := b.toNat_lt
    refine ⟨[b64Char (a.toNat / 4), b64Char (a.toNat % 4 * 16 + b.toNat / 16),
      b64Char (b.toNat % 16 * 4)], rfl, ?_⟩
    intro c hc
    simp only [List.mem_cons, List.not_mem_nil, or_false] at hc
    rcases hc with rfl | rfl | rfl <;> exact b64Char_data (by omega)
  | case4 a b c rest ih =>
    have ha := a.toNat_lt
    have hb := b.toNat_lt
    have hc := c.toNat_lt
    obtain ⟨cs, hcs, hall⟩ := ih
    refine ⟨b64Char (a.toNat / 4) :: b64Char (a.toNat % 4 * 16 + b.toNat / 16) ::
      b64Char (b.toNat % 16 * 4 + c.toNat / 64) :: b64Char (c.toNat % 64) :: cs, ?_, ?_⟩
    · rw [urlsafeB64encode, hcs]
      simp [List.length_cons, show (cs.length + 1 + 1 + 1 + 1) % 4 = cs.length % 4 by omega]
    · intro x hx
      simp only [List.mem_cons] at hx
      rcases hx with rfl | rfl | rfl | rfl | hx
      · exact b64Char_data (by omega)
      · exact b64Char_data (by omega)
      · exact b64Char_data (by omega)
      · exact b64Char_data (by omega)
      · exact hall x hx

lemma rdropWhile_pad {cs : List Char} (h : ∀ c ∈ cs, c ≠ '=') (n : ℕ) :
    (cs ++ List.replicate n '=').rdropWhile (· == '=') = cs := by
  have hd : (List.replicate n '=' ++ cs.reverse).dropWhile (· == '=') = cs.reverse := by
    rw [List.dropWhile_append_of_pos (by simp)]
    cases hr : cs.reverse with
    | nil => rfl
    | cons x xs =>
      have hx : x ∈ cs := List.mem_reverse.mp (hr ▸ List.mem_cons_self)
      simp [h x hx]
  simp [List.rdropWhile, hd]

lemma b64u_split (data : Bytes) :
    urlsafeB64encode data = (b64u data).toList ++
      List.replicate ((4 - (b64u data).toList.length % 4) % 4) '=' ∧ isAscii (b64u data) = true := by
  obtain ⟨cs, hcs, hall⟩ := urlsafeB64encode_split data
  have hb : b64u data = String.ofList cs := by
    rw [b64u, hcs, rdropWhile_pad fun c hc => (hall c hc).1]
  rw [hb, String.toList_ofList]
  refine ⟨hcs, ?_⟩
  simp only [isAscii, String.toList_ofList, List.all_eq_true, decide_eq_true_eq]
  exact fun c hc => (hall c hc).2

@[simp] lemma b64u_ascii (data : Bytes) : isAscii (b64u data) = true := (b64u_split data).2

/-- Decoding undoes encoding, for every length modulo 3. -/
@[simp] theorem b64uDec_b64u (data : Bytes) : b64uDec (.ofString (b64u data)) = .ok data := by
  obtain ⟨hs, ha⟩ := b64u_split data
  unfold isAscii at ha
  simp only [b64uDec, PyStr.ofString, PyStr.scalars_map_scalar]
  rw [if_pos ha, ← hs, a2bBase64_encode]

@[simp] lemma b64uDecJson_text (s : String) : b64uDecJson (.text s) = b64uDec (.ofString s) := rfl

theorem b64u_injective : Function.Injective b64u := by
  intro a b h
  have hh := congrArg (fun s => b64uDec (.ofString s)) h
  simpa using hh

@[simp] lemma b64u_inj {a b : Bytes} : b64u a = b64u b ↔ a = b := b64u_injective.eq_iff

lemma b64u_length_le (data : Bytes) : (b64u data).length ≤ 4 * data.length := by
  have hencode : (urlsafeB64encode data).length ≤ 4 * data.length := by
    induction data using urlsafeB64encode.induct with
    | case1 => simp [urlsafeB64encode]
    | case2 a => simp [urlsafeB64encode]
    | case3 a b => simp [urlsafeB64encode]
    | case4 a b c rest ih =>
      simp only [urlsafeB64encode, List.length_cons]
      omega
  rw [b64u, String.length_ofList]
  exact (List.rdropWhile_prefix _ _).length_le.trans hencode

end T3dmium
