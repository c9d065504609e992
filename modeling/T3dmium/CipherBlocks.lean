import T3dmium.BlockStream
import T3dmium.Crypto

/-! The key derivation and the cipher as they are documented, block by block: HKDF of
RFC 5869, and SHA-256 in counter mode. -/
namespace T3dmium

section
variable (std : Stdlib)

/-! RFC 5869 -/

/-- `PRK`; without a salt it is 32 zero bytes. -/
def hkdfExtract (ikm : Bytes) (salt : Option Bytes) : Bytes :=
  match salt with
  | none | some [] => (std.hmacSha256 (List.replicate 32 0) ikm).bytes
  | some salt => (std.hmacSha256 salt ikm).bytes

/-- `T(n)` -/
def hkdfBlock (prk info : Bytes) : ℕ → Bytes
  | 0 => []
  | n + 1 => (std.hmacSha256 prk (hkdfBlock prk info n ++ info ++ [UInt8.ofNat (n + 1)])).bytes

/-- The first bytes of `T(1) || T(2) || ...` -/
def hkdfExpand (prk info : Bytes) (length : ℕ) : Bytes :=
  BlockStream.stream (fun n => hkdfBlock std prk info (n + 1)) 32 length

/-! PROTOCOL.md, section 2.1 -/

def be64 (n : ℕ) : Bytes := (List.range 8).map fun i => UInt8.ofNat (n / 256 ^ (7 - i))

def keystreamBlock (kEnc nonce : Bytes) (n : ℕ) : Bytes := (std.sha256 (kEnc ++ nonce ++ be64 n)).bytes

/-- Byte `i` of the keystream. -/
def keystreamByte (kEnc nonce : Bytes) (i : ℕ) : UInt8 :=
  (keystreamBlock std kEnc nonce (i / 32)).getD (i % 32) 0

end

variable {std : Stdlib}

/-! Key derivation -/

lemma hkdfBlock_length (prk info : Bytes) (n : ℕ) : (hkdfBlock std prk info (n + 1)).length = 32 :=
  Digest.length_eq _

lemma hkdfBlocks_length (std : Stdlib) (prk info : Bytes) (n : ℕ) :
    (BlockStream.blocks (fun n => hkdfBlock std prk info (n + 1)) n).length = n * 32 :=
  BlockStream.blocks_length (hkdfBlock_length prk info) n

lemma hkdfSha256_extract (ikm : Bytes) (salt : Option Bytes) (info : Bytes) (length : ℕ) :
    hkdfSha256 std ikm salt info length =
      hkdfLoop std (hkdfExtract std ikm salt) info length [] [] 1 := by
  rcases salt with _ | _ | ⟨x, salt⟩ <;> rfl

/-- After `n` turns the output is the first `n` blocks and `t` the last of them; past 255
blocks the counter fits in no byte. -/
lemma hkdfLoop_eq {prk info : Bytes} {length n : ℕ} (hn : n ≤ 255) :
    hkdfLoop std prk info length
        (BlockStream.blocks (fun n => hkdfBlock std prk info (n + 1)) n) (hkdfBlock std prk info n)
        (n + 1) =
      if length ≤ 8160 then .ok (hkdfExpand std prk info length) else .error .valueError := by
  have hlength := hkdfBlocks_length std prk info n
  rw [hkdfLoop]
  by_cases hlt : n * 32 < length
  · rw [if_pos (hlength ▸ hlt)]
    by_cases hcounter : n + 1 < 256
    · rw [if_pos hcounter]
      have hnext : n + 1 ≤ 255 := by omega
      exact hkdfLoop_eq hnext
    · rw [if_neg hcounter, if_neg (by omega)]
  · rw [if_neg (hlength ▸ hlt), if_pos (by omega),
      BlockStream.take_blocks (hkdfBlock_length prk info) (by norm_num) (by omega), hkdfExpand]
termination_by 255 - n

/-- HKDF is the one of RFC 5869, up to 255 blocks and not beyond; a shorter output is the
front of a longer one. -/
theorem hkdfSha256_rfc5869 (std : Stdlib) (ikm : Bytes) (salt : Option Bytes) (info : Bytes) :
    (∀ length ≤ 8160, hkdfSha256 std ikm salt info length =
      .ok (hkdfExpand std (hkdfExtract std ikm salt) info length)) ∧
    (∀ length, 8160 < length → hkdfSha256 std ikm salt info length = .error .valueError) ∧
    ∀ shorter longer a b, shorter ≤ longer → hkdfSha256 std ikm salt info shorter = .ok a →
      hkdfSha256 std ikm salt info longer = .ok b → a <+: b := by
  have hshort : ∀ length ≤ 8160, hkdfSha256 std ikm salt info length =
      .ok (hkdfExpand std (hkdfExtract std ikm salt) info length) := by
    intro length hle
    rw [hkdfSha256_extract]
    exact (hkdfLoop_eq (Nat.zero_le _)).trans (if_pos hle)
  have hlong : ∀ length, 8160 < length → hkdfSha256 std ikm salt info length = .error .valueError := by
    intro length hlt
    rw [hkdfSha256_extract]
    exact (hkdfLoop_eq (Nat.zero_le _)).trans (if_neg (Nat.not_le_of_lt hlt))
  refine ⟨hshort, hlong, ?_⟩
  intro shorter longer a b hle ha hb
  have hlonger : longer ≤ 8160 := by
    by_contra hnot
    rw [hlong longer (Nat.lt_of_not_le hnot)] at hb
    cases hb
  rw [hshort shorter (hle.trans hlonger)] at ha
  rw [hshort longer hlonger] at hb
  obtain rfl := Except.ok.inj ha
  obtain rfl := Except.ok.inj hb
  exact BlockStream.stream_prefix (hkdfBlock_length _ info) (by norm_num) hle

/-! The cipher -/

lemma packBE64_eq {n : ℕ} (h : n < 2 ^ 64) : packBE64 n = .ok (be64 n) := if_pos h

lemma keystreamBlock_length (std : Stdlib) (kEnc nonce : Bytes) (n : ℕ) :
    (keystreamBlock std kEnc nonce n).length = 32 :=
  Digest.length_eq _

/-- After `n` turns the output is the first `n` blocks. -/
lemma keystreamLoop_eq {kEnc nonce : Bytes} {nbytes : ℕ} (hle : nbytes ≤ 2 ^ 69) (n : ℕ) :
    keystreamLoop std kEnc nonce nbytes (BlockStream.blocks (keystreamBlock std kEnc nonce) n) n =
      .ok (BlockStream.stream (keystreamBlock std kEnc nonce) 32 nbytes) := by
  have hlength := BlockStream.blocks_length (keystreamBlock_length std kEnc nonce) n
  rw [keystreamLoop]
  split_ifs with hlt
  · rw [packBE64_eq (by omega)]
    exact keystreamLoop_eq hle (n + 1)
  · rw [BlockStream.take_blocks (keystreamBlock_length std kEnc nonce) (by norm_num) (by omega)]
termination_by nbytes - n * 32

lemma sha256CtrKeystream_eq {kEnc nonce : Bytes} {nbytes : ℕ} (hle : nbytes ≤ 2 ^ 69) :
    sha256CtrKeystream std kEnc nonce nbytes =
      .ok (BlockStream.stream (keystreamBlock std kEnc nonce) 32 nbytes) :=
  keystreamLoop_eq hle 0

lemma getElem?_keystream {kEnc nonce : Bytes} {i nbytes : ℕ} (hi : i < nbytes) :
    (BlockStream.stream (keystreamBlock std kEnc nonce) 32 nbytes)[i]? =
      some (keystreamByte std kEnc nonce i) := by
  have hlength := keystreamBlock_length std kEnc nonce
  have hmod : i % 32 < (keystreamBlock std kEnc nonce (i / 32)).length := by
    rw [hlength]
    exact Nat.mod_lt i (by norm_num)
  rw [BlockStream.getElem?_stream hlength (by norm_num) hi, keystreamByte, List.getD_eq_getElem?_getD,
    List.getElem?_eq_getElem hmod, Option.getD_some]

lemma getElem?_xorBytes {xs ys : Bytes} {i : ℕ} {x y : UInt8} (hx : xs[i]? = some x)
    (hy : ys[i]? = some y) : (xorBytes xs ys)[i]? = some (x ^^^ y) := by
  rw [xorBytes, List.getElem?_zipWith, hx, hy]

/-- The cipher is the documented one, and decryption inverts it. -/
theorem aead_documented (std : Stdlib) (kEnc kMac nonce aad plaintext : Bytes)
    (hlen : plaintext.length < 2 ^ 69) :
    ∃ blob, aeadEncrypt std kEnc kMac nonce plaintext aad = .ok blob ∧
      blob.length = plaintext.length + 32 ∧
      (∀ (i : ℕ) (hi : i < plaintext.length),
        blob[i]? = some (plaintext[i] ^^^ keystreamByte std kEnc nonce i)) ∧
      blob.drop plaintext.length =
        (std.hmacSha256 kMac (aad ++ nonce ++ blob.take plaintext.length)).bytes ∧
      aeadDecrypt std kEnc kMac nonce blob aad = .ok plaintext := by
  obtain ⟨blob, hblob⟩ : ∃ blob, aeadEncrypt std _ _ _ _ _ = .ok blob :=
    aeadEncrypt_exists kEnc kMac nonce aad hlen.le
  obtain ⟨ks, hks, hsplit⟩ := aeadEncrypt_ok hblob
  have hct : (xorBytes plaintext ks).length = plaintext.length :=
    xorBytes_length (sha256CtrKeystream_length hks)
  have hdecrypt := aeadDecrypt_aeadEncrypt hblob
  rw [sha256CtrKeystream_eq hlen.le] at hks
  obtain rfl := Except.ok.inj hks
  subst hsplit
  refine ⟨_, hblob, ?_, ?_, ?_, hdecrypt⟩
  · rw [List.length_append, hct, aeadTag_length]
  · intro i hi
    rw [List.getElem?_append_left (hct.symm ▸ hi)]
    exact getElem?_xorBytes (List.getElem?_eq_getElem hi) (getElem?_keystream hi)
  · rw [List.take_left' hct, List.drop_left' hct, aeadTag]

theorem aead_sample : ∃ blob, aeadEncrypt .sample [1] [2] [3] (ascii "bookmarks") [4] = .ok blob ∧
    blob.length = 41 ∧ aeadDecrypt .sample [1] [2] [3] blob [4] = .ok (ascii "bookmarks") := by
  obtain ⟨blob, hblob, hlength, -, -, hdecrypt⟩ :=
    aead_documented .sample [1] [2] [3] [4] (ascii "bookmarks") (by decide)
  exact ⟨blob, hblob, hlength, hdecrypt⟩

end T3dmium
