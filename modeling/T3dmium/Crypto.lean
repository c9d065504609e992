import T3dmium.Base64
import T3dmium.Stdlib

/-! The client's key hierarchy and its encrypt-then-MAC cipher: SHA-256 in
counter mode under `kEnc`, HMAC-SHA256 over `aad || nonce || ciphertext` under
`kMac`. -/
namespace T3dmium

def nonceLen : ℕ := 24
def aeadAlg : String := "sha256ctr-hmac-sha256-v1"

def infoEnc : Bytes := ascii "t3dmium-sync/enc/v1"
def infoMac : Bytes := ascii "t3dmium-sync/mac/v1"
def infoAuth : Bytes := ascii "t3dmium-sync/auth/v1"
def infoGroup : Bytes := ascii "t3dmium-sync/group-id/v1"

section
variable (std : Stdlib)

/-- The loop of `hkdf_sha256`; `bytes([counter])` takes one byte only. -/
def hkdfLoop (prk info : Bytes) (length : ℕ) (okm t : Bytes) (counter : ℕ) :
    Except PyError Bytes :=
  if okm.length < length then
    if counter < 256 then
      hkdfLoop prk info length
        (okm ++ (std.hmacSha256 prk (t ++ info ++ [UInt8.ofNat counter])).bytes)
        (std.hmacSha256 prk (t ++ info ++ [UInt8.ofNat counter])).bytes (counter + 1)
    else .error .valueError
  else .ok (okm.take length)
termination_by length - okm.length
decreasing_by
  simp only [List.length_append, Digest.length_eq]
  omega

def hkdfSha256 (ikm : Bytes) (salt : Option Bytes) (info : Bytes) (length : ℕ) :
    Except PyError Bytes :=
  let salt := if salt.getD [] = [] then List.replicate 32 0 else salt.getD []
  hkdfLoop std (std.hmacSha256 salt ikm).bytes info length [] [] 1

/-- One sync group's keys. `groupId` is public, the rest stays on the client. -/
structure GroupKeys where
  root : Bytes
  kEnc : Bytes
  kMac : Bytes
  kAuth : Bytes
  groupId : String
  deriving DecidableEq

def GroupKeys.init (root : Bytes) : Except PyError GroupKeys := do
  let kEnc ← hkdfSha256 std root (some []) infoEnc 32
  let kMac ← hkdfSha256 std root (some []) infoMac 32
  let kAuth ← hkdfSha256 std root (some []) infoAuth 32
  let group ← hkdfSha256 std root (some []) infoGroup 16
  .ok ⟨root, kEnc, kMac, kAuth, b64u group⟩

namespace GroupKeys
variable (keys : GroupKeys)

/-- The commitment the server stores. -/
def authHash : String := b64u (std.sha256 keys.kAuth).bytes

/-- `kAuth` itself, shown with every request. -/
def authToken : String := b64u keys.kAuth

end GroupKeys

/-- What a proof signs: method, path and the hash of the body. -/
def transcript (method path : String) (body : Bytes) : Bytes :=
  encodeUtf8 method ++ [10] ++ encodeUtf8 path ++ [10] ++ (std.sha256 body).bytes

def GroupKeys.authProof (keys : GroupKeys) (method path : String) (body : Bytes) : String :=
  b64u (std.hmacSha256 keys.kAuth (transcript std method path body)).bytes

/-- `struct.pack(">Q", n)` -/
def packBE64 (n : ℕ) : Except PyError Bytes :=
  if n < 2 ^ 64 then .ok ((List.range 8).map fun i => UInt8.ofNat (n / 256 ^ (7 - i)))
  else .error .structError

/-- The loop of `_sha256_ctr_keystream`. -/
def keystreamLoop (key nonce : Bytes) (nbytes : ℕ) (out : Bytes) (counter : ℕ) :
    Except PyError Bytes :=
  if out.length < nbytes then
    match packBE64 counter with
    | .error e => .error e
    | .ok c =>
      keystreamLoop key nonce nbytes (out ++ (std.sha256 (key ++ nonce ++ c)).bytes) (counter + 1)
  else .ok (out.take nbytes)
termination_by nbytes - out.length
decreasing_by
  simp only [List.length_append, Digest.length_eq]
  omega

def sha256CtrKeystream (key nonce : Bytes) (nbytes : ℕ) : Except PyError Bytes :=
  keystreamLoop std key nonce nbytes [] 0

/-- `bytes(a ^ b for a, b in zip(xs, ys))` -/
def xorBytes (xs ys : Bytes) : Bytes := List.zipWith (· ^^^ ·) xs ys

/-- The tag of a message: HMAC over the bare concatenation. -/
def aeadTag (kMac nonce ct aad : Bytes) : Bytes := (std.hmacSha256 kMac (aad ++ nonce ++ ct)).bytes

def aeadEncrypt (kEnc kMac nonce plaintext aad : Bytes) : Except PyError Bytes := do
  let ks ← sha256CtrKeystream std kEnc nonce plaintext.length
  let ct := xorBytes plaintext ks
  .ok (ct ++ aeadTag std kMac nonce ct aad)

def aeadDecrypt (kEnc kMac nonce ctAndTag aad : Bytes) : Except PyError Bytes :=
  if ctAndTag.length < 32 then .error .valueError
  else
    let ct := ctAndTag.take (ctAndTag.length - 32)
    let tag := ctAndTag.drop (ctAndTag.length - 32)
    if tag ≠ aeadTag std kMac nonce ct aad then .error .valueError
    else do
      let ks ← sha256CtrKeystream std kEnc nonce ct.length
      .ok (xorBytes ct ks)

end

/-! Facts about the keys -/

section
variable {std : Stdlib}

/-- Up to 32 bytes take one turn of the loop. -/
lemma hkdfSha256_eq (ikm info : Bytes) {length : ℕ} (hpos : 0 < length) (hle : length ≤ 32) :
    hkdfSha256 std ikm (some []) info length =
      .ok ((std.hmacSha256 (std.hmacSha256 (List.replicate 32 0) ikm).bytes
        (info ++ [1])).bytes.take length) := by
  simp only [hkdfSha256, Option.getD_some, if_true]
  generalize (std.hmacSha256 _ ikm).bytes = prk
  have hblock := (std.hmacSha256 prk ([] ++ info ++ [UInt8.ofNat 1])).length_eq
  rw [hkdfLoop, if_pos (by simpa using hpos), if_pos (by norm_num), hkdfLoop,
    if_neg (by rw [List.nil_append, hblock]; omega)]
  rfl

/-- The hierarchy that hangs from a root key. -/
lemma GroupKeys.init_eq (std : Stdlib) (root : Bytes) :
    let block := fun info =>
      (std.hmacSha256 (std.hmacSha256 (List.replicate 32 0) root).bytes (info ++ [1])).bytes
    GroupKeys.init std root = .ok ⟨root, (block infoEnc).take 32, (block infoMac).take 32,
      (block infoAuth).take 32, b64u ((block infoGroup).take 16)⟩ := by
  have h32 : ∀ info, hkdfSha256 std root (some []) info 32 = .ok _ := fun info =>
    hkdfSha256_eq root info (by norm_num) le_rfl
  have h16 : hkdfSha256 std root (some []) infoGroup 16 = .ok _ :=
    hkdfSha256_eq root infoGroup (by norm_num) (by norm_num)
  simp only [GroupKeys.init, h32, h16, bind, Except.bind]

lemma GroupKeys.init_ok (std : Stdlib) (root : Bytes) : ∃ keys, GroupKeys.init std root = .ok keys :=
  ⟨_, GroupKeys.init_eq std root⟩

lemma GroupKeys.groupId_eq {root : Bytes} {keys : GroupKeys}
    (h : GroupKeys.init std root = .ok keys) : ∃ group, keys.groupId = b64u group ∧ group.length = 16 := by
  rw [GroupKeys.init_eq] at h
  cases h
  refine ⟨_, rfl, ?_⟩
  rw [List.length_take, Digest.length_eq]
  rfl

/-- A request of the client is not taken for one without group. -/
lemma GroupKeys.groupId_ne_empty {root : Bytes} {keys : GroupKeys}
    (h : GroupKeys.init std root = .ok keys) : keys.groupId ≠ "" := by
  obtain ⟨group, hname, hlen⟩ := GroupKeys.groupId_eq h
  intro he
  have hnil : group = [] := b64u_injective (hname.symm.trans he)
  simp [hnil] at hlen

/-! Facts about the cipher -/

@[simp] lemma aeadTag_length (kMac nonce ct aad : Bytes) :
    (aeadTag std kMac nonce ct aad).length = 32 := Digest.length_eq _

lemma keystreamLoop_length {key nonce : Bytes} {nbytes : ℕ} {out ks : Bytes} {counter : ℕ}
    (h : keystreamLoop std key nonce nbytes out counter = .ok ks) : ks.length = nbytes := by
  induction out, counter using keystreamLoop.induct std key nonce nbytes with
  | case1 out counter hlt e he =>
    rw [keystreamLoop, if_pos hlt, he] at h
    cases h
  | case2 out counter hlt c hc ih =>
    rw [keystreamLoop, if_pos hlt, hc] at h
    exact ih h
  | case3 out counter hge =>
    rw [keystreamLoop, if_neg hge] at h
    cases h
    simp only [List.length_take]
    omega

/-- The keystream is exactly as long as the text, so `zip` drops no byte. -/
lemma sha256CtrKeystream_length {key nonce : Bytes} {nbytes : ℕ} {ks : Bytes}
    (h : sha256CtrKeystream std key nonce nbytes = .ok ks) : ks.length = nbytes :=
  keystreamLoop_length h

lemma keystreamLoop_error {key nonce : Bytes} {nbytes : ℕ} {out : Bytes} {counter : ℕ} {e : PyError}
    (h : keystreamLoop std key nonce nbytes out counter = .error e) : e = .structError := by
  induction out, counter using keystreamLoop.induct std key nonce nbytes with
  | case1 out counter hlt e' he =>
    rw [keystreamLoop, if_pos hlt, he] at h
    unfold packBE64 at he
    split_ifs at he
    cases h
    cases he
    rfl
  | case2 out counter hlt c hc ih =>
    rw [keystreamLoop, if_pos hlt, hc] at h
    exact ih h
  | case3 out counter hge =>
    rw [keystreamLoop, if_neg hge] at h
    cases h

lemma keystreamLoop_ok {key nonce : Bytes} {nbytes : ℕ} {out : Bytes} {counter : ℕ}
    (h : nbytes ≤ out.length + 32 * (2 ^ 64 - counter)) :
    ∃ ks, keystreamLoop std key nonce nbytes out counter = .ok ks := by
  induction out, counter using keystreamLoop.induct std key nonce nbytes with
  | case1 out counter hlt e he =>
    unfold packBE64 at he
    split_ifs at he with hc
    omega
  | case2 out counter hlt c hc ih =>
    have hcounter : counter < 2 ^ 64 := by
      unfold packBE64 at hc
      split_ifs at hc with hc'
      exact hc'
    rw [keystreamLoop, if_pos hlt, hc]
    refine ih ?_
    rw [List.length_append, Digest.length_eq]
    omega
  | case3 out counter hge => exact ⟨_, by rw [keystreamLoop, if_neg hge]⟩

lemma xorBytes_length {xs ys : Bytes} (h : ys.length = xs.length) :
    (xorBytes xs ys).length = xs.length := by
  simp [xorBytes, h]

lemma xorBytes_cancel {xs ys : Bytes} (h : ys.length = xs.length) :
    xorBytes (xorBytes xs ys) ys = xs := by
  induction xs generalizing ys with
  | nil => rfl
  | cons x xs ih =>
    cases ys with
    | nil => simp at h
    | cons y ys =>
      have hh := @ih ys (by simpa using h)
      simp only [xorBytes, List.zipWith_cons_cons, List.cons.injEq] at hh ⊢
      exact ⟨by rw [UInt8.xor_assoc, UInt8.xor_self, UInt8.xor_zero], hh⟩

lemma aeadEncrypt_ok {kEnc kMac nonce plaintext aad blob : Bytes}
    (h : aeadEncrypt std kEnc kMac nonce plaintext aad = .ok blob) :
    ∃ ks, sha256CtrKeystream std kEnc nonce plaintext.length = .ok ks ∧
      blob = xorBytes plaintext ks ++ aeadTag std kMac nonce (xorBytes plaintext ks) aad := by
  unfold aeadEncrypt at h
  cases hk : sha256CtrKeystream std kEnc nonce plaintext.length with
  | error e =>
    rw [hk] at h
    cases h
  | ok ks =>
    rw [hk] at h
    exact ⟨ks, rfl, (Except.ok.inj h).symm⟩

lemma aeadEncrypt_exists (kEnc kMac nonce aad : Bytes) {plaintext : Bytes}
    (h : plaintext.length ≤ 2 ^ 69) :
    ∃ blob, aeadEncrypt std kEnc kMac nonce plaintext aad = .ok blob := by
  obtain ⟨ks, hks⟩ : ∃ ks, sha256CtrKeystream std kEnc nonce plaintext.length = .ok ks :=
    keystreamLoop_ok (by simp; omega)
  exact ⟨_, by rw [aeadEncrypt, hks]; rfl⟩

lemma aeadEncrypt_nil (kEnc kMac nonce aad : Bytes) :
    aeadEncrypt std kEnc kMac nonce [] aad = .ok (aeadTag std kMac nonce [] aad) := by
  have hk : sha256CtrKeystream std kEnc nonce ([] : Bytes).length = .ok [] := by
    rw [sha256CtrKeystream, keystreamLoop]
    simp
  unfold aeadEncrypt
  rw [hk]
  rfl

/-- A blob that carries the right tag is decrypted with the keystream. -/
lemma aeadDecrypt_of_tag {kEnc kMac nonce ct tag aad : Bytes}
    (htag : tag = aeadTag std kMac nonce ct aad) :
    aeadDecrypt std kEnc kMac nonce (ct ++ tag) aad =
      (sha256CtrKeystream std kEnc nonce ct.length).map (xorBytes ct) := by
  subst htag
  have hl : ¬ (ct ++ aeadTag std kMac nonce ct aad).length < 32 := by simp
  unfold aeadDecrypt
  rw [if_neg hl]
  simp only [List.length_append, aeadTag_length, Nat.add_sub_cancel, List.take_left',
    List.drop_left', ne_eq, not_true_eq_false, ↓reduceIte]
  cases sha256CtrKeystream std kEnc nonce ct.length <;> rfl

/-- Decryption under the same keys, nonce and associated data inverts encryption. -/
theorem aeadDecrypt_aeadEncrypt {kEnc kMac nonce plaintext aad blob : Bytes}
    (h : aeadEncrypt std kEnc kMac nonce plaintext aad = .ok blob) :
    aeadDecrypt std kEnc kMac nonce blob aad = .ok plaintext := by
  obtain ⟨ks, hks, rfl⟩ := aeadEncrypt_ok h
  have hlen := sha256CtrKeystream_length hks
  rw [aeadDecrypt_of_tag rfl, xorBytes_length hlen, hks]
  simp [Except.map, xorBytes_cancel hlen]

/-- Decryption raises `ValueError` unless the last 32 bytes are the tag of the
rest. -/
lemma aeadDecrypt_cases (kEnc kMac nonce blob aad : Bytes) :
    aeadDecrypt std kEnc kMac nonce blob aad = .error .valueError ∨
      ∃ ct, blob = ct ++ aeadTag std kMac nonce ct aad := by
  unfold aeadDecrypt
  by_cases hl : blob.length < 32
  · exact Or.inl (if_pos hl)
  · rw [if_neg hl]
    by_cases ht : blob.drop (blob.length - 32) =
        aeadTag std kMac nonce (blob.take (blob.length - 32)) aad
    · exact Or.inr ⟨blob.take (blob.length - 32), by rw [← ht, List.take_append_drop]⟩
    · exact Or.inl (if_pos ht)

end
end T3dmium
