import T3dmium.Crypto

/-! Wire records: one item encrypted under a group's keys, with its slot, version
and deletion mark authenticated beside the ciphertext. -/
namespace T3dmium

section
variable (std : Stdlib)

def recordAad (collection recordId version tombstone : Json) : Bytes :=
  dumps std.floatRepr .compact (.list [collection, recordId, version, .bool tombstone.truthy])

/-- The dict `encrypt_record` returns. -/
def wireRecord (collection recordId : PyStr) (nonce blob : Bytes) (version : ℤ) (tombstone : Bool) :
    Json :=
  .object [("collection", .str collection), ("id", .str recordId), ("nonce", .text (b64u nonce)),
    ("ciphertext", .text (b64u blob)), ("version", .int version), ("tombstone", .bool tombstone),
    ("alg", .text aeadAlg)]

/-- `urandom` is what `os.urandom(NONCE_LEN)` returns when no nonce is passed. -/
def encryptRecord (keys : GroupKeys) (collection recordId : PyStr) (plaintext : Bytes)
    (version : ℤ) (tombstone : Bool) (nonce : Option Bytes) (urandom : Bytes) :
    Except PyError Json := do
  let nonce := nonce.getD urandom
  let aad := recordAad std (.str collection) (.str recordId) (.int version) (.bool tombstone)
  let body := if tombstone then [] else plaintext
  let blob ← aeadEncrypt std keys.kEnc keys.kMac nonce body aad
  .ok (wireRecord collection recordId nonce blob version tombstone)

def decryptRecord (keys : GroupKeys) (record : Json) : Except PyError Bytes := do
  let nonce ← b64uDecJson (← record.getItem "nonce")
  let blob ← b64uDecJson (← record.getItem "ciphertext")
  let aad := recordAad std (← record.getItem "collection") (← record.getItem "id")
    (← record.getItem "version") (← record.getItem "tombstone")
  aeadDecrypt std keys.kEnc keys.kMac nonce blob aad

end

section
variable {std : Stdlib} {keys : GroupKeys}

lemma recordAad_eq (collection recordId version tombstone : Json) :
    recordAad std collection recordId version tombstone =
      91 :: (dumps std.floatRepr .compact collection ++ 44 ::
        (dumps std.floatRepr .compact recordId ++ 44 ::
          (dumps std.floatRepr .compact version ++ 44 ::
            (dumps std.floatRepr .compact (.bool tombstone.truthy) ++ [93])))) := by
  rw [recordAad, dumps_list]
  simp [DumpStyle.compact, List.intercalate, List.intersperse]

/-- The associated data of a slot, with anything after it, starts like that of
another only if the slots are spelled with the same code units. -/
lemma recordAad_append {collection recordId version tombstone : Json} {c i : PyStr} {v : ℤ}
    {t : Bool} {x y : Bytes}
    (h : recordAad std collection recordId version tombstone ++ x =
      recordAad std (.str c) (.str i) (.int v) (.bool t) ++ y) :
    (∃ c', collection = .str c' ∧ utf16 c' = utf16 c) ∧
      (∃ i', recordId = .str i' ∧ utf16 i' = utf16 i) ∧
      version = .int v ∧ tombstone.truthy = t ∧ x = y := by
  simp only [recordAad_eq, List.cons_append, List.append_assoc, List.cons.injEq, true_and,
    Json.truthy_bool] at h
  rw [dumps_str, dumps_str, dumps_int] at h
  obtain ⟨hc, h⟩ := dumps_eq_quoted h
  obtain ⟨hi, h⟩ := dumps_eq_quoted (List.cons.inj h).2
  obtain ⟨hv, h⟩ := dumps_eq_decimal (List.cons.inj h).2
  refine ⟨hc, hi, hv, ?_⟩
  cases hb : tombstone.truthy <;> cases t <;> simp [hb, ascii] at h ⊢ <;> exact h

lemma recordAad_congr {c c' i i' : PyStr} {v : ℤ} {tombstone : Json} {t : Bool}
    (hc : utf16 c' = utf16 c) (hi : utf16 i' = utf16 i) (ht : tombstone.truthy = t) :
    recordAad std (.str c') (.str i') (.int v) tombstone =
      recordAad std (.str c) (.str i) (.int v) (.bool t) := by
  simp only [recordAad_eq, dumps_str, quoted, hc, hi, ht, Json.truthy_bool]

/-- A record made by `encrypt_record` under `keys`, with what it was made of. -/
structure ProducedRecord (std : Stdlib) (keys : GroupKeys) where
  collection : PyStr
  recordId : PyStr
  plaintext : Bytes
  version : ℤ
  tombstone : Bool
  nonce : Option Bytes
  urandom : Bytes
  record : Json
  produced : encryptRecord std keys collection recordId plaintext version tombstone nonce urandom =
    .ok record

namespace ProducedRecord
variable (p : ProducedRecord std keys)

def usedNonce : Bytes := p.nonce.getD p.urandom

/-- What decryption must give back. -/
def body : Bytes := if p.tombstone then [] else p.plaintext

def aad : Bytes :=
  recordAad std (.str p.collection) (.str p.recordId) (.int p.version) (.bool p.tombstone)

lemma exists_blob : ∃ blob, aeadEncrypt std keys.kEnc keys.kMac p.usedNonce p.body p.aad = .ok blob ∧
    p.record = wireRecord p.collection p.recordId p.usedNonce blob p.version p.tombstone := by
  have h : (aeadEncrypt std keys.kEnc keys.kMac p.usedNonce p.body p.aad >>= fun blob =>
      .ok (wireRecord p.collection p.recordId p.usedNonce blob p.version p.tombstone)) =
      .ok p.record := p.produced
  cases hb : aeadEncrypt std keys.kEnc keys.kMac p.usedNonce p.body p.aad with
  | error e =>
    rw [hb] at h
    cases h
  | ok blob =>
    rw [hb] at h
    exact ⟨blob, rfl, (Except.ok.inj h).symm⟩

/-- The ciphertext without its tag. -/
def ct : Bytes :=
  match sha256CtrKeystream std keys.kEnc p.usedNonce p.body.length with
  | .ok ks => xorBytes p.body ks
  | .error _ => []

/-- The one message the MAC was computed on for this record. -/
def macInput : Bytes := p.aad ++ p.usedNonce ++ p.ct

def blob : Bytes := p.ct ++ (std.hmacSha256 keys.kMac p.macInput).bytes

lemma aeadEncrypt_eq :
    aeadEncrypt std keys.kEnc keys.kMac p.usedNonce p.body p.aad = .ok p.blob := by
  obtain ⟨blob, hb, -⟩ := p.exists_blob
  obtain ⟨ks, hks, rfl⟩ := aeadEncrypt_ok hb
  rw [hb]
  simp only [ProducedRecord.blob, macInput, ct, hks, aeadTag]

lemma record_eq :
    p.record = wireRecord p.collection p.recordId p.usedNonce p.blob p.version p.tombstone := by
  obtain ⟨blob, hb, hr⟩ := p.exists_blob
  rw [aeadEncrypt_eq] at hb
  rw [hr, ← Except.ok.inj hb]

lemma blob_length : p.blob.length = p.body.length + 32 := by
  obtain ⟨ks, hks, hblob⟩ := aeadEncrypt_ok p.aeadEncrypt_eq
  rw [hblob, List.length_append, aeadTag_length, xorBytes_length (sha256CtrKeystream_length hks)]

end ProducedRecord

/-- Every text of at most `2 ^ 69` bytes can be encrypted. -/
lemma encryptRecord_exists (std : Stdlib) (keys : GroupKeys) (collection recordId : PyStr)
    {plaintext : Bytes} (h : plaintext.length ≤ 2 ^ 69) (version : ℤ) (tombstone : Bool)
    (nonce : Option Bytes) (urandom : Bytes) :
    ∃ record, encryptRecord std keys collection recordId plaintext version tombstone nonce urandom =
      .ok record := by
  have hbody : (if tombstone then [] else plaintext).length ≤ 2 ^ 69 := by
    split_ifs
    · exact Nat.zero_le _
    · exact h
  obtain ⟨blob, hblob⟩ : ∃ blob, aeadEncrypt std _ _ _ _ _ = .ok blob := aeadEncrypt_exists keys.kEnc keys.kMac (nonce.getD urandom)
    (recordAad std (.str collection) (.str recordId) (.int version) (.bool tombstone)) hbody
  exact ⟨wireRecord collection recordId (nonce.getD urandom) blob version tombstone, by
    simp only [encryptRecord, hblob, bind, Except.bind]⟩

/-- A deletion mark can always be produced. -/
def ProducedRecord.tombstoneOf (std : Stdlib) (keys : GroupKeys) (collection recordId : PyStr)
    (version : ℤ) (nonce : Bytes) : ProducedRecord std keys where
  collection := collection
  recordId := recordId
  plaintext := []
  version := version
  tombstone := true
  nonce := some nonce
  urandom := []
  record := wireRecord collection recordId nonce (aeadTag std keys.kMac nonce []
    (recordAad std (.str collection) (.str recordId) (.int version) (.bool true))) version true
  produced := by
    simp only [encryptRecord, Option.getD_some, ↓reduceIte, aeadEncrypt_nil]
    rfl

/-- What decryption does to a dict that has the six fields it reads. -/
lemma decryptRecord_object {record : Json} {nonce ciphertext : PyStr}
    {collection recordId version tombstone : Json}
    (hn : record.getItem "nonce" = .ok (.str nonce))
    (hct : record.getItem "ciphertext" = .ok (.str ciphertext))
    (hc : record.getItem "collection" = .ok collection) (hi : record.getItem "id" = .ok recordId)
    (hv : record.getItem "version" = .ok version)
    (ht : record.getItem "tombstone" = .ok tombstone) :
    decryptRecord std keys record =
      b64uDec nonce >>= fun n => b64uDec ciphertext >>= fun blob =>
        aeadDecrypt std keys.kEnc keys.kMac n blob
          (recordAad std collection recordId version tombstone) := by
  unfold decryptRecord
  rw [hn, hct, hc, hi, hv, ht]
  rfl

lemma decryptRecord_wireRecord (collection recordId : PyStr) (nonce blob : Bytes) (version : ℤ)
    (tombstone : Bool) :
    decryptRecord std keys (wireRecord collection recordId nonce blob version tombstone) =
      aeadDecrypt std keys.kEnc keys.kMac nonce blob
        (recordAad std (.str collection) (.str recordId) (.int version) (.bool tombstone)) := by
  rw [wireRecord, decryptRecord_object (Json.getItem_object _ _) (Json.getItem_object _ _)
    (Json.getItem_object _ _) (Json.getItem_object _ _) (Json.getItem_object _ _)
    (Json.getItem_object _ _), b64uDec_b64u, b64uDec_b64u]
  rfl

/-- Encryption and decryption of a record are inverse. -/
theorem decryptRecord_record (p : ProducedRecord std keys) :
    decryptRecord std keys p.record = .ok p.body := by
  rw [p.record_eq, decryptRecord_wireRecord]
  exact aeadDecrypt_aeadEncrypt p.aeadEncrypt_eq

end

/-! What is authenticated of a record, its body aside -/

/-- A slot with a version and a deletion mark. -/
structure SlotState where
  collection : String
  recordId : String
  version : ℤ
  tombstone : Bool

namespace SlotState

def aad (std : Stdlib) (s : SlotState) : Bytes :=
  recordAad std (.text s.collection) (.text s.recordId) (.int s.version) (.bool s.tombstone)

/-- What `aead_encrypt` and `aead_decrypt` compute the tag of. -/
def macInput (std : Stdlib) (s : SlotState) (nonce ct : Bytes) : Bytes := s.aad std ++ nonce ++ ct

lemma aad_selfDelimiting (std : Stdlib) : SelfDelimiting (aad std) := by
  rintro ⟨c, i, v, t⟩ ⟨c', i', v', t'⟩ x y h
  obtain ⟨⟨c₀, hc, hcu⟩, ⟨i₀, hi, hiu⟩, hv, ht, hxy⟩ := recordAad_append h
  obtain rfl : PyStr.ofString c = c₀ := Json.str.inj hc
  obtain rfl : PyStr.ofString i = i₀ := Json.str.inj hi
  obtain rfl : c = c' := utf16_ofString_injective hcu
  obtain rfl : i = i' := utf16_ofString_injective hiu
  obtain rfl : v = v' := Json.int.inj hv
  obtain rfl : t = t' := ht
  exact ⟨rfl, hxy⟩

end SlotState

/-- The associated data of a slot, a version and a mark is no beginning of that of others,
so that no two of them share a message under the MAC. -/
structure SlotsApart (std : Stdlib) : Prop where
  delimited : ∀ s s' x y, SlotState.aad std s ++ x = SlotState.aad std s' ++ y →
    s.collection = s'.collection ∧ s.recordId = s'.recordId ∧ s.version = s'.version ∧
      s.tombstone = s'.tombstone ∧ x = y
  tagged : ∀ s kMac nonce ct, aeadTag std kMac nonce ct (SlotState.aad std s) =
    (std.hmacSha256 kMac (s.macInput std nonce ct)).bytes
  apart : ∀ s s' nonce ct nonce' ct',
    SlotState.macInput std s nonce ct = SlotState.macInput std s' nonce' ct' → s = s'

theorem slots_apart (std : Stdlib) : SlotsApart std where
  delimited s s' x y h := by
    obtain ⟨rfl, hxy⟩ := SlotState.aad_selfDelimiting std s s' x y h
    exact ⟨rfl, rfl, rfl, rfl, hxy⟩
  tagged _ _ _ _ := rfl
  apart s s' nonce ct nonce' ct' h := by
    simp only [SlotState.macInput, List.append_assoc] at h
    exact (SlotState.aad_selfDelimiting std s s' _ _ h).1

end T3dmium
