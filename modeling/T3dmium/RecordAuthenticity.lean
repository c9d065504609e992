import T3dmium.Record

/-! What `decrypt_record` accepts when tags cannot be forged. The MAC covers the
bare concatenation `aad || nonce || ciphertext` and the receiver takes the nonce
length from the record, so an accepted record carries the bytes of a produced one
but not necessarily its cut between nonce and ciphertext. -/
namespace T3dmium

/-- A record as a server may return it: any nonce and ciphertext text, any values
in the slot fields, any further fields. -/
structure StoredRecord where
  nonce : PyStr
  ciphertext : PyStr
  collection : Json
  recordId : Json
  version : Json
  tombstone : Json
  rest : List (String × Json)

def StoredRecord.record (r : StoredRecord) : Json :=
  .object ([("nonce", .str r.nonce), ("ciphertext", .str r.ciphertext),
    ("collection", r.collection), ("id", r.recordId), ("version", r.version),
    ("tombstone", r.tombstone)] ++ r.rest)

section
variable {std : Stdlib} {keys : GroupKeys}

def StoredRecord.aad (std : Stdlib) (r : StoredRecord) : Bytes :=
  recordAad std r.collection r.recordId r.version r.tombstone

/-- HMAC as an ideal MAC: the tag of `r` verifies only on a message that
`encrypt_record` computed it on. -/
def MacIdeal (produced : List (ProducedRecord std keys)) (r : StoredRecord) : Prop :=
  ∀ nonce ct tag, b64uDec r.nonce = .ok nonce → b64uDec r.ciphertext = .ok (ct ++ tag) →
    tag = aeadTag std keys.kMac nonce ct (r.aad std) →
    r.aad std ++ nonce ++ ct ∈ produced.map ProducedRecord.macInput

/-- `r` has the slot, the decoded nonce and the decoded ciphertext of `p`. -/
structure SameAs (r : StoredRecord) (p : ProducedRecord std keys) : Prop where
  collection : r.collection = .str p.collection
  recordId : r.recordId = .str p.recordId
  version : r.version = .int p.version
  tombstone : r.tombstone = .bool p.tombstone
  nonce : b64uDec r.nonce = .ok p.usedNonce
  ciphertext : b64uDec r.ciphertext = .ok p.blob

/-- `r` is refused with `ValueError`, or it is a produced record and gives back
that record's plaintext. -/
def Authentic (produced : List (ProducedRecord std keys)) (r : StoredRecord) : Prop :=
  decryptRecord std keys r.record = .error .valueError ∨
    ∃ p ∈ produced, SameAs r p ∧ decryptRecord std keys r.record = .ok p.body

/-- `r` carries the bytes of `p`, cut somewhere between nonce and ciphertext, in a
slot that `json.dumps` writes like the slot of `p`. -/
structure Recut (r : StoredRecord) (p : ProducedRecord std keys) : Prop where
  collection : ∃ c, r.collection = .str c ∧ utf16 c = utf16 p.collection
  recordId : ∃ i, r.recordId = .str i ∧ utf16 i = utf16 p.recordId
  version : r.version = .int p.version
  tombstone : r.tombstone.truthy = p.tombstone
  bytes : ∃ nonce blob, b64uDec r.nonce = .ok nonce ∧ b64uDec r.ciphertext = .ok blob ∧
    nonce ++ blob = p.usedNonce ++ p.blob ∧ 32 ≤ blob.length

/-- The slot fields are spelled as in `p` and the nonce is as long as in `p`. -/
structure CutLike (r : StoredRecord) (p : ProducedRecord std keys) : Prop where
  collection : r.collection = .str p.collection
  recordId : r.recordId = .str p.recordId
  tombstone : r.tombstone = .bool p.tombstone
  nonceLength : ∀ nonce, b64uDec r.nonce = .ok nonce → nonce.length = p.usedNonce.length

/-- Bytes of a produced record arrive with the cut and the spelling of one. -/
def CutKept (produced : List (ProducedRecord std keys)) (r : StoredRecord) : Prop :=
  ∀ p ∈ produced, Recut r p → ∃ q ∈ produced, Recut r q ∧ CutLike r q

lemma decryptRecord_stored (r : StoredRecord) :
    decryptRecord std keys r.record =
      b64uDec r.nonce >>= fun nonce => b64uDec r.ciphertext >>= fun blob =>
        aeadDecrypt std keys.kEnc keys.kMac nonce blob (r.aad std) :=
  decryptRecord_object (Json.getItem_object _ _) (Json.getItem_object _ _)
    (Json.getItem_object _ _) (Json.getItem_object _ _) (Json.getItem_object _ _)
    (Json.getItem_object _ _)

lemma a2bBase64_error {cs : List Char} {quadPos leftchar pads : ℕ} {e : PyError}
    (h : a2bBase64 cs quadPos leftchar pads = .error e) : e = .valueError := by
  induction cs, quadPos, leftchar, pads using a2bBase64.induct <;>
    simp_all [a2bBase64, Except.map] <;> grind

lemma b64uDec_error {s : PyStr} {e : PyError} (h : b64uDec s = .error e) : e = .valueError := by
  unfold b64uDec at h
  split at h
  · exact (Except.error.inj h).symm
  · split_ifs at h
    · exact a2bBase64_error h
    · exact (Except.error.inj h).symm

lemma Recut.aad_eq {r : StoredRecord} {p : ProducedRecord std keys} (h : Recut r p) :
    r.aad std = p.aad := by
  obtain ⟨c, hc, huc⟩ := h.collection
  obtain ⟨i, hi, hui⟩ := h.recordId
  rw [StoredRecord.aad, hc, hi, h.version, recordAad_congr huc hui h.tombstone]
  rfl

/-- The same bytes after another cut end in the same tag. -/
lemma Recut.split {r : StoredRecord} {p : ProducedRecord std keys} (h : Recut r p) :
    ∃ nonce ct, b64uDec r.nonce = .ok nonce ∧
      b64uDec r.ciphertext = .ok (ct ++ (std.hmacSha256 keys.kMac p.macInput).bytes) ∧
      r.aad std ++ nonce ++ ct = p.macInput := by
  obtain ⟨nonce, blob, hn, hb, hcat, hlen⟩ := h.bytes
  have hsplit : (nonce ++ blob.take (blob.length - 32)) ++ blob.drop (blob.length - 32) =
      (p.usedNonce ++ p.ct) ++ (std.hmacSha256 keys.kMac p.macInput).bytes := by
    rw [List.append_assoc, List.take_append_drop, List.append_assoc]
    exact hcat
  have hdl : (blob.drop (blob.length - 32)).length =
      (std.hmacSha256 keys.kMac p.macInput).bytes.length := by
    rw [Digest.length_eq, List.length_drop]
    omega
  obtain ⟨hpre, htag⟩ := List.append_inj' hsplit hdl
  refine ⟨nonce, blob.take (blob.length - 32), hn, ?_, ?_⟩
  · rw [← htag, List.take_append_drop, hb]
  · rw [h.aad_eq, List.append_assoc, hpre, ProducedRecord.macInput, List.append_assoc]

/-- Whatever the cut, the tag of a produced record verifies. -/
lemma Recut.accepted {r : StoredRecord} {p : ProducedRecord std keys} (h : Recut r p) :
    decryptRecord std keys r.record ≠ .error .valueError := by
  obtain ⟨nonce, ct, hn, hb, hm⟩ := h.split
  have htag : (std.hmacSha256 keys.kMac p.macInput).bytes =
      aeadTag std keys.kMac nonce ct (r.aad std) := by
    rw [aeadTag, hm]
  rw [decryptRecord_stored, hn, hb, htag]
  change aeadDecrypt std keys.kEnc keys.kMac nonce _ _ ≠ _
  rw [aeadDecrypt_of_tag rfl]
  cases hk : sha256CtrKeystream std keys.kEnc nonce ct.length with
  | ok ks => simp [Except.map]
  | error e =>
    rw [keystreamLoop_error hk]
    simp [Except.map]

lemma SameAs.recut {r : StoredRecord} {p : ProducedRecord std keys} (h : SameAs r p) :
    Recut r p where
  collection := ⟨_, h.collection, rfl⟩
  recordId := ⟨_, h.recordId, rfl⟩
  version := h.version
  tombstone := by rw [h.tombstone, Json.truthy_bool]
  bytes := ⟨_, _, h.nonce, h.ciphertext, rfl, by simp [ProducedRecord.blob, Digest.length_eq]⟩

lemma SameAs.cutLike {r : StoredRecord} {p : ProducedRecord std keys} (h : SameAs r p) :
    CutLike r p where
  collection := h.collection
  recordId := h.recordId
  tombstone := h.tombstone
  nonceLength nonce hn := by
    rw [h.nonce] at hn
    rw [Except.ok.inj hn]

/-- Equal bytes with an equally long nonce are the same nonce and ciphertext. -/
lemma sameAs_of_cutLike {r : StoredRecord} {p : ProducedRecord std keys} (h : Recut r p)
    (hk : CutLike r p) : SameAs r p := by
  obtain ⟨nonce, blob, hn, hb, hcat, -⟩ := h.bytes
  obtain ⟨rfl, rfl⟩ := List.append_inj hcat (hk.nonceLength nonce hn)
  exact ⟨hk.collection, hk.recordId, h.version, hk.tombstone, hn, hb⟩

lemma SameAs.decryptRecord_eq {r : StoredRecord} {p : ProducedRecord std keys} (h : SameAs r p) :
    decryptRecord std keys r.record = .ok p.body := by
  rw [decryptRecord_stored, h.nonce, h.ciphertext, h.recut.aad_eq]
  exact aeadDecrypt_aeadEncrypt p.aeadEncrypt_eq

/-- An accepted tag belongs to a produced record whose bytes `r` carries. -/
lemma recut_of_tag {produced : List (ProducedRecord std keys)} {r : StoredRecord} {nonce ct : Bytes}
    (hideal : MacIdeal produced r) (hn : b64uDec r.nonce = .ok nonce)
    (hb : b64uDec r.ciphertext = .ok (ct ++ aeadTag std keys.kMac nonce ct (r.aad std))) :
    ∃ p ∈ produced, Recut r p := by
  obtain ⟨p, hp, hm⟩ := List.mem_map.mp (hideal nonce ct _ hn hb rfl)
  have htag : (std.hmacSha256 keys.kMac p.macInput).bytes =
      aeadTag std keys.kMac nonce ct (r.aad std) := by
    rw [aeadTag, hm]
  have haad : recordAad std r.collection r.recordId r.version r.tombstone ++ (nonce ++ ct) =
      recordAad std (.str p.collection) (.str p.recordId) (.int p.version) (.bool p.tombstone) ++
        (p.usedNonce ++ p.ct) := by
    simpa only [ProducedRecord.macInput, ProducedRecord.aad, StoredRecord.aad, List.append_assoc]
      using hm.symm
  obtain ⟨hc, hi, hv, ht, hcat⟩ := recordAad_append haad
  refine ⟨p, hp, hc, hi, hv, ht, nonce, _, hn, hb, ?_, by simp⟩
  rw [ProducedRecord.blob, htag, ← List.append_assoc, hcat, List.append_assoc]

/-- A dict that carries the bytes of a produced record meets the MAC assumption. -/
lemma Recut.macIdeal {produced : List (ProducedRecord std keys)} {r : StoredRecord}
    {p : ProducedRecord std keys} (hp : p ∈ produced) (h : Recut r p) : MacIdeal produced r := by
  intro nonce ct tag hn hb htag
  obtain ⟨nonce', ct', hn', hb', hm⟩ := h.split
  have hlen : tag.length = (std.hmacSha256 keys.kMac p.macInput).bytes.length := by
    rw [htag, aeadTag_length, Digest.length_eq]
  rw [hn'] at hn
  rw [hb'] at hb
  obtain ⟨rfl, -⟩ := List.append_inj' (Except.ok.inj hb).symm hlen
  rw [← Except.ok.inj hn, hm]
  exact List.mem_map_of_mem hp

lemma cutKept_of_authentic {produced : List (ProducedRecord std keys)} {r : StoredRecord}
    (h : Authentic produced r) : CutKept produced r := by
  intro p _ hcut
  rcases h with h | ⟨q, hq, hsame, -⟩
  · exact (hcut.accepted h).elim
  · exact ⟨q, hq, hsame.recut, hsame.cutLike⟩

lemma authentic_of_cutKept {produced : List (ProducedRecord std keys)} {r : StoredRecord}
    (hideal : MacIdeal produced r) (h : CutKept produced r) : Authentic produced r := by
  cases hn : b64uDec r.nonce with
  | error e =>
    rw [b64uDec_error hn] at hn
    exact Or.inl (by rw [decryptRecord_stored, hn]; rfl)
  | ok nonce =>
    cases hb : b64uDec r.ciphertext with
    | error e =>
      rw [b64uDec_error hb] at hb
      exact Or.inl (by rw [decryptRecord_stored, hn, hb]; rfl)
    | ok blob =>
      have hd : decryptRecord std keys r.record =
          aeadDecrypt std keys.kEnc keys.kMac nonce blob (r.aad std) := by
        rw [decryptRecord_stored, hn, hb]
        rfl
      have hcases : aeadDecrypt std keys.kEnc keys.kMac nonce blob (r.aad std) =
          .error .valueError ∨ ∃ ct, blob = ct ++ aeadTag std keys.kMac nonce ct (r.aad std) :=
        aeadDecrypt_cases _ _ _ _ _
      rcases hcases with he | ⟨ct, rfl⟩
      · exact Or.inl (hd.trans he)
      · obtain ⟨p, hp, hcut⟩ := recut_of_tag hideal hn hb
        obtain ⟨q, hq, hcutq, hlike⟩ := h p hp hcut
        have hsame := sameAs_of_cutLike hcutq hlike
        exact Or.inr ⟨q, hq, hsame, hsame.decryptRecord_eq⟩

/-- With an ideal MAC, exactly the records that keep the cut between nonce and
ciphertext (and spell the slot as it was spelled) are authentic or refused. -/
theorem authentic_iff_cutKept (produced : List (ProducedRecord std keys)) (r : StoredRecord)
    (hideal : MacIdeal produced r) : Authentic produced r ↔ CutKept produced r :=
  ⟨cutKept_of_authentic, authentic_of_cutKept hideal⟩

/-- The record `p` with the last byte of its nonce moved into its ciphertext. -/
def shifted (p : ProducedRecord std keys) (nonce : Bytes) (b : UInt8) : StoredRecord where
  nonce := .ofString (b64u nonce)
  ciphertext := .ofString (b64u (b :: p.blob))
  collection := .str p.collection
  recordId := .str p.recordId
  version := .int p.version
  tombstone := .bool p.tombstone
  rest := []

lemma shifted_recut {p : ProducedRecord std keys} {nonce : Bytes} {b : UInt8}
    (h : p.usedNonce = nonce ++ [b]) : Recut (shifted p nonce b) p where
  collection := ⟨_, rfl, rfl⟩
  recordId := ⟨_, rfl, rfl⟩
  version := rfl
  tombstone := rfl
  bytes := by
    refine ⟨nonce, b :: p.blob, b64uDec_b64u _, b64uDec_b64u _, by simp [h], ?_⟩
    simp only [ProducedRecord.blob, List.length_cons, List.length_append, Digest.length_eq]
    omega

end

def sampleKeys : GroupKeys :=
  ⟨[], List.replicate 32 1, List.replicate 32 2, List.replicate 32 3, "AAAAAAAAAAAAAAAAAAAAAA"⟩

/-- A deletion mark for one bookmark, under a nonce of 24 bytes. -/
def sampleTombstone : ProducedRecord .sample sampleKeys :=
  .tombstoneOf .sample sampleKeys (.ofString "bookmarks") (.ofString "bm-1") 2 (List.replicate 24 7)

/-- The same bytes with a nonce of 23: the deletion mark now decrypts to a byte. -/
def sampleShifted : StoredRecord := shifted sampleTombstone (List.replicate 23 7) 7

lemma sampleShifted_recut : Recut sampleShifted sampleTombstone := shifted_recut rfl

lemma sampleShifted_macIdeal : MacIdeal [sampleTombstone] sampleShifted :=
  sampleShifted_recut.macIdeal List.mem_cons_self

theorem sampleShifted_iff_cutKept :
    Authentic [sampleTombstone] sampleShifted ↔ CutKept [sampleTombstone] sampleShifted :=
  authentic_iff_cutKept _ _ sampleShifted_macIdeal

theorem sampleShifted_not_authentic :
    MacIdeal [sampleTombstone] sampleShifted ∧ ¬ Authentic [sampleTombstone] sampleShifted := by
  refine ⟨sampleShifted_macIdeal, fun h => ?_⟩
  obtain ⟨q, hq, -, hlike⟩ :=
    cutKept_of_authentic h _ List.mem_cons_self sampleShifted_recut
  rw [List.mem_singleton.mp hq] at hlike
  have hlen := hlike.nonceLength (List.replicate 23 7) (b64uDec_b64u _)
  simp [sampleTombstone, ProducedRecord.tombstoneOf, ProducedRecord.usedNonce] at hlen

end T3dmium
