import T3dmium.CipherBlocks
import T3dmium.OneTimePad
import T3dmium.PairingDisclosure

/-! What the requests of a client tell about the texts it seals: their lengths. Had it sealed other
texts of the same lengths, SHA-256 could be a function that differs on the keystream blocks alone,
under which every request is the same. HMAC runs on the same function: it never hashes anything as
long as a keystream point. -/
namespace T3dmium
open OneTimePad

/-- An item to seal, and what `os.urandom(NONCE_LEN)` returns for it. -/
structure PlainItem where
  collection : PyStr
  recordId : PyStr
  plaintext : Bytes
  version : ℤ
  tombstone : Bool
  urandom : Bytes

namespace PlainItem

def body (x : PlainItem) : Bytes := if x.tombstone then [] else x.plaintext

def holding (contents : PlainItem → Bytes) (x : PlainItem) : PlainItem := { x with plaintext := contents x }

def encrypt (std : Stdlib) (keys : GroupKeys) (x : PlainItem) : Except PyError Json :=
  encryptRecord std keys x.collection x.recordId x.plaintext x.version x.tombstone none x.urandom

end PlainItem

/-- What the user of a `SyncClient` asks of it. -/
inductive ClientCall
  | pair
  | push (items : List PlainItem)
  | pull (collection : Option String) (since : ℤ)

namespace ClientCall

def items : ClientCall → List PlainItem
  | .push items => items
  | .pair | .pull _ _ => []

def holding (contents : PlainItem → Bytes) : ClientCall → ClientCall
  | .push items => .push (items.map (.holding contents))
  | .pair => .pair
  | .pull collection since => .pull collection since

/-- What goes over the wire. -/
def httpRequest (std : Stdlib) (baseUrl : String) (client : SyncClient) : ClientCall → Except PyError HttpRequest
  | .pair => .ok (client.pairRequest std baseUrl)
  | .push items => do
    let records ← items.mapM (PlainItem.encrypt std client.keys)
    .ok (T3dmium.httpRequest std baseUrl client.keys .post "/v1/records" (some (SyncClient.pushPayload records)))
  | .pull collection since =>
    .ok (T3dmium.httpRequest std baseUrl client.keys .get (pullPath std collection since) none)

end ClientCall

/-- All requests of a client, or the first error of sealing an item. -/
def wire (std : Stdlib) (baseUrl : String) (client : SyncClient) (calls : List ClientCall) :
    Except PyError (List HttpRequest) :=
  calls.mapM (ClientCall.httpRequest std baseUrl client)

/-! Another hash -/

def readBE64 (b : Bytes) : ℕ := b.foldl (fun n x => n * 256 + x.toNat) 0

/-- The nonce and the number of the keystream block that is the hash of `x`. -/
def keystreamPoint (kEnc x : Bytes) : Option (Bytes × ℕ) :=
  let nonce := (x.drop kEnc.length).take (x.length - kEnc.length - 8)
  let n := readBE64 (x.drop (x.length - 8))
  if x = kEnc ++ nonce ++ be64 n then some (nonce, n) else none

/-- The keystream blocks under `kEnc` are made of `pads`; HMAC runs on the hash that has them. -/
def Stdlib.withPads (std : Stdlib) (kEnc : Bytes) (pads : Bytes → ℕ → UInt8) : Stdlib :=
  { std with
    sha256 := fun x =>
      match keystreamPoint kEnc x with
      | some (nonce, n) => ⟨(List.range 32).map fun j => pads nonce (n * 32 + j), by simp⟩
      | none => std.sha256 x }

lemma be64_length (n : ℕ) : (be64 n).length = 8 := by simp [be64]

lemma readBE64_be64 {n : ℕ} (h : n < 2 ^ 64) : readBE64 (be64 n) = n := by
  simp only [be64, readBE64, List.range, List.range.loop, List.map_cons, List.map_nil, List.foldl_cons,
    List.foldl_nil, UInt8.toNat_ofNat']
  omega

lemma keystreamPoint_block (kEnc nonce : Bytes) {n : ℕ} (h : n < 2 ^ 64) :
    keystreamPoint kEnc (kEnc ++ nonce ++ be64 n) = some (nonce, n) := by
  have hlength : (kEnc ++ nonce ++ be64 n).length = kEnc.length + nonce.length + 8 := by
    rw [List.length_append, List.length_append, be64_length]
  have hcounter : (kEnc ++ nonce ++ be64 n).drop ((kEnc ++ nonce ++ be64 n).length - 8) = be64 n := by
    rw [hlength, Nat.add_sub_cancel]
    exact List.drop_left' (by rw [List.length_append])
  have hnonce : ((kEnc ++ nonce ++ be64 n).drop kEnc.length).take
      ((kEnc ++ nonce ++ be64 n).length - kEnc.length - 8) = nonce := by
    rw [List.append_assoc, List.drop_left' rfl, ← List.append_assoc, hlength]
    exact List.take_left' (by omega)
  simp only [keystreamPoint, hcounter, hnonce, readBE64_be64 h, if_true]

lemma eq_of_keystreamPoint {kEnc x nonce : Bytes} {n : ℕ} (h : keystreamPoint kEnc x = some (nonce, n)) :
    x = kEnc ++ nonce ++ be64 n := by
  simp only [keystreamPoint] at h
  split_ifs at h with hx
  obtain ⟨rfl, rfl⟩ := Prod.mk.inj (Option.some.inj h)
  exact hx

section
variable {std : Stdlib} {kEnc : Bytes} {pads : Bytes → ℕ → UInt8}

lemma sha256_withPads {nonce : Bytes} {n : ℕ} (h : n < 2 ^ 64) :
    keystreamBlock (std.withPads kEnc pads) kEnc nonce n =
      (List.range 32).map fun j => pads nonce (n * 32 + j) := by
  simp only [keystreamBlock, Stdlib.withPads, keystreamPoint_block kEnc nonce h]

lemma keystreamByte_withPads (nonce : Bytes) {i : ℕ} (h : i < 2 ^ 69) :
    keystreamByte (std.withPads kEnc pads) kEnc nonce i = pads nonce i := by
  have hblock : i / 32 < 2 ^ 64 := by omega
  have hmod : i % 32 < 32 := Nat.mod_lt i (by norm_num)
  rw [keystreamByte, sha256_withPads hblock, List.getD_eq_getElem?_getD, List.getElem?_map,
    List.getElem?_range hmod, Option.map_some, Option.getD_some, Nat.div_add_mod']

/-- The hash differs on keystream blocks only, and there only where the pads do. -/
lemma withPads_changed {x : Bytes} (h : (std.withPads kEnc pads).sha256 x ≠ std.sha256 x) :
    ∃ nonce n j, x = kEnc ++ nonce ++ be64 n ∧ j < 32 ∧
      pads nonce (n * 32 + j) ≠ keystreamByte std kEnc nonce (n * 32 + j) := by
  simp only [Stdlib.withPads] at h
  split at h
  · rename_i nonce n hpoint
    refine ⟨nonce, n, ?_⟩
    obtain rfl := eq_of_keystreamPoint hpoint
    by_contra hnone
    have hsame : ∀ j < 32, pads nonce (n * 32 + j) = keystreamByte std kEnc nonce (n * 32 + j) := by
      intro j hj
      by_contra hne
      exact hnone ⟨j, rfl, hj, hne⟩
    refine h (Digest.bytes_injective ?_)
    have hlength := keystreamBlock_length std kEnc nonce n
    refine List.ext_getElem (by simpa [keystreamBlock] using hlength.symm) fun j hj hj' => ?_
    have hj32 : j < 32 := by simpa using hj
    have hdiv : (n * 32 + j) / 32 = n := by omega
    have hmod : (n * 32 + j) % 32 = j := by omega
    rw [List.getElem_map, List.getElem_range, hsame j hj32, keystreamByte, hdiv, hmod]
    exact List.getD_eq_getElem _ 0 hj'
  · exact absurd rfl h

end

/-! HMAC under another hash -/

lemma hmac_block_length {key : Bytes} (h : key.length ≤ 64) (x : UInt8) :
    ((key ++ List.replicate (64 - key.length) 0).map (· ^^^ x)).length = 64 := by
  rw [List.length_map, List.length_append, List.length_replicate]
  omega

/-- HMAC of a message hashes a long key, the message behind a block of 64 bytes, and 96 bytes. -/
lemma hmac_congr {hash hash' : Bytes → Digest} (h : ∀ x : Bytes, x.length ≠ 64 → hash x = hash' x)
    (key : Bytes) {msg : Bytes} (hmsg : msg ≠ []) : hmac hash key msg = hmac hash' key msg := by
  have hpos : 0 < msg.length := List.length_pos_iff.mpr hmsg
  have hkey : (if 64 < key.length then (hash key).bytes else key) =
      if 64 < key.length then (hash' key).bytes else key := by
    split_ifs with hlong
    · rw [h key (by omega)]
    · rfl
  have hshort : (if 64 < key.length then (hash' key).bytes else key).length ≤ 64 := by
    split_ifs with hlong
    · rw [Digest.length_eq]
      decide
    · omega
  have hinner := h _ (show (((if 64 < key.length then (hash' key).bytes else key) ++ List.replicate
      (64 - (if 64 < key.length then (hash' key).bytes else key).length) 0).map (· ^^^ 0x36) ++
        msg).length ≠ 64 by
    rw [List.length_append, hmac_block_length hshort]
    omega)
  simp only [hmac, hkey, hinner]
  refine h _ ?_
  rw [List.length_append, hmac_block_length hshort, Digest.length_eq]
  decide

/-! The cipher under another hash -/

/-- A byte is turned into any other by some byte. -/
def xorCover : Cover UInt8 where
  cover := (· ^^^ ·)
  solve := (· ^^^ ·)
  cover_solve a c := by rw [← UInt8.xor_assoc, UInt8.xor_self, UInt8.zero_xor]

section
variable {std : Stdlib}

lemma xorBytes_keystream (kEnc nonce text : Bytes) :
    xorBytes text (BlockStream.stream (keystreamBlock std kEnc nonce) 32 text.length) =
      covered xorCover (keystreamByte std kEnc nonce) text := by
  refine List.ext_getElem? fun i => ?_
  rw [covered, List.getElem?_mapIdx]
  rcases Nat.lt_or_ge i text.length with hi | hi
  · have ha := List.getElem?_eq_getElem hi
    rw [getElem?_xorBytes ha (getElem?_keystream hi), ha]
    rfl
  · have hlength : (xorBytes text
        (BlockStream.stream (keystreamBlock std kEnc nonce) 32 text.length)).length ≤ text.length := by
      rw [xorBytes, List.length_zipWith]
      exact Nat.min_le_left _ _
    rw [List.getElem?_eq_none hi, Option.map_none, List.getElem?_eq_none (hlength.trans hi)]

/-- Beyond `2 ^ 64` blocks the counter cannot be packed. -/
lemma keystreamLoop_long {kEnc nonce : Bytes} {nbytes n : ℕ} (hlong : 2 ^ 69 < nbytes) (hn : n ≤ 2 ^ 64) :
    keystreamLoop std kEnc nonce nbytes (BlockStream.blocks (keystreamBlock std kEnc nonce) n) n =
      .error .structError := by
  have hlength := BlockStream.blocks_length (keystreamBlock_length std kEnc nonce) n
  rw [keystreamLoop, if_pos (by omega)]
  by_cases hcounter : n < 2 ^ 64
  · rw [packBE64_eq hcounter]
    have hnext : n + 1 ≤ 2 ^ 64 := hcounter
    exact keystreamLoop_long hlong hnext
  · rw [packBE64, if_neg hcounter]
termination_by 2 ^ 64 - n

/-- The cipher, as a cover with the bytes of the keystream. -/
lemma aeadEncrypt_covered (kEnc kMac nonce text aad : Bytes) :
    aeadEncrypt std kEnc kMac nonce text aad =
      if text.length ≤ 2 ^ 69 then
        let ct := covered xorCover (keystreamByte std kEnc nonce) text
        .ok (ct ++ aeadTag std kMac nonce ct aad)
      else .error .structError := by
  split_ifs with hle
  · rw [aeadEncrypt, sha256CtrKeystream_eq hle, ← xorBytes_keystream]
    rfl
  · have hlong : sha256CtrKeystream std kEnc nonce text.length = .error .structError :=
      keystreamLoop_long (Nat.lt_of_not_le hle) (Nat.zero_le _)
    rw [aeadEncrypt, hlong]
    rfl

end

/-! The bodies are longer than a keystream point, or empty -/

lemma sum_length_le_intercalate (sep : Bytes) (xs : List Bytes) :
    (xs.map List.length).sum ≤ (sep.intercalate xs).length := by
  induction xs with
  | nil => simp
  | cons x xs ih =>
    cases xs with
    | nil => simp
    | cons y ys =>
      rw [List.intercalate_cons_of_ne_nil (List.cons_ne_nil y ys), List.map_cons, List.sum_cons]
      simp only [List.length_append]
      omega

lemma length_le_quoted (s : String) : s.length + 2 ≤ (quoted (.ofString s)).length := by
  have hunits : ∀ cs : List Char, cs.length ≤ ((utf16 (cs.map .scalar)).flatMap escapeUnit).length := by
    intro cs
    induction cs with
    | nil => exact Nat.zero_le _
    | cons c cs ih =>
      obtain ⟨u, us, hu⟩ : ∃ u us, codeUnits (.scalar c) = u :: us := by
        rw [codeUnits]
        split_ifs <;> exact ⟨_, _, rfl⟩
      obtain ⟨b, w, hb, -⟩ := escapeUnit_head u
      simp only [utf16, List.map_cons, List.flatMap_cons, hu, hb, List.cons_append, List.flatMap_append,
        List.length_cons, List.length_append] at ih ⊢
      omega
  have h := hunits s.toList
  rw [String.length_toList] at h
  simp only [quoted, List.length_cons, List.length_append, List.length_nil]
  exact Nat.add_le_add_right h 2

lemma length_le_dumps_object (floatRepr : PyFloat → FloatText) (items : List (String × Json)) :
    (items.map fun p => p.1.length + 4 + (dumps floatRepr .default p.2).length).sum ≤
      (dumps floatRepr .default (.object items)).length := by
  have hsum := sum_length_le_intercalate [44, 32] (items.map (itemText floatRepr))
  have hitems : (items.map fun p => p.1.length + 4 + (dumps floatRepr .default p.2).length).sum ≤
      ((items.map (itemText floatRepr)).map List.length).sum := by
    rw [List.map_map]
    refine List.sum_le_sum fun p _ => ?_
    have hquoted := length_le_quoted p.1
    simp only [Function.comp_apply, itemText, List.length_append, List.length_cons]
    omega
  rw [dumps_object]
  simp only [List.length_cons, List.length_append, List.length_nil]
  omega

lemma length_le_b64u (data : Bytes) : data.length ≤ (b64u data).length + 2 := by
  obtain ⟨hsplit, -⟩ := b64u_split data
  have hpad : (4 - (b64u data).toList.length % 4) % 4 ≤ 3 := by omega
  have hencode : 4 * data.length ≤ 3 * (urlsafeB64encode data).length := by
    clear hsplit hpad
    induction data using urlsafeB64encode.induct with
    | case1 => exact Nat.zero_le _
    | case2 a => simp [urlsafeB64encode]
    | case3 a b => simp [urlsafeB64encode]
    | case4 a b c rest ih =>
      simp only [urlsafeB64encode, List.length_cons]
      omega
  have hlength := congrArg List.length hsplit
  rw [List.length_append, List.length_replicate] at hlength
  rw [← String.length_toList]
  omega

lemma PlainItem.encrypt_long {std : Stdlib} {keys : GroupKeys} {x : PlainItem} {record : Json}
    (h : x.encrypt std keys = .ok record) : 64 < (std.dumpBody record).length := by
  simp only [PlainItem.encrypt, encryptRecord, bind_eq_ok] at h
  obtain ⟨blob, -, hrecord⟩ := h
  obtain rfl := Except.ok.inj hrecord
  have hnames : "collection".length + "id".length + "nonce".length + "ciphertext".length +
      "version".length + "tombstone".length + "alg".length = 46 := by decide
  refine lt_of_lt_of_le ?_ (length_le_dumps_object std.floatRepr _)
  simp only [List.map_cons, List.map_nil, List.sum_cons, List.sum_nil]
  omega

section
variable (std : Stdlib)

lemma pushPayload_length_ne {keys : GroupKeys} {items : List PlainItem} {records : List Json}
    (h : items.mapM (PlainItem.encrypt std keys) = .ok records) :
    (std.dumpBody (SyncClient.pushPayload records)).length ≠ 64 := by
  cases items with
  | nil =>
    have hempty : (std.dumpBody (SyncClient.pushPayload [])).length = 15 := by
      rw [Stdlib.dumpBody, SyncClient.pushPayload, dumps_object, List.map_singleton, itemText, dumps_elements]
      rfl
    rw [List.mapM_nil] at h
    obtain rfl := Except.ok.inj h
    rw [hempty]
    decide
  | cons x items =>
    simp only [List.mapM_cons, bind_eq_ok] at h
    obtain ⟨r, hr, rs, -, hrecords⟩ := h
    obtain rfl := Except.ok.inj hrecords
    have hlong := PlainItem.encrypt_long hr
    have hlist : (std.dumpBody r).length ≤ (dumps std.floatRepr .default (.list (r :: rs))).length := by
      have hsum := sum_length_le_intercalate [44, 32] ((r :: rs).map (dumps std.floatRepr .default))
      rw [dumps_elements]
      simp only [List.map_cons, List.sum_cons, List.length_cons, List.length_append, Stdlib.dumpBody] at hsum ⊢
      omega
    have hbody := length_le_dumps_object std.floatRepr [("records", .list (r :: rs))]
    simp only [List.map_cons, List.map_nil, List.sum_cons, List.sum_nil] at hbody
    rw [Stdlib.dumpBody, SyncClient.pushPayload]
    omega

lemma GroupKeys.lengths {root : Bytes} {keys : GroupKeys} (h : GroupKeys.init std root = .ok keys) :
    keys.kEnc.length = 32 ∧ keys.kAuth.length = 32 ∧ 14 ≤ keys.groupId.length := by
  obtain ⟨group, hname, hlength⟩ := GroupKeys.groupId_eq h
  have hgroup := length_le_b64u group
  rw [GroupKeys.init_eq] at h
  cases h
  refine ⟨?_, ?_, ?_⟩
  · rw [List.length_take, Digest.length_eq]
    rfl
  · rw [List.length_take, Digest.length_eq]
    rfl
  · rw [hname]
    omega

lemma pairPayload_length_ne {root : Bytes} {client : SyncClient}
    (h : GroupKeys.init std root = .ok client.keys) : (std.dumpBody (client.pairPayload std)).length ≠ 64 := by
  obtain ⟨-, -, hgroup⟩ := GroupKeys.lengths std h
  have hhash := length_le_b64u (std.sha256 client.keys.kAuth).bytes
  rw [Digest.length_eq] at hhash
  have hnames : "group_id".length + "auth_hash".length = 17 := by decide
  have hgroupText := length_le_quoted client.keys.groupId
  have hhashText := length_le_quoted (client.keys.authHash std)
  have hbody := length_le_dumps_object std.floatRepr
    ([("group_id", .text client.keys.groupId), ("auth_hash", .text (client.keys.authHash std))] ++
      (client.pairingSalt.map fun salt => ("pairing_salt", Json.text (b64u salt))).toList)
  simp only [List.cons_append, List.nil_append, List.map_cons, List.sum_cons, Json.text, dumps_str] at hbody
  rw [Stdlib.dumpBody, SyncClient.pairPayload]
  rw [GroupKeys.authHash] at hhashText hbody ⊢
  simp only [List.cons_append, List.nil_append, Json.text] at hbody ⊢
  omega

end

/-! The same requests -/

def PlainItem.pair (contents : PlainItem → Bytes) (x : PlainItem) : Pair Bytes UInt8 :=
  ⟨x.urandom, x.body, (x.holding contents).body⟩

/-- The hash under which the items hold other contents. -/
def Stdlib.concealing (std : Stdlib) (kEnc : Bytes) (contents : PlainItem → Bytes) (items : List PlainItem) :
    Stdlib :=
  std.withPads kEnc (repadAll xorCover (keystreamByte std kEnc) (items.map (PlainItem.pair contents)))

section
variable {std : Stdlib} {keys : GroupKeys} {root : Bytes} {contents : PlainItem → Bytes} {items : List PlainItem}

lemma concealing_changed {kEnc x : Bytes} (h : (std.concealing kEnc contents items).sha256 x ≠ std.sha256 x) :
    ∃ item ∈ items, ∃ n, n * 32 < item.body.length ∧ x = kEnc ++ item.urandom ++ be64 n := by
  obtain ⟨nonce, n, j, hx, -, hpad⟩ := withPads_changed h
  obtain ⟨p, hp, hname, hlt⟩ := repadAll_changed hpad
  obtain ⟨item, hitem, rfl⟩ := List.mem_map.mp hp
  obtain rfl : item.urandom = nonce := hname
  have hbody : n * 32 + j < item.body.length := hlt
  exact ⟨item, hitem, n, by omega, hx⟩

/-- What is hashed elsewhere is as long as no keystream point. -/
lemma concealing_sha256 (hkeys : GroupKeys.init std root = .ok keys)
    (hnonce : ∀ x ∈ items, x.urandom.length = nonceLen) {x : Bytes} (hx : x.length ≠ 64) :
    (std.concealing keys.kEnc contents items).sha256 x = std.sha256 x := by
  by_contra hne
  obtain ⟨item, hitem, n, -, rfl⟩ := concealing_changed hne
  have hkey := (GroupKeys.lengths std hkeys).1
  have hrandom := hnonce item hitem
  rw [List.length_append, List.length_append, be64_length, hkey, hrandom] at hx
  exact hx rfl

lemma concealing_hmac (hkeys : GroupKeys.init std root = .ok keys)
    (hnonce : ∀ x ∈ items, x.urandom.length = nonceLen) (key : Bytes) {msg : Bytes} (hmsg : msg ≠ []) :
    (std.concealing keys.kEnc contents items).hmacSha256 key msg = std.hmacSha256 key msg :=
  hmac_congr (fun _ hx => concealing_sha256 hkeys hnonce hx) key hmsg

/-- All keys hang from the root by HMACs of messages. -/
lemma concealing_init (hroot : root ≠ []) (hkeys : GroupKeys.init std root = .ok keys)
    (hnonce : ∀ x ∈ items, x.urandom.length = nonceLen) :
    GroupKeys.init (std.concealing keys.kEnc contents items) root = .ok keys := by
  have hprk := @concealing_hmac std keys root contents items hkeys hnonce (List.replicate 32 0) root hroot
  have hblock : ∀ info, (std.concealing keys.kEnc contents items).hmacSha256
      (std.hmacSha256 (List.replicate 32 0) root).bytes (info ++ [1]) =
        std.hmacSha256 (std.hmacSha256 (List.replicate 32 0) root).bytes (info ++ [1]) :=
    fun info => concealing_hmac hkeys hnonce _ (by simp)
  rw [GroupKeys.init_eq, hprk, ← hkeys, GroupKeys.init_eq]
  simp only [hblock]

lemma body_holding_length {x : PlainItem} (h : (contents x).length = x.plaintext.length) :
    (x.holding contents).body.length = x.body.length := by
  unfold PlainItem.body
  rw [PlainItem.holding]
  split_ifs
  · rfl
  · exact h

/-- Sealing the other contents under the other hash gives the same record. -/
lemma encrypt_holding (hkeys : GroupKeys.init std root = .ok keys)
    (hnonce : ∀ x ∈ items, x.urandom.length = nonceLen) (hfresh : (items.map PlainItem.urandom).Nodup)
    {x : PlainItem} (hx : x ∈ items) (hlength : (contents x).length = x.plaintext.length) :
    (x.holding contents).encrypt (std.concealing keys.kEnc contents items) keys = x.encrypt std keys := by
  have hbody := body_holding_length hlength
  have hnames : ((items.map (PlainItem.pair contents)).map Pair.name).Nodup := by
    rw [List.map_map]
    exact hfresh
  have hct : x.body.length ≤ 2 ^ 69 →
      covered xorCover (keystreamByte (std.concealing keys.kEnc contents items) keys.kEnc x.urandom)
          (x.holding contents).body =
        covered xorCover (keystreamByte std keys.kEnc x.urandom) x.body := by
    intro hle
    have hpad : covered xorCover (keystreamByte (std.concealing keys.kEnc contents items) keys.kEnc x.urandom)
        (x.holding contents).body =
        covered xorCover (repadAll xorCover (keystreamByte std keys.kEnc) (items.map (PlainItem.pair contents)) x.urandom)
          (x.holding contents).body :=
      covered_congr _ fun i hi => keystreamByte_withPads x.urandom (by omega)
    exact hpad.trans (covered_repadAll hnames (List.mem_map_of_mem hx) hbody)
  have haead : ∀ aad, aeadEncrypt (std.concealing keys.kEnc contents items) keys.kEnc keys.kMac x.urandom
      (x.holding contents).body aad = aeadEncrypt std keys.kEnc keys.kMac x.urandom x.body aad := by
    intro aad
    have htag : ∀ ct, aeadTag (std.concealing keys.kEnc contents items) keys.kMac x.urandom ct aad =
        aeadTag std keys.kMac x.urandom ct aad := by
      intro ct
      have hmsg : aad ++ x.urandom ++ ct ≠ [] := by
        have hrandom := hnonce x hx
        intro he
        simp only [List.append_eq_nil_iff] at he
        rw [he.1.2] at hrandom
        cases hrandom
      rw [aeadTag, aeadTag, concealing_hmac hkeys hnonce keys.kMac hmsg]
    rw [aeadEncrypt_covered, aeadEncrypt_covered, hbody]
    split_ifs with hle
    · simp only [hct hle, htag]
    · rfl
  have hseal : ∀ (s : Stdlib) (y : PlainItem), y.encrypt s keys =
      (aeadEncrypt s keys.kEnc keys.kMac y.urandom y.body
        (recordAad s (.str y.collection) (.str y.recordId) (.int y.version) (.bool y.tombstone))).map
          fun blob => wireRecord y.collection y.recordId y.urandom blob y.version y.tombstone := by
    intro s y
    rw [PlainItem.encrypt, encryptRecord, Option.getD_none, PlainItem.body]
    cases aeadEncrypt s keys.kEnc keys.kMac y.urandom (if y.tombstone then [] else y.plaintext)
      (recordAad s (.str y.collection) (.str y.recordId) (.int y.version) (.bool y.tombstone)) <;> rfl
  rw [hseal, hseal]
  exact congrArg _ (haead _)

/-- A body of another length than a keystream point, or none, is signed alike. -/
lemma httpRequest_concealing (hkeys : GroupKeys.init std root = .ok keys)
    (hnonce : ∀ x ∈ items, x.urandom.length = nonceLen) (baseUrl : String) (method : Method) (path : String)
    {payload : Option Json} (hpayload : ∀ v ∈ payload, (std.dumpBody v).length ≠ 64) :
    httpRequest (std.concealing keys.kEnc contents items) baseUrl keys method path payload =
      httpRequest std baseUrl keys method path payload := by
  have hlength : (payload.elim [] std.dumpBody).length ≠ 64 := by
    cases payload with
    | none => simp
    | some v => exact hpayload v rfl
  have hproof : keys.authProof (std.concealing keys.kEnc contents items) method.command path
      (payload.elim [] std.dumpBody) = keys.authProof std method.command path
        (payload.elim [] std.dumpBody) := by
    rw [GroupKeys.authProof, GroupKeys.authProof, transcript, transcript,
      concealing_sha256 hkeys hnonce hlength, concealing_hmac hkeys hnonce keys.kAuth (by simp)]
  change HttpRequest.mk _ _ (_ :: _ :: (_, keys.authProof (std.concealing keys.kEnc contents items)
    method.command path (payload.elim [] std.dumpBody)) :: _) (payload.map std.dumpBody) = _
  rw [hproof]
  rfl

lemma pairRequest_concealing {client : SyncClient} (hkeys : GroupKeys.init std root = .ok client.keys)
    (hnonce : ∀ x ∈ items, x.urandom.length = nonceLen) (baseUrl : String) :
    client.pairRequest (std.concealing client.keys.kEnc contents items) baseUrl =
      client.pairRequest std baseUrl := by
  have hkey : client.keys.kAuth.length ≠ 64 := by
    rw [(GroupKeys.lengths std hkeys).2.1]
    decide
  have hpayload : client.pairPayload (std.concealing client.keys.kEnc contents items) =
      client.pairPayload std := by
    rw [SyncClient.pairPayload, SyncClient.pairPayload, GroupKeys.authHash, GroupKeys.authHash,
      concealing_sha256 hkeys hnonce hkey]
  rw [SyncClient.pairRequest, SyncClient.pairRequest, hpayload]
  refine httpRequest_concealing hkeys hnonce baseUrl .post "/v1/pair" ?_
  rintro v ⟨⟩
  exact pairPayload_length_ne std hkeys

lemma mapM_congr {α β ε : Type} {f g : α → Except ε β} {xs : List α} (h : ∀ x ∈ xs, f x = g x) :
    xs.mapM f = xs.mapM g := by
  induction xs with
  | nil => rfl
  | cons x xs ih =>
    rw [List.mapM_cons, List.mapM_cons, h x List.mem_cons_self,
      ih fun y hy => h y (List.mem_cons_of_mem _ hy)]

/-- Each call puts the same request on the wire. -/
lemma call_concealed {client : SyncClient} (hkeys : GroupKeys.init std root = .ok client.keys)
    (hnonce : ∀ x ∈ items, x.urandom.length = nonceLen) (hfresh : (items.map PlainItem.urandom).Nodup)
    (hlength : ∀ x ∈ items, (contents x).length = x.plaintext.length) (baseUrl : String)
    {call : ClientCall} (hcall : ∀ x ∈ call.items, x ∈ items) :
    (call.holding contents).httpRequest (std.concealing client.keys.kEnc contents items) baseUrl client =
      call.httpRequest std baseUrl client := by
  cases call with
  | pair => exact congrArg Except.ok (pairRequest_concealing hkeys hnonce baseUrl)
  | push xs =>
    have hrecords : (xs.map (.holding contents)).mapM
        (PlainItem.encrypt (std.concealing client.keys.kEnc contents items) client.keys) =
          xs.mapM (PlainItem.encrypt std client.keys) := by
      rw [List.mapM_map]
      exact mapM_congr fun x hx =>
        encrypt_holding hkeys hnonce hfresh (hcall x hx) (hlength x (hcall x hx))
    rw [ClientCall.holding, ClientCall.httpRequest, ClientCall.httpRequest, hrecords]
    cases hsealed : xs.mapM (PlainItem.encrypt std client.keys) with
    | error e => rfl
    | ok records =>
      refine congrArg Except.ok (httpRequest_concealing hkeys hnonce baseUrl .post "/v1/records" ?_)
      rintro v ⟨⟩
      exact pushPayload_length_ne std hsealed
  | pull collection since =>
    refine congrArg Except.ok (httpRequest_concealing hkeys hnonce baseUrl .get
      (pullPath std collection since) ?_)
    rintro v ⟨⟩

end

/-- Whatever a client has sealed, under fresh nonces: other contents of the same lengths would have
made the very same traffic, with a SHA-256 that differs on keystream blocks of those nonces only. -/
theorem traffic_conceals (std : Stdlib) (baseUrl : String) (client : SyncClient) (root : Bytes)
    (hroot : root ≠ []) (hkeys : GroupKeys.init std root = .ok client.keys) (calls : List ClientCall)
    (hnonce : ∀ x ∈ calls.flatMap ClientCall.items, x.urandom.length = nonceLen)
    (hfresh : ((calls.flatMap ClientCall.items).map PlainItem.urandom).Nodup)
    (contents : PlainItem → Bytes)
    (hlength : ∀ x ∈ calls.flatMap ClientCall.items, (contents x).length = x.plaintext.length) :
    ∃ sha256 : Bytes → Digest,
      (∀ x, sha256 x ≠ std.sha256 x → ∃ item ∈ calls.flatMap ClientCall.items, ∃ n,
        n * 32 < item.body.length ∧ x = client.keys.kEnc ++ item.urandom ++ be64 n) ∧
      GroupKeys.init { std with sha256 := sha256 } root = .ok client.keys ∧
      wire { std with sha256 := sha256 } baseUrl client (calls.map (.holding contents)) =
        wire std baseUrl client calls := by
  refine ⟨(std.concealing client.keys.kEnc contents (calls.flatMap ClientCall.items)).sha256,
    fun x hx => concealing_changed hx, ?_, ?_⟩
  · exact concealing_init hroot hkeys hnonce
  · rw [wire, wire, List.mapM_map]
    refine mapM_congr fun call hcall => ?_
    exact call_concealed hkeys hnonce hfresh hlength baseUrl fun x hx => List.mem_flatMap.mpr ⟨call, hcall, hx⟩

def sampleItem (n : UInt8) (plaintext : Bytes) : PlainItem :=
  ⟨.ofString "passwords", .ofString "1", plaintext, 1, false, List.replicate nonceLen n⟩

/-- A password and its successor, or any others of six bytes. -/
theorem sampleTraffic_conceals : ∃ sha256 : Bytes → Digest,
    wire { Stdlib.sample with sha256 := sha256 } "http://127.0.0.1:8787" sampleClient
        [.pair, .push [sampleItem 0 (ascii "geheim"), sampleItem 1 (ascii "geheim")]] =
      wire .sample "http://127.0.0.1:8787" sampleClient
        [.pair, .push [sampleItem 0 (ascii "secret"), sampleItem 1 (ascii "hunter")]] := by
  obtain ⟨sha256, -, -, hwire⟩ := traffic_conceals .sample "http://127.0.0.1:8787" sampleClient [1]
    (by decide) sampleGroupKeys_init [.pair, .push [sampleItem 0 (ascii "secret"), sampleItem 1 (ascii "hunter")]]
    (by decide) (by decide) (fun _ => ascii "geheim") (by decide)
  exact ⟨sha256, hwire⟩

end T3dmium
