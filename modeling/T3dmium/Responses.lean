import T3dmium.ClientSteps
import T3dmium.Numbering
import T3dmium.OneOperation

/-! Which requests are answered. The handlers check that fields are there, not what
they hold: everything else reaches `in`, `int`, `compare_digest` and SQLite, and
whatever these raise ends the request without an answer. -/
namespace T3dmium

/-! Fields -/

/-- What a statement parameter can hold. -/
def Json.Bindable : Json → Prop
  | .null | .bool _ | .float _ => True
  | .int i => IsInt64 i
  | .str s => ∃ t, s = .ofString t
  | .list _ | .dict _ => False

/-- What a `NOT NULL` column can hold; a NaN is stored as `NULL`. -/
def Json.Storable (v : Json) : Prop := v.Bindable ∧ v ≠ .null ∧ v ≠ .float .nan

/-- What `in` can search. -/
def Json.IsContainer : Json → Prop
  | .dict _ | .list _ | .str _ => True
  | .null | .bool _ | .int _ | .float _ => False

lemma bindText_ok_iff {realText : PyFloat → String} {v : Json} :
    (∃ x, bindText realText v = .ok x) ↔ v.Bindable := by
  cases v with
  | null => simp [bindText, bindValue, Json.Bindable, Except.map]
  | bool b => simp [bindText, bindValue, Json.Bindable, Except.map]
  | int i =>
    simp only [bindText, bindValue, bindInt, Json.Bindable]
    split_ifs with h <;> simp [Except.map, h]
  | float f => cases f <;> simp [bindText, bindValue, Json.Bindable, Except.map]
  | str s =>
    simp only [bindText, bindValue, Json.Bindable]
    cases hs : s.toText with
    | none =>
      simp only [Except.map, reduceCtorEq, exists_false, false_iff]
      rintro ⟨t, rfl⟩
      simp at hs
    | some t => simpa [Except.map] using ⟨t, PyStr.toText_eq_some.mp hs⟩
  | list xs => simp [bindText, bindValue, Json.Bindable, Except.map]
  | dict items => simp [bindText, bindValue, Json.Bindable, Except.map]

lemma bindText_some_iff {realText : PyFloat → String} {v : Json} :
    (∃ x, bindText realText v = .ok (some x)) ↔ v.Storable := by
  have hnull : (∃ x, bindText realText v = .ok (some x)) ↔
      (∃ x, bindText realText v = .ok x) ∧ v ≠ .null ∧ v ≠ .float .nan := by
    cases v with
    | null => simp [bindText, bindValue, Except.map, textAffinity]
    | bool b => simp [bindText, bindValue, Except.map, textAffinity]
    | int i =>
      simp only [bindText, bindValue, bindInt]
      split_ifs with h <;> simp [Except.map, textAffinity]
    | float f => cases f <;> simp [bindText, bindValue, Except.map, textAffinity]
    | str s =>
      simp only [bindText, bindValue]
      cases s.toText <;> simp [Except.map, textAffinity]
    | list xs => simp [bindText, bindValue, Except.map]
    | dict items => simp [bindText, bindValue, Except.map]
  rw [hnull, bindText_ok_iff, Json.Storable]

/-- The slot and version a record of a batch offers. -/
def offerOf (g : String) (r : Json) : Option (Slot × ℤ) :=
  match r.getItem "collection", r.getItem "id", r.getItem "version" with
  | .ok (.str c), .ok (.str i), .ok (.int v) => do some (⟨g, ← c.toText, ← i.toText⟩, v)
  | _, _, _ => none

lemma offerOf_eq_some {g : String} {r : Json} {slot : Slot} {v : ℤ} :
    offerOf g r = some (slot, v) ↔ slot.groupId = g ∧
      r.getItem "collection" = .ok (.text slot.collection) ∧
      r.getItem "id" = .ok (.text slot.recordId) ∧ r.getItem "version" = .ok (.int v) := by
  obtain ⟨g', c, i⟩ := slot
  constructor
  · intro h
    unfold offerOf at h
    split at h
    · next c' i' v' hc hi hv =>
      simp only [Option.bind_eq_bind, Option.bind_eq_some_iff, Option.some.injEq, Prod.mk.injEq,
        Slot.mk.injEq, PyStr.toText_eq_some] at h
      obtain ⟨_, rfl, _, rfl, ⟨rfl, rfl, rfl⟩, rfl⟩ := h
      exact ⟨rfl, hc, hi, hv⟩
    · cases h
  · rintro ⟨rfl, hc, hi, hv⟩
    simp [offerOf, hc, hi, hv, Json.text]

/-- String fields and a version SQLite can store. -/
structure WellFormedRecord (r : Json) : Prop where
  texts : ∀ field ∈ ["collection", "id", "nonce", "ciphertext"], ∃ s, r.getItem field = .ok (.str s)
  version : ∃ v, r.getItem "version" = .ok (.int v) ∧ IsInt64 v

/-- The offer beats what is stored and what the batch offered before. -/
def Exceeds (g : String) (t : Tables) (earlier : List Json) (slot : Slot) (v : ℤ) : Prop :=
  (∀ row, t.records.find slot = some row → row.version < v) ∧
    ∀ r ∈ earlier, ∀ v', offerOf g r = some (slot, v') → v' < v

/-- The rest of the record can be stored. -/
structure Writable (r : Json) : Prop where
  nonce : ∃ s, r.getItem "nonce" = .ok (.text s)
  ciphertext : ∃ s, r.getItem "ciphertext" = .ok (.text s)
  alg : ∃ v, r.get "alg" (.text "unknown") = .ok v ∧ v.Storable

/-- The names of every record can be looked up, and what is to be written can be. -/
structure BatchFits (g : String) (records : List Json) (t : Tables) : Prop where
  wellFormed : ∀ r ∈ records, WellFormedRecord r
  stored : ∀ pre r post, records = pre ++ r :: post →
    ∃ slot v, offerOf g r = some (slot, v) ∧ (Exceeds g t pre slot v → Writable r)

/-! Batches -/

section
variable {std : Stdlib} {g : String}

lemma readKey_offer {r : Json} {slot : Slot} {v : ℤ} (h : offerOf g r = some (slot, v)) :
    readKey std r = .ok ⟨.text slot.collection, .text slot.recordId, v⟩ := by
  obtain ⟨-, hc, hi, hv⟩ := offerOf_eq_some.mp h
  simp [readKey, hc, hi, hv, bind, Except.bind]

/-- What the tables hold in a slot is below `v`. -/
def Below (t : Tables) (slot : Slot) (v : ℤ) : Prop :=
  ∀ row, t.records.find slot = some row → row.version < v

lemma names_offer {slot : Slot} {v : ℤ} {row : RecordRow} (hg : row.groupId = slot.groupId)
    (h : RecordKey.Names std ⟨.text slot.collection, .text slot.recordId, v⟩ row) :
    row.slot = slot := by
  obtain ⟨hc, hi⟩ := h
  simp only [bindText_text, Except.ok.injEq, Option.some.injEq] at hc hi
  rw [RecordRow.slot, hg, ← hc, ← hi]

/-- A verdict on a record raises what is stored to what it offers. -/
lemma Decides.below_iff {r : Json} {p : Tables × PushResult} {vd : Verdict}
    (h : Decides std g r p vd) {slot : Slot} {v : ℤ} (hoffer : offerOf g r = some (slot, v))
    (slot' : Slot) (v' : ℤ) :
    Below (vd.apply p).1 slot' v' ↔ Below p.1 slot' v' ∧ (slot = slot' → v < v') := by
  obtain ⟨hgroup, -⟩ := offerOf_eq_some.mp hoffer
  have hread := @readKey_offer std g r slot v hoffer
  cases h with
  | @conflict k old hk hmem hg hn hle =>
    cases hk.symm.trans hread
    have hslot := names_offer (hg.trans hgroup.symm) hn
    refine ⟨fun hbelow => ⟨hbelow, ?_⟩, And.left⟩
    rintro rfl
    exact hle.trans_lt (hbelow old (KeyedTable.find_eq_some.mpr ⟨hmem, congrArg some hslot⟩))
  | @accept k row hk hr hg hseq hold =>
    have hver := hr.key_version hk
    cases hk.symm.trans hread
    have hslot := names_offer (hg.trans hgroup.symm) (hr.names hk)
    subst hslot
    have hver : v = row.version := hver
    simp only [Below, Verdict.apply, find_putRecord]
    by_cases hs : row.slot = slot'
    · subst hs
      simp only [if_true, Option.some.injEq, forall_eq', forall_const]
      refine ⟨fun hlt => ⟨fun old hfind => (hold old hfind).trans hlt, by omega⟩, fun h => by omega⟩
    · simp only [hs, if_false, false_implies, and_true]

lemma readRow_ok_iff {r : Json} {slot : Slot} {v : ℤ} (hoffer : offerOf g r = some (slot, v))
    (hwf : WellFormedRecord r) (seq : ℕ) :
    (∃ row, readRow std g ⟨.text slot.collection, .text slot.recordId, v⟩ r seq = .ok row) ↔
      Writable r := by
  obtain ⟨hgroup, hc, hi, hv⟩ := offerOf_eq_some.mp hoffer
  obtain ⟨v', hv', h64⟩ := hwf.version
  obtain rfl : v = v' := by
    rw [hv] at hv'
    cases hv'
    rfl
  obtain ⟨n, hn⟩ := hwf.texts "nonce" (by simp)
  obtain ⟨ct, hct⟩ := hwf.texts "ciphertext" (by simp)
  obtain ⟨items, rfl⟩ : ∃ items, r = .dict items := by
    cases r with
    | dict items => exact ⟨items, rfl⟩
    | _ => cases hn
  constructor
  · rintro ⟨row, hrow⟩
    obtain ⟨hr, -, -⟩ := (readRow_eq_ok (readKey_offer hoffer)).mp hrow
    constructor
    case nonce =>
      obtain ⟨_, hn', hb⟩ := bind_eq_ok.mp hr.nonce
      rw [hn] at hn'
      cases hn'
      obtain ⟨t, rfl, -⟩ := bindText_str hb
      exact ⟨t, hn⟩
    case ciphertext =>
      obtain ⟨_, hct', hb⟩ := bind_eq_ok.mp hr.ciphertext
      rw [hct] at hct'
      cases hct'
      obtain ⟨t, rfl, -⟩ := bindText_str hb
      exact ⟨t, hct⟩
    case alg =>
      obtain ⟨alg, halg, hb⟩ := bind_eq_ok.mp hr.alg
      exact ⟨alg, halg, bindText_some_iff.mp ⟨_, hb⟩⟩
  · rintro ⟨⟨n', hn'⟩, ⟨ct', hct'⟩, alg, halg, hstore⟩
    obtain ⟨a, ha⟩ := bindText_some_iff.mpr hstore
    refine ⟨⟨g, slot.collection, slot.recordId, n', ct', v, _, a, seq⟩,
      (readRow_eq_ok (readKey_offer hoffer)).mpr ⟨⟨?_, ?_, ?_, ?_, ?_, h64, rfl, ?_⟩, rfl, rfl⟩⟩
    · exact bind_eq_ok.mpr ⟨_, hc, bindText_text _ _⟩
    · exact bind_eq_ok.mpr ⟨_, hi, bindText_text _ _⟩
    · exact bind_eq_ok.mpr ⟨_, hn', bindText_text _ _⟩
    · exact bind_eq_ok.mpr ⟨_, hct', bindText_text _ _⟩
    · exact bind_eq_ok.mpr ⟨_, hv, rfl⟩
    · exact bind_eq_ok.mpr ⟨_, halg, ha⟩

/-- A record is decided unless it has to be written and cannot. -/
lemma verdict_ok_iff {r : Json} {p : Tables × PushResult} {slot : Slot} {v : ℤ}
    (hoffer : offerOf g r = some (slot, v)) (hwf : WellFormedRecord r) :
    (∃ vd, verdict std g p r = .ok vd) ↔ (Below p.1 slot v → Writable r) := by
  obtain ⟨rfl, -⟩ := offerOf_eq_some.mp hoffer
  have hselect : selectVersion std slot.groupId (.text slot.collection) (.text slot.recordId) p.1 =
      .ok ((p.1.records.find slot).map RecordRow.version) := by
    simp [selectVersion, bind, Except.bind]
  rw [← @readRow_ok_iff std _ r slot v hoffer hwf (p.2.serverSeq + 1)]
  simp only [verdict, readKey_offer hoffer, bind, Except.bind, hselect]
  by_cases hbelow : Below p.1 slot v
  · have hnone : ((p.1.records.find slot).map RecordRow.version).filter (v ≤ ·) = none := by
      cases hfind : p.1.records.find slot with
      | none => rfl
      | some row => simp [Option.filter, hbelow row hfind]
    rw [hnone]
    cases readRow std slot.groupId ⟨.text slot.collection, .text slot.recordId, v⟩ r
      (p.2.serverSeq + 1) <;> simp [hbelow]
  · obtain ⟨row, hfind, hle⟩ : ∃ row, p.1.records.find slot = some row ∧ v ≤ row.version := by
      simpa [Below] using hbelow
    simp [hfind, Option.filter, hle, hbelow]

/-- Whatever is decided about a well formed record, it could be looked up. -/
lemma Decides.exists_offer {r : Json} {p : Tables × PushResult} {vd : Verdict}
    (h : Decides std g r p vd) (hwf : WellFormedRecord r) :
    ∃ slot v, offerOf g r = some (slot, v) := by
  obtain ⟨c, hc⟩ := hwf.texts "collection" (by simp)
  obtain ⟨i, hi⟩ := hwf.texts "id" (by simp)
  obtain ⟨v, hv, -⟩ := hwf.version
  obtain ⟨k, row, hk, hn⟩ : ∃ k row, readKey std r = .ok k ∧ RecordKey.Names std k row := by
    cases h with
    | conflict hk _ _ hn _ => exact ⟨_, _, hk, hn⟩
    | accept hk hr _ _ _ => exact ⟨_, _, hk, hr.names hk⟩
  obtain ⟨hkc, hki, -⟩ := readKey_ok hk
  obtain ⟨hnc, hni⟩ := hn
  rw [hc] at hkc
  rw [hi] at hki
  rw [← Except.ok.inj hkc] at hnc
  rw [← Except.ok.inj hki] at hni
  obtain ⟨c', rfl, -⟩ := bindText_str hnc
  obtain ⟨i', rfl, -⟩ := bindText_str hni
  exact ⟨⟨g, c', i'⟩, v, offerOf_eq_some.mpr ⟨rfl, hc, hi, hv⟩⟩

/-- Earlier records of the batch count as if they had been stored. -/
lemma Decides.exceeds_iff {r : Json} {p : Tables × PushResult} {vd : Verdict}
    (h : Decides std g r p vd) (hwf : WellFormedRecord r) (pre : List Json) (slot : Slot) (v : ℤ) :
    Exceeds g (vd.apply p).1 pre slot v ↔ Exceeds g p.1 (r :: pre) slot v := by
  obtain ⟨slot', v', hoffer⟩ := h.exists_offer hwf
  have hhead : (∀ v'', offerOf g r = some (slot, v'') → v'' < v) ↔ (slot' = slot → v' < v) := by
    rw [hoffer]
    constructor
    · rintro hall rfl
      exact hall v' rfl
    · rintro hlt v'' heq
      cases heq
      exact hlt rfl
  have hbelow := h.below_iff hoffer slot v
  unfold Below at hbelow
  rw [Exceeds, hbelow, Exceeds, List.forall_mem_cons, hhead, and_assoc]

lemma forall_split_cons {α : Type} {a : α} {l : List α} {Q : List α → α → Prop} :
    (∀ pre x post, a :: l = pre ++ x :: post → Q pre x) ↔
      Q [] a ∧ ∀ pre x post, l = pre ++ x :: post → Q (a :: pre) x := by
  constructor
  · intro h
    exact ⟨h [] a l rfl, fun pre x post hl => h (a :: pre) x post (by rw [hl, List.cons_append])⟩
  · rintro ⟨hhead, htail⟩ pre x post hl
    cases pre with
    | nil =>
      cases hl
      exact hhead
    | cons b pre =>
      rw [List.cons_append, List.cons.injEq] at hl
      obtain ⟨rfl, hl⟩ := hl
      exact htail pre x post hl

/-- A batch is stored if each of its records is decided where the earlier ones leave it. -/
lemma fold_ok_iff {records : List Json} (hwf : ∀ r ∈ records, WellFormedRecord r)
    (p : Tables × PushResult) :
    (∃ p', records.foldlM (pushRecord std g) p = .ok p') ↔
      ∀ pre r post, records = pre ++ r :: post →
        ∃ slot v, offerOf g r = some (slot, v) ∧ (Exceeds g p.1 pre slot v → Writable r) := by
  induction records generalizing p with
  | nil => exact ⟨fun _ pre r post h => by simp at h, fun _ => ⟨p, rfl⟩⟩
  | cons r records ih =>
    have hr := hwf r List.mem_cons_self
    have hrest : ∀ r' ∈ records, WellFormedRecord r' := fun r' hr' => hwf r' (List.mem_cons_of_mem _ hr')
    rw [forall_split_cons]
    have hempty : ∀ slot v, Exceeds g p.1 [] slot v ↔ Below p.1 slot v :=
      fun slot v => ⟨And.left, fun h => ⟨h, fun _ hmem => by cases hmem⟩⟩
    constructor
    · rintro ⟨p', h⟩
      obtain ⟨q, hq, hfold⟩ := bind_eq_ok.mp h
      obtain ⟨vd, hvd, rfl⟩ := pushRecord_eq_ok.mp hq
      obtain ⟨slot, v, hoffer⟩ := hvd.exists_offer hr
      refine ⟨⟨slot, v, hoffer, ?_⟩, ?_⟩
      · rw [hempty]
        exact (verdict_ok_iff hoffer hr).mp ⟨vd, verdict_eq_ok.mpr hvd⟩
      · intro pre r' post hl
        obtain ⟨slot', v', hoffer', hwrite⟩ := (ih hrest _).mp ⟨p', hfold⟩ pre r' post hl
        exact ⟨slot', v', hoffer', fun he => hwrite ((hvd.exceeds_iff hr pre slot' v').mpr he)⟩
    · rintro ⟨⟨slot, v, hoffer, hwrite⟩, htail⟩
      rw [hempty] at hwrite
      obtain ⟨vd, hverdict⟩ : ∃ vd, verdict std g p r = .ok vd := (verdict_ok_iff hoffer hr).mpr hwrite
      have hvd := verdict_eq_ok.mp hverdict
      obtain ⟨p', hfold⟩ := (ih hrest (vd.apply p)).mpr fun pre r' post hl => by
        obtain ⟨slot', v', hoffer', hwrite'⟩ := htail pre r' post hl
        exact ⟨slot', v', hoffer', fun he => hwrite' ((hvd.exceeds_iff hr pre slot' v').mp he)⟩
      refine ⟨p', ?_⟩
      rw [List.foldlM_cons, pushRecord_eq_ok.mpr ⟨vd, hvd, rfl⟩]
      exact hfold

lemma pushBatch_ok_iff {records : List Json} (hwf : ∀ r ∈ records, WellFormedRecord r) (t : Tables) :
    (∃ p, pushBatch std g records t = .ok p) ↔ BatchFits g records t := by
  have hfold := @fold_ok_iff std g records hwf (t, startResult g t)
  constructor
  · rintro ⟨⟨t', s⟩, hp⟩
    obtain ⟨t1, h, -⟩ := pushBatch_eq_ok.mp hp
    exact ⟨hwf, hfold.mp ⟨_, h⟩⟩
  · intro h
    obtain ⟨⟨t1, s⟩, hp⟩ := hfold.mpr h.stored
    exact ⟨_, pushBatch_eq_ok.mpr ⟨t1, hp, rfl⟩⟩

/-! The check on a batch -/

/-- A field the check looks for is not found: as a key of a dict, an element of a list
or a part of a text. -/
def Lacks (r : Json) : Prop := ∃ k ∈ recordFields, r.contains k = .ok false

/-- The check reaches a record it refuses before one that `in` raises on. -/
def RefusedFirst (records : List Json) : Prop :=
  ∃ pre r post, records = pre ++ r :: post ∧ (∀ x ∈ pre, x.IsContainer) ∧ Lacks r

lemma contains_ok_iff {r : Json} {k : String} : (∃ b, r.contains k = .ok b) ↔ r.IsContainer := by
  cases r <;> simp [Json.contains, Json.IsContainer]

lemma Lacks.isContainer {r : Json} (h : Lacks r) : r.IsContainer := by
  obtain ⟨k, -, hk⟩ := h
  exact contains_ok_iff.mp ⟨false, hk⟩

lemma hasFields_of_container {r : Json} (h : r.IsContainer) (ks : List String) :
    hasFields r ks = .ok true ∧ (∀ k ∈ ks, r.contains k = .ok true) ∨
      hasFields r ks = .ok false ∧ ∃ k ∈ ks, r.contains k = .ok false := by
  induction ks with
  | nil => exact Or.inl ⟨rfl, by simp⟩
  | cons k ks ih =>
    obtain ⟨b, hb⟩ : ∃ b, r.contains k = .ok b := contains_ok_iff.mpr h
    simp only [hasFields, hb, bind, Except.bind]
    cases b with
    | false => exact Or.inr ⟨rfl, k, List.mem_cons_self, hb⟩
    | true =>
      refine ih.imp (fun ⟨hf, hall⟩ => ⟨hf, ?_⟩) fun ⟨hf, k', hk', hno⟩ =>
        ⟨hf, k', List.mem_cons_of_mem _ hk', hno⟩
      exact List.forall_mem_cons.mpr ⟨hb, hall⟩

lemma hasFields_error {r : Json} (h : ¬ r.IsContainer) : ∃ e, hasFields r recordFields = .error e := by
  cases r <;> first | exact ⟨_, rfl⟩ | exact (h trivial).elim

lemma malformed_true_iff {records : List Json} : malformed records = .ok true ↔ RefusedFirst records := by
  induction records with
  | nil =>
    refine ⟨nofun, fun ⟨pre, r, post, h, _⟩ => ?_⟩
    simp at h
  | cons r records ih =>
    have hsplit : RefusedFirst (r :: records) ↔ Lacks r ∨ r.IsContainer ∧ RefusedFirst records := by
      constructor
      · rintro ⟨pre, x, post, h, hpre, hx⟩
        cases pre with
        | nil =>
          cases h
          exact Or.inl hx
        | cons b pre =>
          cases h
          exact Or.inr ⟨hpre _ List.mem_cons_self, pre, x, post, rfl,
            fun y hy => hpre y (List.mem_cons_of_mem _ hy), hx⟩
      · rintro (hr | ⟨hr, pre, x, post, rfl, hpre, hx⟩)
        · exact ⟨[], r, records, rfl, by simp, hr⟩
        · exact ⟨r :: pre, x, post, rfl, List.forall_mem_cons.mpr ⟨hr, hpre⟩, hx⟩
    rw [hsplit, malformed]
    by_cases hr : r.IsContainer
    · rcases hasFields_of_container hr recordFields with ⟨hf, hall⟩ | ⟨hf, hlacks⟩
      · have hno : ¬ Lacks r := by
          rintro ⟨k, hk, hfalse⟩
          rw [hall k hk] at hfalse
          cases hfalse
        simp [hf, bind, Except.bind, ih, hno, hr]
      · have hyes : Lacks r := hlacks
        simp [hf, bind, Except.bind, hyes]
    · obtain ⟨e, he⟩ := hasFields_error hr
      have hno : ¬ Lacks r := fun h => hr h.isContainer
      simp [he, bind, Except.bind, hno, hr]

lemma contains_of_getItem {r v : Json} {k : String} (h : r.getItem k = .ok v) :
    r.contains k = .ok true := by
  cases r with
  | dict items =>
    simp only [Json.getItem] at h
    split at h
    · next hl => simp [Json.contains, hl]
    · cases h
  | _ => cases h

lemma WellFormedRecord.malformed {records : List Json} (h : ∀ r ∈ records, WellFormedRecord r) :
    malformed records = .ok false := by
  have hfields : ∀ r ∈ records, hasFields r recordFields = .ok true := by
    intro r hr
    obtain ⟨v, hv, -⟩ := (h r hr).version
    have hall : ∀ k ∈ recordFields, r.contains k = .ok true := by
      intro k hk
      simp only [recordFields, List.mem_cons, List.not_mem_nil, or_false] at hk
      rcases hk with rfl | rfl | rfl | rfl | rfl
      all_goals first
        | exact contains_of_getItem hv
        | exact contains_of_getItem ((h r hr).texts _ (by simp)).choose_spec
    have hcontainer : r.IsContainer := contains_ok_iff.mp ⟨true, contains_of_getItem hv⟩
    rcases hasFields_of_container hcontainer recordFields with ⟨hf, -⟩ | ⟨-, k, hk, hno⟩
    · exact hf
    · rw [hall k hk] at hno
      cases hno
  exact malformed_of_fields hfields

/-! Answers -/

variable (std)

/-- Answered 400, with all tables as they were. -/
def Rejects (req : Request) (c : Conn Tables) : Prop :=
  ∃ resp, (handle std req c).1 = .ok resp ∧ resp.status = 400 ∧
    (handle std req c).2.tables = c.tables

structure WellFormedPair (payload : Json) : Prop where
  groupId : ∃ s, payload.getItem "group_id" = .ok (.str s)
  authHash : ∃ s, payload.getItem "auth_hash" = .ok (.str s)

/-- The request is answered, and answered 400 if it is ill-formed. -/
structure Responds (req : Request) (c : Conn Tables) : Prop where
  answered : ∃ resp, (handle std req c).1 = .ok resp
  pair : ∀ parsed body payload, Reaches std req .post "/v1/pair" parsed body →
    std.loads body = .ok payload → ¬ WellFormedPair payload → Rejects std req c
  batch : ∀ parsed body payload records, Reaches std req .post "/v1/records" parsed body →
    std.loads body = .ok payload → payload.getItem "records" = .ok (.list records) →
    (∃ r ∈ records, ¬ WellFormedRecord r) → Rejects std req c

/-- A pair request, an authenticated push or pull, or a `POST` that is too large or whose body
cannot be read. -/
inductive Covered (req : Request) (c : Conn Tables) : Prop
  | pair {parsed body} (h : Reaches std req .post "/v1/pair" parsed body)
  | records {g parsed body} (h : Authenticated std req g parsed body c)
  | large {parsed} (hm : req.method = .post) (hu : std.urlparse req.target = .ok parsed)
      (hp : parsed.path = "/v1/pair" ∨ parsed.path = "/v1/records") (hb : readBody std req = .ok none)
  | unread {parsed e} (hm : req.method = .post) (hu : std.urlparse req.target = .ok parsed)
      (hp : parsed.path = "/v1/pair" ∨ parsed.path = "/v1/records") (hb : readBody std req = .error e)

/-- Both fields are storable text, ASCII if they are to be compared; the salt can be bound. -/
def PairFits (body : Bytes) (t : Tables) : Prop :=
  ∀ payload g a, std.loads body = .ok payload → payload.getItem "group_id" = .ok g →
    payload.getItem "auth_hash" = .ok a → ∃ group hash, g = .text group ∧ a = .text hash ∧
      match t.groups.find group with
      | some row => isAscii row.authHash = true ∧ isAscii hash = true
      | none => ∀ salt, payload.get "pairing_salt" .null = .ok salt → salt.Bindable

/-- The batch is refused for a missing field, or no transaction is open and it can be stored. -/
def PushFits (g : String) (body : Bytes) (c : Conn Tables) : Prop :=
  ∀ payload records, std.loads body = .ok payload → payload.getItem "records" = .ok (.list records) →
    records.length ≤ maxRecordsPerBatch → RefusedFirst records ∨ c.Idle ∧ BatchFits g records c.tables

/-- `since` has 64 bits, if it is an integer. -/
def PullFits (parsed : ParsedUrl) : Prop :=
  ∀ since, std.intOfStr (.ofString
    ((((std.parseQs parsed.query).lookup "since").bind List.head?).getD "0")) = .ok since → IsInt64 since

/-- The length of a `POST`, if it has one, is an integer from -1 on. -/
def LengthFits (req : Request) : Prop :=
  ∃ length, declaredLength std req.contentLength = .ok length ∧ -1 ≤ length

/-- What keeps a request from being dropped. -/
structure Fits (req : Request) (c : Conn Tables) : Prop where
  length : req.method = .post → LengthFits std req
  pair : ∀ parsed body, Reaches std req .post "/v1/pair" parsed body → PairFits std body c.tables
  push : ∀ g parsed body, req.method = .post → Authenticated std req g parsed body c →
    PushFits std g body c
  pull : ∀ g parsed body, req.method = .get → Authenticated std req g parsed body c →
    PullFits std parsed

variable {std} {req : Request} {parsed : ParsedUrl} {body : Bytes} {c : Conn Tables}

lemma rejects_of_send {r : Response} (h : (route std req c).1 = .ok (.send r)) (hr : r.status = 400) :
    Rejects std req c := by
  refine ⟨r, ?_, hr, ?_⟩ <;> rw [handle_eq, h] <;> rfl

/-- A refusal is what is asked of any request that reaches it. -/
lemma Rejects.responds (h : Rejects std req c) : Responds std req c where
  answered := h.imp fun _ hr => hr.1
  pair _ _ _ _ _ _ := h
  batch _ _ _ _ _ _ _ _ := h

lemma Reaches.unique {m m' : Method} {e e' : String} {parsed' : ParsedUrl} {body' : Bytes}
    (h : Reaches std req m e parsed body) (h' : Reaches std req m' e' parsed' body') :
    m = m' ∧ e = e' ∧ parsed = parsed' ∧ (m = .post → body = body') := by
  have hm := h.method_eq.symm.trans h'.method_eq
  have hu := h.urlparse_eq.symm.trans h'.urlparse_eq
  cases hu
  refine ⟨hm, h.path_eq.symm.trans h'.path_eq, rfl, fun hpost => ?_⟩
  have hb := (h.body_eq hpost).symm.trans (h'.body_eq (hm ▸ hpost))
  cases hb
  rfl

/-! Pairing -/

lemma pairPayload_eq_ok {payload g a : Json} : pairPayload std body = .ok (payload, g, a) ↔
    std.loads body = .ok payload ∧ payload.getItem "group_id" = .ok g ∧
      payload.getItem "auth_hash" = .ok a := by
  simp only [pairPayload, bind_eq_ok, Except.ok.injEq, Prod.mk.injEq]
  constructor
  · rintro ⟨_, hp, _, hg, _, ha, rfl, rfl, rfl⟩
    exact ⟨hp, hg, ha⟩
  · rintro ⟨hp, hg, ha⟩
    exact ⟨_, hp, _, hg, _, ha, rfl, rfl, rfl⟩

/-- A payload with the fields is an object, so its salt can be looked up. -/
lemma pairPayload_get {payload g a : Json} (h : pairPayload std body = .ok (payload, g, a)) :
    ∃ salt, payload.get "pairing_salt" .null = .ok salt := by
  obtain ⟨-, hg, -⟩ := pairPayload_eq_ok.mp h
  cases payload with
  | dict items => exact ⟨_, rfl⟩
  | _ => cases hg

lemma compareDigestJson_ok_iff {stored : String} {a : PyStr} :
    (∃ b, compareDigestJson stored (.str a) = .ok b) ↔
      ∃ hash, a = .ofString hash ∧ isAscii stored = true ∧ isAscii hash = true := by
  simp only [compareDigestJson]
  cases ha : a.toText with
  | none =>
    simp only [reduceCtorEq, exists_false, false_iff]
    rintro ⟨hash, rfl, -⟩
    simp at ha
  | some hash =>
    obtain rfl := PyStr.toText_eq_some.mp ha
    simp only [compareDigest]
    by_cases hascii : isAscii stored = true ∧ isAscii hash = true
    · simp [hascii]
    · simp only [Bool.and_eq_true, if_neg hascii, reduceCtorEq, exists_false, false_iff]
      rintro ⟨hash', heq, h⟩
      cases PyStr.ofString_inj.mp heq
      exact hascii h

lemma registerGroup_ok_iff {group : String} {a : PyStr} {salt : Json} {t : Tables}
    (hfree : t.groups.find group = none) :
    (∃ t', registerGroup std (.text group) (.str a) salt t = .ok t') ↔
      ∃ hash, a = .ofString hash ∧ salt.Bindable := by
  constructor
  · rintro ⟨t', h⟩
    obtain ⟨_, hash, s, _, -, ha, hs, -, -⟩ := registerGroup_eq_ok.mp h
    obtain ⟨hash', rfl, -⟩ := bindText_str ha
    exact ⟨hash', rfl, bindText_ok_iff.mp ⟨s, hs⟩⟩
  · rintro ⟨hash, rfl, hsalt⟩
    obtain ⟨s, hs⟩ := bindText_ok_iff.mpr hsalt
    have hkey : GroupRow.groupId ⟨some group, hash, s⟩ = some group := rfl
    obtain ⟨groups, hins⟩ := KeyedTable.insert_of_find_none hkey hfree
    exact ⟨_, registerGroup_eq_ok.mpr
      ⟨_, _, _, _, bindText_text _ group, bindText_text _ hash, hs, hins, rfl⟩⟩

lemma createGroup_ok_iff {g a : PyStr} {salt : Json} :
    (∃ b, (createGroup std (.str g) (.str a) salt c).1 = .ok b) ↔
      ∃ group hash, g = .ofString group ∧ a = .ofString hash ∧
        match c.tables.groups.find group with
        | some row => isAscii row.authHash = true ∧ isAscii hash = true
        | none => salt.Bindable := by
  cases hg : g.toText with
  | none =>
    have hbind : bindText std.realText (.str g) = .error .unicodeEncodeError := by
      simp [bindText, bindValue, hg, Except.map]
    rw [createGroup_apply]
    simp only [selectAuthHash, hbind, bind, Except.bind, reduceCtorEq, exists_false, false_iff]
    rintro ⟨group, _, rfl, -⟩
    simp at hg
  | some group =>
    obtain rfl := PyStr.toText_eq_some.mp hg
    have hone : ∀ P : String → String → Prop, (∃ group' hash, PyStr.ofString group = .ofString group' ∧
        a = .ofString hash ∧ P group' hash) ↔ ∃ hash, a = .ofString hash ∧ P group hash := by
      intro P
      constructor
      · rintro ⟨group', hash, heq, ha, hp⟩
        cases PyStr.ofString_inj.mp heq
        exact ⟨hash, ha, hp⟩
      · rintro ⟨hash, ha, hp⟩
        exact ⟨group, hash, rfl, ha, hp⟩
    have hselect : selectAuthHash std (.text group) c.tables =
        .ok ((c.tables.groups.find group).map GroupRow.authHash) := by
      simp [selectAuthHash, bind, Except.bind]
    rw [hone, createGroup_apply, show Json.str (.ofString group) = .text group from rfl, hselect]
    cases hfind : c.tables.groups.find group with
    | some row => exact compareDigestJson_ok_iff
    | none =>
      simp only [Option.map_none]
      rw [← @registerGroup_ok_iff std _ _ _ _ hfind]
      cases registerGroup std (.text group) (.str a) salt c.tables <;> simp

/-- A pairing that is answered is not answered 400. -/
lemma createGroup_status {g a salt : Json} {resp : Response}
    (h : ((StoreOp.createGroup g a salt).run std c).1 = .ok resp) :
    resp.status ≠ 400 ∧ ∃ b, (createGroup std g a salt c).1 = .ok b := by
  simp only [StoreOp.run, Sql.bind_apply] at h
  cases hc : createGroup std g a salt c with
  | mk r c' =>
    rw [hc] at h
    cases r with
    | error e => cases h
    | ok b =>
      cases h
      refine ⟨?_, b, rfl⟩
      cases b <;> simp [sendError]

lemma route_reaches_pair (h : Reaches std req .post "/v1/pair" parsed body) :
    (route std req c).1 = handlePair std body := by
  have hurl : Sql.lift (std.urlparse req.target) c = (.ok parsed, c) := by
    rw [Sql.lift_apply, h.urlparse_eq]
  have hbody : Sql.lift (readBody std req) c = (.ok (some body), c) := by
    rw [Sql.lift_apply, h.body_eq rfl]
  simp only [route, h.method_eq, doPOST]
  rw [Sql.bind_ok hurl, Sql.bind_ok hbody]
  simp only [if_pos h.path_eq, Sql.lift_apply]

/-- An answer is all that is asked of a well formed pair request. -/
lemma Responds.of_pair (h : Reaches std req .post "/v1/pair" parsed body) {payload : Json}
    (hl : std.loads body = .ok payload) (hwf : WellFormedPair payload)
    (ha : ∃ resp, (handle std req c).1 = .ok resp) : Responds std req c where
  answered := ha
  pair parsed' body' payload' h' hl' hill := by
    obtain ⟨-, -, -, hbody⟩ := h.unique h'
    cases hbody rfl
    cases hl.symm.trans hl'
    exact (hill hwf).elim
  batch _ _ _ _ h' _ _ _ := absurd (h.unique h').2.1 (by decide)

lemma createGroup_answered {g a salt : Json} {b : Bool}
    (hb : (createGroup std g a salt c).1 = .ok b) :
    ∃ resp, ((StoreOp.createGroup g a salt).run std c).1 = .ok resp := by
  have hstep : createGroup std g a salt c = (.ok b, (createGroup std g a salt c).2) :=
    Prod.ext hb rfl
  rw [StoreOp.run, Sql.bind_ok hstep]
  exact ⟨_, rfl⟩

/-- What fits is strings on which `create_group` returns. -/
lemma pairFits_iff {payload g a salt : Json} (hl : std.loads body = .ok payload)
    (hg : payload.getItem "group_id" = .ok g) (ha : payload.getItem "auth_hash" = .ok a)
    (hsalt : payload.get "pairing_salt" .null = .ok salt) :
    PairFits std body c.tables ↔
      WellFormedPair payload ∧ ∃ b, (createGroup std g a salt c).1 = .ok b := by
  constructor
  · intro hfits
    obtain ⟨group, hash, rfl, rfl, hfit⟩ := hfits payload g a hl hg ha
    refine ⟨⟨⟨_, hg⟩, _, ha⟩, createGroup_ok_iff.mpr ⟨group, hash, rfl, rfl, ?_⟩⟩
    cases hfind : c.tables.groups.find group with
    | some row => simpa only [hfind] using hfit
    | none =>
      rw [hfind] at hfit
      exact hfit salt hsalt
  · rintro ⟨⟨⟨gs, hgs⟩, as, has⟩, hreturns⟩ payload' g' a' hl' hg' ha'
    cases hl.symm.trans hl'
    cases hg.symm.trans hg'
    cases ha.symm.trans ha'
    cases hg.symm.trans hgs
    cases ha.symm.trans has
    obtain ⟨group, hash, rfl, rfl, hfit⟩ := createGroup_ok_iff.mp hreturns
    refine ⟨group, hash, rfl, rfl, ?_⟩
    cases hfind : c.tables.groups.find group with
    | some row => simpa only [hfind] using hfit
    | none =>
      intro salt' hsalt'
      cases hsalt.symm.trans hsalt'
      simpa only [hfind] using hfit

lemma pair_responds_iff (h : Reaches std req .post "/v1/pair" parsed body) :
    Responds std req c ↔ PairFits std body c.tables := by
  have hroute := @route_reaches_pair std req parsed body c h
  cases hp : pairPayload std body with
  | error e =>
    rw [handlePair, hp] at hroute
    refine ⟨fun _ payload g a hl hg ha => ?_, fun _ => (rejects_of_send hroute rfl).responds⟩
    rw [pairPayload_eq_ok.mpr ⟨hl, hg, ha⟩] at hp
    cases hp
  | ok p =>
    obtain ⟨payload, g, a⟩ := p
    obtain ⟨hl, hg, ha⟩ := pairPayload_eq_ok.mp hp
    obtain ⟨salt, hsalt⟩ := pairPayload_get hp
    have hrun := handle_pair ⟨parsed, body, payload, h, hp, hsalt⟩ c
    rw [pairFits_iff hl hg ha hsalt]
    constructor
    · intro hresp
      obtain ⟨resp, hanswer⟩ := hresp.answered
      rw [hrun] at hanswer
      obtain ⟨hstatus, hreturns⟩ := createGroup_status hanswer
      refine ⟨?_, hreturns⟩
      by_contra hill
      obtain ⟨resp', hanswer', h400, -⟩ := hresp.pair parsed body payload h hl hill
      rw [hrun, hanswer] at hanswer'
      cases hanswer'
      exact hstatus h400
    · rintro ⟨hwf, b, hb⟩
      refine Responds.of_pair h hl hwf ?_
      rw [hrun]
      exact createGroup_answered hb

/-! Pushes -/

lemma pushAction_batch {g : String} {payload : Json} {records : List Json}
    (hl : std.loads body = .ok payload) (hrec : payload.getItem "records" = .ok (.list records))
    (hlen : records.length ≤ maxRecordsPerBatch) :
    pushAction std g body = malformed records >>= fun bad =>
      if bad then .ok (.send (sendError 400 "malformed record"))
      else .ok (.store (.upsertRecords g records)) := by
  simp [pushAction, hl, hrec, bind, Except.bind, not_lt.mpr hlen]

lemma pushAction_refused {g : String} (h : ∀ payload records, std.loads body = .ok payload →
    payload.getItem "records" = .ok (.list records) → maxRecordsPerBatch < records.length) :
    ∃ r, pushAction std g body = .ok (.send r) ∧ r.status = 400 := by
  unfold pushAction
  split
  · exact ⟨_, rfl, rfl⟩
  · next records hr =>
    obtain ⟨payload, hl, hrec⟩ := bind_eq_ok.mp hr
    rw [if_pos (h payload records hl hrec)]
    exact ⟨_, rfl, rfl⟩
  · exact ⟨_, rfl, rfl⟩

/-- A batch that reaches the store is answered when no transaction is open and it can
be stored, and then not with 400. -/
lemma upsert_answered_iff {g : String} {records : List Json}
    (hr : (route std req c).1 = .ok (.store (.upsertRecords g records))) :
    (∃ resp, (handle std req c).1 = .ok resp) ↔
      c.Idle ∧ ∃ p, pushBatch std g records c.tables = .ok p := by
  obtain ⟨t, undo⟩ := c
  cases undo with
  | some u =>
    rw [handle_push_open hr]
    constructor
    · intro h
      obtain ⟨resp, hresp⟩ := h
      cases hresp
    · intro h
      cases h.1
  | none =>
    cases hp : pushBatch std g records t with
    | ok p =>
      rw [handle_push hr hp]
      exact ⟨fun _ => ⟨rfl, p, rfl⟩, fun _ => ⟨_, rfl⟩⟩
    | error e =>
      have hrun := upsertRecords_idle std g records t
      rw [hp] at hrun
      have hhandle : handle std req ⟨t, none⟩ = (.error e, ⟨t, none⟩) := by
        rw [handle_eq, hr]
        simp only [Action.run, StoreOp.run]
        rw [Sql.bind_error hrun]
      rw [hhandle]
      constructor
      · intro h
        obtain ⟨resp, hresp⟩ := h
        cases hresp
      · intro h
        obtain ⟨-, p, hp'⟩ := h
        cases hp'

lemma upsert_status {g : String} {records : List Json} {resp : Response}
    (hr : (route std req c).1 = .ok (.store (.upsertRecords g records)))
    (h : (handle std req c).1 = .ok resp) : resp.status ≠ 400 := by
  obtain ⟨hidle, p, hp⟩ := (upsert_answered_iff hr).mp ⟨resp, h⟩
  obtain ⟨t, undo⟩ := c
  obtain rfl : undo = none := hidle
  rw [handle_push hr hp] at h
  cases h
  cases p.2.conflicts.isEmpty <;> simp

/-- It is all that is asked of a push of well formed records. -/
lemma Responds.of_batch (h : Reaches std req .post "/v1/records" parsed body) {payload : Json}
    {records : List Json} (hl : std.loads body = .ok payload)
    (hrec : payload.getItem "records" = .ok (.list records))
    (hwf : ∀ r ∈ records, WellFormedRecord r) (ha : ∃ resp, (handle std req c).1 = .ok resp) :
    Responds std req c where
  answered := ha
  pair _ _ _ h' _ _ := absurd (h.unique h').2.1 (by decide)
  batch parsed' body' payload' records' h' hl' hrec' hsome := by
    obtain ⟨r, hr, hill⟩ := hsome
    obtain ⟨-, -, -, hbody⟩ := h.unique h'
    cases hbody rfl
    cases hl.symm.trans hl'
    cases hrec.symm.trans hrec'
    exact (hill (hwf r hr)).elim

lemma pushFits_iff {g : String} {payload : Json} {records : List Json}
    (hl : std.loads body = .ok payload) (hrec : payload.getItem "records" = .ok (.list records))
    (hlen : records.length ≤ maxRecordsPerBatch) :
    PushFits std g body c ↔ RefusedFirst records ∨ c.Idle ∧ BatchFits g records c.tables := by
  refine ⟨fun hf => hf payload records hl hrec hlen, fun hf payload' records' hl' hrec' _ => ?_⟩
  cases hl.symm.trans hl'
  cases hrec.symm.trans hrec'
  exact hf

/-- A batch that reaches the store responds as it should exactly if it can be stored. -/
lemma upsert_responds_iff (h : Reaches std req .post "/v1/records" parsed body) {g : String}
    {payload : Json} {records : List Json} (hl : std.loads body = .ok payload)
    (hrec : payload.getItem "records" = .ok (.list records))
    (hstore : (route std req c).1 = .ok (.store (.upsertRecords g records))) :
    Responds std req c ↔ c.Idle ∧ BatchFits g records c.tables := by
  have hanswered := upsert_answered_iff hstore
  constructor
  · intro hresp
    obtain ⟨resp, hanswer⟩ := hresp.answered
    obtain ⟨hidle, hp⟩ := hanswered.mp ⟨resp, hanswer⟩
    have hwf : ∀ r ∈ records, WellFormedRecord r := by
      by_contra hill
      obtain ⟨resp', hanswer', h400, -⟩ :=
        hresp.batch parsed body payload records h hl hrec (by simpa using hill)
      exact upsert_status hstore hanswer' h400
    exact ⟨hidle, (pushBatch_ok_iff hwf c.tables).mp hp⟩
  · rintro ⟨hidle, hf⟩
    refine Responds.of_batch h hl hrec hf.wellFormed (hanswered.mpr ⟨hidle, ?_⟩)
    exact (pushBatch_ok_iff hf.wellFormed c.tables).mpr hf

lemma push_responds_iff {g : String} (hm : req.method = .post)
    (h : Authenticated std req g parsed body c) : Responds std req c ↔ PushFits std g body c := by
  have hreach : Reaches std req .post "/v1/records" parsed body := hm ▸ h.reaches
  have hroute := route_authenticated h
  rw [hm] at hroute
  by_cases hbatch : ∃ payload records, std.loads body = .ok payload ∧
      payload.getItem "records" = .ok (.list records) ∧ records.length ≤ maxRecordsPerBatch
  · obtain ⟨payload, records, hl, hrec, hlen⟩ := hbatch
    simp only at hroute
    rw [pushAction_batch hl hrec hlen] at hroute
    rw [pushFits_iff hl hrec hlen, ← malformed_true_iff]
    cases hmal : malformed records with
    | error e =>
      rw [hmal] at hroute
      have hdropped : (handle std req c).1 = .error e := by
        rw [handle_eq, hroute]
        rfl
      constructor
      · intro hresp
        obtain ⟨resp, hanswer⟩ := hresp.answered
        exact nomatch hdropped.symm.trans hanswer
      · rintro (htrue | ⟨-, hf⟩)
        · cases htrue
        · exact nomatch hmal.symm.trans (WellFormedRecord.malformed hf.wellFormed)
    | ok bad =>
      rw [hmal] at hroute
      cases bad with
      | true => exact ⟨fun _ => Or.inl rfl, fun _ => (rejects_of_send hroute rfl).responds⟩
      | false =>
        rw [upsert_responds_iff hreach hl hrec hroute]
        simp
  · push Not at hbatch
    obtain ⟨r, hr, h400⟩ : ∃ r, pushAction std g body = .ok (.send r) ∧ r.status = 400 :=
      pushAction_refused hbatch
    refine ⟨fun _ payload records hl hrec hlen => ?_, fun _ => ?_⟩
    · exact absurd hlen (not_le.mpr (hbatch payload records hl hrec))
    · exact (rejects_of_send (hroute.trans hr) h400).responds

/-! Pulls -/

lemma pull_responds_iff (hint : ∀ s e, std.intOfStr s = .error e → e = .valueError) {g : String}
    (hm : req.method = .get) (h : Authenticated std req g parsed body c) :
    Responds std req c ↔ PullFits std parsed := by
  have hroute := route_authenticated h
  rw [hm] at hroute
  have hnever : ∀ {m e p b}, Reaches std req m e p b → m ≠ .post := by
    rintro m e p b h' rfl
    exact nomatch h'.method_eq.symm.trans hm
  have hresponds : Responds std req c ↔ ∃ resp, (handle std req c).1 = .ok resp :=
    ⟨fun hr => hr.answered, fun ha => ⟨ha, fun _ _ _ h' _ _ => (hnever h' rfl).elim,
      fun _ _ _ _ h' _ _ _ => (hnever h' rfl).elim⟩⟩
  rw [hresponds, PullFits]
  obtain ⟨since, hsince, hiff⟩ : ∃ since, pullSince std (std.parseQs parsed.query) = .ok since ∧
      ((∀ i, std.intOfStr (.ofString ((((std.parseQs parsed.query).lookup "since").bind
        List.head?).getD "0")) = .ok i → IsInt64 i) ↔ IsInt64 since) := by
    unfold pullSince
    cases hi : std.intOfStr (.ofString ((((std.parseQs parsed.query).lookup "since").bind
      List.head?).getD "0")) with
    | ok i => exact ⟨i, rfl, by simp⟩
    | error e =>
      obtain rfl := hint _ e hi
      exact ⟨0, rfl, by simp [IsInt64]⟩
  rw [hiff]
  have hstore : (route std req c).1 = .ok (.store (.queryRecords g
      (((std.parseQs parsed.query).lookup "collection").bind List.head?) since)) := by
    rw [hroute]
    simp [pullAction, hsince, bind, Except.bind]
  by_cases h64 : IsInt64 since
  · obtain ⟨result, hresult⟩ : ∃ result, pullRecords g
        (((std.parseQs parsed.query).lookup "collection").bind List.head?) since c.tables = .ok result :=
      ⟨_, by rw [pullRecords, selectRecords, bindInt, if_pos h64]; rfl⟩
    rw [handle_pull hstore hresult]
    simp [h64]
  · have hraise : pullRecords g (((std.parseQs parsed.query).lookup "collection").bind List.head?)
        since c.tables = .error .overflowError := by
      rw [pullRecords, selectRecords, bindInt, if_neg h64]
      rfl
    rw [handle_pull_error hstore hraise]
    simp [h64]

lemma route_large (hm : req.method = .post) (hu : std.urlparse req.target = .ok parsed)
    (hb : readBody std req = .ok none) :
    (route std req c).1 = .ok (.send (sendError 413 "request too large")) := by
  exact (route_post_iff hm).mpr ⟨parsed, hu, none, hb, rfl⟩

/-! Each request by its kind -/

lemma lengthFits_iff : LengthFits std req ↔ ∃ body, readBody std req = .ok body := by
  rw [LengthFits, readBody]
  cases declaredLength std req.contentLength with
  | error e => simp [bind, Except.bind]
  | ok length =>
    simp only [Except.ok.injEq, exists_eq_left', bind, Except.bind]
    constructor
    · intro hle
      split_ifs
      all_goals first | exact ⟨_, rfl⟩ | omega
    · intro hread
      by_contra hlt
      obtain ⟨body, hbody⟩ := hread
      split_ifs at hbody
      all_goals omega

lemma Reaches.lengthFits {m : Method} {e : String} (h : Reaches std req m e parsed body) (hm : req.method = .post) :
    LengthFits std req :=
  lengthFits_iff.mpr ⟨_, h.body_eq (h.method_eq.symm.trans hm)⟩

/-- Group, URL and body of an authenticated request are its own. -/
lemma Authenticated.unique {g g' : String} {parsed' : ParsedUrl} {body' : Bytes}
    (h : Authenticated std req g parsed body c) (h' : Authenticated std req g' parsed' body' c) :
    g' = g ∧ parsed' = parsed ∧ body' = body := by
  obtain ⟨-, -, hparsed, hbody⟩ := h'.reaches.unique h.reaches
  have hgroup := (authed_eq_some.mp h'.authed).1.symm.trans (authed_eq_some.mp h.authed).1
  refine ⟨Option.some.inj hgroup, hparsed, ?_⟩
  cases hm : req.method with
  | get => rw [h'.ignored hm, h.ignored hm]
  | post => exact hbody hm

lemma fits_pair_iff (h : Reaches std req .post "/v1/pair" parsed body) :
    Fits std req c ↔ PairFits std body c.tables := by
  refine ⟨fun hf => hf.pair parsed body h, fun hf => ⟨h.lengthFits, fun parsed' body' h' => ?_,
    fun _ _ _ _ h' => ?_, fun _ _ _ hget => ?_⟩⟩
  · obtain ⟨-, -, -, hbody⟩ := h.unique h'
    exact hbody rfl ▸ hf
  · exact absurd (h.unique h'.reaches).2.1 (by decide)
  · exact nomatch hget.symm.trans h.method_eq

lemma Authenticated.not_pair {g : String} (h : Authenticated std req g parsed body c)
    (parsed' : ParsedUrl) (body' : Bytes) : ¬ Reaches std req .post "/v1/pair" parsed' body' :=
  fun h' => absurd (h'.unique h.reaches).2.1 (by decide)

lemma fits_push_iff {g : String} (hm : req.method = .post)
    (h : Authenticated std req g parsed body c) : Fits std req c ↔ PushFits std g body c := by
  refine ⟨fun hf => hf.push g parsed body hm h, fun hf => ⟨h.reaches.lengthFits,
    fun _ _ h' => (h.not_pair _ _ h').elim, fun g' parsed' body' _ h' => ?_, fun _ _ _ hget => (nomatch hget.symm.trans hm)⟩⟩
  obtain ⟨rfl, rfl, rfl⟩ := h.unique h'
  exact hf

lemma fits_pull_iff {g : String} (hm : req.method = .get)
    (h : Authenticated std req g parsed body c) : Fits std req c ↔ PullFits std parsed := by
  refine ⟨fun hf => hf.pull g parsed body hm h, fun hf => ⟨h.reaches.lengthFits,
    fun _ _ h' => (h.not_pair _ _ h').elim, fun _ _ _ hpost => (nomatch hpost.symm.trans hm), fun g' parsed' body' _ h' => ?_⟩⟩
  obtain ⟨rfl, rfl, rfl⟩ := h.unique h'
  exact hf

/-- A body that is too large is answered without being looked at. -/
lemma large_responds (hm : req.method = .post) (hu : std.urlparse req.target = .ok parsed)
    (hb : readBody std req = .ok none) : Responds std req c ∧ Fits std req c := by
  have hnever : ∀ {e p b}, ¬ Reaches std req .post e p b :=
    fun h' => nomatch (h'.body_eq rfl).symm.trans hb
  have hanswer : (handle std req c).1 = .ok (sendError 413 "request too large") := by
    rw [handle_eq, route_large hm hu hb]
    rfl
  constructor
  · exact ⟨⟨_, hanswer⟩, fun _ _ _ h' => (hnever h').elim, fun _ _ _ _ h' => (hnever h').elim⟩
  · exact ⟨fun _ => lengthFits_iff.mpr ⟨_, hb⟩, fun _ _ h' => (hnever h').elim,
      fun _ _ _ _ h' => (hnever (hm ▸ h'.reaches)).elim, fun _ _ _ hget => (nomatch hget.symm.trans hm)⟩

/-- A length that `_read_body` raises on drops the request. -/
lemma unread_dropped (hm : req.method = .post) {e : PyError} (hb : readBody std req = .error e) :
    ¬ Responds std req c ∧ ¬ Fits std req c := by
  have hnone : ¬ ∃ body, readBody std req = .ok body := by
    rintro ⟨body, hbody⟩
    cases hb.symm.trans hbody
  constructor
  · intro hresp
    obtain ⟨resp, hanswer⟩ := hresp.answered
    rw [handle_eq] at hanswer
    cases hroute : (route std req c).1 with
    | error e =>
      rw [hroute] at hanswer
      cases hanswer
    | ok action =>
      obtain ⟨parsed, -, body, hbody, -⟩ := (route_post_iff hm).mp hroute
      exact hnone ⟨body, hbody⟩
  · exact fun hf => hnone (lengthFits_iff.mp (hf.length hm))

lemma responds_iff_fits (hint : ∀ s e, std.intOfStr s = .error e → e = .valueError)
    (h : Covered std req c) : Responds std req c ↔ Fits std req c := by
  cases h with
  | pair h => rw [pair_responds_iff h, fits_pair_iff h]
  | records h =>
    cases hm : req.method with
    | post => rw [push_responds_iff hm h, fits_push_iff hm h]
    | get => rw [pull_responds_iff hint hm h, fits_pull_iff hm h]
  | large hm hu hp hb =>
    obtain ⟨hresponds, hfits⟩ := @large_responds std req _ c hm hu hb
    exact iff_of_true hresponds hfits
  | unread hm hu hp hb =>
    obtain ⟨hresponds, hfits⟩ := @unread_dropped std req c hm _ hb
    exact iff_of_false hresponds hfits

/-- In every reachable state a covered request is answered as it should be exactly if
it fits. -/
theorem responds_iff (std : Stdlib) (hint : ∀ s e, std.intOfStr s = .error e → e = .valueError)
    (before : List Request) (req : Request)
    (h : Covered std req ((server std).final before initSchema)) :
    Responds std req ((server std).final before initSchema) ↔
      Fits std req ((server std).final before initSchema) :=
  responds_iff_fits hint h

end

lemma sample_intOfStr {s : PyStr} {e : PyError} (h : Stdlib.sample.intOfStr s = .error e) :
    e = .valueError := by
  have hnat : ∀ cs e, decimalNat cs = .error e → e = .valueError := by
    intro cs e h
    unfold decimalNat at h
    split_ifs at h
    cases h
    rfl
  change decimalInt s = .error e at h
  unfold decimalInt at h
  cases hs : s.scalars with
  | none =>
    rw [hs] at h
    cases h
    rfl
  | some cs =>
    simp only [hs] at h
    split_ifs at h
    · cases hn : decimalNat cs.tail with
      | ok i =>
        rw [hn] at h
        cases h
      | error e' =>
        rw [hn] at h
        cases h
        exact hnat _ _ hn
    · exact hnat _ _ h

theorem samplePair_responds_iff :
    Responds .sample samplePair ((server .sample).final [] initSchema) ↔
      Fits .sample samplePair ((server .sample).final [] initSchema) := by
  obtain ⟨parsed, body, -, hr, -⟩ := samplePair_pairOf
  exact responds_iff .sample (fun _ _ => sample_intOfStr) [] samplePair (.pair hr)

theorem sampleNull_dropped :
    Covered .sample sampleNull ((server .sample).final [] initSchema) ∧
      ¬ Responds .sample sampleNull ((server .sample).final [] initSchema) := by
  obtain ⟨parsed, body, payload, hr, hp, -⟩ := sampleNull_pairOf
  refine ⟨.pair hr, fun hresp => ?_⟩
  obtain ⟨hl, hg, ha⟩ := pairPayload_eq_ok.mp hp
  obtain ⟨_, hash, -, hnull, -⟩ := (pair_responds_iff hr).mp hresp payload _ _ hl hg ha
  cases hnull

end T3dmium
