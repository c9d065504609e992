import T3dmium.Rebase

/-! What a pull makes of an accepted record: columns of SQLite have types of their own. -/
namespace T3dmium

/-- Both objects have the field, with one value. -/
def SameField (field : String) (r x : Json) : Prop :=
  ∃ v, r.getItem field = .ok v ∧ x.getItem field = .ok v

/-- `x` has the values of `r`; a field `r` may leave out is free then. -/
structure Unaltered (r x : Json) : Prop where
  required : ∀ field ∈ recordFields, SameField field r x
  optional : ∀ field ∈ ["tombstone", "alg"], (∃ v, r.getItem field = .ok v) → SameField field r x

/-- The field, where it is present, holds a text. -/
def HoldsText (r : Json) (field : String) : Prop := ∀ v, r.getItem field = .ok v → ∃ s, v = .str s

/-- The types of the wire format. -/
structure WireTyped (r : Json) : Prop where
  texts : ∀ field ∈ ["collection", "id", "nonce", "ciphertext", "alg"], HoldsText r field
  version : ∀ v, r.getItem "version" = .ok v → ∃ i, v = .int i
  tombstone : ∀ v, r.getItem "tombstone" = .ok v → ∃ b, v = .bool b

/-- A push has accepted a record, the server goes on to other requests and a pull follows. -/
structure Deposit (std : Stdlib) where
  conn : Conn Tables
  slot : Slot
  before : List Json
  record : Json
  after : List Json
  soFar : Tables × PushResult
  key : RecordKey
  row : RecordRow
  answer : PushResult
  afterPush : Conn Tables
  beforePull : Conn Tables
  filter : Option String
  since : ℤ

namespace Deposit
variable {std : Stdlib} (e : Deposit std)

structure Proper : Prop where
  answered : upsertRecords std e.slot.groupId (e.before ++ e.record :: e.after) e.conn =
    (.ok e.answer, e.afterPush)
  /-- where the loop comes to the record, it accepts it -/
  reached : e.before.foldlM (pushRecord std e.slot.groupId)
    (e.conn.tables, startResult e.slot.groupId e.conn.tables) = .ok e.soFar
  accepted : verdict std e.slot.groupId e.soFar e.record = .ok (.accept e.key e.row)
  names : NamesSlot std e.key.coll e.key.rid e.slot
  /-- the push itself has accepted no later write: those carry higher versions -/
  last : ∀ a ∈ e.answer.accepted, NamesSlot std a.collection a.recordId e.slot → a.version ≤ e.key.ver
  /-- nor have the requests in between -/
  unwritten : Later std (fun req c => ¬ WritesSlot std e.slot req c) e.afterPush e.beforePull
  filtered : admits e.filter e.slot.collection = true
  since : IsInt64 e.since ∧ e.since < e.row.seq

/-- The pull answers with a record that has the values pushed. -/
def Returned : Prop :=
  ∃ result, (queryRecords e.slot.groupId e.filter e.since e.beforePull).1 = .ok result ∧
    ∃ x ∈ result.records, Unaltered e.record x.toJson

end Deposit

section
variable {std : Stdlib}

/-- A row stays in its slot for the rest of a batch, unless something above it is accepted. -/
lemma batch_keeps {g : String} {records : List Json} {p p' : Tables × PushResult}
    (h : records.foldlM (pushRecord std g) p = .ok p') {slot : Slot} {row : RecordRow}
    (hfind : p.1.records.find slot = some row) :
    p'.1.records.find slot = some row ∨
      ∃ a ∈ p'.2.accepted, NamesSlot std a.collection a.recordId slot ∧ row.version < a.version := by
  refine (batch_slot h slot).imp (fun hsame => hsame.trans hfind) ?_
  rintro ⟨-, a, ha, hn, hbeats⟩
  exact ⟨a, ha, hn, hbeats row hfind⟩

namespace Deposit.Proper
variable {e : Deposit std}

lemma decides (he : e.Proper) : Decides std e.slot.groupId e.record e.soFar (.accept e.key e.row) :=
  verdict_eq_ok.mp he.accepted

/-- The row the push has written, as it is found before the pull. -/
lemma stored (he : e.Proper) : readKey std e.record = .ok e.key ∧ e.row.ReadFrom std e.record ∧
    e.row.slot = e.slot ∧ e.beforePull.tables.records.find e.slot = some e.row := by
  obtain ⟨-, hidle, hpush⟩ := upsertRecords_eq_ok.mp he.answered
  obtain ⟨t1, hfold, ht1⟩ := pushBatch_eq_ok.mp hpush
  have hdecides := he.decides
  cases hdecides with
  | accept hk hr hg hseq hold =>
    have hslot : e.row.slot = e.slot := he.names.eq hg (hr.names hk)
    have hput : ((Verdict.accept e.key e.row).apply e.soFar).1.records.find e.slot = some e.row :=
      (find_putRecord _ _ _).trans (if_pos hslot)
    rw [List.foldlM_append, he.reached] at hfold
    have hfold : (e.record :: e.after).foldlM (pushRecord std e.slot.groupId) e.soFar =
      .ok (t1, e.answer) := hfold
    rw [List.foldlM_cons] at hfold
    obtain ⟨q, hq, hrest⟩ := bind_eq_ok.mp hfold
    obtain rfl : (Verdict.accept e.key e.row).apply e.soFar = q := by
      obtain ⟨v, hv, rfl⟩ := pushRecord_eq_ok.mp hq
      rw [Except.ok.inj (he.accepted.symm.trans (verdict_eq_ok.mpr hv))]
    have hafter : e.afterPush.tables.records.find e.slot = some e.row := by
      rw [ht1]
      rcases batch_keeps hrest hput with hfind | ⟨a, ha, hna, hlt⟩
      · exact hfind
      · have hle := he.last a ha hna
        rw [hr.key_version hk] at hle
        exact absurd hle (not_le.mpr hlt)
    refine ⟨hk, hr, hslot, ?_⟩
    exact (Later.invariant (fun t => t.records.find e.slot = some e.row)
      (fun req c hno hs hfind => (handle_keepsSlot hs hno).trans hfind) he.unwritten
      hidle.settled hafter).2

end Deposit.Proper

/-! The values of a row -/

lemma getItem_of_textField {r : Json} {field t : String} (h : TextField std r field t)
    (htext : HoldsText r field) : r.getItem field = .ok (.text t) := by
  obtain ⟨v, hv, hbind⟩ := bind_eq_ok.mp h
  obtain ⟨s, rfl⟩ := htext v hv
  obtain ⟨_, rfl, ht⟩ := bindText_str hbind
  cases ht
  exact hv

lemma get_of_getItem {r v default : Json} {field : String} (h : r.getItem field = .ok v) :
    r.get field default = .ok v := by
  cases r with
  | dict items =>
    cases hl : items.lookup (.ofString field) with
    | none => simp [Json.getItem, hl] at h
    | some w =>
      simp only [Json.getItem, hl, Except.ok.injEq] at h
      simp [Json.get, hl, h]
  | _ => cases h

lemma pulled_getItem (row : RecordRow) :
    row.pulled.toJson.getItem "collection" = .ok (.text row.collection) ∧
      row.pulled.toJson.getItem "id" = .ok (.text row.recordId) ∧
      row.pulled.toJson.getItem "nonce" = .ok (.text row.nonce) ∧
      row.pulled.toJson.getItem "ciphertext" = .ok (.text row.ciphertext) ∧
      row.pulled.toJson.getItem "version" = .ok (.int row.version) ∧
      row.pulled.toJson.getItem "tombstone" = .ok (.bool (row.tombstone != 0)) ∧
      row.pulled.toJson.getItem "alg" = .ok (.text row.alg) := by
  simp [PulledRecord.toJson, RecordRow.pulled, List.lookup]

/-- The row of a record with the types of the wire format is pulled as it was pushed. -/
lemma RecordRow.ReadFrom.unaltered {r : Json} {row : RecordRow} (h : row.ReadFrom std r)
    (htyped : WireTyped r) : Unaltered r row.pulled.toJson := by
  obtain ⟨hc, hi, hn, hct, hv, ht, ha⟩ := pulled_getItem row
  have htext : ∀ {field t}, field ∈ ["collection", "id", "nonce", "ciphertext", "alg"] →
      TextField std r field t → row.pulled.toJson.getItem field = .ok (.text t) →
      SameField field r row.pulled.toJson := fun hmem hfield hx =>
    ⟨_, getItem_of_textField hfield (htyped.texts _ hmem), hx⟩
  constructor
  · intro field hmem
    simp only [recordFields, List.mem_cons, List.not_mem_nil, or_false] at hmem
    obtain rfl | rfl | rfl | rfl | rfl := hmem
    · exact htext (by decide) h.collection hc
    · exact htext (by decide) h.recordId hi
    · exact htext (by decide) h.nonce hn
    · exact htext (by decide) h.ciphertext hct
    · obtain ⟨v, hget, hint⟩ := bind_eq_ok.mp h.version
      obtain ⟨i, rfl⟩ := htyped.version v hget
      obtain rfl : i = row.version := Except.ok.inj hint
      exact ⟨_, hget, hv⟩
  · rintro field hmem ⟨v, hget⟩
    simp only [List.mem_cons, List.not_mem_nil, or_false] at hmem
    obtain rfl | rfl := hmem
    · obtain ⟨b, rfl⟩ := htyped.tombstone v hget
      have hmark := h.tombstone
      rw [get_of_getItem hget] at hmark
      have hrow : (if b then (1 : ℤ) else 0) = row.tombstone := Except.ok.inj hmark
      refine ⟨_, hget, ht.trans ?_⟩
      rw [← hrow]
      cases b <;> rfl
    · have halg := h.alg
      rw [get_of_getItem hget] at halg
      have hfield : TextField std r "alg" row.alg := by
        rw [TextField, hget]
        exact halg
      exact htext (by decide) hfield ha

/-- What is pulled has the types of the wire format. -/
lemma Unaltered.wireTyped {r : Json} {row : RecordRow} (h : Unaltered r row.pulled.toJson) :
    WireTyped r := by
  obtain ⟨hc, hi, hn, hct, hv, ht, ha⟩ := pulled_getItem row
  have htext : ∀ {field t}, SameField field r row.pulled.toJson →
      row.pulled.toJson.getItem field = .ok (.text t) → HoldsText r field := by
    rintro field t ⟨w, hr, hx⟩ hpulled v hget
    obtain rfl : v = w := Except.ok.inj (hget.symm.trans hr)
    exact ⟨_, Except.ok.inj (hx.symm.trans hpulled)⟩
  constructor
  · intro field hmem
    simp only [List.mem_cons, List.not_mem_nil, or_false] at hmem
    obtain rfl | rfl | rfl | rfl | rfl := hmem
    · exact htext (h.required _ (by decide)) hc
    · exact htext (h.required _ (by decide)) hi
    · exact htext (h.required _ (by decide)) hn
    · exact htext (h.required _ (by decide)) hct
    · intro v hget
      exact htext (h.optional _ (by decide) ⟨v, hget⟩) ha v hget
  · intro v hget
    obtain ⟨w, hr, hx⟩ := h.required "version" (by decide)
    obtain rfl : v = w := Except.ok.inj (hget.symm.trans hr)
    exact ⟨_, Except.ok.inj (hx.symm.trans hv)⟩
  · intro v hget
    obtain ⟨w, hr, hx⟩ := h.optional "tombstone" (by decide) ⟨v, hget⟩
    obtain rfl : v = w := Except.ok.inj (hget.symm.trans hr)
    exact ⟨_, Except.ok.inj (hx.symm.trans ht)⟩

namespace Deposit
variable {e : Deposit std}

lemma Returned.wireTyped (h : e.Returned) : WireTyped e.record := by
  obtain ⟨result, hquery, x, hx, hsame⟩ := h
  rw [queryRecords_apply] at hquery
  obtain ⟨rows, -, hresult⟩ := bind_eq_ok.mp hquery
  cases hresult
  obtain ⟨row, -, rfl⟩ := List.mem_map.mp hx
  exact hsame.wireTyped

lemma Proper.returned (he : e.Proper) (htyped : WireTyped e.record) : e.Returned := by
  obtain ⟨-, hread, hslot, hfind⟩ := he.stored
  obtain ⟨result, hresult⟩ : ∃ result, pullRecords e.slot.groupId e.filter e.since
      e.beforePull.tables = .ok result :=
    ⟨_, by rw [pullRecords, selectRecords, bindInt, if_pos he.since.1]; rfl⟩
  have hmem : e.row.pulled ∈ result.records := by
    rw [mem_pullRecords hresult]
    have hplace : (⟨e.slot.groupId, e.row.collection, e.row.recordId⟩ : Slot) = e.slot := by
      rw [← hslot]
      rfl
    have hadmits : admits e.filter e.row.collection = true := by
      have hfiltered := he.filtered
      rwa [← hslot] at hfiltered
    refine ⟨?_, he.since.2⟩
    change (if admits e.filter e.row.collection = true then (e.beforePull.tables.records.find
      ⟨e.slot.groupId, e.row.collection, e.row.recordId⟩).map RecordRow.pulled else none) = _
    rw [if_pos hadmits, hplace, hfind]
    rfl
  refine ⟨result, ?_, e.row.pulled, hmem, hread.unaltered htyped⟩
  rw [queryRecords_apply]
  exact hresult

end Deposit

/-- An accepted record is pulled unaltered iff it has the types of the wire format. -/
theorem returned_iff (std : Stdlib) (e : Deposit std) (he : e.Proper) :
    e.Returned ↔ WireTyped e.record :=
  ⟨Deposit.Returned.wireTyped, he.returned⟩

end

/-! A sample record, pushed and pulled alone -/

def sampleStored (version mark : Json) : Json :=
  .object [("collection", .text "bookmarks"), ("id", .text "bm-1"), ("nonce", .text "bg"),
    ("ciphertext", .text "Y3Q"), ("version", version), ("tombstone", mark)]

/-- `stored` is what `int(version)` makes of the version. -/
def sampleDeposit (version mark : Json) (stored : ℤ) : Deposit .sample :=
  let start := startResult "g" sampleStore.tables
  let key : RecordKey := ⟨.text "bookmarks", .text "bm-1", stored⟩
  let row : RecordRow :=
    ⟨"g", "bookmarks", "bm-1", "bg", "Y3Q", stored, if mark.truthy then 1 else 0, "unknown",
      start.serverSeq + 1⟩
  let after : Conn Tables :=
    ⟨updateSeq "g" (start.accept key).serverSeq (putRecord row sampleStore.tables), none⟩
  { conn := sampleStore
    slot := sampleSlot
    before := []
    record := sampleStored version mark
    after := []
    soFar := (sampleStore.tables, start)
    key := key
    row := row
    answer := start.accept key
    afterPush := after
    beforePull := after
    filter := none
    since := 0 }

lemma sampleDeposit_proper {version mark : Json} {stored : ℤ}
    (hint : Stdlib.sample.int version = .ok stored) (h64 : IsInt64 stored) :
    (sampleDeposit version mark stored).Proper := by
  obtain ⟨hidle, hempty, -⟩ := sampleStore_group
  have hkey : readKey .sample (sampleStored version mark) =
      .ok (sampleDeposit version mark stored).key := by
    simp [readKey, sampleStored, sampleDeposit, List.lookup, bind, Except.bind, hint]
  have hread : (sampleDeposit version mark stored).row.ReadFrom .sample (sampleStored version mark) := by
    constructor
    case int64 => exact h64
    all_goals simp [TextField, sampleStored, sampleDeposit, List.lookup, bind, Except.bind, Except.map, hint]
  have hdecides : Decides .sample "g" (sampleStored version mark)
      (sampleDeposit version mark stored).soFar
      (.accept (sampleDeposit version mark stored).key (sampleDeposit version mark stored).row) := by
    refine .accept hkey hread rfl rfl fun old hold => ?_
    change sampleStore.tables.records.find _ = some old at hold
    rw [hempty] at hold
    cases hold
  have hpush : pushRecord .sample "g" (sampleDeposit version mark stored).soFar
      (sampleStored version mark) = .ok _ := pushRecord_eq_ok.mpr ⟨_, hdecides, rfl⟩
  exact {
    answered := by
      refine upsertRecords_eq_ok.mpr ⟨hidle, rfl, pushBatch_eq_ok.mpr ⟨_, ?_, rfl⟩⟩
      change [sampleStored version mark].foldlM _ _ = _
      rw [List.foldlM_cons]
      exact bind_eq_ok.mpr ⟨_, hpush, rfl⟩
    reached := rfl
    accepted := verdict_eq_ok.mpr hdecides
    names := ⟨bindText_text _ _, bindText_text _ _⟩
    last := fun a ha _ => by
      obtain rfl := List.mem_singleton.mp ha
      exact le_refl stored
    unwritten := .refl
    filtered := rfl
    since := ⟨by change IsInt64 0; decide, Int.natCast_pos.mpr (Nat.succ_pos _)⟩ }

theorem sampleDeposit_returned : (sampleDeposit (.int 1) (.bool false) 1).Returned := by
  refine (returned_iff .sample _ (sampleDeposit_proper rfl (by decide))).mpr ⟨?_, ?_, ?_⟩
  · intro field hmem v hget
    simp only [List.mem_cons, List.not_mem_nil, or_false] at hmem
    obtain rfl | rfl | rfl | rfl | rfl := hmem
    all_goals simp [sampleDeposit, sampleStored, List.lookup, Json.text] at hget
    all_goals exact ⟨_, hget.symm⟩
  · intro v hget
    obtain rfl : Json.int 1 = v := Except.ok.inj hget
    exact ⟨1, rfl⟩
  · intro v hget
    obtain rfl : Json.bool false = v := Except.ok.inj hget
    exact ⟨false, rfl⟩

/-- Version 2.5 comes back as 2, and the mark `"false"` as a deletion. -/
theorem sampleDeposit_altered :
    (sampleDeposit (.float (.finite false 5 (-1))) (.text "false") 2).Proper ∧
      ¬ (sampleDeposit (.float (.finite false 5 (-1))) (.text "false") 2).Returned := by
  refine ⟨sampleDeposit_proper rfl (by decide), fun h => ?_⟩
  obtain ⟨i, hi⟩ := h.wireTyped.version (.float (.finite false 5 (-1))) rfl
  cases hi

end T3dmium
