import T3dmium.StoreSteps
import T3dmium.Machine

/-! Last-writer-wins: after any pushes a slot holds the first record of greatest
version that was pushed to it, so the order of the records, their batches and
their senders do not matter unless two different records share slot and version. -/
namespace T3dmium

/-- A pushed record as the columns hold it. -/
structure Item where
  collection : String
  recordId : String
  nonce : String
  ciphertext : String
  version : ℤ
  tombstone : ℤ
  alg : String
  deriving DecidableEq

def Item.slot (x : Item) : String × String := (x.collection, x.recordId)

def RecordRow.item (r : RecordRow) : Item :=
  ⟨r.collection, r.recordId, r.nonce, r.ciphertext, r.version, r.tombstone, r.alg⟩

section
variable (std : Stdlib)

def itemOf (r : Json) : Except PyError Item := do
  let k ← readKey std r
  let row ← readRow std "" k r 0
  .ok row.item

/-- All fields are there, the texts can be stored and the version has 64 bits. -/
def WellFormed (r : Json) : Prop := ∃ x, itemOf std r = .ok x

def items (records : List Json) : List Item := records.filterMap fun r => (itemOf std r).toOption

/-- One device's push to the group. -/
def pushMachine (g : String) : Machine (Conn Tables) (List Json) (Except PyError PushResult) :=
  upsertRecords std g

/-- The first item of greatest version for a slot. -/
noncomputable def latest (xs : List Item) (slot : String × String) : Option Item :=
  (xs.filter fun x => x.slot = slot).argmax Item.version

/-- What a slot of the group holds. -/
def storedItem (g : String) (t : Tables) (slot : String × String) : Option Item :=
  (t.records.find ⟨g, slot.1, slot.2⟩).map RecordRow.item

end

section
variable {std : Stdlib}

lemma itemOf_eq_ok {r : Json} {x : Item} (h : itemOf std r = .ok x) (g : String) (n : ℕ) :
    ∃ (k : RecordKey) (row : RecordRow), readKey std r = .ok k ∧ row.ReadFrom std r ∧
      row.groupId = g ∧ row.seq = n ∧ row.item = x := by
  obtain ⟨k, hk, h⟩ := bind_eq_ok.mp h
  obtain ⟨row, hrow, h⟩ := bind_eq_ok.mp h
  obtain ⟨hr, -, -⟩ := (readRow_eq_ok hk).mp hrow
  exact ⟨k, _, hk, hr.renumber g n, rfl, rfl, Except.ok.inj h⟩

lemma itemOf_readFrom {r : Json} {k : RecordKey} {row : RecordRow} (hk : readKey std r = .ok k)
    (hr : row.ReadFrom std r) : itemOf std r = .ok row.item := by
  have hrow := (readRow_eq_ok hk).mpr ⟨hr.renumber "" 0, rfl, rfl⟩
  exact bind_eq_ok.mpr ⟨k, hk, bind_eq_ok.mpr ⟨_, hrow, rfl⟩⟩

/-- A slot keeps what it holds unless a strictly higher version arrives. -/
def keepLatest (old : Option Item) (x : Item) : Option Item :=
  match old with
  | none => some x
  | some y => if y.version < x.version then some x else some y

lemma latest_concat (xs : List Item) (x : Item) (slot : String × String) :
    latest (xs ++ [x]) slot =
      if x.slot = slot then keepLatest (latest xs slot) x else latest xs slot := by
  unfold latest
  rw [List.filter_append]
  by_cases h : x.slot = slot
  · rw [if_pos h, List.filter_cons_of_pos (by simpa using h), List.filter_nil, List.argmax_concat]
    cases (xs.filter fun x => x.slot = slot).argmax Item.version <;> rfl
  · rw [if_neg h, List.filter_cons_of_neg (by simpa using h), List.filter_nil, List.append_nil]

lemma pushRecord_item {g : String} {r : Json} {x : Item} (hx : itemOf std r = .ok x)
    (p : Tables × PushResult) :
    ∃ p', pushRecord std g p r = .ok p' ∧ ∀ slot, storedItem g p'.1 slot =
      if x.slot = slot then keepLatest (storedItem g p.1 slot) x else storedItem g p.1 slot := by
  obtain ⟨t, s⟩ := p
  obtain ⟨k, row, hk, hr, hg, hseq, rfl⟩ := itemOf_eq_ok hx g (s.serverSeq + 1)
  subst hg
  by_cases hold : ∀ old, t.records.find row.slot = some old → old.version < row.version
  · refine ⟨_, pushRecord_eq_ok.mpr ⟨_, .accept hk hr rfl hseq hold, rfl⟩, fun slot => ?_⟩
    have hslot : row.item.slot = slot ↔ row.slot = ⟨row.groupId, slot.1, slot.2⟩ := by
      simp [Item.slot, RecordRow.item, RecordRow.slot, Prod.ext_iff]
    simp only [Verdict.apply, storedItem, putRecord, KeyedTable.find_upsert, RecordRow.key,
      Option.some.injEq, hslot]
    split_ifs with he
    · rw [← he]
      cases hf : t.records.find row.slot with
      | none => rfl
      | some old => simp [keepLatest, RecordRow.item, hold old hf]
    · rfl
  · push Not at hold
    obtain ⟨old, hf, hv⟩ := hold
    obtain ⟨hmem, hkey⟩ := KeyedTable.find_eq_some.mp hf
    have hos : old.slot = row.slot := Option.some.inj hkey
    simp only [RecordRow.slot, Slot.mk.injEq] at hos
    have hn : k.Names std old := by
      obtain ⟨hc, hi⟩ := hr.names hk
      exact ⟨by rw [hos.2.1]; exact hc, by rw [hos.2.2]; exact hi⟩
    have hver : k.ver ≤ old.version := by rwa [hr.key_version hk]
    refine ⟨_, pushRecord_eq_ok.mpr ⟨_, .conflict hk hmem hos.1 hn hver, rfl⟩, fun slot => ?_⟩
    split_ifs with he
    · subst he
      have hst : storedItem row.groupId t row.item.slot = some old.item := by
        simp only [storedItem, Item.slot, RecordRow.item]
        change (t.records.find row.slot).map _ = _
        rw [hf]
        rfl
      have hnot : ¬ old.item.version < row.item.version := not_lt.mpr hv
      rw [hst, keepLatest, if_neg hnot]
      exact hst
    · rfl

lemma items_cons {r : Json} {x : Item} (hx : itemOf std r = .ok x) (records : List Json) :
    items std (r :: records) = x :: items std records := by
  simp [items, hx, Except.toOption]

@[simp] lemma items_append (rs rs' : List Json) :
    items std (rs ++ rs') = items std rs ++ items std rs' := by
  simp [items]

/-- The records pushed so far decide what every slot holds. -/
def Holds (g : String) (done : List Item) (t : Tables) : Prop :=
  ∀ slot, storedItem g t slot = latest done slot

lemma batch_holds {g : String} {records : List Json} (hwf : ∀ r ∈ records, WellFormed std r)
    {p : Tables × PushResult} {done : List Item} (hp : Holds g done p.1) :
    ∃ p', records.foldlM (pushRecord std g) p = .ok p' ∧ Holds g (done ++ items std records) p'.1 := by
  induction records generalizing p done with
  | nil => exact ⟨p, rfl, by simpa [items] using hp⟩
  | cons r records ih =>
    obtain ⟨x, hx⟩ := hwf r List.mem_cons_self
    obtain ⟨q, hq, hslot⟩ := pushRecord_item (g := g) hx p
    have hdone : Holds g (done ++ [x]) q.1 := fun slot => by
      rw [hslot, latest_concat, hp slot]
    obtain ⟨p', hp', hh⟩ := ih (fun r' hr' => hwf r' (List.mem_cons_of_mem _ hr')) hdone
    refine ⟨p', bind_eq_ok.mpr ⟨q, hq, hp'⟩, ?_⟩
    rw [items_cons hx]
    simpa using hh

/-- A push of well-formed records succeeds and adds them to what counts. -/
lemma upsertRecords_holds {g : String} {records : List Json}
    (hwf : ∀ r ∈ records, WellFormed std r) {t : Tables} {done : List Item}
    (ht : Holds g done t) :
    ∃ t', (upsertRecords std g records ⟨t, none⟩).2 = ⟨t', none⟩ ∧
      Holds g (done ++ items std records) t' := by
  obtain ⟨⟨t1, s⟩, hfold, hh⟩ := batch_holds hwf (p := (t, startResult g t)) ht
  have hb : pushBatch std g records t = .ok (updateSeq g s.serverSeq t1, s) :=
    pushBatch_eq_ok.mpr ⟨t1, hfold, rfl⟩
  exact ⟨updateSeq g s.serverSeq t1, by rw [upsertRecords_idle, hb], hh⟩

theorem pushes_hold {g : String} {batches : List (List Json)}
    (hwf : ∀ r ∈ batches.flatten, WellFormed std r) {t : Tables} {done : List Item}
    (ht : Holds g done t) :
    Holds g (done ++ items std batches.flatten) ((pushMachine std g).final batches ⟨t, none⟩).tables := by
  induction batches generalizing t done with
  | nil => simpa [items] using ht
  | cons records batches ih =>
    obtain ⟨t', ht', hh⟩ := upsertRecords_holds
      (fun r hr => hwf r (List.mem_append_left _ hr)) ht
    rw [Machine.final_cons, pushMachine, ht', ← pushMachine]
    have hrest := ih (fun r hr => hwf r (List.mem_append_right _ hr)) hh
    rw [List.flatten_cons, items_append, ← List.append_assoc]
    exact hrest

/-- Two records for one slot and version are the same record. -/
def SameContent (xs : List Item) : Prop :=
  ∀ x ∈ xs, ∀ y ∈ xs, x.slot = y.slot → x.version = y.version → x = y

lemma latest_eq_some {xs : List Item} {slot : String × String} {x : Item}
    (h : latest xs slot = some x) :
    x ∈ xs ∧ x.slot = slot ∧ ∀ y ∈ xs, y.slot = slot → y.version ≤ x.version := by
  obtain ⟨hmem, hmax, -⟩ := List.argmax_eq_some_iff.mp h
  obtain ⟨hx, hs⟩ := List.mem_filter.mp hmem
  refine ⟨hx, by simpa using hs, fun y hy hys => hmax y (List.mem_filter.mpr ⟨hy, by simpa using hys⟩)⟩

/-- Then the greatest version names one record, in whatever order they come. -/
lemma latest_perm {xs ys : List Item} (h : xs.Perm ys) (hsame : SameContent xs)
    (slot : String × String) : latest xs slot = latest ys slot := by
  cases hx : latest xs slot with
  | none =>
    have hnil : xs.filter (fun x => x.slot = slot) = [] := List.argmax_eq_none.mp hx
    have hperm := (h.filter fun x => x.slot = slot).symm
    rw [hnil] at hperm
    rw [latest, List.perm_nil.mp hperm]
    rfl
  | some x =>
    obtain ⟨hxm, hxs, hxmax⟩ := latest_eq_some hx
    cases hy : latest ys slot with
    | none =>
      have hnil : ys.filter (fun x => x.slot = slot) = [] := List.argmax_eq_none.mp hy
      have hmem : x ∈ ys.filter fun x => x.slot = slot :=
        List.mem_filter.mpr ⟨h.mem_iff.mp hxm, by simpa using hxs⟩
      rw [hnil] at hmem
      cases hmem
    | some y =>
      obtain ⟨hym, hys, hymax⟩ := latest_eq_some hy
      have hle := hxmax y (h.mem_iff.mpr hym) hys
      have hge := hymax x (h.mem_iff.mp hxm) hxs
      rw [hsame x hxm y (h.mem_iff.mpr hym) (hxs.trans hys.symm) (le_antisymm hge hle)]

lemma latest_append_of_le {xs ys : List Item} {slot : String × String} {x : Item}
    (hx : latest xs slot = some x) (hys : ∀ y ∈ ys, y.slot = slot → y.version ≤ x.version) :
    latest (xs ++ ys) slot = some x := by
  induction ys using List.reverseRecOn with
  | nil => simpa using hx
  | append_singleton ys y ih =>
    rw [← List.append_assoc, latest_concat, ih fun z hz => hys z (List.mem_append_left _ hz)]
    split_ifs with hs
    · have hle : ¬ x.version < y.version := not_lt.mpr (hys y (by simp) hs)
      simp [keepLatest, hle]
    · rfl

/-- The tables after pushing batch after batch to the group. -/
def afterPushes (std : Stdlib) (g : String) (t : Tables) (batches : List (List Json)) : Tables :=
  ((pushMachine std g).final batches ⟨t, none⟩).tables

/-- Last-writer-wins, for the pushes `batches` to the group `g`. -/
structure Converges (std : Stdlib) (g : String) (t : Tables) (batches : List (List Json)) :
    Prop where
  /-- every slot holds the first record of greatest version -/
  latest : ∀ slot, storedItem g (afterPushes std g t batches) slot =
    latest (items std batches.flatten) slot
  /-- another arrangement of the same records, pushed to another such group, leaves the
  same if records that share slot and version are the same -/
  arranged : SameContent (items std batches.flatten) →
    ∀ (u : Tables) (batches' : List (List Json)), (∀ slot, storedItem g u slot = none) →
      batches'.flatten.Perm batches.flatten → ∀ slot,
        storedItem g (afterPushes std g u batches') slot =
          storedItem g (afterPushes std g t batches) slot
  /-- what a slot holds, a tombstone too, stays until a strictly higher version -/
  kept : ∀ (more : List (List Json)) slot x, (∀ r ∈ more.flatten, WellFormed std r) →
    storedItem g (afterPushes std g t batches) slot = some x →
    (∀ y ∈ items std more.flatten, y.slot = slot → y.version ≤ x.version) →
    storedItem g (afterPushes std g t (batches ++ more)) slot = some x

/-- Well-formed pushes to a group without records converge. -/
theorem pushes_converge (std : Stdlib) (g : String) (t : Tables) (batches : List (List Json))
    (hnew : ∀ slot, storedItem g t slot = none)
    (hwf : ∀ r ∈ batches.flatten, WellFormed std r) : Converges std g t batches := by
  have hends : ∀ (u : Tables) (bs : List (List Json)), (∀ slot, storedItem g u slot = none) →
      (∀ r ∈ bs.flatten, WellFormed std r) →
      ∀ slot, storedItem g (afterPushes std g u bs) slot =
        T3dmium.latest (items std bs.flatten) slot := by
    intro u bs hu hbs slot
    have hstart : Holds g [] u := fun slot => by
      rw [hu]
      rfl
    have hh := pushes_hold hbs hstart slot
    rwa [List.nil_append] at hh
  refine ⟨hends t batches hnew hwf, ?_, ?_⟩
  · intro hsame u batches' hu hperm slot
    have hwf' : ∀ r ∈ batches'.flatten, WellFormed std r := fun r hr => hwf r (hperm.mem_iff.mp hr)
    have hitems : (items std batches'.flatten).Perm (items std batches.flatten) :=
      hperm.filterMap _
    rw [hends u batches' hu hwf', hends t batches hnew hwf]
    exact (latest_perm hitems.symm hsame slot).symm
  · intro more slot x hmore hx hle
    have hwf' : ∀ r ∈ (batches ++ more).flatten, WellFormed std r := by
      intro r hr
      rw [List.flatten_append] at hr
      exact (List.mem_append.mp hr).elim (hwf r) (hmore r)
    rw [hends t batches hnew hwf] at hx
    rw [hends t _ hnew hwf', List.flatten_append, items_append]
    exact latest_append_of_le hx hle

end

def sampleRecord (version : ℤ) (tombstone : Bool) : Json :=
  .object [("collection", .text "bookmarks"), ("id", .text "bm-1"), ("nonce", .text "bg"),
    ("ciphertext", .text "Y3Q"), ("version", .int version), ("tombstone", .bool tombstone)]

/-- Two versions of a record, and the first once more. -/
def sampleBatch : List Json := [sampleRecord 1 false, sampleRecord 2 false, sampleRecord 1 false]

/-- A deletion at version 2 and a late write at version 1, in one batch. -/
theorem sampleRecords_converge :
    Converges .sample "g" .empty [[sampleRecord 2 true, sampleRecord 1 false]] := by
  refine pushes_converge .sample "g" .empty _ (fun _ => rfl) fun r hr => ?_
  simp only [List.flatten_cons, List.flatten_nil, List.append_nil, List.mem_cons,
    List.not_mem_nil, or_false] at hr
  rcases hr with rfl | rfl
  · exact ⟨_, rfl⟩
  · exact ⟨_, rfl⟩

end T3dmium
