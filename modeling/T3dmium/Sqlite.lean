import T3dmium.PyValue

/-! A SQLite connection as Python's `sqlite3` drives it in its default mode: a
write outside a transaction opens one before its parameters are bound, and the
transaction outlives an exception until somebody commits or rolls back. -/
namespace T3dmium

/-- `undo` holds what a rollback returns to while a transaction is open. -/
structure Conn (τ : Type) where
  tables : τ
  undo : Option τ

namespace Conn
variable {τ : Type}

/-- The tables as the rest of the world sees them. -/
def durable (c : Conn τ) : τ := c.undo.getD c.tables

/-- No transaction is open. -/
def Idle (c : Conn τ) : Prop := c.undo = none

/-- A transaction may be open, but nothing in it is pending. -/
def Settled (c : Conn τ) : Prop := ∀ t, c.undo = some t → t = c.tables

lemma Idle.settled {c : Conn τ} (h : c.Idle) : c.Settled := by
  intro t ht
  rw [h] at ht
  cases ht

lemma Settled.durable {c : Conn τ} (h : c.Settled) : c.durable = c.tables := by
  unfold Conn.durable
  cases hu : c.undo with
  | none => rfl
  | some t => exact h t hu

/-- The implicit `BEGIN`. -/
def opened (c : Conn τ) : Conn τ := { c with undo := some c.durable }

lemma Settled.opened {c : Conn τ} (h : c.Settled) : c.opened.Settled := by
  intro t ht
  cases ht
  exact h.durable

def rolledBack (c : Conn τ) : Conn τ := ⟨c.durable, none⟩

lemma Settled.rolledBack {c : Conn τ} (h : c.Settled) : c.rolledBack = ⟨c.tables, none⟩ := by
  rw [Conn.rolledBack, h.durable]

end Conn

/-- Code that runs on a connection. What it did stays done when it raises. -/
def Sql (τ α : Type) := Conn τ → Except PyError α × Conn τ

namespace Sql
variable {τ α β : Type}

instance : Monad (Sql τ) where
  pure a := fun c => (.ok a, c)
  bind x f := fun c =>
    match x c with
    | (.ok a, c') => f a c'
    | (.error e, c') => (.error e, c')

@[simp] lemma pure_apply (a : α) (c : Conn τ) : (pure a : Sql τ α) c = (.ok a, c) := rfl

lemma bind_apply (x : Sql τ α) (f : α → Sql τ β) (c : Conn τ) :
    (x >>= f) c =
      match x c with
      | (.ok a, c') => f a c'
      | (.error e, c') => (.error e, c') := rfl

lemma bind_ok {x : Sql τ α} {f : α → Sql τ β} {c c' : Conn τ} {a : α} (h : x c = (.ok a, c')) :
    (x >>= f) c = f a c' := by
  rw [bind_apply, h]

lemma bind_error {x : Sql τ α} {f : α → Sql τ β} {c c' : Conn τ} {e : PyError}
    (h : x c = (.error e, c')) : (x >>= f) c = (.error e, c') := by
  rw [bind_apply, h]

/-- A step that does not touch the connection. -/
def lift (r : Except PyError α) : Sql τ α := fun c => (r, c)

@[simp] lemma lift_apply (r : Except PyError α) (c : Conn τ) : lift r c = (r, c) := rfl

/-- A `SELECT` never opens a transaction. -/
def select (q : τ → Except PyError α) : Sql τ α := fun c => (q c.tables, c)

@[simp] lemma select_apply (q : τ → Except PyError α) (c : Conn τ) :
    select q c = (q c.tables, c) := rfl

/-- `INSERT` and `UPDATE`: a statement that raises has changed nothing but the
transaction flag. -/
def dml (f : τ → Except PyError τ) : Sql τ Unit := fun c =>
  match f c.tables with
  | .ok t => (.ok (), { c.opened with tables := t })
  | .error e => (.error e, c.opened)

lemma dml_ok {f : τ → Except PyError τ} {c : Conn τ} {t : τ} (h : f c.tables = .ok t) :
    dml f c = (.ok (), { c.opened with tables := t }) := by
  simp [dml, h]

lemma dml_error {f : τ → Except PyError τ} {c : Conn τ} {e : PyError}
    (h : f c.tables = .error e) : dml f c = (.error e, c.opened) := by
  simp [dml, h]

/-- `execute("BEGIN")` inside a transaction raises. -/
def begin : Sql τ Unit := fun c =>
  match c.undo with
  | none => (.ok (), c.opened)
  | some _ => (.error .operationalError, c)

@[simp] lemma begin_idle (t : τ) : begin (⟨t, none⟩ : Conn τ) = (.ok (), ⟨t, some t⟩) := rfl

@[simp] lemma begin_open (t u : τ) :
    begin (⟨t, some u⟩ : Conn τ) = (.error .operationalError, ⟨t, some u⟩) := rfl

def commit : Sql τ Unit := fun c => (.ok (), { c with undo := none })

@[simp] lemma commit_apply (c : Conn τ) : commit c = (.ok (), { c with undo := none }) := rfl

/-- `try: x` / `except Exception: rollback(); raise` -/
def orRollback (x : Sql τ α) : Sql τ α := fun c =>
  match x c with
  | (.ok a, c') => (.ok a, c')
  | (.error e, c') => (.error e, c'.rolledBack)

/-! Reading code -/

/-- `x` leaves the connection as it is, whatever comes of it. -/
def ReadOnly (x : Sql τ α) : Prop := ∀ c, (x c).2 = c

lemma readOnly_pure (a : α) : ReadOnly (pure a : Sql τ α) := fun _ => rfl

lemma readOnly_lift (r : Except PyError α) : ReadOnly (lift r : Sql τ α) := fun _ => rfl

lemma ReadOnly.eq {x : Sql τ α} (h : ReadOnly x) (c : Conn τ) : x c = ((x c).1, c) :=
  Prod.ext rfl (h c)

lemma ReadOnly.bind {x : Sql τ α} {f : α → Sql τ β} (hx : ReadOnly x) (hf : ∀ a, ReadOnly (f a)) :
    ReadOnly (x >>= f) := by
  intro c
  rw [bind_apply, hx.eq c]
  cases (x c).1 with
  | ok a => exact hf a c
  | error e => rfl

lemma ReadOnly.bind_fst_ok {x : Sql τ α} {f : α → Sql τ β} (hx : ReadOnly x) {c : Conn τ} {b : β} :
    ((x >>= f) c).1 = .ok b ↔ ∃ a, (x c).1 = .ok a ∧ (f a c).1 = .ok b := by
  rw [bind_apply, hx.eq c]
  cases (x c).1 <;> simp

end Sql

/-! Values and columns -/

/-- What a statement parameter holds once bound. -/
inductive SqlValue
  | null
  | int (i : ℤ)
  | real (f : PyFloat)
  | text (s : String)
  deriving DecidableEq, Repr

/-- SQLite integers have 64 bits. -/
def IsInt64 (i : ℤ) : Prop := -2 ^ 63 ≤ i ∧ i < 2 ^ 63

instance (i : ℤ) : Decidable (IsInt64 i) := inferInstanceAs (Decidable (_ ∧ _))

def bindInt (i : ℤ) : Except PyError ℤ :=
  if IsInt64 i then .ok i else .error .overflowError

lemma bindInt_eq_ok {i j : ℤ} : bindInt i = .ok j ↔ IsInt64 i ∧ i = j := by
  unfold bindInt
  split_ifs with h <;> simp [h]

/-- Binding one parameter; a NaN is bound as `NULL`. -/
def bindValue : Json → Except PyError SqlValue
  | .null => .ok .null
  | .bool b => .ok (.int (if b then 1 else 0))
  | .int i => (bindInt i).map .int
  | .float .nan => .ok .null
  | .float f => .ok (.real f)
  | .str s =>
    match s.toText with
    | some t => .ok (.text t)
    | none => .error .unicodeEncodeError
  | .list _ => .error .interfaceError
  | .dict _ => .error .interfaceError

/-- TEXT affinity turns numbers into their decimal text; `none` is `NULL`. -/
def textAffinity (realText : PyFloat → String) : SqlValue → Option String
  | .null => none
  | .int i => some (toString i)
  | .real f => some (realText f)
  | .text s => some s

/-- A parameter bound to, or compared with, a TEXT column. -/
def bindText (realText : PyFloat → String) (v : Json) : Except PyError (Option String) :=
  (bindValue v).map (textAffinity realText)

@[simp] lemma bindText_text (realText : PyFloat → String) (s : String) :
    bindText realText (.text s) = .ok (some s) := by
  simp [bindText, bindValue, Json.text, Except.map, textAffinity]

/-- A string is stored as the text it is. -/
lemma bindText_str {realText : PyFloat → String} {s : PyStr} {x : Option String}
    (h : bindText realText (.str s) = .ok x) : ∃ t, s = .ofString t ∧ x = some t := by
  simp only [bindText, bindValue] at h
  cases hs : s.toText with
  | none =>
    rw [hs] at h
    cases h
  | some t =>
    rw [hs] at h
    exact ⟨t, PyStr.toText_eq_some.mp hs, (Except.ok.inj h).symm⟩

/-- A `NOT NULL` column. -/
def notNull {α : Type} : Option α → Except PyError α
  | some a => .ok a
  | none => .error .integrityError

@[simp] lemma notNull_eq_ok {α : Type} {x : Option α} {a : α} : notNull x = .ok a ↔ x = some a := by
  cases x <;> simp [notNull]

end T3dmium
