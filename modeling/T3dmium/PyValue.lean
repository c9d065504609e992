import Mathlib

/-! Python values that reach the modelled code: text that may hold lone
surrogates, the values `json.loads` returns, and the exception classes. Every
built-in the code applies to such a value has one definition here. -/
namespace T3dmium

abbrev Bytes := List UInt8

/-- The exception classes the modelled code can raise. -/
inductive PyError
  | typeError
  | keyError
  | valueError
  | attributeError
  | overflowError
  | unicodeEncodeError
  | structError
  | integrityError
  | interfaceError
  | operationalError
  deriving DecidableEq, Repr

/-- A code point of a `str`: a Unicode scalar value or a lone surrogate. -/
inductive PyChar
  | scalar (c : Char)
  | surrogate (s : Fin 2048)
  deriving DecidableEq, Repr

/-- What a sequence of fallible steps went through to succeed. -/
lemma bind_eq_ok {ε α β : Type} {x : Except ε α} {f : α → Except ε β} {b : β} :
    (x >>= f) = .ok b ↔ ∃ a, x = .ok a ∧ f a = .ok b := by
  cases x <;> simp [bind, Except.bind]

lemma bind_eq_error {ε α β : Type} {x : Except ε α} {f : α → Except ε β} {e : ε} :
    (x >>= f) = .error e ↔ x = .error e ∨ ∃ a, x = .ok a ∧ f a = .error e := by
  cases x <;> simp [bind, Except.bind]

abbrev PyStr := List PyChar

namespace PyStr

def ofString (s : String) : PyStr := s.toList.map .scalar

/-- The characters of a text without lone surrogates. -/
def scalars : PyStr → Option (List Char)
  | [] => some []
  | .scalar c :: s => (scalars s).map (c :: ·)
  | .surrogate _ :: _ => none

/-- What UTF-8 can encode, hence what SQLite can store as TEXT. -/
def toText (s : PyStr) : Option String := s.scalars.map String.ofList

lemma scalars_map_scalar (cs : List Char) : scalars (cs.map .scalar) = some cs := by
  induction cs with
  | nil => rfl
  | cons c cs ih => simp [scalars, ih]

lemma scalars_eq_some {s : PyStr} {cs : List Char} :
    scalars s = some cs ↔ s = cs.map .scalar := by
  induction s generalizing cs with
  | nil => cases cs <;> simp [scalars]
  | cons x s ih =>
    cases x with
    | scalar c => cases cs <;> simp [scalars, ih, and_comm]
    | surrogate u => cases cs <;> simp [scalars]

@[simp] lemma toText_ofString (s : String) : toText (ofString s) = some s := by
  simp [toText, ofString, scalars_map_scalar]

lemma toText_eq_some {s : PyStr} {t : String} : toText s = some t ↔ s = ofString t := by
  constructor
  · intro h
    obtain ⟨cs, hcs, rfl⟩ := Option.map_eq_some_iff.mp h
    simpa [ofString] using scalars_eq_some.mp hcs
  · rintro rfl
    exact toText_ofString t

lemma ofString_injective : Function.Injective ofString := by
  intro a b h
  have hh := congrArg toText h
  simpa using hh

@[simp] lemma ofString_inj {a b : String} : ofString a = ofString b ↔ a = b :=
  ofString_injective.eq_iff

@[simp] lemma ofString_beq (a b : String) : (ofString a == ofString b) = (a == b) := by
  rw [Bool.eq_iff_iff]
  simp

end PyStr

/-- A `float`: NaN, an infinity, or `± mantissa · 2 ^ exponent`. -/
inductive PyFloat
  | nan
  | inf (neg : Bool)
  | finite (neg : Bool) (mantissa : ℕ) (exponent : ℤ)
  deriving DecidableEq, Repr

/-- `int(f)` rounds toward zero. -/
def PyFloat.toInt : PyFloat → Except PyError ℤ
  | .nan => .error .valueError
  | .inf _ => .error .overflowError
  | .finite neg m e =>
      let n : ℕ := if 0 ≤ e then m * 2 ^ e.toNat else m / 2 ^ (-e).toNat
      .ok (if neg then -(n : ℤ) else n)

/-- The values `json.loads` builds. A `dict` is its list of items. -/
inductive Json
  | null
  | bool (b : Bool)
  | int (i : ℤ)
  | float (f : PyFloat)
  | str (s : PyStr)
  | list (xs : List Json)
  | dict (items : List (PyStr × Json))
  deriving Repr

namespace Json

def text (s : String) : Json := .str (.ofString s)

/-- A `dict` display whose keys are literals. -/
def object (items : List (String × Json)) : Json :=
  .dict (items.map fun p => (.ofString p.1, p.2))

/-- `r[key]` -/
def getItem (r : Json) (key : String) : Except PyError Json :=
  match r with
  | .dict items =>
    match items.lookup (.ofString key) with
    | some v => .ok v
    | none => .error .keyError
  | _ => .error .typeError

/-- `r.get(key, default)` -/
def get (r : Json) (key : String) (default : Json) : Except PyError Json :=
  match r with
  | .dict items => .ok ((items.lookup (.ofString key)).getD default)
  | _ => .error .attributeError

/-- `key in r`: a key of a dict, an element of a list, a substring of a text. -/
def contains (r : Json) (key : String) : Except PyError Bool :=
  match r with
  | .dict items => .ok (items.lookup (.ofString key)).isSome
  | .list xs => .ok (xs.any fun x => match x with | .str s => s == .ofString key | _ => false)
  | .str s => .ok (decide (PyStr.ofString key <:+: s))
  | _ => .error .typeError

def truthy : Json → Bool
  | .null => false
  | .bool b => b
  | .int i => i != 0
  | .float (.finite _ m _) => m != 0
  | .float _ => true
  | .str s => !s.isEmpty
  | .list xs => !xs.isEmpty
  | .dict items => !items.isEmpty

@[simp] lemma truthy_bool (b : Bool) : truthy (.bool b) = b := rfl

lemma lookup_map_ofString (items : List (String × Json)) (key : String) :
    (items.map fun p => (PyStr.ofString p.1, p.2)).lookup (.ofString key) = items.lookup key := by
  induction items with
  | nil => rfl
  | cons p items ih =>
    obtain ⟨k, v⟩ := p
    simp only [List.map_cons, List.lookup_cons, PyStr.ofString_beq, ih]

@[simp] lemma getItem_object (items : List (String × Json)) (key : String) :
    (object items).getItem key =
      match items.lookup key with
      | some v => .ok v
      | none => .error .keyError := by
  simp only [object, getItem, lookup_map_ofString]

@[simp] lemma get_object (items : List (String × Json)) (key : String) (default : Json) :
    (object items).get key default = .ok ((items.lookup key).getD default) := by
  simp only [object, get, lookup_map_ofString]

@[simp] lemma contains_object (items : List (String × Json)) (key : String) :
    (object items).contains key = .ok (items.lookup key).isSome := by
  simp only [object, contains, lookup_map_ofString]

end Json

/-- Only ASCII text may be handed to `hmac.compare_digest`. -/
def isAscii (s : String) : Bool := s.toList.all fun c => decide (c.val < 128)

/-- `hmac.compare_digest(a, b)` on two texts. -/
def compareDigest (a b : String) : Except PyError Bool :=
  if isAscii a && isAscii b then .ok (a == b) else .error .typeError

/-- `hmac.compare_digest(a, v)` where `v` came out of a request body. -/
def compareDigestJson (a : String) : Json → Except PyError Bool
  | .str s =>
    match s.toText with
    | some b => compareDigest a b
    | none => .error .typeError
  | _ => .error .typeError

@[simp] lemma compareDigestJson_text (a b : String) :
    compareDigestJson a (.text b) = compareDigest a b := by
  simp [compareDigestJson, Json.text]

lemma compareDigest_ascii {a b : String} (ha : isAscii a = true) (hb : isAscii b = true) :
    compareDigest a b = .ok (a == b) := by
  simp [compareDigest, ha, hb]

/-- `compare_digest` answers true on equal ASCII texts only. -/
lemma compareDigest_eq_true {a b : String} (h : compareDigest a b = .ok true) : a = b := by
  unfold compareDigest at h
  split_ifs at h
  simpa using h

end T3dmium
