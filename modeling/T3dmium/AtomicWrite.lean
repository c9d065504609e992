import Mathlib

/-! Files that are replaced as a whole. A text is written to a temporary file beside its target and
renamed over it; whatever fails, and wherever the writer is stopped, the target holds the text before
or the text after. -/
namespace T3dmium

/-- A file, or a temporary one made beside it. -/
inductive Entry (ν : Type*)
  | file (name : ν)
  | temp (name : ν) (k : ℕ)
  deriving DecidableEq

def Entry.name {ν : Type*} : Entry ν → ν
  | .file name => name
  | .temp name _ => name

/-- What the entries of a directory hold, if they exist. -/
abbrev Directory (ν β : Type*) := Entry ν → Option (List β)

/-- What a writer can meet with. `fault` is an exception. -/
inductive Io
  | mkstemp (k : ℕ)
  | flush (m : ℕ)
  | close
  | replace
  | leave
  | fault
  | unlink
  deriving DecidableEq

/-- How far a writer is. After `failed` it is about to remove its temporary file. -/
inductive Stage
  | begun
  /-- the first `m` symbols are in the file -/
  | opened (k m : ℕ)
  | closed (k : ℕ)
  | replaced (k : ℕ)
  | failed (k : ℕ)
  | returned
  | raised
  deriving DecidableEq

/-- What a stage says about the directory. -/
def Stage.Holds {ν β : Type*} (name : ν) (text : Option (List β)) (d : Directory ν β) : Stage → Prop
  | .closed k => text.isSome ∧ d (.temp name k) = text
  | .replaced _ | .returned => text.isSome ∧ d (.file name) = text
  | _ => True

/-- It speaks of the entries of its own file only. -/
lemma Stage.Holds.congr {ν β : Type*} {name : ν} {text : Option (List β)} {d d' : Directory ν β}
    {stage : Stage} (h : stage.Holds name text d) (hd : ∀ e : Entry ν, e.name = name → d' e = d e) :
    stage.Holds name text d' := by
  cases stage with
  | closed k => exact ⟨h.1, (hd _ rfl).trans h.2⟩
  | replaced k => exact ⟨h.1, (hd _ rfl).trans h.2⟩
  | returned => exact ⟨h.1, (hd _ rfl).trans h.2⟩
  | _ => trivial

namespace Directory
variable {ν β : Type*} [DecidableEq ν]

/-- One step of writing `text` to `name`; there is no text where it cannot be encoded. What cannot
happen at a stage changes nothing. -/
def write (name : ν) (text : Option (List β)) : Io → Directory ν β × Stage → Directory ν β × Stage
  | .mkstemp k, (d, .begun) =>
    if (d (.temp name k)).isNone then (Function.update d (.temp name k) (some []), .opened k 0)
    else (d, .begun)
  | .flush m, (d, .opened k n) =>
    match text with
    | some t =>
      if n ≤ m then (Function.update d (.temp name k) (some (t.take m)), .opened k m)
      else (d, .opened k n)
    | none => (d, .opened k n)
  | .close, (d, .opened k n) =>
    match text with
    | some t => (Function.update d (.temp name k) (some t), .closed k)
    | none => (d, .opened k n)
  | .replace, (d, .closed k) =>
    (Function.update (Function.update d (.file name) (d (.temp name k))) (.temp name k) none, .replaced k)
  | .leave, (d, .replaced _) => (d, .returned)
  | .fault, (d, .begun) => (d, .raised)
  | .fault, (d, .opened k _) => (d, .failed k)
  | .fault, (d, .closed k) => (d, .failed k)
  | .fault, (d, .replaced k) => (d, .failed k)
  | .unlink, (d, .failed k) => (Function.update d (.temp name k) none, .raised)
  | .fault, (d, .failed _) => (d, .raised)
  | _, s => s

/-- A step leaves the entries of other files alone. -/
lemma write_elsewhere {name : ν} {text : Option (List β)} {io : Io} {p : Directory ν β × Stage}
    {e : Entry ν} (h : e.name ≠ name) : (write name text io p).1 e = p.1 e := by
  have htemp : ∀ k, e ≠ .temp name k := fun k he => h (he ▸ rfl)
  have hfile : e ≠ .file name := fun he => h (he ▸ rfl)
  fun_cases write name text io p <;> simp [Function.update_of_ne, htemp, hfile]

lemma renamed_file (d : Directory ν β) (name : ν) (k : ℕ) (content : Option (List β)) :
    Function.update (Function.update d (.file name) content) (.temp name k) none (.file name) =
      content := by
  rw [Function.update_of_ne (by simp), Function.update_self]

/-- A step lets the target be, or makes it the whole text. -/
lemma write_file {name : ν} {text : Option (List β)} (io : Io) (p : Directory ν β × Stage)
    (h : p.2.Holds name text p.1) :
    (write name text io p).1 (.file name) = p.1 (.file name) ∨
      text.isSome ∧ (write name text io p).1 (.file name) = text := by
  fun_cases write name text io p with
  | case8 _ d k => exact .inr ⟨h.1, (renamed_file d name k _).trans h.2⟩
  | _ => exact .inl (by simp)

lemma write_holds {name : ν} {text : Option (List β)} (io : Io) (p : Directory ν β × Stage)
    (h : p.2.Holds name text p.1) :
    (write name text io p).2.Holds name text (write name text io p).1 := by
  fun_cases write name text io p with
  | case6 => exact ⟨rfl, Function.update_self ..⟩
  | case8 _ d k => exact ⟨h.1, (renamed_file d name k _).trans h.2⟩
  | _ => trivial

end Directory
end T3dmium
