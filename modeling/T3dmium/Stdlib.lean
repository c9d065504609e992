import T3dmium.JsonParse
import T3dmium.Sha256
import T3dmium.Urllib

/-! The library functions under the modelled code. They are parameters: no
result depends on how SHA-256 mixes bits or how a float is printed, and what a
result does rely on is stated there. -/
namespace T3dmium

structure Stdlib where
  sha256 : Bytes → Digest
  /-- `json.loads` on a request or response body -/
  loads : Bytes → Except PyError Json
  /-- `int(text)` -/
  intOfStr : PyStr → Except PyError ℤ
  floatRepr : PyFloat → FloatText
  /-- how SQLite turns a REAL into TEXT -/
  realText : PyFloat → String
  urlparse : String → Except PyError ParsedUrl
  parseQs : String → List (String × List String)
  /-- `urllib.parse.quote(text)` -/
  quote : String → String
  /-- `raw.decode("utf-8", "replace")` -/
  decodeReplace : Bytes → String
  /-- what `http.server` sends with an error status of its own -/
  errorPage : ℕ → Bytes

namespace Stdlib
variable (std : Stdlib)

/-- `hmac.new(key, msg, hashlib.sha256).digest()` -/
def hmacSha256 : Bytes → Bytes → Digest := hmac std.sha256

/-- `int(v)` -/
def int : Json → Except PyError ℤ
  | .bool b => .ok (if b then 1 else 0)
  | .int i => .ok i
  | .float f => f.toInt
  | .str s => std.intOfStr s
  | .null | .list _ | .dict _ => .error .typeError

@[simp] lemma int_int (i : ℤ) : std.int (.int i) = .ok i := rfl

/-- `json.dumps(v).encode("utf-8")` -/
def dumpBody (v : Json) : Bytes := dumps std.floatRepr .default v

end Stdlib

/-- SHA-256, JSON in ASCII without floats, decimal numerals and the URLs of a client. -/
def Stdlib.sample : Stdlib where
  sha256 := T3dmium.sha256
  loads := loadsText
  intOfStr := decimalInt
  floatRepr _ := ⟨ascii "0.0", by decide, by decide⟩
  realText _ := "0.0"
  urlparse := Urllib.urlparse fun _ => .ok ()
  parseQs := Urllib.parseQs decodeUtf8
  quote := percentQuote
  decodeReplace := decodeUtf8
  errorPage _ := []

lemma Stdlib.sample_loads {v : Json} (hv : v.Plain) :
    Stdlib.sample.loads (Stdlib.sample.dumpBody v) = .ok v :=
  loadsText_dumps hv

end T3dmium
