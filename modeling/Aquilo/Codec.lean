/-
The third-party codecs the program calls, gathered as one parameter: the JSON
reader and printer, the generated reader of a `/read` payload, and the
reader of timestamps.  Values read from them are modelled here.
-/
import Aquilo.DecimalText
import Aquilo.ExactFloat
import Aquilo.History
import Aquilo.Utf8

namespace Aquilo

open ExactFloat

/-- A JSON value.  A number is an integer or an exactly read float; object keys
are distinct. -/
inductive Json where
  | null
  | bool (b : Bool)
  | int (n : ℤ)
  | float (q : ℚ)
  | str (s : String)
  | arr (items : List Json)
  | obj (fields : List (String × Json))

namespace Json

/-- Lookup of a key; only an object has any. -/
def get? (v : Json) (key : String) : Option Json :=
  match v with
  | obj fields => fields.lookup key
  | _ => none

/-- Indexing by a key: an absent key reads as null. -/
def index (v : Json) (key : String) : Json := (v.get? key).getD null

/-- Lookup of a position; only an array has any. -/
def item? (v : Json) (i : Nat) : Option Json :=
  match v with
  | arr items => items[i]?
  | _ => none

def asStr : Json → Option String
  | str s => some s
  | _ => none

/-- An integer that fits 64 signed bits. -/
def asI64 : Json → Option ℤ
  | int n => if InI64 n then some n else none
  | _ => none

/-- Any number. -/
def asF64 : Json → Option ℚ
  | int n => some n
  | float q => some q
  | _ => none

theorem asI64_inI64 {v : Json} {n : ℤ} (h : v.asI64 = some n) : InI64 n := by
  cases v with
  | int m =>
      simp only [asI64, Option.ite_none_right_eq_some, Option.some.injEq] at h
      exact h.2 ▸ h.1
  | _ => simp [asI64] at h

end Json

/-- The named fields of a `/read` payload; a missing key reads as `none`. -/
structure ReadPayload where
  sensor : Option String
  version : Option String
  read1 : Option ℤ
  battery : Option String
  readNo : Option ℤ
  lastSent : Option ℤ
  amp1 : Option ℤ
  temp : Option ℤ
  raw : Option String
deriving DecidableEq

structure Codec where
  /-- JSON bytes to a value. -/
  jsonValue : List UInt8 → Option Json
  /-- JSON bytes to the fields of a `/read` payload. -/
  readPayload : List UInt8 → Option ReadPayload
  /-- A value printed as JSON bytes. -/
  jsonBytes : Json → List UInt8
  /-- An RFC 3339 timestamp to a date and time. -/
  parseFromRfc3339 : String → Option DateTime

/-- The epoch seconds of a timestamp. -/
def Codec.parseTs (codec : Codec) (ts : String) : Option ℤ :=
  Aquilo.parseTs codec.parseFromRfc3339 ts

namespace Sample

/-- Codecs that read no payload as JSON and no timestamp. -/
def codec : Codec where
  jsonValue _ := none
  readPayload _ := none
  jsonBytes _ := []
  parseFromRfc3339 _ := none

def quoted (s : String) : List Char := '"' :: s.toList ++ ['"']

def separated (parts : List (List Char)) : List Char :=
  [','].intercalate parts

mutual

/-- Compact JSON with sorted keys, for strings that need no escape. -/
def jsonText : Json → List Char
  | .null => "null".toList
  | .bool b => (toString b).toList
  | .int n => DecimalText.intText n
  | .float q => DecimalText.floatText q
  | .str s => quoted s
  | .arr items => "[".toList ++ separated (itemTexts items) ++ "]".toList
  | .obj fields =>
      let sorted := (fieldTexts fields).insertionSort fun a b => a.1 ≤ b.1
      "\x7b".toList ++
        separated (sorted.map fun (key, text) => quoted key ++ ':' :: text) ++
        "\x7d".toList

def itemTexts : List Json → List (List Char)
  | [] => []
  | v :: rest => jsonText v :: itemTexts rest

def fieldTexts : List (String × Json) → List (String × List Char)
  | [] => []
  | (key, v) :: rest => (key, jsonText v) :: fieldTexts rest

end

def readText : String :=
  "\x7b\"sensor\":\"ae5058\",\"read1\":15280,\"battery\":\"3770\"\x7d"

/-- Codecs that read one `/read` payload and print JSON. -/
def printingCodec : Codec where
  jsonValue _ := none
  readPayload payload :=
    if payload = Utf8.encode readText then
      some { sensor := some "ae5058", version := none, read1 := some 15280,
             battery := some "3770", readNo := none, lastSent := none,
             amp1 := none, temp := none, raw := none }
    else none
  jsonBytes v := Utf8.encode (String.ofList (jsonText v))
  parseFromRfc3339 _ := none

end Sample

example : Sample.jsonText (.obj [("sensor", .str "ae5058"),
    ("skip", .int 9), ("lvl", .float (751 / 5))]) =
    "\x7b\"lvl\":150.2,\"sensor\":\"ae5058\",\"skip\":9\x7d".toList := by
  decide +kernel

end Aquilo
