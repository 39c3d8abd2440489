/-
Best-effort extraction of a firmware version from a device `/log` payload.  The
server and the onboarding proxy try the same JSON keys, then read the text
differently.
-/
import Aquilo.Codec
import Aquilo.RustStr

namespace Aquilo

open RustStr

/-- The keys a version may stand under, in the order they are tried. -/
def versionKeys : List String := ["v", "version", "fw", "ver"]

/-- The first key that holds a string. -/
def jsonVersion (codec : Codec) (payload : List UInt8) : Option String := do
  let v ← codec.jsonValue payload
  versionKeys.findSome? fun key => (v.get? key).bind Json.asStr

/-- The whole text, when it is short, dotted and free of separators. -/
def looksLikeVersion (text : String) : Bool :=
  decide (text ≠ "") && decide (len text < 64) && contains text '.' &&
    !(contains text ' ' || contains text '{' || contains text ',')

/-- The server's reading of a `/log` payload. -/
def parseFirmware (codec : Codec) (payload : List UInt8) : Option String :=
  (jsonVersion codec payload).or do
    let text ← Utf8.fromUtf8 payload
    let text := trim text
    if looksLikeVersion text then some text else none

/-- A token that looks like a version and is no MAC address. -/
def versionToken (tok : String) : Bool :=
  contains tok '.' && !contains tok ':' && decide (len tok < 64)

/-- The onboarding proxy's reading of a `/log` payload. -/
def firmwareFromLog (codec : Codec) (payload : List UInt8) : Option String :=
  (jsonVersion codec payload).or do
    let text ← Utf8.fromUtf8 payload
    (splitWhitespace text).find? versionToken

end Aquilo
