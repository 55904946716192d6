import LiveDoc.Json.Parser
import LiveDoc.Text.Utf8

/-!
# LiveDoc — bodies of HTTP requests

Any body is a value: JSON where the bytes are JSON text, else text, and null where there are none.
-/

namespace LiveDoc

open Json

def parseBody (bytes : List UInt8) : Value :=
  if bytes.isEmpty then .null
  else
    match (Utf8.decode? bytes).bind parse? with
    | some v => v
    | none => .string (Utf8.decodeLossy bytes)

end LiveDoc
