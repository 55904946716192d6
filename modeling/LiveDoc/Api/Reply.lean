import LiveDoc.Json.Printer
import LiveDoc.Message.Basic

/-!
# LiveDoc — HTTP replies

What an `ApiResponse` becomes on the wire. A body that is text is sent as it is and without a
content type, a null body is empty, and any other body is sent as JSON. Headers that HTTP does not
allow are skipped, and a header replaces the one of the same name that was set before it.
-/

namespace LiveDoc

open Json

/-- An HTTP reply; the names of its headers are in lower case. -/
structure HttpReply where
  status : Nat
  headers : KeyMap String
  body : String
  deriving DecidableEq, Inhabited

def isTokenChar (c : Char) : Bool :=
  c.isAlphanum || "!#$%&'*+-.^_`|~".toList.contains c

/-- The greatest length of a header's name. -/
def maxHeaderName : Nat := 65535

/-- A header's name is not empty or too long, and has token characters only. -/
def isHeaderName (name : String) : Bool :=
  name ≠ "" && name.utf8ByteSize ≤ maxHeaderName && name.toList.all isTokenChar

/-- A header's value has no control characters but the tab. -/
def isHeaderValue (value : String) : Bool :=
  value.toList.all fun c => (0x20 ≤ c.toNat && c.toNat ≠ 0x7f) || c = '\t'

/-- Sets the headers that HTTP allows, in turn. -/
def setHeaders (headers : KeyMap String) (more : KeyMap String) : KeyMap String :=
  KeyMap.setAll headers ((more.filter fun h => isHeaderName h.1 && isHeaderValue h.2).map
    fun h => (h.1.toLower, h.2))

def isHttpStatus (status : UInt16) : Bool := 100 ≤ status ∧ status < 1000

/-- The reply for a response of the backend. A status that HTTP cannot carry becomes 500. -/
def ApiResponse.toReply (r : ApiResponse) : HttpReply :=
  let status := if isHttpStatus r.status then r.status.toNat else 500
  let json := [("content-type", "application/json")]
  let (body, headers) :=
    match r.body with
    | .null => ("", [])
    | .string text => (text, [])
    | body => (body.text, json)
  { status, headers := setHeaders headers r.headers, body }

end LiveDoc
