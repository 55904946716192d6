import LiveDoc.Api.Body
import LiveDoc.Message.Basic
import LiveDoc.Text.Blank
import LiveDoc.Text.Pieces
import LiveDoc.Settings.Basic

/-!
# LiveDoc — HTTP requests

A request goes by its path: to the socket's path for an upgrade, or below the API's prefix to the
backend. `HttpRequest.toApiRequest` is what the backend sees of a request, and
`HttpRequest.toAuthRequest` what it sees of an upgrade that is held.
-/

namespace LiveDoc

structure HttpRequest where
  method : String := "GET"
  -- Path and query.
  target : String
  -- Names and values, in the order in which they came.
  headers : List (String × String) := []
  body : List UInt8 := []
  -- The address of the peer.
  peer : String := "127.0.0.1"
  deriving Inhabited

/-! ## Queries -/

namespace Query

/-- The bytes of a text in which a byte may stand as a percent sign with two digits, and a space as
a plus. A percent sign without its digits stands for itself. -/
def bytes : List Char → List UInt8
  | [] => []
  | '%' :: a :: b :: rest =>
    match Json.Parser.hexValue? a, Json.Parser.hexValue? b with
    | some high, some low => UInt8.ofNat (high * 16 + low) :: bytes rest
    | _, _ => 0x25 :: bytes (a :: b :: rest)
  | '+' :: rest => 0x20 :: bytes rest
  | c :: rest => (String.singleton c).toUTF8.toList ++ bytes rest

/-- The text that a part of a query stands for. -/
def decode (s : List Char) : String := Utf8.decodeLossy (bytes s)

/-- A name and a value around the first equals sign. -/
def pair (s : List Char) : String × String :=
  (decode (s.takeWhile (· ≠ '=')), decode ((s.dropWhile (· ≠ '=')).drop 1))

/-- The parameters of a query; of equal names the last one wins. -/
def parameters (query : List Char) : KeyMap String :=
  KeyMap.ofEntries (((Text.pieces '&' query).filter (· ≠ [])).map pair)

end Query

namespace HttpRequest

/-! ## Parts of a request -/

/-- The target without what stands behind a number sign, which is no part of it. -/
def sent (r : HttpRequest) : List Char := r.target.toList.takeWhile (· ≠ '#')

def path (r : HttpRequest) : String := String.ofList (r.sent.takeWhile (· ≠ '?'))

/-- The query, without its question mark. -/
def query (r : HttpRequest) : List Char := (r.sent.dropWhile (· ≠ '?')).drop 1

/-- Whether a header's value is printable ASCII, with tabs. -/
def isReadable (value : String) : Bool :=
  value.toList.all fun c => (0x20 ≤ c.toNat && c.toNat < 0x7f) || c = '\t'

/-- The headers with readable values, their names in lower case; of equal names the last one
wins. -/
def readableHeaders (r : HttpRequest) : KeyMap String :=
  let readable := r.headers.filter fun (_, value) => isReadable value
  KeyMap.ofEntries (readable.map fun (name, value) => (name.toLower, value))

/-- The first address of a list of addresses between commas, if it is not blank. -/
def firstAddress? (addresses : String) : Option String :=
  let first := Text.trim (String.ofList (addresses.toList.takeWhile (· ≠ ',')))
  if first = "" then none else some first

/-- The address of the client: the first one it was forwarded for, else the peer's. -/
def remote (r : HttpRequest) : String :=
  match r.headers.find? fun h => h.1.toLower = "x-forwarded-for" with
  | some (_, value) => ((firstAddress? value).filter fun _ => isReadable value).getD r.peer
  | none => r.peer

/-! ## Where a request goes -/

/-- The API's prefix without slashes at its end. -/
def trimmedPrefix (settings : Settings.Server) : List Char :=
  (settings.apiPrefix.toList.reverse.dropWhile (· = '/')).reverse

/-- The path below the API's prefix, which is a slash at the prefix itself; none if the request is
not for the backend. A slash alone below the prefix is not. -/
def apiPath? (settings : Settings.Server) (r : HttpRequest) : Option String :=
  let root := trimmedPrefix settings
  let path := r.path.toList
  if root.isPrefixOf path then
    match path.drop root.length with
    | [] => some "/"
    | '/' :: c :: rest => some (String.ofList ('/' :: c :: rest))
    | _ => none
  else none

/-- Whether the request is for the socket. -/
def isForSocket (settings : Settings.Server) (r : HttpRequest) : Bool :=
  r.path = settings.socketPath

/-- What the backend sees of a request under the API's prefix. -/
def toApiRequest (r : HttpRequest) (id path : String) : ApiRequest where
  id := id
  method := r.method
  path := path
  query := Query.parameters r.query
  headers := r.readableHeaders
  body := parseBody r.body

def toAuthRequest (r : HttpRequest) (client : String) : AuthRequest where
  client := client
  remote := r.remote
  method := r.method
  url := String.ofList r.sent
  headers := r.readableHeaders

end HttpRequest

end LiveDoc
