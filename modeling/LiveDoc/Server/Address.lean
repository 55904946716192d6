import LiveDoc.Decimal.Integer
import LiveDoc.Json.Parser
import LiveDoc.Text.Pieces

/-!
# LiveDoc — addresses to listen on

An address is a host and a port around its last colon. The host is an IP address or a name. An IPv4
address has one to four parts, which may be decimal, octal or hexadecimal; an IPv6 address has eight
groups, a run of which may be left out, and may name a zone.

* `IpAddress.ofText?` — the address that a host denotes, unless it is a name.
* `Address.parse` — where to listen, or why a text is no address.
-/

namespace LiveDoc

inductive IpAddress where
  | v4 (address : Nat)
  -- Eight groups of 16 bits, and the number of a network interface if one is named.
  | v6 (groups : List Nat) (zone : Option Nat)
  deriving DecidableEq, Repr

namespace IpAddress

/-- The value of one or more digits of a base, which is sixteen at most. -/
def numeral? (base : Nat) (s : List Char) : Option Nat :=
  if s.isEmpty then none
  else
    s.foldl
      (fun total c => do
        let digit ← Json.Parser.hexValue? c
        if digit < base then return (← total) * base + digit else none)
      (some 0)

/-! ## IPv4 -/

/-- A part of an address: hexadecimal behind `0x`, octal behind another zero, and else decimal. -/
def part? : List Char → Option Nat
  | '0' :: c :: rest =>
    if c = 'x' || c = 'X' then numeral? 16 rest else numeral? 8 (c :: rest)
  | s => numeral? 10 s

/-- An address in up to four parts. Each part but the last is one byte, and the last part fills the
bytes that are left. -/
def v4? (s : List Char) : Option Nat := do
  let parts ← (Text.pieces '.' s).mapM part?
  let leading := parts.dropLast
  let last ← parts.getLast?
  let room := Nat.pow 256 (4 - leading.length)
  if leading.length < 4 ∧ leading.all (· < 256) ∧ last < room then
    return leading.foldl (fun n byte => n * 256 + byte) 0 * room + last
  else none

/-- A byte in decimal, without leading zeros. -/
def byte? (s : List Char) : Option Nat :=
  if 3 < s.length ∨ (1 < s.length ∧ s.head? = some '0') then none
  else (numeral? 10 s).filter (· < 256)

def quad? (s : List Char) : Option Nat := do
  let bytes ← (Text.pieces '.' s).mapM byte?
  if bytes.length = 4 then return bytes.foldl (fun n byte => n * 256 + byte) 0 else none

/-! ## IPv6 -/

/-- A group: up to four hexadecimal digits. -/
def group? (s : List Char) : Option Nat := if s.length ≤ 4 then numeral? 16 s else none

/-- The groups between colons. Four decimal bytes may stand in place of the last two. -/
def groups? : List (List Char) → Option (List Nat)
  | [] => some []
  | [last] =>
    match group? last with
    | some group => some [group]
    | none => (quad? last).map fun address => [address / 65536, address % 65536]
  | first :: rest => do return (← group? first) :: (← groups? rest)

/-- The text in front of the first two colons in a row, and the text behind them. -/
def splitGap : List Char → Option (List Char × List Char)
  | ':' :: ':' :: rest => some ([], rest)
  | c :: rest => (splitGap rest).map fun (before, behind) => (c :: before, behind)
  | [] => none

/-- The groups of an address. Two colons in a row stand for one zero group or more. -/
def v6? (s : List Char) : Option (List Nat) :=
  match splitGap s with
  | some (before, behind) => do
    let leading ← if before = [] then some [] else (Text.pieces ':' before).mapM group?
    let trailing ← if behind = [] then some [] else groups? (Text.pieces ':' behind)
    let known := leading.length + trailing.length
    if known < 8 then return leading ++ List.replicate (8 - known) 0 ++ trailing else none
  | none => (groups? (Text.pieces ':' s)).filter (·.length = 8)

/-- Whether the address of a machine is known on one link only, and so needs a zone. -/
def isLinkLocal (groups : List Nat) : Bool :=
  groups.head?.any fun g => 0xfe80 ≤ g ∧ g < 0xfec0

/-- Whether the address stands for a group of machines. -/
def isMulticast (groups : List Nat) : Bool := groups.head?.any (0xff00 ≤ ·)

/-- Whether the address, of one machine or of a group, is known on one link only. -/
def isOnLink (groups : List Nat) : Bool :=
  isLinkLocal groups || (isMulticast groups && groups.head?.any (· % 16 = 2))

/-- The IPv4 address that an IPv6 address stands for, if it does. -/
def mapped? : List Nat → Option Nat
  | [0, 0, 0, 0, 0, 0xffff, high, low] => some (high * 65536 + low)
  | _ => none

def zone? (s : List Char) : Option Nat := (numeral? 10 s).filter (· < 4294967296)

/-- An address whose zone, if there is one, is read by the given rule. -/
def zoned? (zone? : List Nat → List Char → Option Nat) (s : List Char) : Option IpAddress := do
  let groups ← v6? (s.takeWhile (· ≠ '%'))
  match s.dropWhile (· ≠ '%') with
  | [] => return .v6 groups none
  | _ :: zone => return .v6 groups (some (← zone? groups zone))

/-- The zone that is meant by a number, or on one link by the name of the loopback interface. -/
def namedZone? (groups : List Nat) (s : List Char) : Option Nat :=
  if isOnLink groups && s = ['l', 'o'] then some 1 else zone? s

def ofText? (s : List Char) : Option IpAddress :=
  match v4? s with
  | some address => some (.v4 address)
  | none => zoned? namedZone? s

end IpAddress

/-! ## Names -/

/-- The characters of the labels in a host's name. -/
def isLabelChar (c : Char) : Bool := c.isAlphanum || c = '-' || c = '_'

def isLabel (s : List Char) : Bool := s ≠ [] && s.length ≤ 63 && s.all isLabelChar

/-- A host's name is labels between dots, with a dot behind them if it is meant to be complete. It
does not start with a hyphen, and has up to 253 characters besides that last dot. -/
def isHostName (s : List Char) : Bool :=
  let name := if s.getLast? = some '.' then s.dropLast else s
  s = ['.'] ||
    (name.length ≤ 253 && s.head? ≠ some '-' && (Text.pieces '.' name).all isLabel)

/-! ## Addresses -/

/-- Why a text is no address to listen on. -/
inductive AddressFault where
  | noPort
  | invalidPort
  | nulByte
  -- The host is no name that could be known.
  | unknownName
  -- Nobody could be asked for the name.
  | unansweredName
  -- The address is not one of the machine's own.
  | foreign
  -- The address cannot be listened on, or needs a zone.
  | unsuitable
  -- There is no such interface.
  | noInterface
  deriving DecidableEq, Repr

def AddressFault.message : AddressFault → String
  | .noPort => "invalid socket address"
  | .invalidPort => "invalid port value"
  | .nulByte => "file name contained an unexpected NUL byte"
  | .unknownName => "failed to lookup address information: Name or service not known"
  | .unansweredName =>
    "failed to lookup address information: Temporary failure in name resolution"
  | .foreign => "Cannot assign requested address (os error 99)"
  | .unsuitable => "Invalid argument (os error 22)"
  | .noInterface => "No such device (os error 19)"

inductive Destination where
  | address (ip : IpAddress)
  | name (host : List Char)
  deriving DecidableEq, Repr

namespace Address

/-- An IPv6 address in brackets, with a port of digits behind a colon. -/
def bracketed? : List Char → Option IpAddress
  | '[' :: rest =>
    match rest.dropWhile (· ≠ ']') with
    | ']' :: ':' :: port => do
      let port ← IpAddress.numeral? 10 port
      if port < 65536 then
        IpAddress.zoned? (fun _ => IpAddress.zone?) (rest.takeWhile (· ≠ ']'))
      else none
    | _ => none
  | _ => none

/-- The host in front of the last colon of a text, if the text behind it is a port. -/
def host (s : List Char) : Except AddressFault (List Char) :=
  let reversed := s.reverse
  match reversed.dropWhile (· ≠ ':') with
  | [] => .error .noPort
  | _ :: host =>
    match (Decimal.IntegerRange.unsigned 16).read
        (String.ofList (reversed.takeWhile (· ≠ ':')).reverse) with
    | .ok _ => .ok host.reverse
    | .error _ => .error .invalidPort

def parse (address : String) : Except AddressFault Destination := do
  match bracketed? address.toList with
  | some ip => return .address ip
  | none =>
    let host ← host address.toList
    if host.contains '\x00' then .error .nulByte
    else
      match IpAddress.ofText? host with
      | some ip => return .address ip
      | none => return .name host

end Address

end LiveDoc
