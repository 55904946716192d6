import LiveDoc.Server.Address

/-!
# LiveDoc — the network of a host

Whether peers reach each other, and which addresses can be listened on. A host that is cut off has
no table of its own IPv4 addresses, and takes every one of them for its own.

* `Network.listenFault?` — why a text cannot be listened on, if it cannot.
-/

namespace LiveDoc.Rehearsal

/-- Whether those who connect reach those who listen. -/
inductive Network where
  | connected
  -- Addresses can be bound, and no connection to them comes about.
  | severed
  deriving DecidableEq, Repr, Inhabited

namespace Network

/-- Whether an IPv4 address can be bound: a loopback address, all addresses at once, or an address
of several machines. -/
def ownsV4 (network : Network) (address : Nat) : Bool :=
  network = .severed || address / 16777216 = 127 || address = 0 || address / 268435456 = 14 ||
    address = 4294967295

/-- The addresses of the loopback interface and of all interfaces at once. -/
def ownsV6 (network : Network) (groups : List Nat) : Bool :=
  groups = List.replicate 8 0 ||
    (network = .connected && groups = List.replicate 7 0 ++ [1])

/-- Why an address cannot be bound, if it cannot. -/
def bindFault? (network : Network) : IpAddress → Option AddressFault
  | .v4 address => if network.ownsV4 address then none else some .foreign
  | .v6 groups zone =>
    match IpAddress.mapped? groups with
    | some address => if network.ownsV4 address then none else some .foreign
    | none =>
      if IpAddress.isMulticast groups then some .unsuitable
      else if IpAddress.isLinkLocal groups then
        match zone with
        | none | some 0 => some .unsuitable
        | some 1 => some .foreign
        | some _ => some .noInterface
      else if network.ownsV6 groups then none
      else some .foreign

/-- The address of a name. Every host knows itself by one name, and can ask nobody for others. -/
def resolve (host : List Char) : Except AddressFault IpAddress :=
  if (String.ofList host).toLower = "localhost" then .ok (.v4 0x7f000001)
  else if isHostName host then .error .unansweredName
  else .error .unknownName

/-- Why a text cannot be listened on, if it cannot. -/
def listenFault? (network : Network) (address : String) : Option AddressFault :=
  let ip := do
    match ← Address.parse address with
    | .address ip => return ip
    | .name host => resolve host
  match ip with
  | .ok ip => network.bindFault? ip
  | .error fault => some fault

end Network

end LiveDoc.Rehearsal
