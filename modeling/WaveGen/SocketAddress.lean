import WaveGen.Text.Reader

/-!
# Socket addresses (specification §10.4)

The address that a server listens on: an IPv4 or IPv6 address and a port.

* `SocketAddress.parse?` — reads `1.2.3.4:80`, or an IPv6 address in brackets, with a scope or
  without, as in `[fe80::1%2]:80`.
* `SocketAddress.nameAndPort?` — takes apart an address that names its host, as `localhost:80` does.
* `SocketAddress.display` — writes an address in its canonical form, which for IPv6 leaves out the
  longest run of zero groups.
-/

namespace WaveGen

/-- The address of a host. -/
inductive HostAddress where
  | v4 (address : BitVec 32)
  /-- The scope tells apart the networks on which the address may be meant; 0 leaves it open. -/
  | v6 (address : BitVec 128) (scope : UInt32)
deriving DecidableEq, Repr

/-- The address of a socket. -/
structure SocketAddress where
  /-- The host that the socket belongs to. -/
  host : HostAddress
  /-- The port of the socket on that host. -/
  port : UInt16
deriving DecidableEq, Repr

namespace SocketAddress

/-! ## Numbers -/

/-- Takes a number off the front: all digits at the front, which must be at least one and at most
`limit` many and must spell a number of at most `bound`. -/
def readNumber (isDigit : Char → Bool) (radix : Nat) (limit : Option Nat) (bound : Nat) :
    Reader Nat := fun t => do
  let (digits, rest) ← Reader.span1 isDigit t
  let n := Reader.value radix digits
  if limit.all (digits.length ≤ ·) && decide (n ≤ bound) then return (n, rest) else none

/-- Takes one part of an IPv4 address off the front. It has no needless zero in front. -/
def readOctet : Reader Nat := fun t => do
  let (n, rest) ← readNumber Char.isDigit 10 (some 3) 255 t
  if t.head? = some '0' ∧ 1 < t.length - rest.length then none else return (n, rest)

/-- Takes a port off the front, with the colon before it. -/
def readPort : Reader UInt16 := fun t => do
  let t ← Reader.mark ':' t
  let (n, rest) ← readNumber Char.isDigit 10 none 65535 t
  return (UInt16.ofNat n, rest)

/-! ## IPv4 -/

/-- The number that groups of bits spell, the highest group first. -/
def joinGroups (width : Nat) (groups : List Nat) : Nat :=
  groups.foldl (fun n group => n * Nat.pow 2 width + group) 0

/-- Takes an IPv4 address off the front. -/
def readV4 : Reader (BitVec 32) := fun t => do
  let (a, t) ← readOctet t
  let (b, t) ← readOctet (← Reader.mark '.' t)
  let (c, t) ← readOctet (← Reader.mark '.' t)
  let (d, t) ← readOctet (← Reader.mark '.' t)
  return (BitVec.ofNat 32 (joinGroups 8 [a, b, c, d]), t)

/-! ## IPv6 -/

/-- Takes one group of an IPv6 address off the front. -/
def readGroup : Reader Nat := readNumber Reader.isHexDigit 16 (some 4) 65535

/-- Reads behind a colon, except for the first of several. -/
def behindColon {α : Type} (isFirst : Bool) (r : Reader α) : Reader α := fun t =>
  if isFirst then r t else (Reader.mark ':' t).bind r

/-- What was read of the groups of an IPv6 address. -/
structure Groups where
  /-- The groups that were read. -/
  groups : List Nat
  /-- Whether the last two groups were written as an IPv4 address. -/
  endsInV4 : Bool
  /-- The text behind the groups. -/
  rest : Text

/-- Takes up to `count` groups off the front, separated by colons. Where two groups have room, an
IPv4 address may stand for them and ends the groups. -/
def readGroups : Nat → Bool → Text → Groups
  | 0, _, t => ⟨[], false, t⟩
  | count + 1, isFirst, t =>
    match if count = 0 then none else behindColon isFirst readV4 t with
    | some (v4, rest) => ⟨[v4.toNat / Nat.pow 2 16, v4.toNat % Nat.pow 2 16], true, rest⟩
    | none =>
      match behindColon isFirst readGroup t with
      | some (group, rest) =>
        let more := readGroups count false rest
        { more with groups := group :: more.groups }
      | none => ⟨[], false, t⟩

/-- Takes an IPv6 address off the front: eight groups, or fewer with a double colon that stands for
at least one group of zeros. -/
def readV6 : Reader (BitVec 128) := fun t => do
  let front := readGroups 8 true t
  let address (groups : List Nat) := BitVec.ofNat 128 (joinGroups 16 groups)
  if front.groups.length = 8 then return (address front.groups, front.rest)
  else if front.endsInV4 then none
  else
    let t ← Reader.mark ':' (← Reader.mark ':' front.rest)
    let back := readGroups (7 - front.groups.length) true t
    let zeros := List.replicate (8 - front.groups.length - back.groups.length) 0
    return (address (front.groups ++ zeros ++ back.groups), back.rest)

/-- Takes a scope off the front, with the percent sign before it. -/
def readScope : Reader UInt32 := fun t => do
  let t ← Reader.mark '%' t
  let (n, rest) ← readNumber Char.isDigit 10 none 4294967295 t
  return (UInt32.ofNat n, rest)

/-! ## Addresses -/

/-- Takes the address of a host off the front, as it is written before a port. -/
def readHost : Reader HostAddress := fun t =>
  match readV4 t with
  | some (v4, rest) => some (.v4 v4, rest)
  | none => do
    let (v6, t) ← readV6 (← Reader.mark '[' t)
    let (scope, t) := (readScope t).getD (0, t)
    return (.v6 v6 scope, ← Reader.mark ']' t)

/-- Takes a socket address off the front. -/
def read : Reader SocketAddress := fun t => do
  let (host, t) ← readHost t
  let (port, rest) ← readPort t
  return (⟨host, port⟩, rest)

/-- The socket address that a text spells. -/
def parse? (t : Text) : Option SocketAddress := Reader.whole read t

/-- The name of a host and a port, which stand before and behind the last colon. -/
def nameAndPort? (t : Text) : Option (Text × UInt16) :=
  match (Text.split ':' t).reverse with
  | port :: part :: parts => do
    let (n, _) ← readNumber Char.isDigit 10 none 65535 port
    if port.all Char.isDigit then return (Text.join ':' (part :: parts).reverse, UInt16.ofNat n)
    else none
  | _ => none

/-! ## Canonical form -/

/-- The groups of `width` bits in a number, the highest group first. -/
def splitGroups (width : Nat) (count : Nat) (n : Nat) : List Nat :=
  (List.range count).map fun i => n / Nat.pow 2 (width * (count - 1 - i)) % Nat.pow 2 width

/-- An IPv4 address: its four octets in decimal. -/
def displayV4 (address : BitVec 32) : Text :=
  Text.join '.' ((splitGroups 8 4 address.toNat).map Text.ofNat)

/-- Groups in hexadecimal, with colons between them. -/
def displayGroups (groups : List Nat) : Text := Text.join ':' (groups.map (Nat.toDigits 16))

/-- The number of zero groups at the front. -/
def zeroRun (groups : List Nat) : Nat := (groups.takeWhile (· == 0)).length

/-- The first of the longest runs of zero groups: where it starts, and how long it is. -/
def longestZeroRun (groups : List Nat) : Nat × Nat :=
  (List.range groups.length).foldl
    (fun (start, length) i =>
      let run := zeroRun (groups.drop i)
      if length < run then (i, run) else (start, length))
    (0, 0)

/-- An IPv6 address. An embedded IPv4 address is written as such; otherwise a double colon stands
for the longest run of two or more zero groups. -/
def displayV6 (address : BitVec 128) : Text :=
  if address.toNat / Nat.pow 2 32 = 0xFFFF then
    "::ffff:".toList ++ displayV4 (BitVec.ofNat 32 address.toNat)
  else
    let groups := splitGroups 16 8 address.toNat
    let (start, length) := longestZeroRun groups
    if 1 < length then
      displayGroups (groups.take start) ++ "::".toList ++
        displayGroups (groups.drop (start + length))
    else displayGroups groups

/-- The address of a host, as it is written before a port. -/
def displayHost : HostAddress → Text
  | .v4 address => displayV4 address
  | .v6 address scope =>
    let scopeText := if scope = 0 then [] else '%' :: Text.ofNat scope.toNat
    '[' :: displayV6 address ++ scopeText ++ [']']

/-- The canonical form of a socket address. -/
def display (a : SocketAddress) : Text := displayHost a.host ++ ':' :: Text.ofNat a.port.toNat

end SocketAddress

end WaveGen
