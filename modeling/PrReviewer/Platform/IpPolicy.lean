import PrReviewer.Js.Json

/-!
# The public-address policy

`src/platform/ip-policy.ts`: which literal addresses may be fetched from. The tables are those of the source,
an address and the number of its leading bits that count.
-/

open Js

namespace PrReviewer.Platform

inductive IpFamily where
  | v4
  | v6
  deriving DecidableEq

/-! ## Literals -/

/-- `/^(?:0|[1-9]\d{0,2})$/`. -/
def isOctetText (part : List Char) : Bool :=
  part == ['0'] || isPositiveDecimal 2 (String.ofList part)

/-- The number that decimal digits write. -/
def decimal (cs : List Char) : Nat := cs.foldl (fun n c => n * 10 + (c.toNat - '0'.toNat)) 0

/-- Strict dotted-quad IPv4. -/
def parseIPv4 (text : String) : Option Nat :=
  let parts := text.toList.splitOn '.'
  if parts.length = 4 ∧ parts.all (fun part => isOctetText part && decide (decimal part ≤ 255)) then
    some (parts.foldl (fun value part => value * 256 + decimal part) 0)
  else none

/-- `text.split("::")`. -/
def splitDouble : List Char → List (List Char)
  | ':' :: ':' :: cs => [] :: splitDouble cs
  | c :: cs =>
    match splitDouble cs with
    | [] => [[c]]
    | part :: parts => (c :: part) :: parts
  | [] => [[]]

/-- `/^[0-9A-Fa-f]{1,4}$/`. -/
def isGroup (g : List Char) : Bool :=
  decide (1 ≤ g.length) && decide (g.length ≤ 4) && g.all (Json.hexValue · |>.isSome)

def groupsOf (part : List Char) : Option (List (List Char)) :=
  if part = [] then some []
  else
    let groups := part.splitOn ':'
    if groups.all isGroup then some groups else none

/-- `Number.parseInt(g, 16)` of a group. -/
def hexNumber (g : List Char) : Nat := g.foldl (fun n c => n * 16 + (Json.hexValue c).getD 0) 0

/-- An address whose last group may be written as an IPv4 address, with that group as two. -/
def embedded (addr : List Char) : Option (List Char) :=
  if addr.contains '.' then
    let tail := (addr.reverse.takeWhile (· != ':')).reverse
    let head := (addr.reverse.dropWhile (· != ':')).reverse
    if head = [] then none
    else (parseIPv4 (String.ofList tail)).map fun v4 =>
      head ++ Nat.toDigits 16 (v4 / 0x10000) ++ ':' :: Nat.toDigits 16 (v4 % 0x10000)
  else some addr

/-- IPv6 text: an optional `%zone`, an optional embedded IPv4 tail. -/
def parseIPv6 (text : String) : Option Nat := do
  let cs := text.toList
  let zone := (cs.dropWhile (· != '%')).drop 1
  if cs.contains '%' && (zone.isEmpty || zone.contains '%') then none
  else
    let addr := cs.takeWhile (· != '%')
    if addr.isEmpty || !addr.all (fun c => (Json.hexValue c).isSome || c == ':' || c == '.') then none
    else
      let addr ← embedded addr
      let groups ← match splitDouble addr with
        | [whole] => do
          let head ← groupsOf whole
          if head.length = 8 then some head else none
        | [left, right] => do
          let head ← groupsOf left
          let tail ← groupsOf right
          if head.length + tail.length ≤ 7 then
            some (head ++ List.replicate (8 - head.length - tail.length) ['0'] ++ tail)
          else none
        | _ => none
      some (groups.foldl (fun acc g => acc * 0x10000 + hexNumber g) 0)

/-- `parseIpLiteral`: the family and the number of an address. -/
def parseIpLiteral (text : String) : Option (IpFamily × Nat) :=
  match parseIPv4 text with
  | some v4 => some (.v4, v4)
  | none => (parseIPv6 text).map fun v6 => (.v6, v6)

/-! ## Tables -/

/-- `V2_PRIVATE_IPV4`. -/
def v2PrivateIPv4 : List (String × Nat) :=
  [("0.0.0.0", 8), ("10.0.0.0", 8), ("127.0.0.0", 8), ("169.254.0.0", 16), ("172.16.0.0", 12),
    ("192.0.0.0", 24), ("192.0.0.170", 31), ("192.0.2.0", 24), ("192.168.0.0", 16),
    ("198.18.0.0", 15), ("198.51.100.0", 24), ("203.0.113.0", 24), ("240.0.0.0", 4),
    ("255.255.255.255", 32)]

/-- `V2_PRIVATE_IPV4_EXCEPTIONS`. -/
def v2PrivateIPv4Exceptions : List (String × Nat) := [("192.0.0.9", 32), ("192.0.0.10", 32)]

/-- `V2_BLOCKED_IPV4`. -/
def v2BlockedIPv4 : List (String × Nat) :=
  [("127.0.0.0", 8), ("169.254.0.0", 16), ("224.0.0.0", 4), ("240.0.0.0", 4), ("0.0.0.0", 32)]

/-- `V3_EXTRA_BLOCKED_IPV4`. -/
def v3ExtraBlockedIPv4 : List (String × Nat) := [("100.64.0.0", 10)]

/-- `V2_PRIVATE_IPV6`. -/
def v2PrivateIPv6 : List (String × Nat) :=
  [("::1", 128), ("::", 128), ("64:ff9b:1::", 48), ("100::", 64), ("2001::", 23), ("2001:db8::", 32),
    ("2002::", 16), ("3fff::", 20), ("fc00::", 7), ("fe80::", 10)]

/-- `V2_PRIVATE_IPV6_EXCEPTIONS`. -/
def v2PrivateIPv6Exceptions : List (String × Nat) :=
  [("2001:1::1", 128), ("2001:1::2", 128), ("2001:3::", 32), ("2001:4:112::", 48), ("2001:20::", 28),
    ("2001:30::", 28)]

/-- `V2_BLOCKED_IPV6`. -/
def v2BlockedIPv6 : List (String × Nat) :=
  [("fe80::", 10), ("ff00::", 8), ("::", 8), ("100::", 8), ("200::", 7), ("400::", 6), ("800::", 5),
    ("1000::", 4), ("4000::", 3), ("6000::", 3), ("8000::", 3), ("a000::", 3), ("c000::", 3),
    ("e000::", 4), ("f000::", 5), ("f800::", 6), ("fe00::", 9)]

/-- `V3_EXTRA_BLOCKED_IPV6`. -/
def v3ExtraBlockedIPv6 : List (String × Nat) := [("fec0::", 10)]

/-! ## The policy -/

/-- `in4` and `in6`: the address of `width` bits is in the network. -/
def inNetwork (parse : String → Option Nat) (width ip : Nat) (net : String × Nat) : Bool :=
  (parse net.1).any fun base => ip / 2 ^ (width - net.2) == base / 2 ^ (width - net.2)

def in4 (ip : Nat) (net : String × Nat) : Bool := inNetwork parseIPv4 32 ip net

def in6 (ip : Nat) (net : String × Nat) : Bool := inNetwork parseIPv6 128 ip net

def ipv4Blocked (ip : Nat) : Bool :=
  (v2BlockedIPv4 ++ v3ExtraBlockedIPv4).any (in4 ip) ||
    (v2PrivateIPv4.any (in4 ip) && !v2PrivateIPv4Exceptions.any (in4 ip))

def ipv6Blocked (ip : Nat) : Bool :=
  -- an IPv4-mapped address is classified by the embedded one
  if ip / 2 ^ 32 = 0xffff then ipv4Blocked (ip % 2 ^ 32)
  else
    (v2BlockedIPv6 ++ v3ExtraBlockedIPv6).any (in6 ip) ||
      (v2PrivateIPv6.any (in6 ip) && !v2PrivateIPv6Exceptions.any (in6 ip))

/-- What may be fetched from; a text that is no address may not. -/
def isPublicAddress (text : String) : Bool :=
  match parseIpLiteral text with
  | none => false
  | some (.v4, ip) => !ipv4Blocked ip
  | some (.v6, ip) => !ipv6Blocked ip

end PrReviewer.Platform
