namespace GpioBridge

inductive SocketAddress where
  | v4 (octets : List Nat) (port : Nat)
  | v6 (groups : List Nat) (scope : Nat) (port : Nat)
  deriving DecidableEq, Repr, Inhabited

namespace SocketAddress

-- Every reader takes the characters from where it stands and gives what it read with the rest.
abbrev Chars := List Char

def digit? (base : Nat) (c : Char) : Option Nat :=
  let value :=
    if '0' ≤ c ∧ c ≤ '9' then some (c.toNat - '0'.toNat)
    else if 'a' ≤ c ∧ c ≤ 'z' then some (c.toNat - 'a'.toNat + 10)
    else if 'A' ≤ c ∧ c ≤ 'Z' then some (c.toNat - 'A'.toNat + 10)
    else none
  value.filter (· < base)

def numeral (base : Nat) (digits : Chars) : Nat :=
  digits.foldl (fun n c => base * n + (digit? base c).getD 0) 0

-- A number of at least one digit, at most `most` digits where that is given, and below `bound`.
-- Leading zeros can be forbidden.
def number (base : Nat) (most : Option Nat) (leadingZeros : Bool) (bound : Nat)
    (text : Chars) : Option (Nat × Chars) :=
  let digits := text.takeWhile fun c => (digit? base c).isSome
  let fits := match most with
    | none => true
    | some most => digits.length ≤ most
  let zeros := digits.length > 1 && digits.head? == some '0' && !leadingZeros
  let value := numeral base digits
  if digits.isEmpty || !fits || zeros || bound ≤ value then none
  else some (value, text.drop digits.length)

def mark (c : Char) : Chars → Option (Unit × Chars)
  | first :: rest => if first = c then some ((), rest) else none
  | [] => none

-- A part of a list; all but the first have a separator in front.
def part (separator : Char) (first : Bool) (read : Chars → Option (α × Chars)) (text : Chars) :
    Option (α × Chars) :=
  if first then read text
  else do
    let ((), text) ← mark separator text
    read text

def octet (first : Bool) : Chars → Option (Nat × Chars) :=
  part '.' first (number 10 (some 3) false 256)

def octets (text : Chars) : Option (List Nat × Chars) := do
  let (a, text) ← octet true text
  let (b, text) ← octet false text
  let (c, text) ← octet false text
  let (d, text) ← octet false text
  return ([a, b, c, d], text)

-- As many groups as there are, up to so many, and whether the last two were an IPv4 address.
def groups : (most : Nat) → (first : Bool) → Chars → List Nat × Bool × Chars
  | 0, _, text => ([], false, text)
  | most + 1, first, text =>
    match if 0 < most then part ':' first octets text else none with
    | some ([a, b, c, d], rest) => ([256 * a + b, 256 * c + d], true, rest)
    | _ =>
      match part ':' first (number 16 (some 4) true 65536) text with
      | some (group, rest) =>
        let (more, embedded, rest) := groups most false rest
        (group :: more, embedded, rest)
      | none => ([], false, text)

def allGroups (text : Chars) : Option (List Nat × Chars) :=
  let (head, embedded, rest) := groups 8 true text
  if head.length = 8 then some (head, rest)
  else if embedded then none
  else do
    let ((), rest) ← mark ':' rest
    let ((), rest) ← mark ':' rest
    let (tail, _, rest) := groups (7 - head.length) true rest
    return (head ++ List.replicate (8 - head.length - tail.length) 0 ++ tail, rest)

def port (text : Chars) : Option (Nat × Chars) := do
  let ((), text) ← mark ':' text
  number 10 none true 65536 text

-- A scope, which is zero where none is written.
def scope (text : Chars) : Option (Nat × Chars) :=
  match mark '%' text with
  | none => some (0, text)
  | some ((), rest) => number 10 none true UInt32.size rest

def v4? (text : Chars) : Option (SocketAddress × Chars) := do
  let (octets, text) ← octets text
  let (port, text) ← port text
  return (.v4 octets port, text)

def v6? (text : Chars) : Option (SocketAddress × Chars) := do
  let ((), text) ← mark '[' text
  let (groups, text) ← allGroups text
  let (scope, text) ← scope text
  let ((), text) ← mark ']' text
  let (port, text) ← port text
  return (.v6 groups scope port, text)

def parse? (text : String) : Option SocketAddress :=
  match (v4? text.toList).or (v6? text.toList) with
  | some (address, []) => some address
  | _ => none

def zeros (groups : List Nat) : Nat := (groups.takeWhile (· == 0)).length

-- Where the first longest run of zero groups begins, and how long it is.
def longestRun : List Nat → Nat × Nat
  | [] => (0, 0)
  | group :: rest =>
    let here := zeros (group :: rest)
    let (start, length) := longestRun rest
    if length ≤ here then (0, here) else (start + 1, length)

def hexadecimal (group : Nat) : String := String.ofList (Nat.toDigits 16 group)

def joinGroups (groups : List Nat) : String := ":".intercalate (groups.map hexadecimal)

def dotted (octets : List Nat) : String := ".".intercalate (octets.map toString)

def octetsOf (a b : Nat) : List Nat := [a / 256, a % 256, b / 256, b % 256]

-- An IPv6 address; one that stands for an IPv4 address is written with it. The first longest run of
-- at least two zero groups is left out.
def groupsText (groups : List Nat) : String :=
  match groups with
  | [0, 0, 0, 0, 0, 65535, a, b] => "::ffff:" ++ dotted (octetsOf a b)
  | _ =>
    let (start, length) := longestRun groups
    if length < 2 then joinGroups groups
    else joinGroups (groups.take start) ++ "::" ++ joinGroups (groups.drop (start + length))

def text : SocketAddress → String
  | v4 octets port => s!"{dotted octets}:{port}"
  | v6 groups 0 port => s!"[{groupsText groups}]:{port}"
  | v6 groups scope port => s!"[{groupsText groups}%{scope}]:{port}"

def unmapped : SocketAddress → SocketAddress
  | v6 [0, 0, 0, 0, 0, 65535, a, b] _ port => v4 (octetsOf a b) port
  | address => address

end SocketAddress

end GpioBridge
