import Mathlib.Data.List.Basic

/-!
# Texts

The string functions that the model needs, on lists of characters. White space is Unicode's.
-/

namespace Text

/-- The Unicode property `White_Space`. -/
def isWhite (c : Char) : Bool :=
  let n := c.toNat
  (0x09 ≤ n && n ≤ 0x0D) || n == 0x20 || n == 0x85 || n == 0xA0 || n == 0x1680 ||
    (0x2000 ≤ n && n ≤ 0x200A) || n == 0x2028 || n == 0x2029 || n == 0x202F || n == 0x205F ||
    n == 0x3000

/-- A line feed ends a line, and one carriage return before it belongs to the
end. `current` is the line so far, its last character first. -/
def linesFrom : List Char → List Char → List (List Char)
  | [], [] => []
  | [], current => [current.reverse]
  | '\n' :: rest, '\r' :: current | '\n' :: rest, current => current.reverse :: linesFrom rest []
  | c :: rest, current => linesFrom rest (c :: current)

def lines (s : List Char) : List (List Char) := linesFrom s []

/-- `trim_end_matches` of a kind of character. -/
def trimEndMatches (p : Char → Bool) (s : List Char) : List Char := (s.reverse.dropWhile p).reverse

def trim (s : List Char) : List Char := trimEndMatches isWhite (s.dropWhile isWhite)

/-- `split_whitespace().next()`, or the empty text. -/
def firstWord (s : List Char) : List Char :=
  (s.dropWhile isWhite).takeWhile fun c => !isWhite c

def stripPrefix (start s : List Char) : Option (List Char) :=
  if start.isPrefixOf s then some (s.drop start.length) else none

/-- `contains` of a text. -/
def contains (needle : List Char) : List Char → Bool
  | [] => needle.isEmpty
  | c :: s => needle.isPrefixOf (c :: s) || contains needle s

def toAsciiLowercase (s : List Char) : List Char := s.map Char.toLower

def before (c : Char) (s : List Char) : List Char := s.takeWhile (· ≠ c)

def afterLast (c : Char) (s : List Char) : List Char := (s.reverse.takeWhile (· ≠ c)).reverse

/-! ## IP addresses -/

def toDigit (radix : Nat) (c : Char) : Option Nat :=
  let digit :=
    if '0' ≤ c ∧ c ≤ '9' then some (c.toNat - '0'.toNat)
    else if 'a' ≤ c.toLower ∧ c.toLower ≤ 'f' then some (c.toLower.toNat - 'a'.toNat + 10)
    else none
  digit.filter (· < radix)

/-- What is read from the start of a text, and the rest. -/
abbrev Reader (α : Type) := List Char → Option (α × List Char)

def readGivenChar (c : Char) : Reader Unit
  | [] => none
  | d :: rest => if d = c then some ((), rest) else none

/-- A number of at most `maxDigits` digits that is less than `limit`. -/
def readNumber (radix maxDigits limit : Nat) (allowZeroPrefix : Bool) : Reader Nat := fun s =>
  let digits := (s.takeWhile fun c => (toDigit radix c).isSome).filterMap (toDigit radix)
  let number := digits.foldl (fun n digit => n * radix + digit) 0
  if digits = [] ∨ digits.length > maxDigits then none
  else if allowZeroPrefix = false ∧ digits.head? = some 0 ∧ digits.length > 1 then none
  else if number < limit then some (number, s.drop digits.length)
  else none

/-- The separator stands before every part but the first. -/
def readSeparator {α : Type} (separator : Char) (index : Nat) (inner : Reader α) : Reader α := fun s =>
  if index = 0 then inner s
  else (readGivenChar separator s).bind fun (_, rest) => inner rest

/-- No octet is written with leading zeros. -/
def readIpv4Addr : Reader (List Nat) := fun s => do
  let octet := readNumber 10 3 256 false
  let (a, s) ← readSeparator '.' 0 octet s
  let (b, s) ← readSeparator '.' 1 octet s
  let (c, s) ← readSeparator '.' 2 octet s
  let (d, s) ← readSeparator '.' 3 octet s
  return ([a, b, c, d], s)

/-- At most `left` more groups of an IPv6 address after those read so far, and
whether the last two are an IPv4 address. -/
def readGroups : Nat → List Nat → List Char → List Nat × Bool × List Char
  | 0, groups, s => (groups, false, s)
  | left + 1, groups, s =>
    let embedded := if left = 0 then none else readSeparator ':' groups.length readIpv4Addr s
    match embedded with
    | some (octets, rest) =>
      let pair (i : Nat) := octets.getD i 0 * 256 + octets.getD (i + 1) 0
      (groups ++ [pair 0, pair 2], true, rest)
    | none =>
      match readSeparator ':' groups.length (readNumber 16 4 65536 true) s with
      | some (group, rest) => readGroups left (groups ++ [group]) rest
      | none => (groups, false, s)

/-- Two colons stand for at least one group of zeros. -/
def readIpv6Addr : Reader (List Nat) := fun s =>
  match readGroups 8 [] s with
  | (head, ipv4, rest) =>
    if head.length = 8 then some (head, rest)
    else if ipv4 then none
    else do
      let (_, rest) ← readGivenChar ':' rest
      let (_, rest) ← readGivenChar ':' rest
      let (tail, _, rest) := readGroups (8 - (head.length + 1)) [] rest
      return (head ++ List.replicate (8 - head.length - tail.length) 0 ++ tail, rest)

inductive IpAddr where
  | v4 (octets : List Nat)
  | v6 (groups : List Nat)
deriving DecidableEq, Repr

def parseIpAddr (s : List Char) : Option IpAddr :=
  match readIpv4Addr s with
  | some (octets, rest) => if rest = [] then some (.v4 octets) else none
  | none =>
    match readIpv6Addr s with
    | some (groups, rest) => if rest = [] then some (.v6 groups) else none
    | none => none

def IpAddr.isLoopback : IpAddr → Bool
  | .v4 octets => octets.head? == some 127
  | .v6 groups => groups == [0, 0, 0, 0, 0, 0, 0, 1]

example : parseIpAddr "2001:db8::ffff:10.0.0.1".toList =
    some (.v6 [0x2001, 0xdb8, 0, 0, 0, 0xffff, 0x0a00, 1]) := by decide

example : (parseIpAddr "::1".toList).map (·.isLoopback) = some true := by decide

end Text
