namespace Monitor.Text

def isAsciiDigit (c : Char) : Bool :=
  '0' ≤ c && c ≤ '9'

def isAsciiLetter (c : Char) : Bool :=
  ('a' ≤ c && c ≤ 'z') || ('A' ≤ c && c ≤ 'Z')

/-- The value of a digit or letter; letters of both cases count on from ten. -/
def digitValue? (c : Char) : Option Nat :=
  if isAsciiDigit c then some (c.toNat - '0'.toNat)
  else if 'a' ≤ c && c ≤ 'z' then some (c.toNat - 'a'.toNat + 10)
  else if 'A' ≤ c && c ≤ 'Z' then some (c.toNat - 'A'.toNat + 10)
  else none

def digit? (radix : Nat) (c : Char) : Option Nat :=
  (digitValue? c).filter (· < radix)

def isDigit (radix : Nat) (c : Char) : Bool :=
  (digit? radix c).isSome

def ofDigits (radix : Nat) (cs : List Char) : Nat :=
  cs.foldl (fun n c => n * radix + (digit? radix c).getD 0) 0

def toDigits (radix : Nat) (n : Nat) : String :=
  String.ofList (Nat.toDigits radix n)

def hex (n : UInt32) : String :=
  toDigits 16 n.toNat

def repeated (count : Nat) (c : Char) : String :=
  String.ofList (List.replicate count c)

def padLeft (width : Nat) (fill : Char) (s : String) : String :=
  repeated (width - s.length) fill ++ s

def padRight (width : Nat) (s : String) : String :=
  s ++ repeated (width - s.length) ' '

def hexWide (width : Nat) (n : UInt32) : String :=
  padLeft width '0' (hex n)

end Monitor.Text
