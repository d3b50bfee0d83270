import Mathlib

namespace PerfStats.Monitor

abbrev Bytes := List UInt8

/-- `isspace` in the C locale, and the delimiters of `wsep`. -/
def isSpaceByte (b : UInt8) : Bool := b = 32 || (9 ≤ b && b ≤ 13)

def isDigitByte (b : UInt8) : Bool := 48 ≤ b && b ≤ 57

/-- The next token, and what is behind its delimiter. -/
def wsep : Bytes → Option Bytes × Option Bytes
  | [] => (none, none)
  | b :: rest =>
    if isSpaceByte b then wsep rest
    else
      let token := (b :: rest).takeWhile fun c => !isSpaceByte c
      match (b :: rest).dropWhile fun c => !isSpaceByte c with
      | [] => (some token, none)
      | _ :: after => (some token, some after)

/-- The value `strtoull` gives for a decimal numeral. -/
def ullOf (negative : Bool) (n : Nat) : UInt64 :=
  if n < 2 ^ 64 then if negative then 0 - UInt64.ofNat n else UInt64.ofNat n
  else UInt64.ofNat (2 ^ 64 - 1)

/-- The conversion `%llu` of `sscanf`; `%*u` reads the same text. -/
def scanUll (s : Bytes) : Option (UInt64 × Bytes) :=
  let s := s.dropWhile isSpaceByte
  let negative := s.head? = some 45
  let s := if s.head? = some 45 ∨ s.head? = some 43 then s.tail else s
  match s.takeWhile isDigitByte with
  | [] => none
  | digits => some (ullOf negative (digits.foldl (fun n d => 10 * n + (d.toNat - 48)) 0),
      s.dropWhile isDigitByte)

def scanWord (s : Bytes) : Option Bytes :=
  let s := s.dropWhile isSpaceByte
  if s = [] then none else some (s.dropWhile fun c => !isSpaceByte c)

def scanLit (word s : Bytes) : Option Bytes :=
  let s := s.dropWhile isSpaceByte
  if word.isPrefixOf s then some (s.drop word.length) else none

def getlines : Bytes → List Bytes
  | [] => []
  | b :: rest =>
    if b = 10 then [b] :: getlines rest
    else
      match getlines rest with
      | [] => [[b]]
      | line :: lines => (b :: line) :: lines

end PerfStats.Monitor
