import DfuUtilQda.Machine.Memory

/-! Numbers in command line arguments, as `strtoul` and `atoi` read them. -/

namespace DfuUtilQda.Machine

def isSpace (ch : Char) : Bool := ch = ' ' ∨ ch = '\t' ∨ ch = '\n' ∨ ch = '\x0b' ∨ ch = '\x0c' ∨ ch = '\r'

def digitValue (ch : Char) : Option Nat :=
  if '0' ≤ ch ∧ ch ≤ '9' then some (ch.toNat - '0'.toNat)
  else if 'a' ≤ ch ∧ ch ≤ 'z' then some (ch.toNat - 'a'.toNat + 10)
  else if 'A' ≤ ch ∧ ch ≤ 'Z' then some (ch.toNat - 'A'.toNat + 10)
  else none

def isDigit (base : Nat) (ch : Char) : Bool :=
  match digitValue ch with
  | some value => value < base
  | none => false

/-- The digits a numeral begins with, and what comes after them. -/
def digits (base : Nat) (text : List Char) : List Char × List Char := text.span (isDigit base)

def numeralValue (base : Nat) (text : List Char) : Nat :=
  text.foldl (fun value ch => base * value + (digitValue ch).getD 0) 0

/-- The sign after any white space; `true` stands for a minus. -/
def sign (text : List Char) : Bool × List Char :=
  match text.dropWhile isSpace with
  | '-' :: text => (true, text)
  | '+' :: text => (false, text)
  | text => (false, text)

/-- The base that a numeral's own prefix announces, and the numeral without a `0x`. -/
def announcedBase (text : List Char) : Nat × List Char :=
  match text with
  | '0' :: x :: digit :: text =>
    if (x = 'x' ∨ x = 'X') ∧ isDigit 16 digit then (16, digit :: text) else (8, '0' :: x :: digit :: text)
  | '0' :: text => (8, '0' :: text)
  | text => (10, text)

/-- `strtoul(text, &end, 0)`: the number, and the text from `end` on. -/
def strtoul (text : List Char) : Nat × List Char :=
  let (minus, unsigned) := sign text
  let (base, numeral) := announcedBase unsigned
  let (number, rest) := digits base numeral
  if number = [] then (0, text)
  else if numeralValue base number ≥ 2 ^ 64 then (2 ^ 64 - 1, rest)
  else if minus then (toSize (-(numeralValue base number)), rest)
  else (numeralValue base number, rest)

/-- `atoi(text)`, which is `strtol` with base 10 and the result cut to an `int`. -/
def atoi (text : List Char) : Int :=
  let (minus, unsigned) := sign text
  let value := numeralValue 10 (digits 10 unsigned).1
  if minus then toInt (max (-value) (-2 ^ 63)) else toInt (min value (2 ^ 63 - 1))

end DfuUtilQda.Machine
