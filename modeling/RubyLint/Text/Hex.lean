/-!
# Digits

Numbers are written in hexadecimal in escapes and read back from octal and hexadecimal digits.
Writing starts from the least significant digit and reading from the most significant one.
-/

namespace RubyLint.Text

def isOctalDigit (c : Char) : Bool :=
  '0' ≤ c && c ≤ '7'

/-- Whether `c` is one of `0` to `9`, `a` to `f` and `A` to `F`. -/
def isHexDigit (c : Char) : Bool :=
  ('0' ≤ c && c ≤ '9') || ('a' ≤ c && c ≤ 'f') || ('A' ≤ c && c ≤ 'F')

/-- The value of a hexadecimal digit; characters that are no digits count as zero. -/
def digitValue (c : Char) : Nat :=
  if '0' ≤ c ∧ c ≤ '9' then c.toNat - '0'.toNat
  else if 'a' ≤ c ∧ c ≤ 'f' then c.toNat - 'a'.toNat + 10
  else if 'A' ≤ c ∧ c ≤ 'F' then c.toNat - 'A'.toNat + 10
  else 0

/-- The number that `digits` stand for in `base`. -/
def ofDigits (base : Nat) (digits : List Char) : Nat :=
  digits.foldl (fun value digit => value * base + digitValue digit) 0

/-- The digit of value `n`, below sixteen, with capital letters. -/
def upperHexDigit (n : Nat) : Char :=
  if n < 10 then Char.ofNat ('0'.toNat + n) else Char.ofNat ('A'.toNat + (n - 10))

/-- The hexadecimal digits of `n`, capital and without leading zeros. -/
def upperHex (n : Nat) : List Char :=
  if n < 16 then [upperHexDigit n] else upperHex (n / 16) ++ [upperHexDigit (n % 16)]
termination_by n

/-- The hexadecimal digits of `n`, capital, filled up with zeros to `width` places. -/
def upperHexPadded (width n : Nat) : List Char :=
  let digits := upperHex n
  List.replicate (width - digits.length) '0' ++ digits

/-- The hexadecimal digits of `n`, in small letters, filled up with zeros to `width` places. -/
def lowerHexPadded (width n : Nat) : List Char :=
  (upperHexPadded width n).map Char.toLower

end RubyLint.Text
