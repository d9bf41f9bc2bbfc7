import LazyLisp.Token

/-!
# Numerals

Integers have any size, but there is a limit to the conversions between them
and text: a numeral of more than `digitLimit` digits is neither read nor
written. On reading, all digits count, leading zeros included; the sign never
counts.

* `isNumeral`: the tokens that are read as integers;
* `readNumeral`: the integer that a numeral stands for;
* `decimal`: the numeral of an integer, and `fitsDigitLimit`, which says for
  which integers the limit lets it be written.
-/

namespace LazyLisp

/-- The largest number of digits in a conversion between integers and text. -/
def digitLimit : Nat := 4300

/-- The digits of a natural number, without leading zeros. -/
def naturalText (n : Nat) : String :=
  String.ofList (Nat.toDigits 10 n)

/-- A conversion that the digit limit forbids. -/
inductive DigitLimitError
  /-- A numeral with this many digits was to be read. -/
  | reading (digits : Nat)
  /-- An integer with too many digits was to be written. -/
  | writing
  deriving DecidableEq, Repr

namespace DigitLimitError

/-- The text of the error. Only reading tells the number of digits. -/
def message : DigitLimitError → String
  | reading digits =>
    "Exceeds the limit (4300 digits) for integer string conversion: value has "
      ++ naturalText digits ++ " digits; use sys.set_int_max_str_digits() to increase the limit"
  | writing =>
    "Exceeds the limit (4300 digits) for integer string conversion"
      ++ "; use sys.set_int_max_str_digits() to increase the limit"

end DigitLimitError

/-- The characters after an optional minus sign. -/
def dropSign : List Char → List Char
  | '-' :: cs => cs
  | cs => cs

/-- A token that is read as an integer: digits, at least one, after an optional
    minus sign. -/
def isNumeral (token : Token) : Bool :=
  let digits := dropSign token.toList
  !digits.isEmpty && digits.all Char.isDigit

/-- The integer that a numeral stands for, without regard to the digit limit. -/
def numeralValue (token : Token) : Int :=
  let cs := token.toList
  let n := Nat.ofDigitChars 10 (dropSign cs) 0
  if cs.head? = some '-' then -(n : Int) else n

/-- The integer that a numeral stands for, if its digits are within the limit. -/
def readNumeral (token : Token) : Except DigitLimitError Int :=
  let digits := (dropSign token.toList).length
  if digits ≤ digitLimit then .ok (numeralValue token) else .error (.reading digits)

/-- The numeral of an integer. -/
def decimal : Int → String
  | .ofNat n => naturalText n
  | .negSucc n => "-" ++ naturalText (n + 1)

/-- The numeral of the integer has no more digits than the limit allows. -/
def fitsDigitLimit (n : Int) : Bool :=
  (Nat.toDigits 10 n.natAbs).length ≤ digitLimit

end LazyLisp
