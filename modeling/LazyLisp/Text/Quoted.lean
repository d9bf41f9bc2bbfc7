import LazyLisp.Text.Unprintable

/-!
# Quoted text

A text between quotation marks, on one line and with nothing invisible in it:
unprintable characters are written by their code points, in hexadecimal digits
of a width that the letter after the backslash tells.

The marks are single ones, unless the text holds a single mark and no double
one; whichever is used is escaped inside.
-/

namespace LazyLisp

/-- The lower-case hexadecimal digit of a number below sixteen. -/
def hexDigit (d : Nat) : Char :=
  if d < 10 then Char.ofNat (48 + d) else Char.ofNat (87 + d)

/-- The last `width` hexadecimal digits of a number, the highest first. -/
def hexDigits : Nat → Nat → List Char
  | 0, _ => []
  | width + 1, n => hexDigits width (n / 16) ++ [hexDigit (n % 16)]

/-- A character by its code point, in two, four or eight digits. -/
def codePointEscape (c : Char) : List Char :=
  let n := c.toNat
  if n < 0x100 then '\\' :: 'x' :: hexDigits 2 n
  else if n < 0x10000 then '\\' :: 'u' :: hexDigits 4 n
  else '\\' :: 'U' :: hexDigits 8 n

/-- A character inside a text quoted with `mark`. -/
def quotedChar (mark : Char) (c : Char) : List Char :=
  if c == mark || c == '\\' then ['\\', c]
  else if c == '\t' then ['\\', 't']
  else if c == '\n' then ['\\', 'n']
  else if c == '\r' then ['\\', 'r']
  else if isUnprintable c then codePointEscape c
  else [c]

/-- The quotation mark for a text. -/
def quotationMark (cs : List Char) : Char :=
  if cs.contains '\'' && !cs.contains '"' then '"' else '\''

/-- A text between quotation marks. -/
def quoted (text : String) : String :=
  let cs := text.toList
  let mark := quotationMark cs
  String.ofList (mark :: cs.flatMap (quotedChar mark) ++ [mark])

/-- A list of quoted texts, in brackets. -/
def quotedList (texts : List String) : String :=
  "[" ++ ", ".intercalate (texts.map quoted) ++ "]"

end LazyLisp
