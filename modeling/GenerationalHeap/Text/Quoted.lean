/-
Quoted text of a line-oriented object format: strings between double quotes,
and objects as comma-separated members between braces, without blanks.

* `quoted` — a string between quotes.
* `object` — an object from its members, whose values are already text.
* `number` — how floats are written as values.
-/
import GenerationalHeap.Text.Decimal

namespace GenerationalHeap.Text

/-- A character inside quotes. The quote, the backslash and the control
characters are escaped, five of the latter with a letter of their own. -/
def escaped (c : Char) : List Char :=
  match c with
  | '"' => ['\\', '"']
  | '\\' => ['\\', '\\']
  | '\x08' => ['\\', 'b']
  | '\t' => ['\\', 't']
  | '\n' => ['\\', 'n']
  | '\x0c' => ['\\', 'f']
  | '\r' => ['\\', 'r']
  | c =>
    if c.toNat < 32 then
      let digits := Nat.toDigits 16 c.toNat
      ['\\', 'u'] ++ List.replicate (4 - digits.length) '0' ++ digits
    else [c]

/-- A string between quotes. -/
def quoted (s : String) : String :=
  String.ofList (['"'] ++ s.toList.flatMap escaped ++ ['"'])

/-- An object from the names and the written values of its members. -/
def object (members : List (String × String)) : String :=
  let written := members.map fun (name, value) => quoted name ++ ":" ++ value
  String.ofList ['\x7b'] ++ ",".intercalate written ++ String.ofList ['\x7d']

/-- Floats as values: positional from `10 ^ -5` up to below `10 ^ 16`, whole
numbers with one zero behind the point, a tie going to the even digit, and
`null` for what is not finite. -/
def number : Style where
  notFinite _ _ := "null"
  wholeEnd := ".0"
  positional e := decide (-5 ≤ e ∧ e < 16)
  tie := .toEven

end GenerationalHeap.Text
