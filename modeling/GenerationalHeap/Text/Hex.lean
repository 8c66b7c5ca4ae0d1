/-
Hexadecimal text, with lower-case digits.

* `hex` — an address: `0x` and the digits without padding.
* `hexPadded` — a word of a fixed width.
* `hexBytes` — two digits for each byte.
* `ofHex`, `ofHexBytes` — the same read back.
-/

namespace GenerationalHeap.Text

/-- A number in base sixteen, with the mark `0x` in front. -/
def hex (n : Nat) : String := "0x" ++ String.ofList (Nat.toDigits 16 n)

/-- The digits of a number in base sixteen, with zeros in front up to a width. -/
def hexPadded (width n : Nat) : String :=
  let digits := Nat.toDigits 16 n
  String.ofList (List.replicate (width - digits.length) '0' ++ digits)

/-- Bytes as pairs of digits. -/
def hexBytes (bytes : ByteArray) : String :=
  String.join (bytes.toList.map fun b => hexPadded 2 b.toNat)

/-- The value of a digit. -/
def hexDigit (c : Char) : Nat :=
  if c.isDigit then c.toNat - '0'.toNat else c.toNat - 'a'.toNat + 10

/-- The number that digits write, most significant first. -/
def ofHex (digits : List Char) : Nat := digits.foldl (fun n c => 16 * n + hexDigit c) 0

/-- The bytes that pairs of digits write. -/
def ofHexBytes : List Char → List UInt8
  | a :: b :: rest => UInt8.ofNat (ofHex [a, b]) :: ofHexBytes rest
  | _ => []

end GenerationalHeap.Text
