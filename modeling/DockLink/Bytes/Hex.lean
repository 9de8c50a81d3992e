import DockLink.Bytes.Field

/-!
# Bytes as text

Two hexadecimal digits for each byte, the higher one first, in lower case. Reading takes upper case
too.
-/

namespace DockLink.Bytes

/-- The digit of a number below sixteen. -/
def hexDigit (n : Nat) : Char := if n < 10 then Char.ofNat (48 + n) else Char.ofNat (87 + n)

def hexValue? (c : Char) : Option UInt8 :=
  if '0' ≤ c ∧ c ≤ '9' then some (c.toNat - 48).toUInt8
  else if 'a' ≤ c ∧ c ≤ 'f' then some (c.toNat - 87).toUInt8
  else if 'A' ≤ c ∧ c ≤ 'F' then some (c.toNat - 55).toUInt8
  else none

def toHexDigits (b : Bytes) : List Char :=
  b.flatMap fun x => [hexDigit (x.toNat / 16), hexDigit (x.toNat % 16)]

/-- The bytes of pairs of digits. Reading stops where a pair of digits does not follow. -/
def ofHexDigits : List Char → Bytes
  | c :: d :: rest =>
    match hexValue? c, hexValue? d with
    | some high, some low => (high * 16 + low) :: ofHexDigits rest
    | _, _ => []
  | _ => []

def toHex (b : Bytes) : String := String.ofList b.toHexDigits

def ofHex (text : String) : Bytes := ofHexDigits text.toList

end DockLink.Bytes
