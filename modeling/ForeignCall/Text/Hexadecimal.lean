/-!
# Bytes as text

Two hexadecimal digits for each byte, the high one first.
-/

namespace ForeignCall.Text

/-- The value of a hexadecimal digit. -/
def digitValue (c : Char) : Nat :=
  if '0' ≤ c && c ≤ '9' then c.toNat - 48
  else if 'a' ≤ c && c ≤ 'f' then c.toNat - 87
  else if 'A' ≤ c && c ≤ 'F' then c.toNat - 55
  else 0

/-- The digits of bytes. -/
def ofBytes (bytes : List UInt8) : String :=
  String.ofList (bytes.flatMap fun b =>
    [Nat.digitChar (b.toNat / 16), Nat.digitChar (b.toNat % 16)])

/-- The bytes of pairs of digits. -/
def pairs : List Char → List UInt8
  | a :: b :: rest => UInt8.ofNat (digitValue a * 16 + digitValue b) :: pairs rest
  | _ => []

/-- The bytes of digits. -/
def toBytes (s : String) : List UInt8 := pairs s.toList

end ForeignCall.Text
