/-!
# Hexadecimal digits

Escapes in quoted texts name a character by its code in hexadecimal digits, in either case.
-/

namespace SchemaDesign.Text

def hexValue? (c : Char) : Option Nat :=
  if c.isDigit then some (c.toNat - '0'.toNat)
  else if 'a' ≤ c ∧ c ≤ 'f' then some (c.toNat - 'a'.toNat + 10)
  else if 'A' ≤ c ∧ c ≤ 'F' then some (c.toNat - 'A'.toNat + 10)
  else none

/-- The character with a code.  Codes above the last one and the codes of surrogates have none. -/
def character? (code : Nat) : Option Char :=
  if code.isValidChar then some (Char.ofNat code) else none

end SchemaDesign.Text
