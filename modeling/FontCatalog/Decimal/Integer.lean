/-!
# Decimal integers

The decimal spelling of integers: no leading zeros, and a minus sign in front of negative ones.
-/

namespace FontCatalog.Decimal

/-- The decimal digits of a natural number. -/
def digits (number : Nat) : List Char :=
  Nat.toDigits 10 number

/-- The decimal spelling of an integer. -/
def integer : Int → List Char
  | .ofNat number => digits number
  | .negSucc number => '-' :: digits (number + 1)

/-- The decimal spelling of a natural number, as a string. -/
def text (number : Nat) : String :=
  String.ofList (digits number)

end FontCatalog.Decimal
