/-!
# Decimal numbers

Reading and writing of decimal integers.  Numbers of programs are 64-bit signed words, so a
literal outside of that range is no number.
-/

namespace GraphMachine
namespace Decimal

def digit (c : Char) : Nat :=
  c.toNat - '0'.toNat

/-- The number that a row of decimal digits denotes. -/
def value (digits : List Char) : Nat :=
  digits.foldl (fun n c => 10 * n + digit c) 0

/-- One more than the largest word. -/
def wordBound : Nat :=
  9223372036854775808

/-- One more than the largest 64-bit count. -/
def countBound : Nat :=
  18446744073709551616

/-- A natural number as a word, if it fits. -/
def word? (n : Nat) : Option Int64 :=
  if n < wordBound then some (Int64.ofNat n) else none

/-- An opposite of a natural number as a word, if it fits. -/
def negativeWord? (n : Nat) : Option Int64 :=
  if n ≤ wordBound then some (Int64.ofInt (-n)) else none

/-- The word that a row of digits denotes. -/
def unsigned? (digits : List Char) : Option Int64 :=
  word? (value digits)

/-- The word that a row of digits with an optional sign denotes. -/
def signed? : List Char → Option Int64
  | '-' :: digits => negativeWord? (value digits)
  | '+' :: digits => unsigned? digits
  | digits => unsigned? digits

def ofNat (n : Nat) : String :=
  n.repr

/-- An integer in decimal, with a sign if it is negative. -/
def ofInt : Int → String
  | .ofNat n => n.repr
  | .negSucc n => "-" ++ (n + 1).repr

def ofWord (v : Int64) : String :=
  ofInt v.toInt

end Decimal
end GraphMachine
