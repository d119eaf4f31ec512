import Mathlib.Data.List.Basic
import Mathlib.Algebra.Group.Int.Defs
import Mathlib.Algebra.Group.Nat.Defs

/-! Byte strings: the values of `std::string`. Text literals are their UTF-8 bytes. -/
namespace Lib

abbrev Bytes := List UInt8

def utf8 (s : String) : Bytes := s.toUTF8.data.toList

/-- `std::to_string` of an integer. -/
def decimal (n : Int) : Bytes := utf8 (toString n)

theorem utf8_injective : Function.Injective utf8 := by
  intro s t h
  exact String.toByteArray_inj.mp (ByteArray.ext (Array.toList_inj.mp h))

theorem decimal_injective : Function.Injective fun n : Nat => decimal n := by
  intro m n h
  have hrepr : Nat.repr m = Nat.repr n := utf8_injective h
  have hdigits : Nat.toDigits 10 m = Nat.toDigits 10 n := by
    have hm : (Nat.repr m).toList = Nat.toDigits 10 m := by simp [Nat.repr]
    have hn : (Nat.repr n).toList = Nat.toDigits 10 n := by simp [Nat.repr]
    rw [← hm, ← hn, hrepr]
  have hvalue := congrArg (Nat.ofDigitChars 10 · 0) hdigits
  simpa using hvalue

def isDigit (b : UInt8) : Bool := 48 ≤ b && b ≤ 57

/-- `isspace` in the C locale: tab, newline, vertical tab, form feed, return, blank. -/
def isSpace (b : UInt8) : Bool := b == 32 || (9 ≤ b && b ≤ 13)

def digitsValue (ds : Bytes) : Nat := ds.foldl (fun n d => 10 * n + (d.toNat - 48)) 0

/-- The optional sign and the digits that a stream or `stoi` reads after blanks. -/
def signedDigits (s : Bytes) : Bool × Bytes :=
  match s.dropWhile isSpace with
  | 45 :: t => (true, t.takeWhile isDigit)
  | 43 :: t => (false, t.takeWhile isDigit)
  | t => (false, t.takeWhile isDigit)

def signedValue (d : Bool × Bytes) : Int :=
  if d.1 then -(digitsValue d.2 : Int) else digitsValue d.2

/-- `istringstream >> int`: zero without digits, the nearest bound on overflow. -/
def streamInt (s : Bytes) : Int :=
  max (-2 ^ 31) (min (2 ^ 31 - 1) (signedValue (signedDigits s)))

/-- The same into a variable, which a blank text leaves as it was. -/
def readInt (old : Int32) (s : Bytes) : Int32 := if s.all isSpace then old else Int32.ofInt (streamInt s)

/-- `istringstream >> unsigned`: as `strtoull` a sign negates modulo the type, a value
that does not fit gives the largest one. -/
def streamUInt (s : Bytes) : UInt32 :=
  let d := signedDigits s
  if digitsValue d.2 < 2 ^ 32 then UInt32.ofInt (signedValue d) else UInt32.ofNat (2 ^ 32 - 1)

/-- `std::stoi`: no digits or a value outside `int` is an exception. -/
def stoi (s : Bytes) : Option Int :=
  let d := signedDigits s
  if d.2 = [] then none
  else if -2 ^ 31 ≤ signedValue d ∧ signedValue d < 2 ^ 31 then some (signedValue d) else none

/-- `istringstream >> string`: the first word. -/
def streamWord (s : Bytes) : Bytes := (s.dropWhile isSpace).takeWhile (! isSpace ·)

end Lib
