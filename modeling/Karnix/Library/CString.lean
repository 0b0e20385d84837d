import Karnix.Library.Bytes
import Mathlib.Data.List.TakeWhile

/-!
# Strings that end with a zero byte

A string is given by the bytes before its end.  `atoi` reads a decimal number from the beginning
of a text.
-/

namespace Karnix.Library

/-- The bytes before the zero byte that ends a string. -/
structure CString where
  bytes : List Byte
  noZero : (0 : Byte) ∉ bytes
  deriving DecidableEq

namespace CString

/-- The string that is read from a text. -/
def ofBytes (bs : List Byte) : CString where
  bytes := bs.takeWhile (· ≠ 0)
  noZero h := by
    have hzero := List.mem_takeWhile_imp h
    simp at hzero

theorem bytes_ofBytes {bs : List Byte} (h : (0 : Byte) ∉ bs) : (ofBytes bs).bytes = bs := by
  refine List.takeWhile_eq_self_iff.2 fun b hb => decide_eq_true ?_
  rintro rfl
  exact h hb

/-- One string behind another. -/
def append (s t : CString) : CString where
  bytes := s.bytes ++ t.bytes
  noZero h := (List.mem_append.1 h).elim s.noZero t.noZero

/-- `isspace` in the C locale: the blank and the characters from tab to carriage return. -/
def isSpace (b : Byte) : Bool := b = 0x20 || (0x09 ≤ b && b ≤ 0x0d)

/-- `isdigit`: the ten decimal digits. -/
def isDigit (b : Byte) : Bool := 0x30 ≤ b && b ≤ 0x39

/-- The number that the digits at the beginning of a text stand for. -/
def decimal (bs : List Byte) : ℕ :=
  (bs.takeWhile isDigit).foldl (fun n b => n * 10 + (b.toNat - 48)) 0

/-- `atoi`, with a `long` of 32 bits: what does not fit is cut to the largest or smallest value. -/
def atoi (bs : List Byte) : ℤ :=
  match bs.dropWhile isSpace with
  | [] => 0
  | b :: rest =>
    if b = 0x2d then max (-2147483648) (-(decimal rest : ℤ))
    else min 2147483647 (decimal (if b = 0x2b then rest else b :: rest) : ℤ)

example : atoi [0x20, 0x2d, 0x31, 0x32, 0x3b] = -12 := by decide

end CString

end Karnix.Library
