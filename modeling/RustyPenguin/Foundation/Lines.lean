import Mathlib.Algebra.Ring.Int.Defs
import Mathlib.Algebra.Ring.Nat
import Mathlib.Data.List.Defs

/-!
# Lines and words of a text

Taking a text apart at its newlines and at its white space, as the text functions of the standard
library do.
-/

set_option autoImplicit false

namespace RustyPenguin.Foundation

abbrev Text := List Char

/-- A line that ended with a newline, without the carriage return before it. -/
def stripReturn (line : Text) : Text := if line.getLast? = some '\r' then line.dropLast else line

/-- `str::lines`. What is behind the last newline is a line when it is not empty. -/
def textLines (text : Text) : List Text :=
  (text.splitOn '\n').dropLast.map stripReturn ++
    ((text.splitOn '\n').getLast?.filter fun line => line ≠ []).toList

/-- `char::is_whitespace`. -/
def isWhitespace (c : Char) : Bool :=
  let n := c.toNat
  (9 ≤ n && n ≤ 13) || n == 0x20 || n == 0x85 || n == 0xA0 || n == 0x1680 ||
    (0x2000 ≤ n && n ≤ 0x200A) || n == 0x2028 || n == 0x2029 || n == 0x202F || n == 0x205F ||
    n == 0x3000

/-- `str::trim`. -/
def trim (text : Text) : Text :=
  ((text.dropWhile isWhitespace).reverse.dropWhile isWhitespace).reverse

/-- `str::split_whitespace`. -/
def splitWhitespace (text : Text) : List Text :=
  (text.splitOnP isWhitespace).filter fun word => word ≠ []

end RustyPenguin.Foundation
