import Mathlib.Data.List.DropRight
import PiPlatform.Library.Json.Text

/-! Python's `str.split` and `str.strip` on code points. -/
namespace PiPlatform.Library.Python

open Json

/-- Where `str.split` splits. -/
def isSpace (c : CodePoint) : Bool :=
  (9 ≤ c.val && c.val ≤ 13) || (28 ≤ c.val && c.val ≤ 32) || c.val = 0x85 || c.val = 0xA0 ||
    c.val = 0x1680 || (0x2000 ≤ c.val && c.val ≤ 0x200A) || c.val = 0x2028 || c.val = 0x2029 ||
    c.val = 0x202F || c.val = 0x205F || c.val = 0x3000

/-- `s.split()` -/
def split (s : Text) : List Text := (s.splitOnP isSpace).filter (· ≠ [])

/-- `s.strip(chars)` -/
def strip (chars s : Text) : Text := (s.dropWhile (· ∈ chars)).rdropWhile (· ∈ chars)

end PiPlatform.Library.Python
