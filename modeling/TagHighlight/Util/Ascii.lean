/-
Characters, and the classes of `ctype.h` in the C locale.
-/
import TagHighlight.Util.BString

namespace TagHighlight.Ascii

abbrev tab : UInt8 := 9
abbrev newline : UInt8 := 10
abbrev space : UInt8 := 32
/-- `"`. -/
abbrev doubleQuote : UInt8 := 34
/-- `#`. -/
abbrev hash : UInt8 := 35
/-- `'`. -/
abbrev singleQuote : UInt8 := 39
/-- `*`. -/
abbrev star : UInt8 := 42
/-- `/`. -/
abbrev slash : UInt8 := 47
/-- `\`. -/
abbrev backslash : UInt8 := 92
/-- `_`. -/
abbrev underscore : UInt8 := 95
/-- `|`. -/
abbrev bar : UInt8 := 124

/-- `isblank`. -/
def isBlank (b : UInt8) : Bool := b == space || b == tab

/-- `isdigit`. -/
def isDigit (b : UInt8) : Bool := 48 ≤ b && b ≤ 57

/-- `isalpha`. -/
def isAlpha (b : UInt8) : Bool := 65 ≤ b && b ≤ 90 || 97 ≤ b && b ≤ 122

/-- `isalnum`. -/
def isAlnum (b : UInt8) : Bool := isAlpha b || isDigit b

/-- `%d` of a number that is not negative. -/
def decimal (n : Nat) : BString := (Nat.toDigits 10 n).map fun c => UInt8.ofNat c.toNat

end TagHighlight.Ascii
