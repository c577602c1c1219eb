/-!
# Blank characters

A character is **blank** when it has the Unicode property `White_Space`. Keys of placeholders are
read with the blanks around them removed (`trim`), and a key made of blanks alone names nothing.

The class is a table of ranges, `blankRanges`. It is wider than the core predicate
`Char.isWhitespace`, which knows four characters only.
-/

namespace Stencil.Text

/-- The code points with the property `White_Space`, as inclusive ranges in ascending order. -/
def blankRanges : List (Nat × Nat) :=
  [(0x09, 0x0d), (0x20, 0x20), (0x85, 0x85), (0xa0, 0xa0), (0x1680, 0x1680), (0x2000, 0x200a),
    (0x2028, 0x2029), (0x202f, 0x202f), (0x205f, 0x205f), (0x3000, 0x3000)]

/-- Whether a character is blank. -/
def isBlank (c : Char) : Bool :=
  blankRanges.any fun range => range.1 ≤ c.toNat && c.toNat ≤ range.2

/-- A list of characters without the blanks at its two ends. -/
def trimChars (cs : List Char) : List Char :=
  ((cs.dropWhile isBlank).reverse.dropWhile isBlank).reverse

/-- A text without the blanks at its two ends. -/
def trim (s : String) : String :=
  String.ofList (trimChars s.toList)

@[simp] theorem toList_trim (s : String) : (trim s).toList = trimChars s.toList :=
  String.toList_ofList

example : (blankRanges.map fun range => range.2 + 1 - range.1).sum = 25 := by decide

example : trim " \t\u3000a b\u00a0\n" = "a b" := by decide

end Stencil.Text
