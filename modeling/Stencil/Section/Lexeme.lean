/-!
# Lexemes of a template text

The only marks of a template text are the pair that opens a placeholder and the pair that closes
one. Pairs are taken from the left, so of three braces the first two are a pair. Whether a
closing pair closes anything depends on what stands before it; the lexemes do not decide that.

Nothing is lost: the characters of the lexemes, one after another, are the text
(`flatMap_chars_ofChars`).
-/

namespace Stencil

/-- A pair of braces, or a single character. -/
inductive Lexeme where
  | opening
  | closing
  | char (c : Char)
deriving DecidableEq, Repr

namespace Lexeme

/-- The characters that a lexeme is written with. -/
def chars : Lexeme → List Char
  | opening => ['{', '{']
  | closing => ['}', '}']
  | char c => [c]

/-- Reads a text from the left, two equal braces at a time where it can. -/
def ofChars : List Char → List Lexeme
  | '{' :: '{' :: rest => opening :: ofChars rest
  | '}' :: '}' :: rest => closing :: ofChars rest
  | c :: rest => char c :: ofChars rest
  | [] => []

@[simp] theorem ofChars_nil : ofChars [] = [] := by
  rw [ofChars]

/-- **Nothing is lost**: the lexemes of a text spell the text. -/
theorem flatMap_chars_ofChars (cs : List Char) : (ofChars cs).flatMap chars = cs := by
  fun_induction ofChars cs with
  | case1 rest ih => simp [chars, ih]
  | case2 rest ih => simp [chars, ih]
  | case3 c rest _ _ ih => simp [chars, ih]
  | case4 => rfl

example : ofChars ['{', '{', '{', 'a', '}', '}', '}']
    = [opening, char '{', char 'a', closing, char '}'] := by decide

end Lexeme

end Stencil
