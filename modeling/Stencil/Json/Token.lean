import Stencil.Json.Number

/-!
# Tokens of a JSON text

A JSON text is a sequence of **tokens**: the six marks, strings, and words. A word is a longest
run of characters that are neither blank, mark nor quote; it has to be a number or one of the
three names of constants.

`Token.ofChars?` reads a text character by character. The state of the reading is a `Mode`; a
character that the mode does not allow ends the reading without a result. In strings, control
characters have to be escaped, and an escaped surrogate has to be one half of a pair.
-/

namespace Stencil.Json

/-- A unit of a JSON text. -/
inductive Token where
  | openArray
  | closeArray
  | openObject
  | closeObject
  | colon
  | comma
  | string (s : String)
  /-- A number or a constant. -/
  | scalar (value : Json)

namespace Token

/-- The blanks of a JSON text. -/
def isBlank (c : Char) : Bool :=
  c == ' ' || c == '\t' || c == '\n' || c == '\r'

/-- The token that a single character is, if it is one. -/
def mark? : Char → Option Token
  | '[' => some openArray
  | ']' => some closeArray
  | '{' => some openObject
  | '}' => some closeObject
  | ':' => some colon
  | ',' => some comma
  | _ => none

/-- The token that a word is, if it is one. -/
def word? (word : String) : Option Token :=
  match word with
  | "null" => some (scalar .null)
  | "true" => some (scalar (.bool true))
  | "false" => some (scalar (.bool false))
  | _ =>
    ((Literal.ofChars? word.toList).bind Number.ofLiteral?).map fun n => scalar (.number n)

/-- The character that a backslash and one character stand for. -/
def shortEscape? : Char → Option Char
  | '"' => some '"'
  | '\\' => some '\\'
  | '/' => some '/'
  | 'b' => some '\x08'
  | 'f' => some '\x0c'
  | 'n' => some '\n'
  | 'r' => some '\r'
  | 't' => some '\t'
  | _ => none

/-- The value of a hexadecimal digit. -/
def hexValue? (c : Char) : Option Nat :=
  if '0' ≤ c ∧ c ≤ '9' then some (c.toNat - '0'.toNat)
  else if 'a' ≤ c ∧ c ≤ 'f' then some (c.toNat - 'a'.toNat + 10)
  else if 'A' ≤ c ∧ c ≤ 'F' then some (c.toNat - 'A'.toNat + 10)
  else none

/-- Whether a code unit is the first half of a pair. -/
def isHighSurrogate (unit : Nat) : Bool :=
  0xd800 ≤ unit && unit ≤ 0xdbff

/-- Whether a code unit is the second half of a pair. -/
def isLowSurrogate (unit : Nat) : Bool :=
  0xdc00 ≤ unit && unit ≤ 0xdfff

/-- The character of a pair of surrogates. -/
def pairChar (high low : Nat) : Char :=
  Char.ofNat (0x10000 + (high - 0xd800) * 0x400 + (low - 0xdc00))

/-- What is being read. In a string, `text` is what the string holds so far. -/
inductive Mode where
  | between
  | word (text : String)
  | string (text : String)
  /-- Behind a backslash. -/
  | escape (text : String)
  /-- In the four digits of an escaped code unit, of which some are read; `high?` is the first half
  of a pair whose second half this has to be. -/
  | unit (text : String) (high? : Option Nat) (digits : Nat) (value : Nat)
  /-- Behind the first half of a pair. -/
  | half (text : String) (high : Nat)
  /-- Behind the backslash that follows the first half of a pair. -/
  | halfEscape (text : String) (high : Nat)

/-- The mode after all four digits of a code unit. -/
def Mode.afterUnit? (text : String) (high? : Option Nat) (unit : Nat) : Option Mode :=
  match high? with
  | none =>
    if isHighSurrogate unit then some (half text unit)
    else if isLowSurrogate unit then none
    else some (string (text.push (Char.ofNat unit)))
  | some high =>
    if isLowSurrogate unit then some (string (text.push (pairChar high unit))) else none

/-- A reading in progress: the tokens so far and the mode. -/
structure Reading where
  tokens : Array Token := #[]
  mode : Mode := .between

namespace Reading

/-- Takes in a character between tokens. -/
def start (tokens : Array Token) (c : Char) : Reading :=
  if isBlank c then ⟨tokens, .between⟩
  else if c = '"' then ⟨tokens, .string ""⟩
  else match mark? c with
    | some mark => ⟨tokens.push mark, .between⟩
    | none => ⟨tokens, .word (String.singleton c)⟩

/-- Takes in a character. -/
def step (r : Reading) (c : Char) : Option Reading :=
  match r.mode with
  | .between => some (start r.tokens c)
  | .word text =>
    if isBlank c || c == '"' || (mark? c).isSome then
      (word? text).map fun token => start (r.tokens.push token) c
    else some ⟨r.tokens, .word (text.push c)⟩
  | .string text =>
    if c = '"' then some ⟨r.tokens.push (.string text), .between⟩
    else if c = '\\' then some ⟨r.tokens, .escape text⟩
    else if c < ' ' then none
    else some ⟨r.tokens, .string (text.push c)⟩
  | .escape text =>
    if c = 'u' then some ⟨r.tokens, .unit text none 0 0⟩
    else (shortEscape? c).map fun escaped => ⟨r.tokens, .string (text.push escaped)⟩
  | .unit text high? digits value =>
    (hexValue? c).bind fun digit =>
      if digits = 3 then
        (Mode.afterUnit? text high? (16 * value + digit)).map fun mode => ⟨r.tokens, mode⟩
      else some ⟨r.tokens, .unit text high? (digits + 1) (16 * value + digit)⟩
  | .half text high => if c = '\\' then some ⟨r.tokens, .halfEscape text high⟩ else none
  | .halfEscape text high =>
    if c = 'u' then some ⟨r.tokens, .unit text (some high) 0 0⟩ else none

/-- The tokens of a finished reading. A string has to be closed. -/
def finish? (r : Reading) : Option (Array Token) :=
  match r.mode with
  | .between => some r.tokens
  | .word text => (word? text).map r.tokens.push
  | _ => none

end Reading

/-- The tokens of a JSON text. -/
def ofChars? (cs : List Char) : Option (List Token) :=
  ((cs.foldlM Reading.step {}).bind Reading.finish?).map Array.toList

end Token

end Stencil.Json
