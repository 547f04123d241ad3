import AttestationIntake.Json.Number

/-!
Reading JSON text, in two passes that each go over their input once: characters are gathered into
tokens, and tokens are put into the innermost container that is still open.
-/

namespace AttestationIntake.Json

/-! ## Tokens -/

inductive Token where
  | leaf (value : Json)
  | openArray
  | closeArray
  | openObject
  | closeObject
  | colon
  | comma

/-- What the next character continues. Characters gathered so far are in reverse. -/
inductive Mode where
  | between
  | word (chars : List Char)
  | quoted (chars : List Char)
  | escaped (chars : List Char)
  /-- Digits of an escaped code unit, behind the first half of a pair if there was one. -/
  | unit (chars : List Char) (high : Option Nat) (digits : List Char)
  /-- Behind the first half of a pair. -/
  | halfPair (chars : List Char) (high : Nat) (backslash : Bool)

structure Lexer where
  mode : Mode := .between
  /-- The tokens so far, the last first. -/
  tokens : List Token := []
  ok : Bool := true

namespace Lexer

def fail (l : Lexer) : Lexer := { l with ok := false }

def emit (l : Lexer) (token : Token) : Lexer :=
  { l with mode := .between, tokens := token :: l.tokens }

/-- The token that a word of JSON stands for. -/
def wordToken? (chars : List Char) : Option Token :=
  match String.ofList chars with
  | "null" => some (.leaf .null)
  | "true" => some (.leaf (.bool true))
  | "false" => some (.leaf (.bool false))
  | _ => (ofNumber? chars).map .leaf

def endWord (l : Lexer) : Lexer :=
  match l.mode with
  | .word chars =>
      match wordToken? chars.reverse with
      | some token => l.emit token
      | none => l.fail
  | _ => l

/-- A character outside of words and quotes. -/
def outside (l : Lexer) (c : Char) : Lexer :=
  match c with
  | ' ' | '\t' | '\n' | '\r' => l
  | '[' => l.emit .openArray
  | ']' => l.emit .closeArray
  | '\x7b' => l.emit .openObject
  | '\x7d' => l.emit .closeObject
  | ':' => l.emit .colon
  | ',' => l.emit .comma
  | '"' => { l with mode := .quoted [] }
  | c => { l with mode := .word [c] }

def isWordChar (c : Char) : Bool :=
  c.isAlphanum || c == '-' || c == '+' || c == '.'

/-- The character a one-letter escape stands for. -/
def shortEscape? : Char → Option Char
  | '"' => some '"'
  | '\\' => some '\\'
  | '/' => some '/'
  | 'b' => some (Char.ofNat 8)
  | 'f' => some (Char.ofNat 12)
  | 'n' => some '\n'
  | 'r' => some '\r'
  | 't' => some '\t'
  | _ => none

/-- Four hexadecimal digits are complete: a character, or half of one. -/
def endUnit (l : Lexer) (chars : List Char) (high : Option Nat) (unit : Nat) : Lexer :=
  match high with
  | some h =>
      if 0xdc00 ≤ unit ∧ unit < 0xe000 then
        let c := Char.ofNat (0x10000 + (h - 0xd800) * 0x400 + (unit - 0xdc00))
        { l with mode := .quoted (c :: chars) }
      else l.fail
  | none =>
      if 0xd800 ≤ unit ∧ unit < 0xdc00 then { l with mode := .halfPair chars unit false }
      else if 0xdc00 ≤ unit ∧ unit < 0xe000 then l.fail
      else { l with mode := .quoted (Char.ofNat unit :: chars) }

def hexValue (c : Char) : Nat :=
  if c.isDigit then c.toNat - '0'.toNat else c.toLower.toNat - 'a'.toNat + 10

def step (l : Lexer) (c : Char) : Lexer :=
  match l.mode with
  | .between => l.outside c
  | .word chars =>
      if isWordChar c then { l with mode := .word (c :: chars) } else l.endWord.outside c
  | .quoted chars =>
      match c with
      | '"' => l.emit (.leaf (.text (String.ofList chars.reverse)))
      | '\\' => { l with mode := .escaped chars }
      | c => { l with mode := .quoted (c :: chars) }
  | .escaped chars =>
      if c = 'u' then { l with mode := .unit chars none [] }
      else match shortEscape? c with
      | some e => { l with mode := .quoted (e :: chars) }
      | none => l.fail
  | .unit chars high digits =>
      let digits := c :: digits
      if digits.length < 4 then { l with mode := .unit chars high digits }
      else l.endUnit chars high (digits.reverse.foldl (fun n d => n * 16 + hexValue d) 0)
  | .halfPair chars high backslash =>
      if !backslash && c = '\\' then { l with mode := .halfPair chars high true }
      else if backslash && c = 'u' then { l with mode := .unit chars (some high) [] }
      else l.fail

end Lexer

def tokens? (text : String) : Option (List Token) :=
  let l := (text.toList.foldl Lexer.step {}).endWord
  match l.mode with
  | .between => if l.ok then some l.tokens.reverse else none
  | _ => none

/-! ## Containers -/

/-- A container that is still open. Array items are in reverse. -/
inductive Frame where
  | array (items : List Json)
  | object (fields : List (String × Json))
  | entry (fields : List (String × Json)) (key : String)

structure Builder where
  stack : List Frame := []
  /-- The value that was completed last and has no place yet. -/
  last : Option Json := none
  ok : Bool := true

namespace Builder

/-- Every token fits at most the innermost open container and the value read last. -/
def step (b : Builder) (token : Token) : Builder :=
  match token, b.stack, b.last with
  | .leaf value, _, none => { b with last := some value }
  | .openArray, stack, none => { b with stack := .array [] :: stack }
  | .openObject, stack, none => { b with stack := .object [] :: stack }
  | .comma, .array items :: stack, some value =>
      { b with stack := .array (value :: items) :: stack, last := none }
  | .closeArray, .array items :: stack, some value =>
      { b with stack, last := some (.array (value :: items).reverse) }
  | .closeArray, .array [] :: stack, none => { b with stack, last := some (.array []) }
  | .colon, .object fields :: stack, some (.text key) =>
      { b with stack := .entry fields key :: stack, last := none }
  | .comma, .entry fields key :: stack, some value =>
      { b with stack := .object (setField key value fields) :: stack, last := none }
  | .closeObject, .entry fields key :: stack, some value =>
      { b with stack, last := some (.object (setField key value fields)) }
  | .closeObject, .object [] :: stack, none => { b with stack, last := some (.object []) }
  | _, _, _ => { b with ok := false }

end Builder

/-- The value a text stands for, if the text is JSON. A key that occurs again keeps its place and
takes the later value. -/
def parse? (text : String) : Option Json := do
  let tokens ← tokens? text
  let b := tokens.foldl Builder.step {}
  if b.ok && b.stack.isEmpty then b.last else none

end AttestationIntake.Json
