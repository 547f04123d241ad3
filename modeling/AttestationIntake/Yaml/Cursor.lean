/-!
Places in the text of a YAML document, and the characters that matter for moving through it.
-/

namespace AttestationIntake.Yaml

/-! ## Characters -/

def isBlank (c : Char) : Bool := c == ' ' || c == '\t'

/-- Line feed, carriage return, next line, line and paragraph separator. -/
def isBreak (c : Char) : Bool :=
  c == '\n' || c == '\r' || c.toNat == 0x85 || c.toNat == 0x2028 || c.toNat == 0x2029

/-- Characters of names of anchors, tags and directives. -/
def isNameChar (c : Char) : Bool := c.isAlphanum || c == '_' || c == '-'

/-- Characters that no token starts with, except that a percent sign may start a directive. -/
def isReserved (c : Char) : Bool := "#%@`".toList.contains c

/-- The value of a hexadecimal digit. -/
def hexValue? (c : Char) : Option Nat :=
  if c.isDigit then some (c.toNat - '0'.toNat)
  else if 'a' ≤ c ∧ c ≤ 'f' then some (c.toNat - 'a'.toNat + 10)
  else if 'A' ≤ c ∧ c ≤ 'F' then some (c.toNat - 'A'.toNat + 10)
  else none

/-- Whether a document may hold the character at all. -/
def isAllowed (c : Char) : Bool :=
  let n := c.toNat
  n == 0x9 || n == 0xa || n == 0xd || (0x20 ≤ n && n ≤ 0x7e) || n == 0x85 ||
    (0xa0 ≤ n && n ≤ 0xd7ff) || (0xe000 ≤ n && n ≤ 0xfffd) || 0x10000 ≤ n

/-- Whether a text starts with a blank or a break, or is at its end. -/
def startsGap : List Char → Bool
  | [] => true
  | c :: _ => isBlank c || isBreak c

/-- Whether a text starts with a break, or is at its end. -/
def startsBreak : List Char → Bool
  | [] => true
  | c :: _ => isBreak c

/-- Whether a text starts with a mark of the start or the end of a document. -/
def startsDocumentMark : List Char → Bool
  | '-' :: '-' :: '-' :: rest => startsGap rest
  | '.' :: '.' :: '.' :: rest => startsGap rest
  | _ => false

/-! ## Places -/

structure Mark where
  /-- How many bytes of UTF-8 stand before it. -/
  index : Nat := 0
  line : Nat := 0
  column : Nat := 0
deriving DecidableEq, Repr, Inhabited

/-- What is left of a text, and where that starts. -/
structure Cursor where
  rest : List Char
  mark : Mark := {}

namespace Cursor

/-- Moves past `n` characters of one line. -/
def skip (cursor : Cursor) (n : Nat) : Cursor :=
  let mark := cursor.mark
  let bytes := (cursor.rest.take n).foldl (fun bytes c => bytes + c.utf8Size) 0
  ⟨cursor.rest.drop n, { mark with index := mark.index + bytes, column := mark.column + n }⟩

/-- Moves forward on the line to where only `rest` is left. -/
def moveTo (cursor : Cursor) (rest : List Char) : Cursor :=
  cursor.skip (cursor.rest.length - rest.length)

def skipWhile (cursor : Cursor) (p : Char → Bool) : Cursor :=
  cursor.moveTo (cursor.rest.dropWhile p)

def skipBlanks (cursor : Cursor) : Cursor := cursor.skipWhile isBlank

/-- Moves past a comment, if one starts here. -/
def skipComment (cursor : Cursor) : Cursor :=
  if cursor.rest.head? = some '#' then cursor.skipWhile (!isBreak ·) else cursor

/-- Reads a line break, if there is one. All but line and paragraph separators count as a line
feed. -/
def readBreak (cursor : Cursor) : List Char × Cursor :=
  let mark := cursor.mark
  match cursor.rest with
  | '\r' :: '\n' :: rest => (['\n'], ⟨rest, ⟨mark.index + 2, mark.line + 1, 0⟩⟩)
  | c :: rest =>
      if isBreak c then
        (if c.toNat < 0x2028 then ['\n'] else [c],
          ⟨rest, ⟨mark.index + c.utf8Size, mark.line + 1, 0⟩⟩)
      else ([], cursor)
  | [] => ([], cursor)

def skipBreak (cursor : Cursor) : Cursor := cursor.readBreak.2

/-- Whether a mark of the start or the end of a document stands here. -/
def atDocumentMark (cursor : Cursor) : Bool :=
  cursor.mark.column == 0 && startsDocumentMark cursor.rest

/-- Moves past the rest of a line that may hold a comment but nothing else. -/
def endLine? (cursor : Cursor) : Option Cursor :=
  let cursor := cursor.skipBlanks.skipComment
  if startsBreak cursor.rest then some cursor.skipBreak else none

end Cursor

end AttestationIntake.Yaml
