import AttestationIntake.Yaml.Cursor

/-!
The tokens of a YAML text, and how those are read that are words: names, tags and directives. Where
a text breaks a rule there is no result.
-/

namespace AttestationIntake.Yaml

inductive ScalarStyle where
  | plain
  | quoted
  | literal
  | folded
deriving DecidableEq, Repr

inductive TokenKind where
  | version (major minor : Nat)
  | tagHandle (handle stem : String)
  | documentStart
  | documentEnd
  | streamEnd
  | blockSequence
  | blockMapping
  | blockEnd
  | flowSequence
  | flowSequenceEnd
  | flowMapping
  | flowMappingEnd
  | flowEntry
  | blockEntry
  | key
  | value
  | anchor (name : String)
  | reference (name : String)
  | tag (handle suffix : String)
  | scalar (style : ScalarStyle) (text : String)
deriving DecidableEq, Repr

structure Token where
  kind : TokenKind
  /-- Where the token starts. -/
  mark : Mark
deriving DecidableEq, Repr

/-! ## Names -/

/-- The name of an anchor or of a reference to one, and the rest. Only a gap or one of some
indicators may follow. -/
def anchorName? (chars : List Char) : Option (String × List Char) :=
  let name := chars.takeWhile isNameChar
  let rest := chars.dropWhile isNameChar
  let follows (c : Char) : Bool := "?:,]\x7d%@`".toList.contains c
  if name = [] then none
  else if startsGap rest || rest.head?.any follows then some (String.ofList name, rest)
  else none

/-! ## Tags -/

/-- Flow indicators are part of a tag only where it is enclosed in angle brackets. -/
def isUriChar (enclosed : Bool) (c : Char) : Bool :=
  isNameChar c || ";/?:@&=+$.%!~*'()".toList.contains c ||
    (enclosed && ",[]".toList.contains c)

/-- How many octets a character has that starts with this one. -/
def octetCount? (octet : Nat) : Option Nat :=
  if octet < 0x80 then some 1
  else if octet >>> 5 = 6 then some 2
  else if octet >>> 4 = 14 then some 3
  else if octet >>> 3 = 30 then some 4
  else none

/-- The characters of a tag and the rest. Escapes stand for octets, and `pending` octets of a
character are still to come. Each octet becomes the character of the same number: tags that are not
ASCII are not told apart by anyone. -/
def uri? (enclosed : Bool) (pending : Nat) : List Char → Option (List Char × List Char)
  | [] => if pending = 0 then some ([], []) else none
  | '%' :: high :: low :: rest => do
      let octet := 16 * (← hexValue? high) + (← hexValue? low)
      let pending ←
        if pending = 0 then (octetCount? octet).map (· - 1)
        else if octet >>> 6 = 2 then some (pending - 1)
        else none
      let (text, rest) ← uri? enclosed pending rest
      return (Char.ofNat octet :: text, rest)
  | c :: rest =>
      if pending ≠ 0 ∨ c = '%' then none
      else if isUriChar enclosed c then
        (uri? enclosed 0 rest).map fun (text, left) => (c :: text, left)
      else some ([], c :: rest)

/-- At least one character of a tag. A null character ends the text. -/
def uriText? (enclosed : Bool) (chars : List Char) : Option (List Char × List Char) := do
  let (text, rest) ← uri? enclosed 0 chars
  if text = [] then none else some (text.takeWhile (· ≠ '\x00'), rest)

/-- A handle is an exclamation mark, or a name between two of them, which may be empty. -/
def tagHandle? : List Char → Option (List Char × List Char)
  | '!' :: chars =>
      let name := chars.takeWhile isNameChar
      match chars.dropWhile isNameChar with
      | '!' :: rest => some ('!' :: name ++ ['!'], rest)
      | rest => if name = [] then some (['!'], rest) else none
  | _ => none

/-- A handle and what follows it. A tag in angle brackets has no handle, and neither has the tag
that is nothing but an exclamation mark. -/
def tag? (flow : Bool) (chars : List Char) : Option (TokenKind × List Char) := do
  let ((handle, suffix), rest) ← match chars with
    | '!' :: '<' :: chars =>
        match ← uriText? true chars with
        | (text, '>' :: rest) => some (([], text), rest)
        | _ => none
    | _ =>
        match tagHandle? chars with
        | some (handle@(_ :: _ :: _), rest) => do
            let (text, rest) ← uriText? false rest
            some ((handle, text), rest)
        | _ => do
            let (text, rest) ← uri? false 0 (chars.drop 1)
            let text := text.takeWhile (· ≠ '\x00')
            some (if text = [] then ([], ['!']) else (['!'], text), rest)
  if startsGap rest || (flow && rest.head? == some ',') then
    some (.tag (String.ofList handle) (String.ofList suffix), rest)
  else none

/-! ## Directives -/

/-- One to nine digits. -/
def versionNumber? (chars : List Char) : Option (Nat × List Char) :=
  let digits := chars.takeWhile Char.isDigit
  if digits = [] ∨ 9 < digits.length then none
  else some (Nat.ofDigitChars 10 digits 0, chars.dropWhile Char.isDigit)

/-- A directive, read from behind its percent sign. There are two: one gives the version, the other
what a tag handle stands for. -/
def directive? (chars : List Char) : Option (TokenKind × List Char) := do
  let name := chars.takeWhile isNameChar
  let rest := chars.dropWhile isNameChar
  let value := rest.dropWhile isBlank
  if !startsGap rest then none
  else if name = "YAML".toList then
    match ← versionNumber? value with
    | (major, '.' :: rest) => do
        let (minor, rest) ← versionNumber? rest
        return (.version major minor, rest)
    | _ => none
  else if name = "TAG".toList then
    let (handle, rest) ← tagHandle? value
    if !rest.head?.any isBlank then none
    else
      let (stem, rest) ← uriText? true (rest.dropWhile isBlank)
      if startsGap rest then return (.tagHandle (String.ofList handle) (String.ofList stem), rest)
      else none
  else none

end AttestationIntake.Yaml
