import AttestationIntake.Yaml.ScalarText
import AttestationIntake.Yaml.Token

/-!
How a text is cut into tokens. Indentation opens and closes block collections. That a node is a key
shows only at the colon behind it, so tokens that may belong to a key are held back: the colon puts
the token of the key in front of them, and of a new mapping where one starts. A node can be such a
key as long as it stays on one line and within 1024 bytes of UTF-8.

A text that breaks a rule gives the tokens that were not held back until then, and its last token
is not that of the end of the stream.
-/

namespace AttestationIntake.Yaml

/-- The start of what may turn out to be a key. -/
structure KeyStart where
  /-- How many tokens stand before it. -/
  number : Nat
  /-- Nothing but a key may start there. -/
  required : Bool
  mark : Mark

def KeyStart.isStale (start : KeyStart) (mark : Mark) : Bool :=
  start.mark.line < mark.line || start.mark.index + 1024 < mark.index

structure TokenStream where
  cursor : Cursor
  /-- Tokens that are held back, and how many were released before them. -/
  held : List Token := []
  released : Nat := 0
  /-- The columns of the block collections around, innermost first, counted from one. -/
  indents : List Nat := []
  /-- Whether a key may start at the next token. -/
  keyAllowed : Bool := true
  keyStart : Option KeyStart := none
  /-- For each flow collection around, what was noted outside of it. -/
  outerKeyStarts : List (Option KeyStart) := []
  ended : Bool := false

namespace TokenStream

def mark (stream : TokenStream) : Mark := stream.cursor.mark

/-- Whether this is inside a flow collection. -/
def inFlow (stream : TokenStream) : Bool := !stream.outerKeyStarts.isEmpty

/-- The column of the innermost block collection counted from one, or zero outside of all. -/
def indent (stream : TokenStream) : Nat := stream.indents.headD 0

/-- The number of the next token. -/
def next (stream : TokenStream) : Nat := stream.released + stream.held.length

/-- Puts a token in front of the one with this number. -/
def insert (stream : TokenStream) (number : Nat) (token : Token) : TokenStream :=
  { stream with held := stream.held.insertIdx (number - stream.released) token }

/-- Adds a token that reaches from here to `cursor`. -/
def add (stream : TokenStream) (kind : TokenKind) (cursor : Cursor) (keyAllowed : Bool) :
    TokenStream :=
  { stream with held := stream.held ++ [⟨kind, stream.mark⟩], cursor, keyAllowed }

/-! ## Keys -/

/-- Forgets starts of keys that are too far behind. A required one must have become a key. -/
def dropStale? (stream : TokenStream) : Option TokenStream :=
  let isStale (start : KeyStart) : Bool := start.isStale stream.mark
  let isBroken (start : KeyStart) : Bool := start.required && isStale start
  let starts := stream.keyStart :: stream.outerKeyStarts
  if starts.any (·.any isBroken) then none
  else some { stream with
    keyStart := stream.keyStart.filter (!isStale ·)
    outerKeyStarts := stream.outerKeyStarts.map (·.filter (!isStale ·)) }

/-- Forgets the innermost start of a key. -/
def dropKey? (stream : TokenStream) : Option TokenStream :=
  if stream.keyStart.any (·.required) then none else some { stream with keyStart := none }

/-- Notes that a key may start here. On the column of a block collection it has to. -/
def noteKey? (stream : TokenStream) : Option TokenStream :=
  if stream.keyAllowed then do
    let required := !stream.inFlow && stream.indent == stream.mark.column + 1
    return { ← stream.dropKey? with keyStart := some ⟨stream.next, required, stream.mark⟩ }
  else some stream

/-! ## Block collections -/

/-- Opens a block collection in front of a token unless the innermost one starts at the column of
`mark` or behind it. -/
def openBlock (stream : TokenStream) (kind : TokenKind) (number : Nat) (mark : Mark) :
    TokenStream :=
  if stream.inFlow || mark.column < stream.indent then stream
  else { stream.insert number ⟨kind, mark⟩ with indents := (mark.column + 1) :: stream.indents }

/-- Closes the block collections that are indented by more than `indent`. -/
def closeBlocks (stream : TokenStream) (indent : Nat) : TokenStream :=
  if stream.inFlow then stream
  else
    let closed := stream.indents.takeWhile (indent < ·)
    { stream with
      held := stream.held ++ closed.map fun _ => ⟨.blockEnd, stream.mark⟩
      indents := stream.indents.dropWhile (indent < ·) }

/-! ## Tokens -/

/-- The end of the stream is at the start of a line. -/
def addStreamEnd? (stream : TokenStream) : Option TokenStream := do
  let mark := stream.mark
  let cursor : Cursor :=
    if mark.column = 0 then stream.cursor else ⟨[], ⟨mark.index, mark.line + 1, 0⟩⟩
  let stream ← ({ stream with cursor }.closeBlocks 0).dropKey?
  return { stream.add .streamEnd cursor false with ended := true }

def addDirective? (stream : TokenStream) : Option TokenStream := do
  let stream ← (stream.closeBlocks 0).dropKey?
  let (kind, rest) ← directive? (stream.cursor.rest.drop 1)
  let cursor ← (stream.cursor.moveTo rest).endLine?
  return stream.add kind cursor false

def addDocumentMark? (stream : TokenStream) (kind : TokenKind) : Option TokenStream := do
  let stream ← (stream.closeBlocks 0).dropKey?
  return stream.add kind (stream.cursor.skip 3) false

def openFlow? (stream : TokenStream) (kind : TokenKind) : Option TokenStream := do
  let stream ← stream.noteKey?
  let outerKeyStarts := stream.keyStart :: stream.outerKeyStarts
  return { stream with keyStart := none, outerKeyStarts }.add kind (stream.cursor.skip 1) true

def closeFlow? (stream : TokenStream) (kind : TokenKind) : Option TokenStream := do
  let stream ← stream.dropKey?
  let stream := match stream.outerKeyStarts with
    | [] => stream
    | keyStart :: outerKeyStarts => { stream with keyStart, outerKeyStarts }
  return stream.add kind (stream.cursor.skip 1) false

def addFlowEntry? (stream : TokenStream) : Option TokenStream := do
  return (← stream.dropKey?).add .flowEntry (stream.cursor.skip 1) true

def addBlockEntry? (stream : TokenStream) : Option TokenStream :=
  if !stream.inFlow && !stream.keyAllowed then none
  else do
    let stream ← (stream.openBlock .blockSequence stream.next stream.mark).dropKey?
    return stream.add .blockEntry (stream.cursor.skip 1) true

/-- A key that is announced by a question mark. -/
def addKey? (stream : TokenStream) : Option TokenStream :=
  if !stream.inFlow && !stream.keyAllowed then none
  else do
    let stream ← (stream.openBlock .blockMapping stream.next stream.mark).dropKey?
    return stream.add .key (stream.cursor.skip 1) (!stream.inFlow)

/-- The colon behind a key. -/
def addValue? (stream : TokenStream) : Option TokenStream :=
  let cursor := stream.cursor.skip 1
  match stream.keyStart with
  | some start =>
      let stream := { stream with keyStart := none }.insert start.number ⟨.key, start.mark⟩
      let stream := stream.openBlock .blockMapping start.number start.mark
      some (stream.add .value cursor false)
  | none =>
      if stream.inFlow then some (stream.add .value cursor false)
      else if stream.keyAllowed then
        let stream := stream.openBlock .blockMapping stream.next stream.mark
        some (stream.add .value cursor true)
      else none

def addName? (stream : TokenStream) (kind : String → TokenKind) : Option TokenStream := do
  let stream ← stream.noteKey?
  let (name, rest) ← anchorName? (stream.cursor.rest.drop 1)
  return stream.add (kind name) (stream.cursor.moveTo rest) false

def addTag? (stream : TokenStream) : Option TokenStream := do
  let stream ← stream.noteKey?
  let (kind, rest) ← tag? stream.inFlow stream.cursor.rest
  return stream.add kind (stream.cursor.moveTo rest) false

def addBlockScalar? (stream : TokenStream) (folded : Bool) : Option TokenStream := do
  let stream ← stream.dropKey?
  let (text, cursor) ← block? folded stream.indent (stream.cursor.skip 1)
  let style : ScalarStyle := if folded then .folded else .literal
  return stream.add (.scalar style (String.ofList text)) cursor true

def addQuoted? (stream : TokenStream) (single : Bool) : Option TokenStream := do
  let stream ← stream.noteKey?
  let (text, cursor) ← quoted? single stream.cursor.rest.length (stream.cursor.skip 1) []
  return stream.add (.scalar .quoted (String.ofList text)) cursor false

/-- A key may start behind a plain scalar if reading it went on to another line. -/
def addPlain? (stream : TokenStream) : Option TokenStream := do
  let stream ← stream.noteKey?
  let rounds := stream.cursor.rest.length
  let plain ← plain? stream.inFlow stream.indent rounds stream.cursor [] {}
  return stream.add (.scalar .plain (String.ofList plain.text)) plain.cursor plain.leftLine

/-! ## The whole text -/

/-- Moves past blanks, comments and breaks. A tab is blank only where no key may start, and a byte
order mark only at the start of a line, where it takes up a column. -/
def skipSpace (stream : TokenStream) : Nat → TokenStream
  | 0 => stream
  | rounds + 1 =>
      let isSpace (c : Char) : Bool :=
        c == ' ' || (c == '\t' && (stream.inFlow || !stream.keyAllowed))
      let cursor := stream.cursor
      let marked := cursor.mark.column == 0 && cursor.rest.head?.any (·.toNat == 0xfeff)
      let cursor := if marked then cursor.skip 1 else cursor
      let cursor := (cursor.skipWhile isSpace).skipComment
      if !cursor.rest.isEmpty && startsBreak cursor.rest then
        let keyAllowed := stream.keyAllowed || !stream.inFlow
        skipSpace { stream with cursor := cursor.skipBreak, keyAllowed } rounds
      else { stream with cursor }

/-- Adds the next token, after those for block collections that end in front of it. -/
def read? (stream : TokenStream) : Option TokenStream := do
  let stream ← (stream.skipSpace (stream.cursor.rest.length + 1)).dropStale?
  let stream := stream.closeBlocks (stream.mark.column + 1)
  match stream.cursor.rest with
  | [] => stream.addStreamEnd?
  | c :: rest =>
      if c = '%' ∧ stream.mark.column = 0 then stream.addDirective?
      else if stream.cursor.atDocumentMark then
        stream.addDocumentMark? (if c = '-' then .documentStart else .documentEnd)
      else match c with
      | '[' => stream.openFlow? .flowSequence
      | '\x7b' => stream.openFlow? .flowMapping
      | ']' => stream.closeFlow? .flowSequenceEnd
      | '\x7d' => stream.closeFlow? .flowMappingEnd
      | ',' => stream.addFlowEntry?
      | '-' => if startsGap rest then stream.addBlockEntry? else stream.addPlain?
      | '?' => if stream.inFlow || startsGap rest then stream.addKey? else stream.addPlain?
      | ':' => if stream.inFlow || startsGap rest then stream.addValue? else stream.addPlain?
      | '*' => stream.addName? .reference
      | '&' => stream.addName? .anchor
      | '!' => stream.addTag?
      | '\'' => stream.addQuoted? true
      | '"' => stream.addQuoted? false
      | '|' => if stream.inFlow then none else stream.addBlockScalar? false
      | '>' => if stream.inFlow then none else stream.addBlockScalar? true
      | c => if isBlank c || isReserved c then none else stream.addPlain?

/-- Releases the tokens in front of the first that may still become a key. -/
def release (stream : TokenStream) : List Token × TokenStream :=
  let starts := (stream.keyStart :: stream.outerKeyStarts).filterMap id
  let count := (starts.map (·.number)).foldl min stream.next - stream.released
  (stream.held.take count,
    { stream with held := stream.held.drop count, released := stream.released + count })

/-- The tokens up to the end of the text or to where it breaks a rule. Each round moves forward, so
that the length of the text gives enough of them. -/
def tokens (stream : TokenStream) : Nat → List Token
  | 0 => []
  | rounds + 1 =>
      match stream.read?.bind dropStale? with
      | none => []
      | some stream =>
          let (ready, stream) := stream.release
          if stream.ended then ready else ready ++ stream.tokens rounds

end TokenStream

/-- The tokens of a text. A text with a character that no document may hold has none. -/
def tokensOf (text : String) : List Token :=
  let chars := text.toList
  if chars.all isAllowed then ({ cursor := ⟨chars, {}⟩ } : TokenStream).tokens (chars.length + 1)
  else []

end AttestationIntake.Yaml
