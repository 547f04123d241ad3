import AttestationIntake.Yaml.Cursor

/-!
The text of scalars. White space between two parts of a plain or a quoted scalar is kept as long as
it stays on a line; across lines one break becomes a space and further breaks stay. Block scalars
keep their lines, or fold them in the same way where they are neither indented nor blank.

Where a text breaks a rule there is no result. Functions that go on line by line take a number of
rounds; the length of what is left is always enough, since each round moves forward.
-/

namespace AttestationIntake.Yaml

/-! ## Gaps -/

/-- White space between two parts of a scalar: blanks, or the first break and those after it. -/
structure Gap where
  blanks : List Char := []
  breaks : Option (List Char × List Char) := none

namespace Gap

/-- What stands for the gap in the text of the scalar. -/
def text (gap : Gap) : List Char :=
  match gap.breaks with
  | none => gap.blanks
  | some (first, more) =>
      if first = ['\n'] then (if more = [] then [' '] else more) else first ++ more

/-- Blanks count only before the first break. -/
def addBlank (gap : Gap) (c : Char) : Gap :=
  if gap.breaks.isSome then gap else { gap with blanks := gap.blanks ++ [c] }

def addBreak (gap : Gap) (b : List Char) : Gap :=
  match gap.breaks with
  | none => { blanks := [], breaks := some (b, []) }
  | some (first, more) => { gap with breaks := some (first, more ++ b) }

/-- Reads a gap to its end. Behind a break a tab may not stand before the column `indent`. -/
def read? (indent : Nat) : Nat → Cursor → Gap → Option (Gap × Cursor)
  | 0, cursor, gap => some (gap, cursor)
  | rounds + 1, cursor, gap =>
      match cursor.rest with
      | [] => some (gap, cursor)
      | c :: _ =>
          if isBlank c then
            if c = '\t' ∧ gap.breaks.isSome ∧ cursor.mark.column < indent then none
            else read? indent rounds (cursor.skip 1) (gap.addBlank c)
          else if isBreak c then
            let (b, next) := cursor.readBreak
            read? indent rounds next (gap.addBreak b)
          else some (gap, cursor)

end Gap

/-! ## Plain scalars -/

def isFlowIndicator (c : Char) : Bool :=
  c == ',' || c == '[' || c == ']' || c == '\x7b' || c == '\x7d'

/-- The characters up to a gap or to what ends a plain scalar, and the rest. Inside a flow
collection a colon may not stand right before an indicator. -/
def plainRun? (flow : Bool) : List Char → Option (List Char × List Char)
  | [] => some ([], [])
  | c :: rest =>
      if isBlank c || isBreak c then some ([], c :: rest)
      else if flow && c == ':' && rest.head?.any fun d => isFlowIndicator d || d == '?' then none
      else if c == ':' && startsGap rest then some ([], c :: rest)
      else if flow && isFlowIndicator c then some ([], c :: rest)
      else (plainRun? flow rest).map fun (run, left) => (c :: run, left)

/-- A scalar that was read, and whether the line was left in doing so. -/
structure PlainText where
  text : List Char
  leftLine : Bool
  cursor : Cursor

/-- Reads a plain scalar on from `text` and the gap behind it. Outside of flow collections it ends
where a line is indented less than `indent`. -/
def plain? (flow : Bool) (indent : Nat) :
    Nat → Cursor → List Char → Gap → Option PlainText
  | 0, cursor, text, gap => some ⟨text, gap.breaks.isSome, cursor⟩
  | rounds + 1, cursor, text, gap =>
      if cursor.atDocumentMark || cursor.rest.head? == some '#' then
        some ⟨text, gap.breaks.isSome, cursor⟩
      else do
        let (run, rest) ← plainRun? flow cursor.rest
        let cursor := cursor.moveTo rest
        if run = [] then return ⟨text, gap.breaks.isSome, cursor⟩
        let text := text ++ gap.text ++ run
        let (gap, next) ← Gap.read? indent (rest.length + 1) cursor {}
        if gap.blanks = [] && gap.breaks.isNone then return ⟨text, false, cursor⟩
        if !flow && next.mark.column < indent then return ⟨text, gap.breaks.isSome, next⟩
        plain? flow indent rounds next text gap

/-! ## Quoted scalars -/

/-- The character that an escape of one letter stands for. -/
def letterEscape? : Char → Option Char
  | '0' => some (Char.ofNat 0)
  | 'a' => some (Char.ofNat 7)
  | 'b' => some (Char.ofNat 8)
  | 't' | '\t' => some '\t'
  | 'n' => some '\n'
  | 'v' => some (Char.ofNat 11)
  | 'f' => some (Char.ofNat 12)
  | 'r' => some '\r'
  | 'e' => some (Char.ofNat 27)
  | ' ' => some ' '
  | '"' => some '"'
  | '/' => some '/'
  | '\\' => some '\\'
  | 'N' => some (Char.ofNat 0x85)
  | '_' => some (Char.ofNat 0xa0)
  | 'L' => some (Char.ofNat 0x2028)
  | 'P' => some (Char.ofNat 0x2029)
  | _ => none

/-- How many digits the code point behind an escape has. -/
def codeEscape? : Char → Option Nat
  | 'x' => some 2
  | 'u' => some 4
  | 'U' => some 8
  | _ => none

/-- A stretch of a quoted scalar. -/
structure QuotedRun where
  text : List Char
  rest : List Char
  /-- The stretch ends with a backslash, and the break behind it does not count. -/
  escapedBreak : Bool

def QuotedRun.push (c : Char) (run : QuotedRun) : QuotedRun := { run with text := c :: run.text }

/-- The characters up to a gap or the closing quote. -/
def singleRun : List Char → QuotedRun
  | [] => ⟨[], [], false⟩
  | '\'' :: '\'' :: rest => (singleRun rest).push '\''
  | c :: rest =>
      if isBlank c || isBreak c || c == '\'' then ⟨[], c :: rest, false⟩
      else (singleRun rest).push c

/-- Like `singleRun`, with escapes. `code` holds how many digits of a code point are still to come
and the value of those before. -/
def doubleRun? (code : Option (Nat × Nat)) : List Char → Option QuotedRun
  | [] => if code.isSome then none else some ⟨[], [], false⟩
  | c :: rest =>
      match code with
      | some (left + 1, value) => do
          let value := value * 16 + (← hexValue? c)
          if left > 0 then doubleRun? (some (left, value)) rest
          else if (0xd800 ≤ value ∧ value < 0xe000) ∨ 0x110000 ≤ value then none
          else (doubleRun? none rest).map (·.push (Char.ofNat value))
      | _ =>
          if isBlank c || isBreak c || c == '"' then some ⟨[], c :: rest, false⟩
          else if c = '\\' then
            match rest with
            | [] => none
            | e :: rest =>
                if isBreak e then some ⟨[], e :: rest, true⟩
                else match letterEscape? e, codeEscape? e with
                | some d, _ => (doubleRun? none rest).map (·.push d)
                | none, some digits => doubleRun? (some (digits, 0)) rest
                | none, none => none
          else (doubleRun? none rest).map (·.push c)

/-- Reads a quoted scalar on from `text` to behind the closing quote. -/
def quoted? (single : Bool) : Nat → Cursor → List Char → Option (List Char × Cursor)
  | 0, _, _ => none
  | rounds + 1, cursor, text =>
      if cursor.atDocumentMark || cursor.rest.isEmpty then none
      else do
        let run ← if single then some (singleRun cursor.rest) else doubleRun? none cursor.rest
        let text := text ++ run.text
        let cursor := cursor.moveTo run.rest
        let start : Gap := if run.escapedBreak then { breaks := some ([], []) } else {}
        let cursor := if run.escapedBreak then cursor.skipBreak else cursor
        if cursor.rest.head? = some (if single then '\'' else '"') then
          return (text, cursor.skip 1)
        let (gap, next) ← Gap.read? 0 (cursor.rest.length + 1) cursor start
        quoted? single rounds next (text ++ gap.text)

/-! ## Block scalars -/

/-- What happens to the breaks at the end of a block scalar. -/
inductive Chomping where
  | strip
  | clip
  | keep
deriving DecidableEq, Repr

def chomping? : Char → Option Chomping
  | '+' => some .keep
  | '-' => some .strip
  | _ => none

/-- The indicators behind the sign of a block scalar: how it is chomped and by how much it is
indented, in either order, each at most once. An indentation of zero is refused. -/
def blockHeader? (cursor : Cursor) : Option (Chomping × Nat × Cursor) :=
  let digit? (c : Char) : Option Nat := if c.isDigit then some (c.toNat - '0'.toNat) else none
  match cursor.rest with
  | [] => some (.clip, 0, cursor)
  | c :: rest =>
      match chomping? c, digit? c with
      | some chomping, _ =>
          match rest.head?.bind digit? with
          | none => some (chomping, 0, cursor.skip 1)
          | some 0 => none
          | some n => some (chomping, n, cursor.skip 2)
      | none, some 0 => none
      | none, some n =>
          match rest.head?.bind chomping? with
          | none => some (.clip, n, cursor.skip 1)
          | some chomping => some (chomping, n, cursor.skip 2)
      | none, none => some (.clip, 0, cursor)

/-- Moves past empty lines and the indentation of the line behind them. Indentation is known to be
`indent`, or, where that is zero, unknown, and then there is no limit to the spaces. Returns the
breaks and the widest indentation seen. -/
def blockBreaks? (indent : Nat) :
    Nat → Cursor → List Char → Nat → Option (List Char × Nat × Cursor)
  | 0, _, _, _ => none
  | rounds + 1, cursor, breaks, widest =>
      let spaces := (cursor.rest.takeWhile (· == ' ')).length
      let cursor := cursor.skip (if indent = 0 then spaces
        else min spaces (indent - cursor.mark.column))
      let widest := max widest cursor.mark.column
      if cursor.rest.head? = some '\t' ∧ (indent = 0 ∨ cursor.mark.column < indent) then none
      else if !cursor.rest.isEmpty && startsBreak cursor.rest then
        let (b, next) := cursor.readBreak
        blockBreaks? indent rounds next (breaks ++ b) widest
      else some (breaks, widest, cursor)

/-- What has been read of a block scalar. -/
structure BlockText where
  text : List Char := []
  /-- The break behind the last line. -/
  last : List Char := []
  /-- The breaks of the empty lines behind that. -/
  empty : List Char := []
  /-- Whether the last line started with a blank. -/
  blank : Bool := false

/-- Reads lines that are indented by `indent`. -/
def blockLines? (folded : Bool) (indent : Nat) :
    Nat → Cursor → BlockText → Option (BlockText × Cursor)
  | 0, _, _ => none
  | rounds + 1, cursor, block =>
      if cursor.mark.column ≠ indent ∨ cursor.rest = [] then some (block, cursor)
      else do
        let blank := cursor.rest.head?.any isBlank
        let joint :=
          if folded && block.last == ['\n'] && !block.blank && !blank then
            if block.empty = [] then [' '] else []
          else block.last
        let line := cursor.rest.takeWhile (!isBreak ·)
        let (last, next) := (cursor.skip line.length).readBreak
        let (empty, _, next) ← blockBreaks? indent (next.rest.length + 1) next [] 0
        blockLines? folded indent rounds next
          { text := block.text ++ joint ++ block.empty ++ line, last, empty, blank }

/-- Reads a block scalar from behind its sign. The lines of the surrounding collection are indented
by less than `floor`. -/
def block? (folded : Bool) (floor : Nat) (cursor : Cursor) : Option (List Char × Cursor) := do
  let (chomping, increment, cursor) ← blockHeader? cursor
  let cursor ← cursor.endLine?
  let rounds := cursor.rest.length + 1
  let known := if increment = 0 then 0 else floor - 1 + increment
  let (empty, widest, cursor) ← blockBreaks? known rounds cursor [] 0
  let indent := if known = 0 then max widest (max floor 1) else known
  let (block, cursor) ← blockLines? folded indent rounds cursor { empty }
  let tail := match chomping with
    | .strip => []
    | .clip => block.last
    | .keep => block.last ++ block.empty
  return (block.text ++ tail, cursor)

end AttestationIntake.Yaml
