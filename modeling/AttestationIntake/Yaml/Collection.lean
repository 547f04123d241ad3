import AttestationIntake.Yaml.Node

/-!
Reading collections from tokens. All collections that are open are read together, the innermost
first, as the end of one is seen only where the next token does not belong to it. Of what is read
there remain the items in the order of the text and the anchors.
-/

namespace AttestationIntake.Yaml

/-! ## Items -/

/-- What tag handles stand for. -/
abbrev TagHandles := List (String × String)

def TagHandles.standard : TagHandles := [("!", "!"), ("!!", "tag:yaml.org,2002:")]

/-- What is written in front of the content of a node. -/
structure Properties where
  /-- Where they start, if there are any. -/
  mark : Option Mark := none
  anchor : Option String := none
  tag : Option (String × String) := none

/-- An anchor and a tag in either order, each at most once. -/
def properties : List Token → Properties × List Token
  | ⟨.anchor name, mark⟩ :: ⟨.tag handle suffix, _⟩ :: rest
  | ⟨.tag handle suffix, mark⟩ :: ⟨.anchor name, _⟩ :: rest =>
      (⟨mark, name, some (handle, suffix)⟩, rest)
  | ⟨.anchor name, mark⟩ :: rest => (⟨mark, name, none⟩, rest)
  | ⟨.tag handle suffix, mark⟩ :: rest => (⟨mark, none, some (handle, suffix)⟩, rest)
  | tokens => ({}, tokens)

/-- The tag that is meant. There has to be something for its handle to stand for. -/
def resolveTag? (handles : TagHandles) : Option (String × String) → Option (Option String)
  | none => some none
  | some ("", suffix) => some suffix
  | some (handle, suffix) => (handles.lookup handle).map fun stem => some (stem ++ suffix)

/-- What stands next in a collection that is open. A pair is a mapping of one key that is an element
of a flow sequence and has no braces. -/
inductive Turn where
  | blockElement
  /-- An element of a sequence that is not indented behind its key. -/
  | flatElement
  | blockKey
  | blockValue
  | flowElement (first : Bool)
  | flowKey (first : Bool)
  /-- A key is bare if it cannot have a value. -/
  | flowValue (bare : Bool)
  | pairKey
  | pairValue
  | pairEnd
deriving DecidableEq, Repr

/-- The content that starts with a token, what stands next in it if it is a collection, and whether
the token is used up. Only a key or a value of a block mapping can be a sequence that is not
indented. Properties alone make an empty scalar. -/
def content? (inBlockMapping : Bool) (tag : Option String) (isBare : Bool) : TokenKind →
    Option (Content × Option Turn × Bool)
  | .scalar style text => some (.scalar ⟨style, tag, text⟩, none, true)
  | .flowSequence => some (.sequence, some (.flowElement true), true)
  | .blockSequence => some (.sequence, some .blockElement, true)
  | .flowMapping => some (.mapping, some (.flowKey true), true)
  | .blockMapping => some (.mapping, some .blockKey, true)
  | kind =>
      if kind = .blockEntry ∧ inBlockMapping then some (.sequence, some .flatElement, false)
      else if isBare then none
      else some (.scalar ⟨.plain, tag, ""⟩, none, false)

/-- An item that was read. -/
structure ReadItem where
  item : Item
  /-- What stands next in it if it is a collection. -/
  opened : Option Turn
  anchors : Anchors
  rest : List Token

/-- Reads a reference to a node that is known, or a node up to where a collection starts. -/
def item? (inBlockMapping : Bool) (handles : TagHandles) (anchors : Anchors) :
    List Token → Option ReadItem
  | ⟨.reference name, _⟩ :: rest =>
      (anchors.number? name).map fun number => ⟨.reference number, none, anchors, rest⟩
  | tokens => do
      let (properties, rest) := properties tokens
      let token ← rest.head?
      let tag ← resolveTag? handles properties.tag
      let (content, opened, used) ← content? inBlockMapping tag properties.mark.isNone token.kind
      let node : Node := ⟨content, properties.mark.getD token.mark⟩
      let anchors := (properties.anchor.map (anchors.add · node)).getD anchors
      return ⟨.node node, opened, anchors, if used then rest.tail else rest⟩

/-! ## Turns -/

/-- What a turn comes to, and what stands next behind that. -/
inductive Step where
  | close (rest : List Token)
  /-- Nothing where an item belongs. -/
  | absent (mark : Mark) (next : Turn) (rest : List Token)
  | present (next : Turn) (rest : List Token)
  | pair (mark : Mark) (next : Turn) (rest : List Token)

/-- An item is absent if the token behind its indicator is one of `ends`. -/
def Step.ofRest? (ends : List TokenKind) (absent : Token → Mark) (next : Turn) :
    List Token → Option Step
  | [] => none
  | token :: rest =>
      if ends.contains token.kind then some (.absent (absent token) next (token :: rest))
      else some (.present next (token :: rest))

/-- Where an indicator of one character ends. -/
def behind (mark : Mark) : Mark := { mark with index := mark.index + 1, column := mark.column + 1 }

namespace Turn

def inBlockMapping (turn : Turn) : Bool := turn = .blockKey || turn = .blockValue

def inBlock? (turn : Turn) (tokens : List Token) : Option Step :=
  let ends : List TokenKind := [.key, .value, .blockEnd]
  match turn, tokens with
  | .blockElement, ⟨.blockEntry, mark⟩ :: rest =>
      Step.ofRest? [.blockEntry, .blockEnd] (fun _ => behind mark) .blockElement rest
  | .flatElement, ⟨.blockEntry, mark⟩ :: rest =>
      Step.ofRest? (.blockEntry :: ends) (fun _ => behind mark) .flatElement rest
  | .blockKey, ⟨.key, mark⟩ :: rest =>
      Step.ofRest? ends (fun _ => behind mark) .blockValue rest
  | .blockValue, ⟨.value, mark⟩ :: rest =>
      Step.ofRest? ends (fun _ => behind mark) .blockKey rest
  | .blockElement, ⟨.blockEnd, _⟩ :: rest | .blockKey, ⟨.blockEnd, _⟩ :: rest =>
      some (.close rest)
  | .flatElement, token :: rest => some (.close (token :: rest))
  | .blockValue, token :: rest => some (.absent token.mark .blockKey (token :: rest))
  | _, _ => none

def inFlow? (turn : Turn) (tokens : List Token) : Option Step :=
  match turn, tokens with
  | .flowElement _, ⟨.flowSequenceEnd, _⟩ :: rest
  | .flowElement false, ⟨.flowEntry, _⟩ :: ⟨.flowSequenceEnd, _⟩ :: rest
  | .flowKey _, ⟨.flowMappingEnd, _⟩ :: rest
  | .flowKey false, ⟨.flowEntry, _⟩ :: ⟨.flowMappingEnd, _⟩ :: rest => some (.close rest)
  | .flowElement true, ⟨.key, mark⟩ :: rest
  | .flowElement false, ⟨.flowEntry, _⟩ :: ⟨.key, mark⟩ :: rest =>
      some (.pair mark (.flowElement false) rest)
  | .flowElement true, token :: rest | .flowElement false, ⟨.flowEntry, _⟩ :: token :: rest =>
      some (.present (.flowElement false) (token :: rest))
  | .flowKey true, ⟨.key, _⟩ :: rest | .flowKey false, ⟨.flowEntry, _⟩ :: ⟨.key, _⟩ :: rest =>
      Step.ofRest? [.value, .flowEntry, .flowMappingEnd] Token.mark (.flowValue false) rest
  | .flowKey true, token :: rest | .flowKey false, ⟨.flowEntry, _⟩ :: token :: rest =>
      some (.present (.flowValue true) (token :: rest))
  | .flowValue false, ⟨.value, _⟩ :: rest =>
      Step.ofRest? [.flowEntry, .flowMappingEnd] Token.mark (.flowKey false) rest
  | .flowValue _, token :: rest => some (.absent token.mark (.flowKey false) (token :: rest))
  | _, _ => none

/-- The token behind the question mark of a pair without a key is lost. -/
def inPair? (turn : Turn) (tokens : List Token) : Option Step :=
  match turn, tokens with
  | .pairKey, ⟨.value, mark⟩ :: rest | .pairKey, ⟨.flowEntry, mark⟩ :: rest
  | .pairKey, ⟨.flowSequenceEnd, mark⟩ :: rest => some (.absent (behind mark) .pairValue rest)
  | .pairKey, token :: rest => some (.present .pairValue (token :: rest))
  | .pairValue, ⟨.value, _⟩ :: rest =>
      Step.ofRest? [.flowEntry, .flowSequenceEnd] Token.mark .pairEnd rest
  | .pairValue, token :: rest => some (.absent token.mark .pairEnd (token :: rest))
  | .pairEnd, token :: rest => some (.close (token :: rest))
  | _, _ => none

def step? (turn : Turn) (tokens : List Token) : Option Step :=
  match turn with
  | .blockElement | .flatElement | .blockKey | .blockValue => turn.inBlock? tokens
  | .flowElement _ | .flowKey _ | .flowValue _ => turn.inFlow? tokens
  | .pairKey | .pairValue | .pairEnd => turn.inPair? tokens

end Turn

/-! ## Contents -/

/-- What stands in collections. -/
structure Contents where
  /-- All items in the order of the text. What a collection holds follows it. -/
  items : List Item
  anchors : Anchors
  /-- What stands behind the collections, if they were read to their ends. -/
  rest : Option (List Token)

def Contents.push (contents : Contents) (item : Item) : Contents :=
  { contents with items := item :: contents.items }

/-- Reads collections that are open to their ends, a turn in each round. Of three rounds in a row
one at least uses up a token. -/
def contents (handles : TagHandles) : Nat → List Turn → Anchors → List Token → Contents
  | _, [], anchors, tokens => ⟨[], anchors, some tokens⟩
  | 0, _ :: _, anchors, _ => ⟨[], anchors, none⟩
  | rounds + 1, turn :: outer, anchors, tokens =>
      match turn.step? tokens with
      | none => ⟨[], anchors, none⟩
      | some (.close rest) => contents handles rounds outer anchors rest
      | some (.absent mark next rest) =>
          (contents handles rounds (next :: outer) anchors rest).push (.node (.absent mark))
      | some (.pair mark next rest) =>
          (contents handles rounds (.pairKey :: next :: outer) anchors rest).push
            (.node ⟨.mapping, mark⟩)
      | some (.present next rest) =>
          match item? turn.inBlockMapping handles anchors rest with
          | none => ⟨[], anchors, none⟩
          | some ⟨item, opened, anchors, rest⟩ =>
              (contents handles rounds (opened.toList ++ next :: outer) anchors rest).push item

end AttestationIntake.Yaml
