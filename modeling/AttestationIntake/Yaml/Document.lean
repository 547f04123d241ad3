import AttestationIntake.Yaml.Collection
import AttestationIntake.Yaml.TokenStream

/-!
The document in a text. A text may hold no document at all. Where it breaks a rule, or holds a
second document, what stands before that is still there, and the document is not complete.
-/

namespace AttestationIntake.Yaml

structure Document where
  /-- It is absent if the text ends or breaks a rule before it. -/
  root : Option Node := none
  /-- What stands in the root, in the order of the text. Keys and values of a mapping come by turns,
  and what a collection holds follows it. -/
  items : List Item := []
  anchors : Anchors := {}
  /-- The text holds this document, without a fault and without another one. -/
  complete : Bool := false

namespace Document

/-- Whether nothing but marks of an end follows. -/
def isLast (tokens : List Token) : Bool :=
  (tokens.dropWhile (·.kind == .documentEnd)).head?.any (·.kind == .streamEnd)

/-- Handles that are given by directives go in front of the standard ones. Neither a handle nor the
version may be given twice, and the version is 1.1 or 1.2. -/
def directives? (version : Bool) (handles : TagHandles) :
    List Token → Option (TagHandles × List Token)
  | ⟨.version major minor, _⟩ :: rest =>
      if version || major != 1 || (minor != 1 && minor != 2) then none
      else directives? true handles rest
  | ⟨.tagHandle handle stem, _⟩ :: rest =>
      if (handles.lookup handle).isSome then none
      else directives? version ((handle, stem) :: handles) rest
  | tokens => some (handles ++ TagHandles.standard, tokens)

/-- Reads the root and what stands in it. It cannot be a reference, as there is nothing in front of
it. -/
def ofContent (handles : TagHandles) (tokens : List Token) : Document :=
  match item? false handles {} tokens with
  | some ⟨.node root, opened, anchors, rest⟩ =>
      let inside := contents handles (3 * (tokens.length + 1)) opened.toList anchors rest
      { root, items := inside.items, anchors := inside.anchors,
        complete := inside.rest.any isLast }
  | _ => {}

def ofTokens (tokens : List Token) : Document :=
  match tokens with
  | [] => {}
  | [⟨.streamEnd, _⟩] => { complete := true }
  | ⟨.version _ _, _⟩ :: _ | ⟨.tagHandle _ _, _⟩ :: _ | ⟨.documentStart, _⟩ :: _ =>
      match directives? false [] tokens with
      | some (handles, ⟨.documentStart, _⟩ :: rest) =>
          match rest with
          | ⟨.version _ _, mark⟩ :: _ | ⟨.tagHandle _ _, mark⟩ :: _ | ⟨.documentStart, mark⟩ :: _
          | ⟨.documentEnd, mark⟩ :: _ | ⟨.streamEnd, mark⟩ :: _ =>
              { root := some (.absent mark), complete := isLast rest }
          | _ => ofContent handles rest
      | _ => {}
  | _ => ofContent .standard tokens

def ofText (text : String) : Document := ofTokens (tokensOf text)

end Document

end AttestationIntake.Yaml
