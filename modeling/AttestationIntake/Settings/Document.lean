import AttestationIntake.Settings
import AttestationIntake.Yaml.CoreSchema

/-!
Settings as a YAML document. It is a mapping that gives some of the settings in any order; the
others have their defaults, and so have all where nothing is written. The first fault in the data is
reported, and data in front of the place where the text breaks a rule of YAML counts.
-/

namespace AttestationIntake.Settings

open Yaml (Anchors Item Mark Node Scalar)

/-- What is wrong with the data, and where. -/
structure Fault where
  error : DataError
  mark : Mark
  /-- The key whose value is wrong, or a question mark for a key that is a reference. -/
  path : Option String := none

def Fault.message (fault : Fault) : String :=
  let mark := fault.mark
  (fault.path.map (· ++ ": ")).getD "" ++ fault.error.message .yaml ++
    if mark.line = 0 ∧ mark.column = 0 then ""
    else s!" at line {mark.line + 1} column {mark.column + 1}"

inductive DocumentError where
  /-- The text is not one document of YAML. -/
  | malformed
  | data (fault : Fault)

/-- The settings that a document gives. -/
structure Overrides where
  historicEpochs : Option UInt64 := none
  orphanLookahead : Option UInt64 := none
  orphanCapacity : Option Capacity := none
deriving DecidableEq

namespace Overrides

def gives (overrides : Overrides) : Key → Bool
  | .historicEpochs => overrides.historicEpochs.isSome
  | .orphanLookahead => overrides.orphanLookahead.isSome
  | .orphanCapacity => overrides.orphanCapacity.isSome

/-- Settings with what is given in place of the defaults. -/
def settings (overrides : Overrides) : Settings :=
  let defaults : Settings := {}
  { historicEpochs := overrides.historicEpochs.getD defaults.historicEpochs
    orphanLookahead := overrides.orphanLookahead.getD defaults.orphanLookahead
    orphanCapacity := overrides.orphanCapacity.getD defaults.orphanCapacity }

end Overrides

/-! ## Keys and values -/

/-- Why a node is not what is expected. -/
def refuse (node : Node) (expected : String) : DataError :=
  match node.content with
  | .sequence => .invalidType .sequence expected
  | .mapping => .invalidType .map expected
  | .scalar scalar =>
      match scalar.found with
      | .ok found => .invalidType found expected
      | .error error => error

def readWord (node : Node) (expected : String) : Except DataError UInt64 :=
  match node.content with
  | .scalar scalar => (scalar.word?.map .ok).getD (.error (refuse node expected))
  | _ => .error (refuse node expected)

def readCapacity (node : Node) : Except DataError Capacity := do
  let expected := "a nonzero usize"
  let entries ← readWord node expected
  match Capacity.ofWord? entries with
  | some capacity => .ok capacity
  | none => .error (.invalidValue (.integer entries.toNat) expected)

/-- The setting that a key names. The style of the key does not matter, nor does its tag. -/
def readKey (node : Node) : Except DataError Key :=
  match node.content with
  | .scalar scalar =>
      match Key.ofName? scalar.text with
      | some key => .ok key
      | none => .error (.unknownField scalar.text (Key.all.map Key.name))
  | _ => .error (refuse node "field identifier")

def Overrides.read (overrides : Overrides) (key : Key) (node : Node) :
    Except DataError Overrides := do
  match key with
  | .historicEpochs => return { overrides with historicEpochs := ← readWord node "u64" }
  | .orphanLookahead => return { overrides with orphanLookahead := ← readWord node "u64" }
  | .orphanCapacity => return { overrides with orphanCapacity := ← readCapacity node }

/-! ## Documents -/

/-- The node that is meant by an item, as it is read by `read`. -/
def readItem {α : Type} (anchors : Anchors) (item : Item) (path : Option String)
    (read : Node → Except DataError α) : Except DocumentError α :=
  match anchors.follow? item with
  | none => .error .malformed
  | some node => (read node).mapError fun error => .data ⟨error, node.mark, path⟩

/-- Reads keys and values by turns. A setting may be given once only; one that is given again is
reported at the start of the mapping, before its value is looked at. No collection is a key or a
value of settings, so that what follows one is never read. -/
def readItems (anchors : Anchors) (start : Mark) :
    List Item → Overrides → Except DocumentError Overrides
  | [], overrides => .ok overrides
  | key :: items, overrides => do
      let path := match key with
        | .node ⟨.scalar scalar, _⟩ => scalar.text
        | _ => "?"
      let key ← readItem anchors key none readKey
      if overrides.gives key then throw (.data ⟨.duplicateField key.name, start, none⟩)
      match items with
      | [] => throw .malformed
      | value :: items => do
          let overrides ← readItem anchors value path (overrides.read key)
          readItems anchors start items overrides

/-- The settings in a document. Nothing at all and an empty scalar give none. -/
def ofDocument (document : Yaml.Document) : Except DocumentError Settings := do
  let overrides ← match document.root with
    | none => pure {}
    | some root =>
        match root.content with
        | .mapping => readItems document.anchors root.mark document.items {}
        | .scalar ⟨.plain, _, ""⟩ => pure {}
        | _ => throw (.data ⟨refuse root "struct PoolConfig", root.mark, none⟩)
  if document.complete then return overrides.settings else throw .malformed

def ofYaml (text : String) : Except DocumentError Settings := ofDocument (.ofText text)

end AttestationIntake.Settings
