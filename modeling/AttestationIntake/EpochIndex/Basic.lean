import AttestationIntake.Bytes.Fixed
import AttestationIntake.Chain.Epoch
import AttestationIntake.EpochIndex.Shelves
import AttestationIntake.Settings

/-!
A bounded index of values by epoch and root, over a window of epochs that only moves forward. Values
are numbered in the order of arrival. They stand in rows by epoch, which say in which order they
leave when the index is full, and the places of each root say where its values are. Whether a value
belongs into the window is for the caller to check.
-/

namespace AttestationIntake

/-- `ν` is the type of the values. -/
structure EpochIndex (ν : Type) where
  rows : Shelves Epoch (Root × ν) := ∅
  places : Shelves Root Epoch := ∅
  /-- The first epoch of the window. -/
  baseline : Epoch := 0
  /-- The number of epochs in the window. -/
  tracked : UInt64
  capacity : Capacity
  nextNumber : Nat := 0
  size : Nat := 0

namespace EpochIndex

variable {ν : Type}

/-- The index that holds nothing and starts at the first epoch. -/
def empty (tracked : UInt64) (capacity : Capacity) : EpochIndex ν := { tracked, capacity }

/-! ## Reading -/

def window (index : EpochIndex ν) : EpochWindow :=
  ⟨index.baseline, addCapped index.baseline index.tracked⟩

def isEmpty (index : EpochIndex ν) : Bool := index.size == 0

/-- All values, by epoch and then by arrival. -/
def values (index : EpochIndex ν) : List ν := index.rows.entries.map fun (_, _, value) => value

/-- Whether this value stands under this epoch and root. -/
def contains [BEq ν] (index : EpochIndex ν) (epoch : Epoch) (root : Root) (value : ν) : Bool :=
  match index.places[root]?, index.rows[epoch]? with
  | some places, some row =>
      places.toList.any fun (number, place) =>
        place = epoch && row[number]?.any fun (_, stored) => stored == value
  | _, _ => false

/-! ## Changing -/

/-- Takes out the value of the lowest epoch that arrived first. -/
def evictOldest (index : EpochIndex ν) : Option ν × EpochIndex ν :=
  match index.rows.toList.head? with
  | none => (none, index)
  | some (epoch, row) =>
      match row.toList.head? with
      | none => (none, index)
      | some (number, root, value) =>
          (some value, { index with
            rows := index.rows.remove epoch number
            places := index.places.remove root number
            size := index.size - 1 })

/-- Stores a value under the next number, whatever the capacity. -/
def grow (index : EpochIndex ν) (epoch : Epoch) (root : Root) (value : ν) : EpochIndex ν :=
  { index with
    rows := index.rows.put epoch index.nextNumber (root, value)
    places := index.places.put root index.nextNumber epoch
    nextNumber := index.nextNumber + 1
    size := index.size + 1 }

/-- Adds a value unless it stands under its epoch and root already. What had to leave for it is
returned; this can be the value itself. -/
def add [BEq ν] (index : EpochIndex ν) (epoch : Epoch) (root : Root) (value : ν) :
    Option ν × EpochIndex ν :=
  if index.contains epoch root value then (none, index)
  else
    let grown := index.grow epoch root value
    if grown.size > grown.capacity.toNat then grown.evictOldest else (none, grown)

/-- Takes the values at the given places out of their rows. -/
def takePlaces (rows : Shelves Epoch (Root × ν)) :
    List (Nat × Epoch) → List ν × Shelves Epoch (Root × ν)
  | [] => ([], rows)
  | (number, epoch) :: rest =>
      let (values, remaining) := takePlaces (rows.remove epoch number) rest
      ((rows.find? epoch number).toList.map (·.2) ++ values, remaining)

/-- Takes out all values of a root, in the order of arrival. -/
def evict (index : EpochIndex ν) (root : Root) : List ν × EpochIndex ν :=
  match index.places[root]? with
  | none => ([], index)
  | some places =>
      let (values, rows) := takePlaces index.rows places.toList
      (values, { index with
        rows
        places := index.places.erase root
        size := index.size - values.length })

/-- Takes away the places of values that were dropped. -/
def forgetPlaces (places : Shelves Root Epoch) (dropped : List (Nat × Root × ν)) :
    Shelves Root Epoch :=
  dropped.foldl (fun places (number, root, _) => places.remove root number) places

/-- Moves the window forward to `baseline` and drops the epochs before it. Returns how many values
were dropped. The window never moves backward. -/
def moveBaseline (index : EpochIndex ν) (baseline : Epoch) : Nat × EpochIndex ν :=
  if baseline ≤ index.baseline then (0, index)
  else
    let dropped := Shelves.entries (index.rows.filter fun epoch _ => epoch < baseline)
    (dropped.length, { index with
      rows := index.rows.filter fun epoch _ => baseline ≤ epoch
      places := forgetPlaces index.places dropped
      baseline
      size := index.size - dropped.length })

end EpochIndex

end AttestationIntake
