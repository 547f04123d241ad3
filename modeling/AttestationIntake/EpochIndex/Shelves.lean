import Std.Data.ExtTreeMap

/-!
Maps of numbered values: every key has a shelf, on which values stand by their number. A shelf from
which the last value is taken is taken down, so no shelf is ever empty.
-/

namespace AttestationIntake

open Std (ExtTreeMap TransOrd)

/-- Shelves of values by key, and by number within a shelf. -/
abbrev Shelves (κ : Type) [Ord κ] (β : Type) := ExtTreeMap κ (ExtTreeMap Nat β)

namespace Shelves

variable {κ β : Type} [Ord κ] [TransOrd κ]

def find? (shelves : Shelves κ β) (key : κ) (number : Nat) : Option β :=
  shelves[key]?.bind (·[number]?)

def put (shelves : Shelves κ β) (key : κ) (number : Nat) (value : β) : Shelves κ β :=
  shelves.alter key fun shelf => some ((shelf.getD ∅).insert number value)

def remove (shelves : Shelves κ β) (key : κ) (number : Nat) : Shelves κ β :=
  shelves.alter key fun shelf =>
    (shelf.map (·.erase number)).filter (!·.isEmpty)

/-- All values with their numbers, by key and then by number. -/
def entries (shelves : Shelves κ β) : List (Nat × β) :=
  shelves.toList.flatMap fun (_, shelf) => shelf.toList

end Shelves

end AttestationIntake
