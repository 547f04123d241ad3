import AttestationIntake.Bytes.Fixed
import Std.Data.ExtTreeMap
import Std.Data.ExtTreeSet

/-!
Stores of blocks, as far as an intake knows them: it can ask whether a block is there. Blocks arrive
in the store independently, and the store may also change by being asked.
-/

namespace AttestationIntake

open Std (ExtTreeMap ExtTreeSet)

class BlockStore (σ : Type) where
  /-- Whether the store holds the block, and the store afterwards. -/
  lookup : σ → Root → Bool × σ

/-- A store that knows some blocks, and answers for others only after a number of lookups. -/
structure LaggingStore where
  known : ExtTreeSet Root := ∅
  /-- How many lookups of a root are still in vain. -/
  lagging : ExtTreeMap Root Nat := ∅

namespace LaggingStore

def know (store : LaggingStore) (root : Root) : LaggingStore :=
  { store with known := store.known.insert root }

def forget (store : LaggingStore) (root : Root) : LaggingStore :=
  { store with known := store.known.erase root }

instance : BlockStore LaggingStore where
  lookup store root :=
    if store.known.contains root then (true, store)
    else match store.lagging[root]? with
    | some (n + 1) => (false, { store with lagging := store.lagging.insert root n })
    | some 0 => (true, store)
    | none => (false, store)

end LaggingStore

end AttestationIntake
