import AttestationIntake.Bytes.Hex
import Std.Data.ExtTreeMap

/-!
Families of figures that are told apart by labels. A family knows its figures by the digest of their
labels, which are put together without a mark between them: `a` and `bc` mean the same figure as
`ab` and `c`, and it is shown with the labels that came first.
-/

namespace AttestationIntake

open Std (ExtTreeMap)

/-- The FNV-1a digest in 64 bits: each byte is mixed into the low end of a word, which is then spread
by a multiplication. Labels that are met in practice have different digests, but some texts share
one. -/
def digest (bytes : List UInt8) : UInt64 :=
  bytes.foldl (fun word byte => (word ^^^ byte.toUInt64) * 0x100000001b3) 0xcbf29ce484222325

structure Figure where
  /-- The labels by which it was first asked for, each with its name. -/
  labels : List (String × String)
  value : Nat := 0

structure Family where
  figures : ExtTreeMap UInt64 Figure := ∅

namespace Family

/-- What tells the figures of a family apart. The names of labels are the same for all. -/
def key (labels : List (String × String)) : UInt64 :=
  digest (labels.flatMap fun (_, label) => utf8Bytes label)

/-- The value of a figure; one that was never changed is zero. -/
def value (family : Family) (labels : List (String × String)) : Nat :=
  (family.figures[key labels]?.map (·.value)).getD 0

def update (family : Family) (labels : List (String × String)) (change : Nat → Nat) : Family :=
  let figure := family.figures[key labels]?.getD { labels }
  ⟨family.figures.insert (key labels) { figure with value := change figure.value }⟩

def count (family : Family) (labels : List (String × String)) : Family :=
  family.update labels (· + 1)

/-- Labels as they are shown, by their names. -/
def labelText (labels : List (String × String)) : String :=
  ",".intercalate (labels.map fun (name, label) => name ++ "=" ++ label)

/-- All figures with their labels. Of those whose labels look the same the one with the greatest
labels is shown. -/
def samples (family : Family) : List (String × Nat) :=
  let named := family.figures.toList.map fun (_, figure) =>
    (figure.labels.mergeSort fun a b => a.1 ≤ b.1, figure.value)
  let sorted := named.mergeSort fun a b => (compare (a.1.map (·.2)) (b.1.map (·.2))).isLE
  let shown : ExtTreeMap String Nat :=
    sorted.foldl (fun shown (labels, value) => shown.insert (labelText labels) value) ∅
  shown.toList

end Family

end AttestationIntake
