import AttestationIntake.Decimal.Nearest
import AttestationIntake.Tally.Family

/-!
The tally of an intake: how long its collections are, how its operations were timed and how often
each outcome came up. A tally counts from the start, but shows its figures only once it is
registered.
-/

namespace AttestationIntake

structure Tally where
  registered : Bool := false
  /-- The length of each collection, by its type and name. -/
  lengths : Family := {}
  /-- How often each operation was timed. -/
  times : Family := {}
  /-- How often each outcome came up. -/
  outcomes : Family := {}

/-- The tally has been registered before. -/
inductive RegistrationError where
  | duplicate
deriving DecidableEq, Repr

def RegistrationError.message : RegistrationError → String
  | duplicate => "Duplicate metrics collector registration attempted"

/-- Whether a label can have the name. -/
def isLabelName (name : String) : Bool :=
  let isNameChar (c : Char) : Bool := c.isAlphanum || c == '_'
  match name.toList with
  | [] => false
  | first :: rest => isNameChar first && !first.isDigit && rest.all isNameChar

namespace Tally

/-- The greatest length that is kept; longer collections count as that long. -/
def maxLength : Nat := 0x7fffffffffffffff

def register (tally : Tally) : Except RegistrationError Tally :=
  if tally.registered then .error .duplicate else .ok { tally with registered := true }

def lengthLabels (type name : String) : List (String × String) :=
  [("type", type), ("name", name)]

def setLength (tally : Tally) (type name : String) (length : Nat) : Tally :=
  let lengths := tally.lengths.update (lengthLabels type name) fun _ => min length maxLength
  { tally with lengths }

def length (tally : Tally) (type name : String) : Nat :=
  tally.lengths.value (lengthLabels type name)

def countTime (tally : Tally) (operation : String) : Tally :=
  { tally with times := tally.times.count [("operation", operation)] }

def countOutcome (tally : Tally) (outcome : String) : Tally :=
  { tally with outcomes := tally.outcomes.count [("outcome", outcome)] }

/-- Whether a family of timers with these label names has a timer for one label. The name `le` is
taken: it tells the buckets of a histogram apart. -/
def hasTimer (labelNames : List String) : Bool :=
  match labelNames with
  | [name] => isLabelName name && name != "le"
  | _ => false

/-! ## Figures -/

/-- A length as it is shown. Figures are floating-point numbers, so that a length of more than 53
binary digits is rounded. -/
def shownLength (length : Nat) : Nat := min (Decimal.toSignificant 53 length) maxLength

/-- The families that have figures, with the labels of each figure. -/
def figures (tally : Tally) : List (String × List (String × Nat)) :=
  if !tally.registered then []
  else
    let lengths := tally.lengths.samples.map fun (labels, length) => (labels, shownLength length)
    [("ATTESTATION_INGESTION_TIMES", tally.times.samples),
      ("ATTESTATION_SUBMISSION_OUTCOMES", tally.outcomes.samples),
      ("COLLECTION_LENGTHS", lengths)].filter fun (_, samples) => !samples.isEmpty

end Tally

end AttestationIntake
