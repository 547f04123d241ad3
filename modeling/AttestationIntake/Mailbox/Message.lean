import AttestationIntake.Intake

/-!
Messages to an intake that is owned by a service. Messages are handled one after the other in the
order of their arrival, until one says stop; those behind it are lost. A request is answered under
the number of its ticket, unless nobody listens for the answer any more. Requests that are refused
and answers that nobody listens for do not stop the service.
-/

namespace AttestationIntake

/-- A claim to an answer. -/
structure Ticket where
  number : Nat
  /-- Whether somebody still listens for the answer. -/
  listening : Bool := true
deriving DecidableEq, Repr

inductive Message (p : Preset) where
  | slot (slot : Slot)
  | attestation (received : Received p) (ticket : Option Ticket)
  | blockImported (block : BeaconBlock p)
  | offChain (state : BeaconState p) (ticket : Ticket)
  | stop

inductive Answer (p : Preset) where
  | submitted (result : Except IntakeError Outcome)
  | attestations (result : Option (List (Attestation p)))

/-- What came of some messages: the intake and the store afterwards, the answers that somebody
listened for, and what was logged. -/
structure Served (p : Preset) (σ : Type) where
  intake : Intake p
  store : σ
  answers : List (Nat × Answer p) := []
  lines : List LogLine := []
  stopped : Bool := false

namespace Served

variable {p : Preset} {σ : Type}

/-- Gives an answer to the holder of a ticket, if there is one. -/
def reply (served : Served p σ) (ticket : Option Ticket) (answer : Answer p) : Served p σ :=
  match ticket with
  | none => served
  | some ⟨number, true⟩ => { served with answers := served.answers ++ [(number, answer)] }
  | some ⟨_, false⟩ =>
      { served with lines := served.lines ++ served.intake.log [.replyLost] }

end Served

namespace Message

variable {p : Preset} {σ : Type} [BlockStore σ]

/-- Handles one message. -/
def handle (rules : ChainRules p) (intake : Intake p) (store : σ) : Message p → Served p σ
  | slot s =>
      let (intake, lines) := intake.tick s
      { intake, store, lines }
  | attestation received ticket =>
      let (result, intake, store, lines) := intake.submit store received
      let refused := match result with
        | .error e => intake.log [.refused e]
        | .ok _ => []
      Served.reply { intake, store, lines := lines ++ refused } ticket (.submitted result)
  | blockImported block =>
      let (_, intake, lines) := intake.importBlock rules block
      { intake, store, lines }
  | offChain state ticket =>
      let (result, intake) := intake.offChain? rules state
      Served.reply { intake, store } (some ticket) (.attestations result)
  | stop => { intake, store, stopped := true }

/-- Handles messages until there are no more or one says stop. -/
def handleAll (rules : ChainRules p) (intake : Intake p) (store : σ) :
    List (Message p) → Served p σ
  | [] => { intake, store }
  | message :: rest =>
      let first := message.handle rules intake store
      if first.stopped then first
      else
        let others := handleAll rules first.intake first.store rest
        { others with
          answers := first.answers ++ others.answers
          lines := first.lines ++ others.lines }

end Message

end AttestationIntake
