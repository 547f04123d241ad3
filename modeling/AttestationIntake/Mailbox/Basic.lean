import AttestationIntake.Mailbox.Message

/-!
The mailbox of a service. Sending puts a message at the end of the queue and never waits. The
service ends when it is told to stop, or when it has handled everything and nobody can send any
more. A message to a service that is gone is lost, and so is the answer to a request it did not come
to.
-/

namespace AttestationIntake

inductive ServiceStatus where
  | running
  /-- It came to its end. -/
  | ended
  /-- It was given up before it ran. -/
  | abandoned
deriving DecidableEq, Repr

structure Mailbox (p : Preset) where
  intake : Intake p
  status : ServiceStatus := .running
  queue : List (Message p) := []
  /-- Whether somebody can still send. -/
  hasSender : Bool := true
  nextTicket : Nat := 0

namespace Mailbox

variable {p : Preset} {σ : Type} [BlockStore σ]

/-- Puts a message into the queue of a service that is there. -/
def send (mailbox : Mailbox p) (message : Message p) : Mailbox p × List LogLine :=
  match mailbox.status with
  | .running => ({ mailbox with queue := mailbox.queue ++ [message] }, [])
  | _ => (mailbox, mailbox.intake.log [.messageLost])

/-- Nobody can send any more. -/
def dropSender (mailbox : Mailbox p) : Mailbox p := { mailbox with hasSender := false }

/-- Lets the service handle everything in the queue. -/
def drain (rules : ChainRules p) (mailbox : Mailbox p) (store : σ) :
    Mailbox p × σ × List (Nat × Answer p) × List LogLine :=
  match mailbox.status with
  | .running =>
      let served := Message.handleAll rules mailbox.intake store mailbox.queue
      let ends := served.stopped || !mailbox.hasSender
      let mailbox := { mailbox with
        intake := served.intake
        queue := []
        status := if ends then .ended else .running }
      (mailbox, served.store, served.answers,
        served.lines ++ if ends then served.intake.log [.stopped] else [])
  | _ => (mailbox, store, [], [])

/-- Sends a request that somebody listens for and waits for the answer. There is none if the service
is gone or ends before it comes to the request. -/
def request (rules : ChainRules p) (mailbox : Mailbox p) (store : σ)
    (message : Ticket → Message p) : Option (Answer p) × Mailbox p × σ × List LogLine :=
  let ticket : Ticket := { number := mailbox.nextTicket }
  let (sent, lost) := { mailbox with nextTicket := ticket.number + 1 }.send (message ticket)
  let (drained, store, answers, lines) := sent.drain rules store
  ((answers.find? (·.1 == ticket.number)).map (·.2), drained, store, lost ++ lines)

/-- Submits an attestation without listening for the answer. -/
def submitUnheard (mailbox : Mailbox p) (received : Received p) : Mailbox p × List LogLine :=
  let ticket : Ticket := { number := mailbox.nextTicket, listening := false }
  { mailbox with nextTicket := ticket.number + 1 }.send (.attestation received (some ticket))

end Mailbox

end AttestationIntake
