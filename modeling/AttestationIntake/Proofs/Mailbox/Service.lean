import AttestationIntake.Mailbox.Basic
import AttestationIntake.Proofs.Mailbox.Direct

/-!
A service carries out the calls that are sent to it as if they had been made directly, in the order
in which they were sent, up to the first that says stop. When it gets its turns makes no difference,
and neither does who listens for answers. The store may be any, also one to which blocks come while
calls wait: that is a store that answers differently the next time it is asked.
-/

namespace AttestationIntake

variable {p : Preset} {σ : Type}

namespace Call

/-- The message that is sent for a call. Only requests come with a ticket. -/
def message (call : Call p) (ticket : Ticket) : Message p :=
  match call with
  | slot s => .slot s
  | notify received => .attestation received none
  | submit received => .attestation received (some ticket)
  | blockImported block => .blockImported block
  | offChain state => .offChain state ticket
  | stop => .stop

/-- The messages for some calls. Their requests are numbered from `first` on, and `heard` tells for
which numbers somebody listens. -/
def messages (heard : Nat → Bool) : Nat → List (Call p) → List (Message p)
  | _, [] => []
  | first, call :: rest =>
      call.message ⟨first, heard first⟩ :: messages heard (first + requests [call]) rest

end Call

/-- The answers that somebody listens for, with their numbers from `first` on. -/
def Answer.numbered (heard : Nat → Bool) : Nat → List (Answer p) → List (Nat × Answer p)
  | _, [] => []
  | first, answer :: rest =>
      if heard first then (first, answer) :: numbered heard (first + 1) rest
      else numbered heard (first + 1) rest

/-- What was answered under a number. -/
def Answer.under (number : Nat) (answers : List (Nat × Answer p)) : List (Answer p) :=
  (answers.filter (·.1 == number)).map (·.2)

open Call Answer

/-- What happens around a mailbox: somebody makes a call, or the service gets its turn. -/
inductive MailboxEvent (p : Preset) where
  | call (call : Call p)
  | turn

def MailboxEvent.call? : MailboxEvent p → Option (Call p)
  | call c => some c
  | turn => none

/-- Sends the message of a call. A request takes the next number, whether or not somebody listens
under it. -/
def Mailbox.place (heard : Nat → Bool) (mailbox : Mailbox p) (call : Call p) :
    Mailbox p × List LogLine :=
  { mailbox with nextTicket := mailbox.nextTicket + requests [call] }.send
    (call.message ⟨mailbox.nextTicket, heard mailbox.nextTicket⟩)

/-- A mailbox, the store that its service asks, and the answers that were given so far. -/
structure Course (p : Preset) (σ : Type) where
  mailbox : Mailbox p
  store : σ
  answers : List (Nat × Answer p) := []

namespace Course

variable [BlockStore σ]

/-- The service gets its turn. -/
def turn (rules : ChainRules p) (course : Course p σ) : Course p σ :=
  let (mailbox, store, answers, _) := course.mailbox.drain rules course.store
  { mailbox, store, answers := course.answers ++ answers }

def step (rules : ChainRules p) (heard : Nat → Bool) (course : Course p σ) :
    MailboxEvent p → Course p σ
  | .call call => { course with mailbox := (course.mailbox.place heard call).1 }
  | .turn => course.turn rules

def run (rules : ChainRules p) (heard : Nat → Bool) (course : Course p σ)
    (events : List (MailboxEvent p)) : Course p σ :=
  events.foldl (step rules heard) course

/-- The course of an intake that has handled some calls and keeps others waiting. What waits behind
a call that says stop is lost. -/
structure Follows (rules : ChainRules p) (heard : Nat → Bool) (intake : Intake p) (store : σ)
    (handled waiting : List (Call p)) (course : Course p σ) : Prop where
  intake_eq : course.mailbox.intake = (performAll rules intake store (beforeStop handled)).intake
  store_eq : course.store = (performAll rules intake store (beforeStop handled)).store
  answers_eq : course.answers =
    numbered heard 0 (performAll rules intake store (beforeStop handled)).answers
  status_eq : course.mailbox.status = if handled.any isStop then .ended else .running
  queue_eq : course.mailbox.queue =
    if handled.any isStop then [] else messages heard (requests handled) waiting
  nextTicket_eq : course.mailbox.nextTicket = requests (handled ++ waiting)
  hasSender : course.mailbox.hasSender = true

end Course

/-! ## Numbers -/

theorem Call.messages_append (heard : Nat → Bool) (first : Nat) (front back : List (Call p)) :
    messages heard first (front ++ back) =
      messages heard first front ++ messages heard (first + requests front) back := by
  induction front generalizing first with
  | nil => rfl
  | cons call front ih =>
    rw [List.cons_append, messages, ih, messages, List.cons_append, Nat.add_assoc,
      ← requests_append, List.singleton_append]

namespace Answer

theorem numbered_append (heard : Nat → Bool) (first : Nat) (front back : List (Answer p)) :
    numbered heard first (front ++ back) =
      numbered heard first front ++ numbered heard (first + front.length) back := by
  induction front generalizing first with
  | nil => rfl
  | cons answer front ih =>
    rw [List.cons_append, numbered, numbered, ih, List.length_cons, Nat.add_assoc,
      Nat.add_comm 1]
    split <;> rfl

/-- A number has at most one answer, which is the one in its place. -/
theorem under_numbered (heard : Nat → Bool) (first number : Nat) (answers : List (Answer p)) :
    under number (numbered heard first answers) =
      if heard number ∧ first ≤ number then answers[number - first]?.toList else [] := by
  induction answers generalizing first with
  | nil =>
    rw [List.getElem?_nil]
    exact (ite_self []).symm
  | cons answer rest ih =>
    have hcons : under number (numbered heard first (answer :: rest)) =
        (if heard first ∧ first = number then [answer] else []) ++
          under number (numbered heard (first + 1) rest) := by
      rw [numbered]
      by_cases hnumber : first = number
      · subst hnumber
        by_cases hheard : heard first <;> simp [under, hheard]
      · by_cases hheard : heard first <;> simp [under, hheard, hnumber]
    rw [hcons, ih]
    -- Answers are numbered upwards, so a number from before the first stands for none of them.
    rcases Nat.lt_trichotomy number first with hlt | rfl | hlt
    · rw [if_neg (by omega), if_neg (by omega), if_neg (by omega)]
      rfl
    · have hpast : ¬(heard number ∧ number + 1 ≤ number) := fun h => Nat.not_succ_le_self _ h.2
      rw [if_neg hpast, Nat.sub_self, List.append_nil]
      exact if_congr (and_congr_right fun _ => iff_of_true rfl le_rfl) rfl rfl
    · obtain ⟨skipped, rfl⟩ := Nat.exists_eq_add_of_lt hlt
      have hplace : first + skipped + 1 - first = skipped + 1 := by omega
      have hplace' : first + skipped + 1 - (first + 1) = skipped := by omega
      rw [if_neg (by omega), List.nil_append, hplace, hplace', List.getElem?_cons_succ]
      exact if_congr (and_congr_right fun _ => by omega) rfl rfl

end Answer

theorem Answer.under_numbered_past (heard : Nat → Bool) {number : Nat} {answers : List (Answer p)}
    (h : answers.length ≤ number) : under number (numbered heard 0 answers) = [] := by
  rw [under_numbered, Nat.sub_zero, List.getElem?_eq_none h]
  exact ite_self []

theorem Answer.under_append (number : Nat) (front back : List (Nat × Answer p)) :
    under number (front ++ back) = under number front ++ under number back := by
  rw [under, List.filter_append, List.map_append]
  rfl

/-! ## One turn -/

variable [BlockStore σ]

theorem Call.handle_message (rules : ChainRules p) (intake : Intake p) (store : σ)
    (call : Call p) (ticket : Ticket) :
    let served := (call.message ticket).handle rules intake store
    let direct := call.perform rules intake store
    served.intake = direct.intake ∧ served.store = direct.store ∧ served.stopped = call.isStop ∧
      served.answers = if ticket.listening then direct.answers.map (ticket.number, ·) else [] := by
  obtain ⟨number, _ | _⟩ := ticket <;> cases call <;> exact ⟨rfl, rfl, rfl, rfl⟩

theorem Answer.numbered_perform (rules : ChainRules p) (heard : Nat → Bool) (intake : Intake p)
    (store : σ) (first : Nat) (call : Call p) :
    numbered heard first (call.perform rules intake store).answers =
      if heard first then (call.perform rules intake store).answers.map (first, ·) else [] := by
  cases call with
  | submit | offChain => rfl
  | slot | notify | blockImported | stop => exact (ite_self []).symm

/-- Messages come to what the calls come to that they were sent for. -/
theorem Call.handleAll_messages (rules : ChainRules p) (heard : Nat → Bool) (intake : Intake p)
    (store : σ) (first : Nat) (calls : List (Call p)) :
    let served := Message.handleAll rules intake store (messages heard first calls)
    let direct := performAll rules intake store (beforeStop calls)
    served.intake = direct.intake ∧ served.store = direct.store ∧
      served.stopped = calls.any isStop ∧ served.answers = numbered heard first direct.answers := by
  induction calls generalizing intake store first with
  | nil => exact ⟨rfl, rfl, rfl, rfl⟩
  | cons call rest ih =>
    obtain ⟨hintake, hstore, hstopped, hanswers⟩ :=
      call.handle_message rules intake store ⟨first, heard first⟩
    cases hstop : call.isStop with
    -- Nothing behind a stop is looked at.
    | true =>
      cases call <;> cases hstop
      exact ⟨rfl, rfl, rfl, rfl⟩
    | false =>
      have hbefore : beforeStop (call :: rest) = call :: beforeStop rest :=
        List.takeWhile_cons_of_pos (by rw [hstop]; rfl)
      obtain ⟨hintake', hstore', hstopped', hanswers'⟩ := ih
        (call.perform rules intake store).intake (call.perform rules intake store).store
        (first + requests [call])
      rw [hstop] at hstopped
      rw [hbefore, performAll, messages, Message.handleAll, if_neg (ne_true_of_eq_false hstopped),
        hintake, hstore, hanswers, List.any_cons, hstop, Bool.false_or]
      refine ⟨hintake', hstore', hstopped', ?_⟩
      rw [numbered_append, numbered_perform, length_answers_perform]
      exact congrArg (_ ++ ·) hanswers'

theorem Call.perform_request {call : Call p} (h : call.isRequest = true) (rules : ChainRules p)
    (intake : Intake p) (store : σ) :
    ∃ answer, (call.perform rules intake store).answers = [answer] := by
  cases call with
  | submit r => exact ⟨_, rfl⟩
  | offChain state => exact ⟨_, rfl⟩
  | slot | notify | blockImported | stop => cases h

/-- The answer to a request is that of the direct call in its place. Behind a call that says stop
there is none. -/
theorem Call.under_requests (rules : ChainRules p) (heard : Nat → Bool) (intake : Intake p)
    (store : σ) (front back : List (Call p)) {call : Call p} (hrequest : call.isRequest = true) :
    let before := performAll rules intake store front
    under (requests front) (numbered heard 0
        (performAll rules intake store (beforeStop (front ++ call :: back))).answers) =
      if heard (requests front) ∧ front.any isStop = false then
        (call.perform rules before.intake before.store).answers
      else [] := by
  intro before
  cases hstop : front.any isStop with
  | true =>
    have hpast := length_answers_performAll rules intake store (beforeStop front) ▸
      requests_beforeStop_le front
    rw [beforeStop_of_some hstop, under_numbered_past heard hpast]
    simp
  | false =>
    obtain ⟨answer, hanswer⟩ := perform_request hrequest rules before.intake before.store
    have hcall : beforeStop (call :: back) = call :: beforeStop back := by
      refine List.takeWhile_cons_of_pos ?_
      cases call with
      | submit | offChain => rfl
      | slot | notify | blockImported | stop => cases hrequest
    have hlength : before.answers.length = requests front := length_answers_performAll ..
    rw [under_numbered, Nat.sub_zero, beforeStop_of_none hstop, hcall, performAll_append]
    simp only [performAll]
    rw [List.getElem?_append_right (Nat.le_of_eq hlength), hlength, Nat.sub_self, hanswer]
    exact if_congr (and_congr_right fun _ => iff_of_true (Nat.zero_le _) trivial) rfl rfl

/-! ## Turn by turn -/

namespace Course

variable {rules : ChainRules p} {heard : Nat → Bool} {intake : Intake p} {store : σ}
  {handled waiting : List (Call p)} {course : Course p σ}

theorem Follows.place (h : Follows rules heard intake store handled waiting course)
    (call : Call p) :
    Follows rules heard intake store handled (waiting ++ [call])
      { course with mailbox := (course.mailbox.place heard call).1 } := by
  have hnext : course.mailbox.nextTicket + requests [call] =
      requests (handled ++ (waiting ++ [call])) := by
    rw [h.nextTicket_eq, ← requests_append, List.append_assoc]
  have hstatus := h.status_eq
  have hqueue := h.queue_eq
  cases hstop : handled.any isStop with
  -- The service is gone, and so is the message.
  | true =>
    simp only [hstop, if_true] at hstatus hqueue
    have hplace : (course.mailbox.place heard call).1 =
        { course.mailbox with nextTicket := course.mailbox.nextTicket + requests [call] } := by
      simp only [Mailbox.place, Mailbox.send, hstatus]
    rw [hplace]
    exact ⟨h.intake_eq, h.store_eq, h.answers_eq, h.status_eq, by rw [hstop]; exact hqueue, hnext,
      h.hasSender⟩
  -- The message waits behind the others.
  | false =>
    simp only [hstop, Bool.false_eq_true, if_false] at hstatus hqueue
    have hplace : (course.mailbox.place heard call).1 =
        { course.mailbox with
          nextTicket := course.mailbox.nextTicket + requests [call]
          queue := messages heard (requests handled) (waiting ++ [call]) } := by
      rw [messages_append, ← requests_append, ← h.nextTicket_eq, ← hqueue]
      simp only [Mailbox.place, Mailbox.send, hstatus]
      rfl
    rw [hplace]
    exact ⟨h.intake_eq, h.store_eq, h.answers_eq, h.status_eq, by rw [hstop]; rfl, hnext,
      h.hasSender⟩

theorem turn_of_running (h : course.mailbox.status = .running) :
    course.turn rules =
      let served := Message.handleAll rules course.mailbox.intake course.store course.mailbox.queue
      { mailbox := { course.mailbox with
          intake := served.intake
          queue := []
          status := if served.stopped || !course.mailbox.hasSender then .ended else .running }
        store := served.store
        answers := course.answers ++ served.answers } := by
  simp only [Course.turn, Mailbox.drain, h]

theorem turn_of_ended (h : course.mailbox.status = .ended) : course.turn rules = course := by
  simp only [Course.turn, Mailbox.drain, h, List.append_nil]

theorem Follows.turn (h : Follows rules heard intake store handled waiting course) :
    Follows rules heard intake store (handled ++ waiting) [] (course.turn rules) := by
  have hstatus := h.status_eq
  have hqueue := h.queue_eq
  cases hstop : handled.any isStop with
  -- What came behind the stop changes nothing any more.
  | true =>
    simp only [hstop, if_true] at hstatus hqueue
    have hany : (handled ++ waiting).any isStop = true := by
      rw [List.any_append, hstop, Bool.true_or]
    rw [turn_of_ended hstatus]
    refine ⟨?_, ?_, ?_, ?_, ?_, ?_, h.hasSender⟩
    · rw [beforeStop_of_some hstop, h.intake_eq]
    · rw [beforeStop_of_some hstop, h.store_eq]
    · rw [beforeStop_of_some hstop, h.answers_eq]
    · rw [hany, hstatus, if_pos rfl]
    · rw [hany, hqueue, if_pos rfl]
    · rw [List.append_nil, h.nextTicket_eq]
  -- What waits is handled where the calls before it left intake and store.
  | false =>
    simp only [hstop, Bool.false_eq_true, if_false] at hstatus hqueue
    have hintake := h.intake_eq
    have hstore := h.store_eq
    have hanswers := h.answers_eq
    rw [beforeStop_eq_self hstop] at hintake hstore hanswers
    obtain ⟨hintake', hstore', hstopped, hanswers'⟩ := handleAll_messages rules heard
      (performAll rules intake store handled).intake (performAll rules intake store handled).store
      (requests handled) waiting
    have hany : (handled ++ waiting).any isStop = waiting.any isStop := by
      rw [List.any_append, hstop, Bool.false_or]
    have hdirect := performAll_append rules intake store handled (beforeStop waiting)
    rw [← beforeStop_of_none hstop] at hdirect
    rw [turn_of_running hstatus, hintake, hstore, hqueue]
    dsimp only
    rw [hstopped, h.hasSender, Bool.not_true, Bool.or_false]
    refine ⟨?_, ?_, ?_, ?_, ?_, ?_, rfl⟩
    · rw [hdirect, hintake']
    · rw [hdirect, hstore']
    · rw [hdirect, hanswers, hanswers', numbered_append, length_answers_performAll, Nat.zero_add]
    · rw [hany]
    · exact (ite_self []).symm
    · rw [List.append_nil, h.nextTicket_eq]

theorem Follows.run (h : Follows rules heard intake store handled waiting course)
    (events : List (MailboxEvent p)) :
    ∃ handled' waiting', Follows rules heard intake store handled' waiting'
        (run rules heard course events) ∧
      handled' ++ waiting' = handled ++ waiting ++ events.filterMap MailboxEvent.call? := by
  induction events generalizing handled waiting course with
  | nil => exact ⟨handled, waiting, h, (List.append_nil _).symm⟩
  | cons event rest ih =>
    cases event with
    | call c =>
      obtain ⟨handled', waiting', hrun, hcalls⟩ := ih (h.place c)
      refine ⟨handled', waiting', hrun, ?_⟩
      rw [hcalls, ← List.append_assoc, List.append_assoc]
      rfl
    | turn =>
      obtain ⟨handled', waiting', hrun, hcalls⟩ := ih h.turn
      refine ⟨handled', waiting', hrun, ?_⟩
      rw [hcalls, List.append_nil]
      rfl

/-- Where nobody can send any more a turn is the last one, and otherwise like any other. -/
theorem Follows.turn_dropSender (h : Follows rules heard intake store handled waiting course) :
    let last := Course.turn rules { course with mailbox := course.mailbox.dropSender }
    last.mailbox.intake = (course.turn rules).mailbox.intake ∧
      last.store = (course.turn rules).store ∧ last.answers = (course.turn rules).answers ∧
      last.mailbox.status = .ended := by
  intro last
  have hstatus := h.status_eq
  cases hstop : handled.any isStop with
  | true =>
    rw [hstop, if_pos rfl] at hstatus
    have hlast : last = { course with mailbox := course.mailbox.dropSender } :=
      turn_of_ended hstatus
    rw [hlast, turn_of_ended hstatus]
    exact ⟨rfl, rfl, rfl, hstatus⟩
  | false =>
    rw [hstop, if_neg Bool.false_ne_true] at hstatus
    have hlast : last = _ := turn_of_running hstatus
    rw [hlast, turn_of_running hstatus]
    refine ⟨rfl, rfl, rfl, ?_⟩
    show (if _ || !false then ServiceStatus.ended else _) = _
    rw [Bool.not_false, Bool.or_true, if_pos rfl]

/-- A request that is waited for is answered as if it had been made directly, or not at all if some
call before it said stop. -/
theorem Follows.request (h : Follows rules heard intake store handled waiting course)
    {call : Call p} (hrequest : call.isRequest = true)
    (hheard : heard (requests (handled ++ waiting)) = true) :
    let before := performAll rules intake store (handled ++ waiting)
    (course.mailbox.request rules course.store call.message).1 =
      if (handled ++ waiting).any isStop then none
      else (call.perform rules before.intake before.store).answers.head? := by
  intro before
  have hnumber : requests [call] = 1 := List.countP_singleton.trans (if_pos hrequest)
  -- A request is placed and then waits for a turn.
  let placed : Course p σ := { course with mailbox := (course.mailbox.place heard call).1 }
  have hplaced : (course.mailbox.request rules course.store call.message).1 =
      (under course.mailbox.nextTicket (placed.mailbox.drain rules placed.store).2.2.1).head? := by
    rw [under, List.head?_map, List.head?_filter]
    simp only [Mailbox.request, placed, Mailbox.place, hnumber, h.nextTicket_eq, hheard]
  -- The answers that were given before have smaller numbers.
  have hold : under course.mailbox.nextTicket course.answers = [] := by
    rw [h.answers_eq]
    refine under_numbered_past heard ?_
    rw [length_answers_performAll, h.nextTicket_eq, requests_append]
    exact (requests_beforeStop_le handled).trans (Nat.le_add_right _ _)
  have hanswers : course.answers ++ (placed.mailbox.drain rules placed.store).2.2.1 = _ :=
    (h.place call).turn.answers_eq
  have hunder := under_requests rules heard intake store (handled ++ waiting) [] hrequest
  rw [List.append_assoc, ← hanswers, ← h.nextTicket_eq, under_append, hold, List.nil_append,
    h.nextTicket_eq, hheard] at hunder
  rw [hplaced, h.nextTicket_eq, hunder]
  cases (handled ++ waiting).any isStop <;> rfl

/-- Whatever users call and whenever the service gets its turns: in the end intake and store are as
if the calls before the first stop had been made directly, in the order of their arrival. Each
request among these has its answer, if somebody listens, and no call behind a stop has an answer or
an effect. One who waits for an answer gets it or learns that there is none. Calls behind a refusal
go on as if it had not been made, except that the store was asked for its block. -/
theorem run_serves {σ : Type} [BlockStore σ] {p : Preset} (rules : ChainRules p)
    (intake : Intake p) (store : σ) (heard : Nat → Bool) (events : List (MailboxEvent p)) :
    let calls := events.filterMap MailboxEvent.call?
    let direct := performAll rules intake store (beforeStop calls)
    let course := run rules heard { mailbox := { intake }, store } events
    let served := course.turn rules
    let last := Course.turn rules { course with mailbox := course.mailbox.dropSender }
    (served.mailbox.intake = direct.intake ∧ served.store = direct.store ∧
        served.answers = numbered heard 0 direct.answers ∧ served.mailbox.queue = [] ∧
        served.mailbox.status = if calls.any isStop then .ended else .running) ∧
      (last.mailbox.intake = direct.intake ∧ last.store = direct.store ∧
        last.answers = served.answers ∧ last.mailbox.status = .ended) ∧
      (∀ front call back, calls = front ++ call :: back → call.isRequest = true →
        let before := performAll rules intake store front
        ∃ answer, (call.perform rules before.intake before.store).answers = [answer] ∧
          under (requests front) served.answers =
            if heard (requests front) ∧ front.any isStop = false then [answer] else []) ∧
      (∀ call : Call p, call.isRequest = true → heard (requests calls) = true →
        ∃ answer, (call.perform rules direct.intake direct.store).answers = [answer] ∧
          (course.mailbox.request rules course.store call.message).1 =
            if calls.any isStop then none else some answer) ∧
      ∀ front call back, beforeStop calls = front ++ call :: back →
        let before := performAll rules intake store front
        call.IsRefused before.intake before.store →
        let refused := call.perform rules before.intake before.store
        let others := performAll rules before.intake refused.store back
        refused.intake.untimed = before.intake.untimed ∧
          (∃ received, call.submission? = some received ∧
            refused.store = (BlockStore.lookup before.store received.root).2) ∧
          direct.untimed = { others with
            answers := before.answers ++ (refused.answers ++ others.answers) }.untimed := by
  intro calls direct course served last
  have hstart : Follows rules heard intake store [] [] { mailbox := { intake }, store } :=
    ⟨rfl, rfl, rfl, rfl, rfl, rfl, rfl⟩
  obtain ⟨handled, waiting, hcourse, hcalls⟩ := hstart.run events
  change handled ++ waiting = calls at hcalls
  have hserved := hcourse.turn
  have hlast := hcourse.turn_dropSender
  rw [hcalls] at hserved
  refine ⟨⟨hserved.intake_eq, hserved.store_eq, hserved.answers_eq, ?_, hserved.status_eq⟩,
    ⟨hlast.1.trans hserved.intake_eq, hlast.2.1.trans hserved.store_eq, hlast.2.2⟩, ?_, ?_, ?_⟩
  · exact hserved.queue_eq.trans (ite_self [])
  · intro front call back hsplit hrequest before
    obtain ⟨answer, hanswer⟩ := perform_request hrequest rules before.intake before.store
    refine ⟨answer, hanswer, ?_⟩
    rw [hserved.answers_eq, hsplit, ← hanswer]
    exact under_requests rules heard intake store front back hrequest
  · intro call hrequest hheard
    obtain ⟨answer, hanswer⟩ := perform_request hrequest rules direct.intake direct.store
    refine ⟨answer, hanswer, ?_⟩
    rw [← hcalls] at hheard
    have hanswered := hcourse.request hrequest hheard
    rw [hcalls] at hanswered
    refine hanswered.trans ?_
    cases hstop : calls.any isStop with
    | true => rfl
    | false =>
      rw [← beforeStop_eq_self hstop]
      exact congrArg List.head? hanswer
  · intro front call back hsplit before hrefused refused others
    obtain ⟨hintake, hstore⟩ := perform_refused hrefused rules
    refine ⟨hintake, hstore, ?_⟩
    obtain ⟨hintake', hstore', hanswers⟩ :=
      (Direct.untimed_eq_iff _ _).mp (performAll_refused hrefused rules back)
    show (performAll rules intake store (beforeStop calls)).untimed = _
    rw [hsplit, performAll_append, Direct.untimed_eq_iff]
    exact ⟨hintake', hstore', congrArg (before.answers ++ ·) hanswers⟩

end Course

end AttestationIntake
