import AttestationIntake.Mailbox.Message
import AttestationIntake.Proofs.Intake.Refusals

/-!
Calls that are made directly, one after the other, without a service in between. A submission that
is refused leaves no trace in what the calls after it do, except that the store was asked for its
block.
-/

namespace AttestationIntake

variable {p : Preset} {σ : Type}

/-- What is asked of an intake. -/
inductive Call (p : Preset) where
  | slot (slot : Slot)
  | notify (received : Received p)
  | submit (received : Received p)
  | blockImported (block : BeaconBlock p)
  | offChain (state : BeaconState p)
  | stop

/-- What came of calls: the intake and the store afterwards, and the answers to the requests among
the calls, in their order. -/
structure Direct (p : Preset) (σ : Type) where
  intake : Intake p
  store : σ
  answers : List (Answer p) := []

/-- All but how operations were timed. -/
def Direct.untimed (direct : Direct p σ) : Direct p σ :=
  { direct with intake := direct.intake.untimed }

theorem Direct.untimed_eq_iff (direct direct' : Direct p σ) :
    direct.untimed = direct'.untimed ↔ direct.intake.untimed = direct'.intake.untimed ∧
      direct.store = direct'.store ∧ direct.answers = direct'.answers :=
  Iff.of_eq (Direct.mk.injEq ..)

namespace Call

def isStop : Call p → Bool
  | stop => true
  | _ => false

/-- Whether a call asks for an answer. -/
def isRequest : Call p → Bool
  | submit _ | offChain _ => true
  | _ => false

def requests (calls : List (Call p)) : Nat := calls.countP isRequest

/-- The calls before the first that says stop. -/
def beforeStop (calls : List (Call p)) : List (Call p) := calls.takeWhile (!·.isStop)

def submission? : Call p → Option (Received p)
  | notify received | submit received => some received
  | _ => none

variable [BlockStore σ]

/-- Carries out one call on the intake itself. -/
def perform (rules : ChainRules p) (intake : Intake p) (store : σ) : Call p → Direct p σ
  | slot s => { intake := (intake.tick s).1, store }
  | notify received =>
      let (_, intake, store, _) := intake.submit store received
      { intake, store }
  | submit received =>
      let (result, intake, store, _) := intake.submit store received
      { intake, store, answers := [.submitted result] }
  | blockImported block => { intake := (intake.importBlock rules block).2.1, store }
  | offChain state =>
      let (result, intake) := intake.offChain? rules state
      { intake, store, answers := [.attestations result] }
  | stop => { intake, store }

def performAll (rules : ChainRules p) (intake : Intake p) (store : σ) :
    List (Call p) → Direct p σ
  | [] => { intake, store }
  | call :: rest =>
      let first := call.perform rules intake store
      let others := performAll rules first.intake first.store rest
      { others with answers := first.answers ++ others.answers }

/-- Whether a call submits an attestation that is refused. -/
def IsRefused (intake : Intake p) (store : σ) (call : Call p) : Prop :=
  ∃ received error, call.submission? = some received ∧
    (intake.submit store received).1 = .error error

/-! ## One after the other -/

theorem beforeStop_of_none {front : List (Call p)} (h : front.any isStop = false)
    (back : List (Call p)) : beforeStop (front ++ back) = front ++ beforeStop back := by
  refine List.takeWhile_append_of_pos fun call hcall => ?_
  rw [List.any_eq_false] at h
  rw [Bool.eq_false_iff.mpr (h call hcall)]
  rfl

theorem beforeStop_of_some {front : List (Call p)} (h : front.any isStop = true)
    (back : List (Call p)) : beforeStop (front ++ back) = beforeStop front := by
  induction front with
  | nil => cases h
  | cons call front ih =>
    cases hcall : call.isStop with
    | true => simp [beforeStop, hcall]
    | false =>
      rw [List.any_cons, hcall, Bool.false_or] at h
      simpa [beforeStop, hcall] using ih h

theorem beforeStop_eq_self {calls : List (Call p)} (h : calls.any isStop = false) :
    beforeStop calls = calls := by
  simpa [beforeStop] using beforeStop_of_none h []

theorem requests_append (front back : List (Call p)) :
    requests (front ++ back) = requests front + requests back :=
  List.countP_append

theorem requests_beforeStop_le (calls : List (Call p)) :
    requests (beforeStop calls) ≤ requests calls :=
  (List.takeWhile_sublist _).countP_le

theorem performAll_append (rules : ChainRules p) (intake : Intake p) (store : σ)
    (front back : List (Call p)) :
    performAll rules intake store (front ++ back) =
      let first := performAll rules intake store front
      let others := performAll rules first.intake first.store back
      { others with answers := first.answers ++ others.answers } := by
  induction front generalizing intake store with
  | nil => rfl
  | cons call front ih =>
    rw [List.cons_append, performAll, ih, performAll]
    simp only [List.append_assoc]

theorem length_answers_perform (rules : ChainRules p) (intake : Intake p) (store : σ)
    (call : Call p) :
    (call.perform rules intake store).answers.length = requests [call] := by
  cases call <;> rfl

theorem length_answers_performAll (rules : ChainRules p) (intake : Intake p) (store : σ)
    (calls : List (Call p)) :
    (performAll rules intake store calls).answers.length = requests calls := by
  induction calls generalizing intake store with
  | nil => rfl
  | cons call rest ih =>
    rw [performAll, List.length_append, length_answers_perform, ih, ← requests_append,
      List.singleton_append]

/-! ## Refusals -/

section

variable {intake intake' : Intake p}

/-- Timings are counted, but no call looks at them. -/
theorem perform_congr (h : intake.untimed = intake'.untimed) (rules : ChainRules p) (store : σ)
    (call : Call p) :
    (call.perform rules intake store).untimed = (call.perform rules intake' store).untimed := by
  rw [Direct.untimed_eq_iff]
  have hstep (event : IntakeEvent σ p) := Intake.step_congr h rules event
  cases call with
  | slot s => exact ⟨hstep (.tick s), rfl, rfl⟩
  | notify r =>
    have hreport := Intake.report_congr h rules (.submit store r)
    simp only [Intake.report, Report.mk.injEq, EventAnswer.submitted.injEq] at hreport
    exact ⟨hreport.2.2, hreport.1.2, rfl⟩
  | submit r =>
    have hreport := Intake.report_congr h rules (.submit store r)
    simp only [Intake.report, Report.mk.injEq, EventAnswer.submitted.injEq] at hreport
    refine ⟨hreport.2.2, hreport.1.2, ?_⟩
    exact congrArg (fun result => [Answer.submitted result]) hreport.1.1
  | blockImported block => exact ⟨hstep (.importBlock block), rfl, rfl⟩
  | offChain state =>
    -- The answer is read off the pool, which has no timings.
    have hpool : intake.untimed.pool = intake'.untimed.pool := by rw [h]
    change intake.pool = intake'.pool at hpool
    simp only [perform, Intake.offChain?, Intake.untimed_countTime, hpool, h, and_self]
  | stop => exact ⟨h, rfl, rfl⟩

theorem performAll_congr (h : intake.untimed = intake'.untimed) (rules : ChainRules p) (store : σ)
    (calls : List (Call p)) :
    (performAll rules intake store calls).untimed =
      (performAll rules intake' store calls).untimed := by
  induction calls generalizing intake intake' store with
  | nil => exact (Direct.untimed_eq_iff _ _).mpr ⟨h, rfl, rfl⟩
  | cons call rest ih =>
    obtain ⟨hintake, hstore, hanswers⟩ :=
      (Direct.untimed_eq_iff _ _).mp (perform_congr h rules store call)
    rw [performAll, performAll, hstore, hanswers]
    obtain ⟨hintake', hstore', hanswers'⟩ := (Direct.untimed_eq_iff _ _).mp (ih hintake _)
    exact (Direct.untimed_eq_iff _ _).mpr
      ⟨hintake', hstore', congrArg (_ ++ ·) hanswers'⟩

end

/-- A refusal changes nothing but the timing and what the store makes of being asked. -/
theorem perform_refused {intake : Intake p} {store : σ} {call : Call p}
    (h : call.IsRefused intake store) (rules : ChainRules p) :
    (call.perform rules intake store).intake.untimed = intake.untimed ∧
      ∃ received, call.submission? = some received ∧
        (call.perform rules intake store).store = (BlockStore.lookup store received.root).2 := by
  obtain ⟨r, error, hsubmission, herror⟩ := h
  obtain ⟨hinit, hunknown⟩ := (Intake.refused_iff intake store r).mp ⟨error, herror⟩
  have hsubmit := Intake.submit_refused hinit hunknown
  have hintake := intake.untimed_countTime "submit"
  cases call <;> cases hsubmission <;> rw [perform, hsubmit] <;> exact ⟨hintake, r, rfl, rfl⟩

/-- Calls behind a refusal go on as if it had not been made. -/
theorem performAll_refused {intake : Intake p} {store : σ} {call : Call p}
    (h : call.IsRefused intake store) (rules : ChainRules p) (rest : List (Call p)) :
    (performAll rules intake store (call :: rest)).untimed =
      let first := call.perform rules intake store
      let others := performAll rules intake first.store rest
      { others with answers := first.answers ++ others.answers }.untimed := by
  have hothers := performAll_congr (perform_refused h rules).1 rules
    (call.perform rules intake store).store rest
  obtain ⟨hintake, hstore, hanswers⟩ := (Direct.untimed_eq_iff _ _).mp hothers
  exact (Direct.untimed_eq_iff _ _).mpr ⟨hintake, hstore, congrArg (_ ++ ·) hanswers⟩

end Call

end AttestationIntake
