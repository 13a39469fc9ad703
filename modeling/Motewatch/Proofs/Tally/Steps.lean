import Motewatch.Proofs.Tally.Record

/-!
# Steps of a tally

A tally may be given events and asked to sum up in any order, also after it has refused something.
What it can respond is said here once. It does what it is asked before it is sealed, or it refuses;
and when it refuses, it does so before it has changed anything or asked for anything.

## Main definitions

* `Operation`, `Rules.respond` — what a tally can be asked to do, and what that comes to.
* `Rules.perform` — what an operation leads to if it succeeds.
* `Rules.proceed`, `Rules.proceedAll` — the tally after one operation, and after operations.
* `Rules.signalsOn`, `Rules.reportOn?` — what an operation brings to light.
* `Rules.advance`, `Rules.advanceAll` — the tally after one event, and after events.
* `Rules.taken` — the events among others that are taken in.
* `Rules.sumUp` — what comes of a whole run.

## Main results

* `Rules.responds_respond` — what a tally can respond.
* `Rules.respond_of_error` — an operation that is refused changes nothing.
* `Rules.perform_eq_ok` — what an operation can lead to.
* `Rules.exists_sumUp` — every run that has not ended yet is summed up in the end.
-/

namespace Motewatch

/-- What a tally can be asked to do. -/
inductive Operation
  | record (e : Event)
  | finish (now : Instant)
  | finishEarly (now : Instant)

/-- Why a sealed tally refuses an operation. -/
def Operation.refusal : Operation → Fault
  | record _ => .runOver
  | finish _ => .alreadySealed
  | finishEarly _ => .alreadySealed

namespace Rules
variable {rules : Rules} {t : Tally} {o : Operation} {e : Event} {r : Recorded}

/-! ## One operation -/

/-- What an operation comes to. -/
def respond (rules : Rules) (t : Tally) : Operation → Response (Option Report)
  | .record e => rules.handle t e
  | .finish now => (t.finalize now).map some
  | .finishEarly now => (t.finalizeEarly now).map some

/-- What an operation leads to if it succeeds. -/
def perform (rules : Rules) (t : Tally) (o : Operation) : Except Fault Recorded :=
  (rules.respond t o).onSuccess Recorded.mk

/-- The tally after an operation, be it refused or not. -/
def proceed (rules : Rules) (t : Tally) (o : Operation) : Tally := (rules.respond t o).tally

/-- The signals that an operation sends, be it refused or not. -/
def signalsOn (rules : Rules) (t : Tally) (o : Operation) : List Signal :=
  (rules.respond t o).signals

/-- The report that an operation leads to, if it does. -/
def reportOn? (rules : Rules) (t : Tally) (o : Operation) : Option Report :=
  match (rules.respond t o).result with
  | .ok report? => report?
  | .error _ => none

/-- What a tally can respond. -/
inductive Responds (rules : Rules) (t : Tally) : Operation → Response (Option Report) → Prop
  | late (o : Operation) (h : t.isSealed = true) : Responds rules t o ⟨t, [], .error o.refusal⟩
  /-- There is a node that has not completed. -/
  | incomplete (now : Instant) (h : t.isSealed = false) (hall : t.completed.length ≠ t.total) :
      Responds rules t (.finish now)
        ⟨t, [], .error (.incomplete t.completed.length t.total)⟩
  | recorded (e : Event) (h : t.isSealed = false) :
      Responds rules t (.record e)
        (t.tick.take rules.speedChange e (rules.kindFor t e)).response
  | finished (now : Instant) (h : t.isSealed = false) (hall : t.completed.length = t.total) :
      Responds rules t (.finish now) (Recorded.response ⟨t.close, [], some (t.report now false)⟩)
  | finishedEarly (now : Instant) (h : t.isSealed = false) :
      Responds rules t (.finishEarly now)
        (Recorded.response ⟨t.close, [], some (t.report now true)⟩)

/-- A sealed tally refuses everything. -/
theorem respond_of_sealed (rules : Rules) (h : t.isSealed = true) (o : Operation) :
    rules.respond t o = ⟨t, [], .error o.refusal⟩ := by
  cases o with
  | record e => exact handle_of_sealed rules e h
  | finish now =>
      rw [respond, Tally.finalize, if_pos h]
      rfl
  | finishEarly now =>
      rw [respond, Tally.finalizeEarly, if_pos h]
      rfl

/-- **What a tally can respond.** -/
theorem responds_respond (rules : Rules) (t : Tally) (o : Operation) :
    rules.Responds t o (rules.respond t o) := by
  cases hs : t.isSealed with
  | true =>
    rw [respond_of_sealed rules hs]
    exact .late o hs
  | false =>
    have hopen : ¬t.isSealed = true := by simp [hs]
    cases o with
    | record e =>
        rw [respond, handle_of_open rules e hs]
        exact .recorded e hs
    | finish now =>
        rw [respond, Tally.finalize, if_neg hopen, Tally.allCompleted]
        by_cases hall : t.completed.length = t.total
        · simp only [hall, beq_self_eq_true, Bool.not_true, Bool.false_eq_true, if_false]
          exact .finished now hs hall
        · simp only [beq_eq_false_iff_ne.2 hall, Bool.not_false, if_true]
          exact .incomplete now hs hall
    | finishEarly now =>
        rw [respond, Tally.finalizeEarly, if_neg hopen]
        exact .finishedEarly now hs

/-- **An operation that is refused changes nothing and asks for nothing.** -/
theorem respond_of_error {fault : Fault} (h : (rules.respond t o).result = .error fault) :
    rules.respond t o = ⟨t, [], .error fault⟩ := by
  have hresponds := responds_respond rules t o
  generalize rules.respond t o = response at h hresponds
  cases hresponds with
  | late => rw [← h]
  | incomplete => rw [← h]
  | recorded => contradiction
  | finished => contradiction
  | finishedEarly => contradiction

theorem perform_eq_error_iff {fault : Fault} :
    rules.perform t o = .error fault ↔ (rules.respond t o).result = .error fault := by
  rw [perform, Response.onSuccess]
  cases (rules.respond t o).result <;> simp [Except.map]

/-- What is refused changes nothing, asks for nothing and leads to no report. -/
theorem of_refused {fault : Fault} (h : rules.perform t o = .error fault) :
    rules.proceed t o = t ∧ rules.signalsOn t o = [] ∧ rules.reportOn? t o = none := by
  have hresponse := respond_of_error (perform_eq_error_iff.1 h)
  refine ⟨?_, ?_, ?_⟩
  · rw [proceed, hresponse]
  · rw [signalsOn, hresponse]
  · rw [reportOn?, hresponse]

/-- A sealed tally refuses everything. -/
theorem perform_of_sealed (rules : Rules) (h : t.isSealed = true) (o : Operation) :
    rules.perform t o = .error o.refusal := by
  rw [perform_eq_error_iff, respond_of_sealed rules h]

/-- What an operation leads to if it succeeds is all that it comes to. -/
theorem respond_of_ok (h : rules.perform t o = .ok r) : rules.respond t o = r.response := by
  rw [perform, Response.onSuccess] at h
  generalize rules.respond t o = response at h
  obtain ⟨tally, signals, fault | report?⟩ := response
  · contradiction
  · obtain rfl := Except.ok.inj h
    rfl

theorem proceed_of_ok (h : rules.perform t o = .ok r) : rules.proceed t o = r.tally := by
  rw [proceed, respond_of_ok h]
  rfl

theorem reportOn?_of_ok (h : rules.perform t o = .ok r) : rules.reportOn? t o = r.report := by
  rw [reportOn?, respond_of_ok h]
  rfl

theorem perform_record (rules : Rules) (t : Tally) (e : Event) :
    rules.perform t (.record e) = rules.record t e := rfl

/-- An event that is refused changes nothing and asks for nothing. -/
theorem handle_of_error {fault : Fault} (h : rules.record t e = .error fault) :
    rules.handle t e = ⟨t, [], .error fault⟩ :=
  respond_of_error (perform_eq_error_iff.1 ((perform_record rules t e).trans h))

theorem handle_of_ok (h : rules.record t e = .ok r) : rules.handle t e = r.response :=
  respond_of_ok ((perform_record rules t e).trans h)

/-- A run that is summed up as complete leads to its report and to nothing else. -/
theorem perform_finish (rules : Rules) (t : Tally) (now : Instant) :
    rules.perform t (.finish now) =
      (t.finish now).map fun ended => ⟨ended.1, [], some ended.2⟩ := by
  rw [perform, respond, Tally.finish, Tally.finalize]
  (repeat' split) <;> rfl

/-- Whatever is missing, an open tally can be summed up early. -/
theorem perform_finishEarly (rules : Rules) (h : t.isSealed = false) (now : Instant) :
    rules.perform t (.finishEarly now) = .ok ⟨t.close, [], some (t.report now true)⟩ := by
  simp [perform, respond, Tally.finalizeEarly, h, Response.map, Response.onSuccess, Except.map]

/-- **What an operation can lead to.** Only an open tally does what it is asked. -/
theorem perform_eq_ok (h : rules.perform t o = .ok r) :
    t.isSealed = false ∧
      ((∃ e, o = .record e ∧ r = t.tick.take rules.speedChange e (rules.kindFor t e)) ∨
        (∃ now, o = .finish now ∧ t.completed.length = t.total ∧
          r = ⟨t.close, [], some (t.report now false)⟩) ∨
        (∃ now, o = .finishEarly now ∧ r = ⟨t.close, [], some (t.report now true)⟩)) := by
  have hresponds := responds_respond rules t o
  have hinj : ∀ r' : Recorded, r'.response = r.response → r = r' := by
    intro r' heq
    cases r
    cases r'
    cases heq
    rfl
  rw [respond_of_ok h] at hresponds
  generalize hresponse : r.response = response at hresponds
  cases hresponds with
  | late => simp [Recorded.response] at hresponse
  | incomplete => simp [Recorded.response] at hresponse
  | recorded e hs => exact ⟨hs, .inl ⟨e, rfl, hinj _ hresponse.symm⟩⟩
  | finished now hs hall => exact ⟨hs, .inr (.inl ⟨now, rfl, hall, hinj _ hresponse.symm⟩)⟩
  | finishedEarly now hs => exact ⟨hs, .inr (.inr ⟨now, rfl, hinj _ hresponse.symm⟩)⟩

/-! ## Operations one after the other -/

/-- The tally after operations. -/
def proceedAll (rules : Rules) (t : Tally) (operations : List Operation) : Tally :=
  operations.foldl rules.proceed t

@[simp] theorem proceedAll_nil (rules : Rules) (t : Tally) : rules.proceedAll t [] = t := rfl

theorem proceedAll_append (rules : Rules) (t : Tally) (operations more : List Operation) :
    rules.proceedAll t (operations ++ more) =
      rules.proceedAll (rules.proceedAll t operations) more := by
  simp [proceedAll]

theorem proceedAll_snoc (rules : Rules) (t : Tally) (operations : List Operation)
    (o : Operation) :
    rules.proceedAll t (operations ++ [o]) = rules.proceed (rules.proceedAll t operations) o := by
  simp [proceedAll]

/-! ## Events one after the other -/

/-- The tally after an event, be it refused or not. -/
def advance (rules : Rules) (t : Tally) (e : Event) : Tally := rules.proceed t (.record e)

/-- The tally after events. -/
def advanceAll (rules : Rules) (t : Tally) (events : List Event) : Tally :=
  rules.proceedAll t (events.map .record)

@[simp] theorem advanceAll_nil (rules : Rules) (t : Tally) : rules.advanceAll t [] = t := rfl

@[simp] theorem advanceAll_cons (rules : Rules) (t : Tally) (e : Event) (rest : List Event) :
    rules.advanceAll t (e :: rest) = rules.advanceAll (rules.advance t e) rest := rfl

theorem advanceAll_append (rules : Rules) (t : Tally) (events more : List Event) :
    rules.advanceAll t (events ++ more) = rules.advanceAll (rules.advanceAll t events) more := by
  simp only [advanceAll, List.map_append, proceedAll_append]

theorem advance_of_sealed (rules : Rules) (e : Event) (h : t.isSealed = true) :
    rules.advance t e = t :=
  (of_refused (perform_of_sealed rules h (.record e))).1

theorem advance_of_record (h : rules.record t e = .ok r) : rules.advance t e = r.tally :=
  proceed_of_ok ((perform_record rules t e).trans h)

/-- The events that are taken in when events come one after the other. -/
def taken (rules : Rules) (t : Tally) : List Event → List Event
  | [] => []
  | e :: rest => if t.isSealed then [] else e :: rules.taken (rules.advance t e) rest

theorem taken_of_sealed (rules : Rules) (h : t.isSealed = true) (events : List Event) :
    rules.taken t events = [] := by
  cases events with
  | nil => rfl
  | cons e rest => rw [taken, if_pos h]

/-- As long as it is open, a tally takes in at least the next event. -/
theorem taken_eq_nil_iff (h : t.isSealed = false) (events : List Event) :
    rules.taken t events = [] ↔ events = [] := by
  cases events <;> simp [taken, h]

theorem taken_cons (hr : rules.record t e = .ok r) (rest : List Event) :
    rules.taken t (e :: rest) = e :: rules.taken r.tally rest := by
  have hopen : ¬t.isSealed = true := by simp [record_isOpen hr]
  rw [taken, if_neg hopen, advance_of_record hr]

/-! ## Whole runs -/

/-- What comes of events that are taken in one after the other, up to the one that ends the run. If
none of them does, the run is summed up as it is at the end of its time. -/
def sumUp (rules : Rules) (limit : Instant) (t : Tally) : List Event → Except Fault Recorded
  | [] =>
    match t.finishEarly limit with
    | .error fault => .error fault
    | .ok (t, report) => .ok ⟨t, [], some report⟩
  | e :: rest =>
    match rules.record t e with
    | .error fault => .error fault
    | .ok r =>
      if r.report.isSome then .ok r
      else
        match rules.sumUp limit r.tally rest with
        | .error fault => .error fault
        | .ok last => .ok { last with signals := r.signals ++ last.signals }

theorem sumUp_nil (rules : Rules) (limit : Instant) (h : t.isSealed = false) :
    rules.sumUp limit t [] = .ok ⟨t.close, [], some (t.report limit true)⟩ := by
  simp [sumUp, Tally.finishEarly, Tally.finalizeEarly, Response.onSuccess, Except.map, h]

theorem sumUp_of_some {limit : Instant} {rest : List Event} (hr : rules.record t e = .ok r)
    (hsome : r.report.isSome = true) : rules.sumUp limit t (e :: rest) = .ok r := by
  simp [sumUp, hr, hsome]

theorem sumUp_of_none {limit : Instant} {rest : List Event} {last : Recorded}
    (hr : rules.record t e = .ok r) (hnone : r.report = none)
    (hlast : rules.sumUp limit r.tally rest = .ok last) :
    rules.sumUp limit t (e :: rest) = .ok { last with signals := r.signals ++ last.signals } := by
  simp [sumUp, hr, hnone, hlast]

/-- Every run that has not ended yet is summed up in the end. -/
theorem exists_sumUp (rules : Rules) (limit : Instant) (events : List Event)
    (h : t.isSealed = false) :
    ∃ r, rules.sumUp limit t events = .ok r ∧ r.report.isSome = true := by
  induction events generalizing t with
  | nil => exact ⟨_, sumUp_nil rules limit h, rfl⟩
  | cons e rest ih =>
      have hr := record_of_open rules e h
      have hsealed := isSealed_record hr
      cases hreport : (t.tick.take rules.speedChange e (rules.kindFor t e)).report with
      | some report =>
        have hsome := congrArg Option.isSome hreport
        exact ⟨_, sumUp_of_some hr hsome, hsome⟩
      | none =>
        rw [hreport] at hsealed
        obtain ⟨last, hlast, hsome⟩ := ih hsealed
        exact ⟨_, sumUp_of_none hr hreport hlast, hsome⟩

end Rules

end Motewatch
