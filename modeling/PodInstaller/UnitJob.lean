/-
**Waiting for a job of the systemd manager.**

Starting, restarting or stopping a unit over D-Bus queues a job: the call returns the path of the
job, and a signal `JobRemoved` with that path and a result tells when it is done.  The signal may
come before the reply of the call, and other jobs come and go on the same connection.  So the
program subscribes before it calls, waits for the reply, writes down the path that it expects, and
only then lets the event loop run its handler on the signals, the queued ones first.

The signals, the reply, the handler and the timeout are events of one system; a run is any order in
which they can come.  What the handler has done is determined by the signals it has seen: the
promise holds the result of the first one with the expected path.

Main definitions:

* `PodInstaller.JobRemoved`, `PodInstaller.BusEvent`, `PodInstaller.JobWait` — signals, events and
  states;
* `PodInstaller.handleJobRemoved`, `PodInstaller.JobWait.step`, `PodInstaller.unitJobAndWait` — the
  handler, the system and its runs;
* `PodInstaller.firstResult` — the result of the first signal with a path;
* `PodInstaller.JobWait.Kept` — what holds all along a run.

Main results:

* `PodInstaller.kept_step`, `PodInstaller.kept_run` — the invariant;
* `PodInstaller.dispatch_all` — the handler comes to the end of the queue;
* `PodInstaller.unitJobAndWait_own_job` — **an operation is completed by its own job only**.
-/

import PodInstaller.Transitions
import PodInstaller.DerivedNames

set_option relaxedAutoImplicit false
set_option autoImplicit false

namespace PodInstaller

open Bytes

/-! ### Signals and events -/

/-- What the handler looks at of a `JobRemoved` signal. -/
structure JobRemoved where
  job : Bytes
  result : Bytes
  deriving DecidableEq

/-- An `sdbus::Error`. -/
structure SdbusError where
  name : Bytes
  message : Bytes

/-- The events: what comes from the bus, and the steps of the two threads. -/
inductive BusEvent
  /-- The connection is made and the handler is subscribed. -/
  | subscribed
  /-- sdbus-c++ throws. -/
  | thrown (error : SdbusError)
  /-- A signal is received. -/
  | signal (s : JobRemoved)
  /-- The call returns the path of its job. -/
  | reply (job : Bytes)
  /-- `*expected_job = std::string{job}`. -/
  | expect
  /-- `enterEventLoopAsync`. -/
  | enterLoop
  /-- The event loop runs the handler on the first signal of the queue. -/
  | dispatch
  /-- `wait_for` finds the future ready, and its value is taken. -/
  | ready
  /-- `wait_for` does not find it ready in time. -/
  | timeout
  /-- `leaveEventLoop`. -/
  | leaveLoop
  /-- The status of the unit is read. -/
  | status (result : Result UnitStatus)

/-- How far `unit_job_and_wait` has come. -/
inductive JobPhase
  | connecting
  | calling
  | replied (job : Bytes)
  | expecting (job : Bytes)
  | waiting (job : Bytes)
  | completed (job result : Bytes)
  | timedOut
  | reading (job : Bytes)
  | returned (result : Result UnitOperationResult)

/-- The state: where the program is, the signals that are received and not dispatched yet, the
variables that the handler shares with it, and the values that the promise was set to. -/
structure JobWait where
  phase : JobPhase
  queue : List JobRemoved := []
  expectedJob : Option Bytes := none
  loopRunning : Bool := false
  done : Bool := false
  promised : List Bytes := []

/-! ### The steps -/

/-- The handler of `JobRemoved`. -/
def handleJobRemoved (s : JobWait) (m : JobRemoved) : JobWait :=
  if s.done = true then s
  else if s.expectedJob ≠ some m.job then s
  else { s with done := true, promised := s.promised ++ [m.result] }

/-- The connection is there. -/
def JobPhase.connected : JobPhase → Bool
  | .connecting => false
  | .returned _ => false
  | _ => true

/-- The phases in which sdbus-c++ is called: the connection is made, the unit is started, the event
loop is entered or left. -/
def JobPhase.throws : JobPhase → Bool
  | .connecting => true
  | .calling => true
  | .expecting _ => true
  | .timedOut => true
  | .completed _ _ => true
  | _ => false

/-- The error of an operation. -/
def jobError (method rest : Bytes) : Error :=
  makeError .systemd (ofString "systemd D-Bus " ++ method ++ rest)

/-- What `unit_job_and_wait` returns once it has the status. -/
def operationResult (job : Bytes) : Result UnitStatus → Result UnitOperationResult
  | .ok status => .ok { jobPath := some job, finalStatus := status }
  | .error e => .error e

/-- The system: `unit_job_and_wait`, its handler and the bus. -/
def JobWait.step (method : Bytes) (s : JobWait) (e : BusEvent) : Option JobWait :=
  match e, s.phase with
  | .subscribed, .connecting => some { s with phase := .calling }
  -- every exception of sdbus-c++ ends in one handler
  | .thrown error, phase =>
    if phase.throws then
      some { s with
        phase := .returned (.error (jobError method
          (ofString " failed: " ++ error.name ++ ofString ": " ++ error.message)))
        loopRunning := false }
    else none
  -- signals queue up until the event loop runs the handler
  | .signal m, phase => if phase.connected then some { s with queue := s.queue ++ [m] } else none
  | .reply job, .calling => some { s with phase := .replied job }
  | .expect, .replied job => some { s with phase := .expecting job, expectedJob := some job }
  | .enterLoop, .expecting job => some { s with phase := .waiting job, loopRunning := true }
  | .dispatch, _ =>
    match s.loopRunning, s.queue with
    | true, m :: queue => some (handleJobRemoved { s with queue := queue } m)
    | _, _ => none
  | .ready, .waiting job =>
    match s.promised with
    | result :: _ => some { s with phase := .completed job result }
    | [] => none
  | .timeout, .waiting _ => if s.promised = [] then some { s with phase := .timedOut } else none
  | .leaveLoop, .timedOut =>
    some { s with
      phase := .returned (.error (jobError method " timed out waiting for JobRemoved"))
      loopRunning := false }
  -- the result is looked at once the loop is left
  | .leaveLoop, .completed job result =>
    if result ≠ "done" then
      some { s with
        phase := .returned (.error (jobError method
          (ofString " job finished with result " ++ result)))
        loopRunning := false }
    else some { s with phase := .reading job, loopRunning := false }
  | .status result, .reading job => some { s with phase := .returned (operationResult job result) }
  | _, _ => none

/-- Where `unit_job_and_wait` starts: a unit name that is not accepted is rejected before the
connection is made. -/
def JobWait.start (unit : Bytes) : JobWait :=
  match validateSystemdUnitName unit with
  | .error e => { phase := .returned (.error e) }
  | .ok () => { phase := .connecting }

/-- The runs of `unit_job_and_wait`. -/
def unitJobAndWait (method unit : Bytes) (events : List BusEvent) : Option JobWait :=
  Transitions.run (JobWait.step method) (JobWait.start unit) events

/-! ### The signals of a run -/

/-- The signals that are received, in their order. -/
def signalsOf (events : List BusEvent) : List JobRemoved :=
  events.filterMap fun
    | .signal m => some m
    | _ => none

/-- The result of the first signal with a path. -/
def firstResult (job : Bytes) (signals : List JobRemoved) : Option Bytes :=
  (signals.find? (·.job = job)).map (·.result)

theorem firstResult_append (job : Bytes) (l₁ l₂ : List JobRemoved) :
    firstResult job (l₁ ++ l₂) = (firstResult job l₁).or (firstResult job l₂) := by
  rw [firstResult, List.find?_append]
  cases h : l₁.find? (·.job = job) with
  | none => simp [firstResult, h]
  | some m => simp [firstResult, h]

@[simp] theorem firstResult_nil (job : Bytes) : firstResult job [] = none := rfl

/-- The event loop has not been started. -/
def JobPhase.beforeLoop : JobPhase → Bool
  | .connecting => true
  | .calling => true
  | .replied _ => true
  | .expecting _ => true
  | _ => false

/-- The paths that the call returns. -/
def repliesOf (events : List BusEvent) : List Bytes :=
  events.filterMap fun
    | .reply job => some job
    | _ => none

/-- The path that is expected in a phase. -/
def JobPhase.expects : JobPhase → Option Bytes
  | .expecting job => some job
  | .waiting job => some job
  | .completed job _ => some job
  | .reading job => some job
  | _ => none

/-- What a step can do. -/
inductive JobWait.Steps (method : Bytes) (s : JobWait) : BusEvent → JobWait → Prop
  | subscribed (h : s.phase = .connecting) : Steps method s .subscribed { s with phase := .calling }
  | thrown (error : SdbusError) (h : s.phase.throws = true) (e : Error) :
      Steps method s (.thrown error)
        { s with phase := .returned (.error e), loopRunning := false }
  | signal (m : JobRemoved) : Steps method s (.signal m) { s with queue := s.queue ++ [m] }
  | reply (job : Bytes) (h : s.phase = .calling) :
      Steps method s (.reply job) { s with phase := .replied job }
  | expect (job : Bytes) (h : s.phase = .replied job) :
      Steps method s .expect { s with phase := .expecting job, expectedJob := some job }
  | enterLoop (job : Bytes) (h : s.phase = .expecting job) :
      Steps method s .enterLoop { s with phase := .waiting job, loopRunning := true }
  | dispatch (m : JobRemoved) (queue : List JobRemoved) (hloop : s.loopRunning = true)
      (hqueue : s.queue = m :: queue) :
      Steps method s .dispatch (handleJobRemoved { s with queue := queue } m)
  | ready (job result : Bytes) (rest : List Bytes) (h : s.phase = .waiting job)
      (hpromised : s.promised = result :: rest) :
      Steps method s .ready { s with phase := .completed job result }
  | timeout (job : Bytes) (h : s.phase = .waiting job) (hpromised : s.promised = []) :
      Steps method s .timeout { s with phase := .timedOut }
  | leaveTimedOut (h : s.phase = .timedOut) (e : Error) :
      Steps method s .leaveLoop { s with phase := .returned (.error e), loopRunning := false }
  | leaveFailed (job result : Bytes) (h : s.phase = .completed job result) (e : Error) :
      Steps method s .leaveLoop { s with phase := .returned (.error e), loopRunning := false }
  | leaveDone (job : Bytes) (h : s.phase = .completed job "done") :
      Steps method s .leaveLoop { s with phase := .reading job, loopRunning := false }
  | status (job : Bytes) (h : s.phase = .reading job) (result : Result UnitStatus) :
      Steps method s (.status result) { s with phase := .returned (operationResult job result) }

theorem JobWait.steps_of_step {method : Bytes} {s s' : JobWait} {e : BusEvent}
    (h : s.step method e = some s') : s.Steps method e s' := by
  unfold step at h
  split at h
  · rename_i hphase
    obtain rfl := Option.some.inj h
    exact .subscribed hphase
  · split at h
    · rename_i hthrows
      obtain rfl := Option.some.inj h
      exact .thrown _ hthrows _
    · cases h
  · split at h
    · obtain rfl := Option.some.inj h
      exact .signal _
    · cases h
  · rename_i job hphase
    obtain rfl := Option.some.inj h
    exact .reply job hphase
  · rename_i job hphase
    obtain rfl := Option.some.inj h
    exact .expect job hphase
  · rename_i job hphase
    obtain rfl := Option.some.inj h
    exact .enterLoop job hphase
  · split at h
    · rename_i m queue hloop hqueue
      obtain rfl := Option.some.inj h
      exact .dispatch m queue hloop hqueue
    · cases h
  · rename_i job hphase
    split at h
    · rename_i result rest hpromised
      obtain rfl := Option.some.inj h
      exact .ready job result rest hphase hpromised
    · cases h
  · rename_i job hphase
    split at h
    · rename_i hpromised
      obtain rfl := Option.some.inj h
      exact .timeout job hphase hpromised
    · cases h
  · rename_i hphase
    obtain rfl := Option.some.inj h
    exact .leaveTimedOut hphase _
  · rename_i job result hphase
    split at h
    · obtain rfl := Option.some.inj h
      exact .leaveFailed job result hphase _
    · rename_i hdone
      obtain rfl : result = "done" := not_not.1 hdone
      obtain rfl := Option.some.inj h
      exact .leaveDone job hphase
  · rename_i result job hphase
    obtain rfl := Option.some.inj h
    exact .status job hphase result
  · cases h

/-! ### What holds all along a run -/

/-- What holds after the events of a run, when the handler has run on the signals `handled`. -/
structure JobWait.Kept (events : List BusEvent) (handled : List JobRemoved) (s : JobWait) :
    Prop where
  signals : signalsOf events = handled ++ s.queue
  before : s.phase.beforeLoop = true → handled = [] ∧ s.loopRunning = false
  running : ∀ job, s.phase = .waiting job → s.loopRunning = true
  noReply : s.phase = .connecting ∨ s.phase = .calling → repliesOf events = []
  replied : ∀ job, s.phase = .replied job → repliesOf events = [job]
  expected : ∀ job, s.expectedJob = some job → repliesOf events = [job]
  expects : ∀ job, s.phase.expects = some job → s.expectedJob = some job
  promised : s.promised = (s.expectedJob.bind fun job => firstResult job handled).toList
  done : s.done = true ↔ s.promised ≠ []
  completed : ∀ job result, s.phase = .completed job result → s.promised = [result]
  reading : ∀ job, s.phase = .reading job → s.promised = ["done"]
  status : ∀ result, BusEvent.status result ∈ events →
    s.promised = ["done"] ∧ ∃ out, s.phase = .returned out
  returned : ∀ out, s.phase = .returned (.ok out) → s.promised = ["done"] ∧
    ∃ job, s.expectedJob = some job ∧ out.jobPath = some job ∧
      BusEvent.status (.ok out.finalStatus) ∈ events

section

variable {method unit : Bytes} {events : List BusEvent} {handled : List JobRemoved}
variable {s s' : JobWait} {e : BusEvent}

theorem signalsOf_append (events events' : List BusEvent) :
    signalsOf (events ++ events') = signalsOf events ++ signalsOf events' := List.filterMap_append

theorem repliesOf_append (events events' : List BusEvent) :
    repliesOf (events ++ events') = repliesOf events ++ repliesOf events' := List.filterMap_append

theorem signalsOf_dispatches (k : ℕ) : signalsOf (List.replicate k .dispatch) = [] :=
  List.filterMap_eq_nil_iff.2 fun e he => by rw [List.eq_of_mem_replicate he]

/-- The status is the last thing that is read. -/
theorem JobWait.Kept.noStatus (h : s.Kept events handled) (hold : ∀ out, s.phase ≠ .returned out)
    (he : ∀ result, e ≠ .status result) (result : Result UnitStatus) :
    BusEvent.status result ∉ events ++ [e] := by
  intro hmem
  rcases List.mem_append.1 hmem with hmem | hmem
  · obtain ⟨-, out, hout⟩ := h.status result hmem
    exact hold out hout
  · exact he result (List.mem_singleton.1 hmem).symm

/-- What is no signal leaves the signals as they are. -/
theorem JobWait.Kept.signals_snoc (h : s.Kept events handled) (he : signalsOf [e] = []) :
    signalsOf (events ++ [e]) = handled ++ s.queue := by
  rw [signalsOf_append, he, List.append_nil]
  exact h.signals

/-- A step of the program that shares nothing with the handler: it goes on to another phase. -/
theorem JobWait.Kept.move (h : s.Kept events handled) (hqueue : s'.queue = s.queue)
    (hexpected : s'.expectedJob = s.expectedJob) (hdone : s'.done = s.done)
    (hpromised : s'.promised = s.promised)
    (he : signalsOf [e] = [] ∧ repliesOf [e] = [] ∧ ∀ result, e ≠ .status result)
    (hold : ∀ out, s.phase ≠ .returned out)
    (hbefore : s'.phase.beforeLoop = true → handled = [] ∧ s'.loopRunning = false)
    (hrunning : ∀ job, s'.phase = .waiting job → s'.loopRunning = true)
    (hnoReply : s'.phase = .connecting ∨ s'.phase = .calling → repliesOf events = [])
    (hreplied : ∀ job, s'.phase ≠ .replied job)
    (hexpects : ∀ job, s'.phase.expects = some job → s.expectedJob = some job)
    (hcompleted : ∀ job result, s'.phase = .completed job result → s.promised = [result])
    (hreading : ∀ job, s'.phase = .reading job → s.promised = ["done"])
    (hreturned : ∀ out, s'.phase ≠ .returned (.ok out)) : s'.Kept (events ++ [e]) handled := by
  have hreplies : repliesOf (events ++ [e]) = repliesOf events := by
    rw [repliesOf_append, he.2.1, List.append_nil]
  constructor
  · rw [hqueue]
    exact h.signals_snoc he.1
  · exact hbefore
  · exact hrunning
  · rw [hreplies]
    exact hnoReply
  · exact fun job hjob => absurd hjob (hreplied job)
  · rw [hreplies, hexpected]
    exact h.expected
  · rw [hexpected]
    exact hexpects
  · rw [hpromised, hexpected]
    exact h.promised
  · rw [hdone, hpromised]
    exact h.done
  · rw [hpromised]
    exact hcompleted
  · rw [hpromised]
    exact hreading
  · exact fun result hmem => absurd hmem (h.noStatus hold he.2.2 result)
  · exact fun out hout => absurd hout (hreturned out)

/-- The handler leaves a promise alone that is set, and sets it on the first signal with the
expected path. -/
theorem handle_promised (h : s.promised =
    (s.expectedJob.bind fun job => firstResult job handled).toList)
    (hdone : s.done = true ↔ s.promised ≠ []) (m : JobRemoved) :
    (handleJobRemoved s m).promised =
        (s.expectedJob.bind fun job => firstResult job (handled ++ [m])).toList ∧
      ((handleJobRemoved s m).done = true ↔ (handleJobRemoved s m).promised ≠ []) ∧
      (s.promised ≠ [] → (handleJobRemoved s m).promised = s.promised) := by
  unfold handleJobRemoved
  by_cases hset : s.done = true
  · rw [if_pos hset]
    -- a first result was found, and stays the first
    refine ⟨?_, hdone, fun _ => rfl⟩
    cases hjob : s.expectedJob with
    | none => rw [h, hjob]; rfl
    | some job =>
        have hne := hdone.1 hset
        rw [h, hjob, Option.bind_some] at hne
        rw [h, hjob, Option.bind_some, Option.bind_some, firstResult_append]
        cases hfirst : firstResult job handled with
        | none => exact absurd (by rw [hfirst]; rfl) hne
        | some result => rfl
  · have hnil : s.promised = [] := by
      by_contra hne
      exact hset (hdone.2 hne)
    rw [if_neg hset]
    by_cases hjob : s.expectedJob = some m.job
    · rw [if_neg (not_not.2 hjob)]
      rw [hnil, hjob, Option.bind_some] at h
      have hfirst : firstResult m.job handled = none := by
        cases hfirst : firstResult m.job handled with
        | none => rfl
        | some result =>
            rw [hfirst] at h
            cases h
      -- this is the first signal for the expected job
      refine ⟨?_, by simp, fun hne => absurd hnil hne⟩
      rw [hjob, Option.bind_some, firstResult_append, hfirst, hnil]
      simp [firstResult]
    · rw [if_pos hjob]
      -- a signal for another job
      refine ⟨?_, hdone, fun _ => rfl⟩
      rw [h]
      cases hexpected : s.expectedJob with
      | none => rfl
      | some job =>
          have hne : ¬ m.job = job := by
            rintro rfl
            exact hjob hexpected
          rw [Option.bind_some, Option.bind_some, firstResult_append]
          have hother : firstResult job [m] = none := by simp [firstResult, hne]
          rw [hother, Option.or_none]

theorem handle_frame (s : JobWait) (m : JobRemoved) :
    (handleJobRemoved s m).phase = s.phase ∧ (handleJobRemoved s m).queue = s.queue ∧
      (handleJobRemoved s m).expectedJob = s.expectedJob ∧
      (handleJobRemoved s m).loopRunning = s.loopRunning := by
  unfold handleJobRemoved
  split
  · exact ⟨rfl, rfl, rfl, rfl⟩
  · split <;> exact ⟨rfl, rfl, rfl, rfl⟩

/-- **The handler runs** on the first signal of the queue. -/
theorem kept_dispatch {m : JobRemoved} {queue : List JobRemoved} (h : s.Kept events handled)
    (hloop : s.loopRunning = true) (hqueue : s.queue = m :: queue) :
    (handleJobRemoved { s with queue := queue } m).Kept (events ++ [.dispatch])
      (handled ++ [m]) := by
  obtain ⟨hphase', hqueue', hexpected', hloop'⟩ := handle_frame { s with queue := queue } m
  obtain ⟨hpromised', hdone', hstays⟩ :=
    handle_promised (s := { s with queue := queue }) h.promised h.done m
  have hreplies : repliesOf (events ++ [.dispatch]) = repliesOf events := by
    rw [repliesOf_append]
    exact List.append_nil _
  -- a promise that is set stays as it is
  have hkept : ∀ results, results ≠ [] → s.promised = results →
      (handleJobRemoved { s with queue := queue } m).promised = results := by
    intro results hne hresults
    rw [← hresults]
    exact hstays (by rw [← hresults] at hne; exact hne)
  constructor
  · rw [h.signals_snoc rfl, hqueue, hqueue', List.append_assoc]
    rfl
  · intro hbefore
    rw [hphase'] at hbefore
    rw [(h.before hbefore).2] at hloop
    cases hloop
  · exact fun _ _ => hloop'.trans hloop
  · rw [hphase', hreplies]
    exact h.noReply
  · rw [hphase', hreplies]
    exact h.replied
  · rw [hexpected', hreplies]
    exact h.expected
  · rw [hphase', hexpected']
    exact h.expects
  · rw [hpromised', hexpected']
  · exact hdone'
  · rw [hphase']
    exact fun job result hcompleted => hkept _ (by simp) (h.completed job result hcompleted)
  · rw [hphase']
    exact fun job hreading => hkept _ (by simp) (h.reading job hreading)
  · intro result hmem
    obtain ⟨hdone, hreturned⟩ := h.status result (by simpa using hmem)
    exact ⟨hkept _ (by simp) hdone, by rw [hphase']; exact hreturned⟩
  · intro out hout
    obtain ⟨hdone, job, hjob, hpath, hmem⟩ := h.returned out (by rw [← hout, hphase'])
    exact ⟨hkept _ (by simp) hdone, job, by rw [hexpected']; exact hjob, hpath,
      List.mem_append_left _ hmem⟩

/-- A signal is received. -/
theorem kept_signal (h : s.Kept events handled) (m : JobRemoved) :
    JobWait.Kept (events ++ [.signal m]) handled { s with queue := s.queue ++ [m] } :=
  { h with
    signals := by
      rw [signalsOf_append, h.signals, List.append_assoc]
      rfl
    noReply := by
      rw [repliesOf_append]
      simpa [repliesOf] using h.noReply
    replied := by
      rw [repliesOf_append]
      simpa [repliesOf] using h.replied
    expected := by
      rw [repliesOf_append]
      simpa [repliesOf] using h.expected
    status := fun result hmem => h.status result (by simpa using hmem)
    returned := fun out hout => by simpa using h.returned out hout }

/-- The path is known from here on, and nothing has been handled. -/
theorem kept_reply (h : s.Kept events handled) (hphase : s.phase = .calling) (job : Bytes) :
    JobWait.Kept (events ++ [.reply job]) handled { s with phase := .replied job } := by
  have hnone : s.expectedJob = none := by
    cases hexpected : s.expectedJob with
    | none => rfl
    | some job' =>
        have hreplies := h.expected job' hexpected
        rw [h.noReply (.inr hphase)] at hreplies
        cases hreplies
  refine { h with
    signals := h.signals_snoc rfl
    before := fun _ => h.before (by rw [hphase]; rfl)
    running := by simp
    noReply := by simp
    replied := ?_
    expected := ?_
    expects := by simp [JobPhase.expects]
    completed := by simp
    reading := by simp
    status := fun result hmem => absurd hmem (h.noStatus (by simp [hphase]) (by simp) result)
    returned := by simp }
  · intro job' hjob'
    obtain rfl : job = job' := by simpa using hjob'
    rw [repliesOf_append, h.noReply (.inr hphase)]
    rfl
  · intro job' hjob'
    rw [show _ = s.expectedJob from rfl, hnone] at hjob'
    cases hjob'

/-- The handler is told the path before the loop that runs it is entered. -/
theorem kept_expect {job : Bytes} (h : s.Kept events handled) (hphase : s.phase = .replied job) :
    JobWait.Kept (events ++ [.expect]) handled
      { s with phase := .expecting job, expectedJob := some job } := by
  obtain ⟨hhandled, hloop⟩ := h.before (by rw [hphase]; rfl)
  have hpromised : s.promised = [] := by
    rw [h.promised, hhandled]
    cases s.expectedJob <;> rfl
  have hreplies : repliesOf (events ++ [.expect]) = [job] := by
    rw [repliesOf_append, h.replied job hphase]
    rfl
  refine { h with
    signals := h.signals_snoc rfl
    before := fun _ => ⟨hhandled, hloop⟩
    running := by simp
    noReply := by simp
    replied := by simp
    expected := ?_
    expects := ?_
    promised := ?_
    completed := by simp
    reading := by simp
    status := fun result hmem => absurd hmem (h.noStatus (by simp [hphase]) (by simp) result)
    returned := by simp }
  · intro job' hjob'
    obtain rfl : job = job' := by simpa using hjob'
    exact hreplies
  · intro job' hjob'
    simpa [JobPhase.expects] using hjob'
  · rw [show _ = s.promised from rfl, hpromised, hhandled]
    rfl

/-- The future is ready: the promise was set once. -/
theorem kept_ready {job result : Bytes} {rest : List Bytes} (h : s.Kept events handled)
    (hphase : s.phase = .waiting job) (hpromised : s.promised = result :: rest) :
    JobWait.Kept (events ++ [.ready]) handled { s with phase := .completed job result } := by
  have hone : s.promised.length ≤ 1 := by
    rw [h.promised]
    cases s.expectedJob.bind fun job => firstResult job handled <;> simp
  have hexact : s.promised = [result] := by
    rw [hpromised] at hone ⊢
    rw [List.eq_nil_of_length_eq_zero (l := rest) (by simpa using hone)]
  refine h.move rfl rfl rfl rfl ⟨rfl, rfl, by simp⟩ (by simp [hphase]) ?_ ?_ ?_ ?_ ?_ ?_ ?_ ?_
  · simp [JobPhase.beforeLoop]
  · simp
  · simp
  · simp
  · exact fun job' hjob' => h.expects job' (by rw [hphase]; exact hjob')
  · intro job' result' hcompleted
    obtain ⟨-, rfl⟩ : job = job' ∧ result = result' := by simpa using hcompleted
    exact hexact
  all_goals simp

/-- The operation fails. -/
theorem kept_error (h : s.Kept events handled)
    (he : signalsOf [e] = [] ∧ repliesOf [e] = [] ∧ ∀ result, e ≠ .status result)
    (hold : ∀ out, s.phase ≠ .returned out) (error : Error) :
    JobWait.Kept (events ++ [e]) handled
      { s with phase := .returned (.error error), loopRunning := false } := by
  refine h.move rfl rfl rfl rfl he hold ?_ ?_ ?_ ?_ ?_ ?_ ?_ ?_
  all_goals simp [JobPhase.expects, JobPhase.beforeLoop]

/-- The status is read, of a job that is done. -/
theorem kept_status {job : Bytes} (h : s.Kept events handled) (hphase : s.phase = .reading job)
    (result : Result UnitStatus) :
    JobWait.Kept (events ++ [.status result]) handled
      { s with phase := .returned (operationResult job result) } := by
  have hdone := h.reading job hphase
  refine { h with
    signals := h.signals_snoc rfl
    before := by simp [JobPhase.beforeLoop]
    running := by simp
    noReply := by simp
    replied := by simp
    expected := ?_
    expects := by simp [JobPhase.expects]
    completed := by simp
    reading := by simp
    status := fun _ _ => ⟨hdone, _, rfl⟩
    returned := ?_ }
  · rw [repliesOf_append]
    simpa [repliesOf] using h.expected
  · intro out hout
    refine ⟨hdone, job, h.expects job (by rw [hphase]; rfl), ?_⟩
    cases result with
    | ok status =>
        obtain rfl : _ = out := by simpa [operationResult] using hout
        exact ⟨rfl, by simp⟩
    | error e => simp [operationResult] at hout

/-- **Every step keeps what holds.** -/
theorem kept_step (h : s.Kept events handled) (hstep : s.Steps method e s') :
    ∃ handled', s'.Kept (events ++ [e]) handled' := by
  cases hstep with
  | subscribed hphase =>
      refine ⟨handled, h.move rfl rfl rfl rfl ⟨rfl, rfl, by simp⟩ (by simp [hphase]) ?_ ?_ ?_ ?_ ?_
        ?_ ?_ ?_⟩
      · exact fun _ => h.before (by rw [hphase]; rfl)
      · simp
      · exact fun _ => h.noReply (.inl hphase)
      all_goals simp [JobPhase.expects]
  | thrown error hphase err =>
      refine ⟨handled, kept_error h ⟨rfl, rfl, by simp⟩ (fun out hout => ?_) err⟩
      rw [hout] at hphase
      cases hphase
  | signal m => exact ⟨handled, kept_signal h m⟩
  | reply job hphase => exact ⟨handled, kept_reply h hphase job⟩
  | expect job hphase => exact ⟨handled, kept_expect h hphase⟩
  | enterLoop job hphase =>
      refine ⟨handled, h.move rfl rfl rfl rfl ⟨rfl, rfl, by simp⟩ (by simp [hphase]) ?_ ?_ ?_ ?_ ?_
        ?_ ?_ ?_⟩
      · simp [JobPhase.beforeLoop]
      · simp
      · simp
      · simp
      · exact fun job' hjob' => h.expects job' (by rw [hphase]; exact hjob')
      all_goals simp
  | dispatch m queue hloop hqueue => exact ⟨handled ++ [m], kept_dispatch h hloop hqueue⟩
  | ready job result rest hphase hpromised => exact ⟨handled, kept_ready h hphase hpromised⟩
  | timeout job hphase hpromised =>
      refine ⟨handled, h.move rfl rfl rfl rfl ⟨rfl, rfl, by simp⟩ (by simp [hphase]) ?_ ?_ ?_ ?_ ?_
        ?_ ?_ ?_⟩
      all_goals simp [JobPhase.expects, JobPhase.beforeLoop]
  | leaveTimedOut hphase err =>
      exact ⟨handled, kept_error h ⟨rfl, rfl, by simp⟩ (by simp [hphase]) err⟩
  | leaveFailed job result hphase err =>
      exact ⟨handled, kept_error h ⟨rfl, rfl, by simp⟩ (by simp [hphase]) err⟩
  | leaveDone job hphase =>
      refine ⟨handled, h.move rfl rfl rfl rfl ⟨rfl, rfl, by simp⟩ (by simp [hphase]) ?_ ?_ ?_ ?_ ?_
        ?_ ?_ ?_⟩
      · simp [JobPhase.beforeLoop]
      · simp
      · simp
      · simp
      · exact fun job' hjob' => h.expects job' (by rw [hphase]; exact hjob')
      · simp
      · exact fun _ _ => h.completed job _ hphase
      · simp
  | status job hphase result => exact ⟨handled, kept_status h hphase result⟩

/-- Where a run starts: nothing has come, and nothing is promised. -/
theorem kept_start (unit : Bytes) : (JobWait.start unit).Kept [] [] := by
  unfold JobWait.start
  cases validateSystemdUnitName unit with
  | error e =>
      constructor
      all_goals simp [signalsOf, JobPhase.beforeLoop, JobPhase.expects]
  | ok _ =>
      constructor
      all_goals simp [signalsOf, repliesOf, JobPhase.expects]

/-- **What holds after every run.** -/
theorem kept_run (h : unitJobAndWait method unit events = some s) :
    ∃ handled, s.Kept events handled := by
  refine Transitions.run_induction (P := fun events s => ∃ handled, s.Kept events handled)
    ⟨[], kept_start unit⟩ ?_ h
  intro events s₁ e s₂ _ hkept hstep
  obtain ⟨handled, hkept⟩ := hkept
  exact kept_step hkept (JobWait.steps_of_step hstep)

/-- **The handler comes to the end of the queue**: nothing else changes meanwhile. -/
theorem dispatch_all (hloop : s.loopRunning = true) : ∃ s',
    Transitions.run (JobWait.step method) s (List.replicate s.queue.length .dispatch) = some s' ∧
      s'.queue = [] ∧ s'.expectedJob = s.expectedJob := by
  induction hqueue : s.queue generalizing s with
  | nil => exact ⟨s, rfl, hqueue, rfl⟩
  | cons m queue ih =>
      obtain ⟨-, hqueue', hexpected', hloop'⟩ := handle_frame { s with queue := queue } m
      obtain ⟨s', hrun, hempty, hexpected⟩ := ih (hloop'.trans hloop) hqueue'
      refine ⟨s', ?_, hempty, hexpected.trans hexpected'⟩
      have hstep : s.step method .dispatch =
          some (handleJobRemoved { s with queue := queue } m) := by
        simp [JobWait.step, hloop, hqueue]
      rw [List.length_cons, List.replicate_succ, Transitions.run, hstep]
      exact hrun

end

/-! ### An operation is completed by its own job only -/

/-- The promise is set once at most, with the result of the first signal for the job of the reply,
whenever that signal came: once the loop runs, the handler sees every signal that is queued.  The
status is read, and success returned, for a job that is done only. -/
theorem unitJobAndWait_own_job (method unit : Bytes) (events : List BusEvent) (s : JobWait)
    (h : unitJobAndWait method unit events = some s) :
    s.promised.length ≤ 1 ∧
      (∀ result ∈ s.promised, ∃ job, repliesOf events = [job] ∧
        firstResult job (signalsOf events) = some result) ∧
      (∀ job, s.phase = .waiting job → repliesOf events = [job] ∧ ∃ s',
        unitJobAndWait method unit (events ++ List.replicate s.queue.length .dispatch) = some s' ∧
          s'.promised = (firstResult job (signalsOf events)).toList) ∧
      (∀ job result, s.phase = .completed job result → repliesOf events = [job] ∧
        firstResult job (signalsOf events) = some result) ∧
      (∀ result, BusEvent.status result ∈ events → s.promised = ["done"]) ∧
      ∀ out, s.phase = .returned (.ok out) → s.promised = ["done"] ∧
        ∃ job, repliesOf events = [job] ∧ out.jobPath = some job ∧
          BusEvent.status (.ok out.finalStatus) ∈ events := by
  obtain ⟨handled, hkept⟩ := kept_run h
  have hfirst : ∀ result ∈ s.promised, ∃ job, s.expectedJob = some job ∧
      firstResult job (signalsOf events) = some result := by
    intro result hmem
    rw [hkept.promised, Option.mem_toList, Option.bind_eq_some_iff] at hmem
    obtain ⟨job, hjob, hfirst⟩ := hmem
    refine ⟨job, hjob, ?_⟩
    rw [hkept.signals, firstResult_append, hfirst]
    rfl
  refine ⟨?_, ?_, ?_, ?_, fun result hmem => (hkept.status result hmem).1, ?_⟩
  · rw [hkept.promised]
    cases s.expectedJob.bind fun job => firstResult job handled <;> simp
  · intro result hmem
    obtain ⟨job, hjob, hresult⟩ := hfirst result hmem
    exact ⟨job, hkept.expected job hjob, hresult⟩
  · intro job hphase
    have hexpected : s.expectedJob = some job := hkept.expects job (by rw [hphase]; rfl)
    -- once the queue is worked off, all the signals so far are handled
    obtain ⟨s', hrun, hempty, hexpected'⟩ := dispatch_all (hkept.running job hphase)
    have hrun' : unitJobAndWait method unit
        (events ++ List.replicate s.queue.length .dispatch) = some s' := by
      rw [unitJobAndWait, Transitions.run_append]
      rw [unitJobAndWait] at h
      rw [h]
      exact hrun
    obtain ⟨handled', hkept'⟩ := kept_run hrun'
    have hsignals := hkept'.signals
    rw [signalsOf_append, signalsOf_dispatches, hempty, List.append_nil, List.append_nil]
      at hsignals
    refine ⟨hkept.expected job hexpected, s', hrun', ?_⟩
    rw [hkept'.promised, hexpected', hexpected, hsignals]
    rfl
  · intro job result hphase
    have hexpected : s.expectedJob = some job := hkept.expects job (by rw [hphase]; rfl)
    obtain ⟨job', hjob', hresult⟩ := hfirst result (by
      rw [hkept.completed job result hphase]
      exact List.mem_singleton_self _)
    obtain rfl : job = job' := Option.some.inj (hexpected.symm.trans hjob')
    exact ⟨hkept.expected job hexpected, hresult⟩
  · intro out hout
    obtain ⟨hdone, job, hjob, hpath, hmem⟩ := hkept.returned out hout
    exact ⟨hdone, job, hkept.expected job hjob, hpath, hmem⟩

/-- The job is done before the reply comes, another one fails meanwhile, and its signal comes
twice. -/
def earlySignals : List BusEvent :=
  [.subscribed, .signal ⟨"/job/6", "failed"⟩, .signal ⟨"/job/7", "done"⟩, .reply "/job/7", .expect,
    .signal ⟨"/job/7", "canceled"⟩, .enterLoop, .dispatch, .dispatch, .ready, .dispatch,
    .leaveLoop, .status (.ok { activeState := "active" })]

theorem unitJobAndWait_own_job_web :
    ∃ s, unitJobAndWait "RestartUnit" "web.service" earlySignals = some s ∧
      s.promised.length ≤ 1 ∧ s.promised = ["done"] ∧
      ∃ out, s.phase = .returned (.ok out) ∧ out.jobPath = some (ofString "/job/7") := by
  have hrun : unitJobAndWait "RestartUnit" "web.service" earlySignals = some _ := rfl
  obtain ⟨hone, -, -, -, -, hok⟩ := unitJobAndWait_own_job _ _ _ _ hrun
  exact ⟨_, hrun, hone, (hok _ rfl).1, _, rfl, rfl⟩

end PodInstaller
