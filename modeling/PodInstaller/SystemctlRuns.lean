/-
**The controllers that run systemctl.**

`SystemctlUserSystemdController` tells the manager of a user what to do by running `systemctl`, and
`SystemctlSliceController` sets the properties of a slice.  An operation on a unit is a command that
is followed by a look at the status of the unit.  What a controller runs is laid down by its
arguments: it runs these commands in their order, each only if the one before has exited well, and
nothing else.  A controller of a dry run runs nothing.

Main definitions:

* `PodInstaller.SystemctlUserSystemdController`, `PodInstaller.SystemctlSliceController` — the
  controllers with their methods;
* `PodInstaller.Operated` — commands that were run one after another;
* `PodInstaller.Carried` — how a method ends, for the commands that it is there to run;
* `PodInstaller.SystemctlUserSystemdController.session`, `PodInstaller.Conducted` — methods that are
  called one after another.

Main results:

* `PodInstaller.Operated.append` — commands after commands;
* `PodInstaller.SystemctlUserSystemdController.ensures_manage` — **what the methods run**;
* `PodInstaller.session_conducted` — **what a session has run** when it ends;
* `PodInstaller.status_shown`, `PodInstaller.apply_reads_back` — what is read is what was printed,
  and what is run says what was asked for.
-/

import PodInstaller.Systemctl
import PodInstaller.ProcessRuns

set_option relaxedAutoImplicit false
set_option autoImplicit false

namespace PodInstaller

open Bytes

/-! ### The methods -/

/-- The result of a function that makes no calls. -/
def checked {α : Type} (r : Result α) : ProcAction α := ExceptT.mk (pure r)

/-- `SystemctlSliceController`. -/
structure SystemctlSliceController where
  dryRun : Bool := false

/-- `SystemctlSliceController::apply`. -/
def SystemctlSliceController.apply (controller : SystemctlSliceController)
    (policy : UserSlicePolicy) : ProcAction Unit := do
  let args ← checked (buildSystemctlSetPropertyArgs policy)
  if controller.dryRun then return () else runProcess args

/-- `SystemctlUserSystemdController`. -/
structure SystemctlUserSystemdController where
  dryRun : Bool := false

/-- The properties that a status is read from. -/
def showProperties : List Bytes :=
  [ofString "--property=LoadState", ofString "--property=ActiveState",
    ofString "--property=SubState"]

namespace SystemctlUserSystemdController

variable (controller : SystemctlUserSystemdController) (reads : ℕ) (target : PodmanTarget)

/-- `SystemctlUserSystemdController::daemon_reload`. -/
def daemonReload : ProcAction Unit := do
  let args ← checked (buildSystemctlUserArgs target "daemon-reload")
  if controller.dryRun then return () else runProcess args

/-- `SystemctlUserSystemdController::status`. -/
def status (unit : Bytes) : ProcAction UnitStatus := do
  checked (validateSystemdUnitName unit)
  if controller.dryRun then return { unit := unit }
  else
    let args ← checked (buildSystemctlUserArgs target "show" (some unit))
    let output ← runProcessCapture reads (args ++ showProperties)
    return parseShowStatus unit output

/-- `completed_operation`. -/
def completedOperation (unit : Bytes) : ProcAction UnitOperationResult := do
  let status ← controller.status reads target unit
  return { finalStatus := status }

/-- What the operations on a unit have in common. -/
def unitOperation (command unit : Bytes) : ProcAction UnitOperationResult := do
  let args ← checked (buildSystemctlUserArgs target command (some unit))
  if controller.dryRun then controller.completedOperation reads target unit
  else
    runProcess args
    controller.completedOperation reads target unit

/-- `SystemctlUserSystemdController::start_unit`. -/
def startUnit (unit : Bytes) : ProcAction UnitOperationResult :=
  controller.unitOperation reads target "start" unit

/-- `SystemctlUserSystemdController::restart_unit`. -/
def restartUnit (unit : Bytes) : ProcAction UnitOperationResult :=
  controller.unitOperation reads target "restart" unit

/-- `SystemctlUserSystemdController::stop_unit`. -/
def stopUnit (unit : Bytes) : ProcAction UnitOperationResult :=
  controller.unitOperation reads target "stop" unit

end SystemctlUserSystemdController

/-! ### Commands that are run one after another -/

/-- A process that was waited for and has exited well. -/
def Child.FinishedWell (c : Child) : Prop :=
  c.reaped = true ∧ ∃ status, c.status = some status ∧ exitedWell status = true

theorem Child.Leads.finishedWell {c c' : Child} (h : c.Leads c') (hc : c.FinishedWell) :
    c'.FinishedWell := by
  obtain ⟨hreaped, status, hstatus, hwell⟩ := hc
  exact ⟨h.reaped hreaped, status, h.status hstatus, hwell⟩

/-- Of a list of commands the first ones were run, in their order: `spawned` of them were started,
and `done` of them have exited well.  The descriptors of the program are what they were. -/
structure Operated (s : ProcessState) (plan : List (List Bytes)) (done spawned : ℕ)
    (s' : ProcessState) : Prop where
  table : s'.table = s.table
  evolves : Evolves s s'
  le : done ≤ spawned
  le_succ : spawned ≤ done + 1
  le_length : spawned ≤ plan.length
  log : s'.log.map Prod.fst = s.log.map Prod.fst ++ (plan.take spawned).map (·.map cStr)
  finished : ∀ j < done, ∃ c, s'.children[s.children.length + j]? = some c ∧ c.FinishedWell

/-- How a method ends that is there to run certain commands.  If it succeeds all of them were run
well, and `Q` holds of its result.  If it fails, the command at which it failed, if it was started,
was waited for unless the error has an error number. -/
def Carried {α : Type} (s : ProcessState) (plan : List (List Bytes))
    (Q : α → ProcessState → Prop) : Result α → ProcessState → Prop
  | .ok a, s' => Operated s plan plan.length plan.length s' ∧ Q a s'
  | .error e, s' => ∃ done spawned, Operated s plan done spawned s' ∧
      (spawned = done + 1 → ∃ c, s'.children[s.children.length + done]? = some c ∧
        (c.reaped = true ↔ e.osErrno = 0))

section

variable {s s' s₁ s₂ : ProcessState} {plan plan₁ plan₂ : List (List Bytes)} {m k : ℕ} {t : ℕ}
variable {w : Processes} {α β : Type}

theorem operated_zero (hkept : s'.table = s.table) (hevolves : Evolves s s')
    (hlog : s'.log = s.log) (plan : List (List Bytes)) : Operated s plan 0 0 s' :=
  ⟨hkept, hevolves, le_rfl, Nat.zero_le _, Nat.zero_le _, by simp [hlog], fun _ h => by omega⟩

theorem Operated.length (h : Operated s plan m k s') :
    s'.children.length = s.children.length + k := by
  have hlen := congrArg List.length h.log
  simp only [List.length_map, List.length_append, List.length_take, length_log] at hlen
  have hle := h.le_length
  omega

/-- Further commands that are not run. -/
theorem Operated.weaken (h : Operated s plan₁ m k s') (plan₂ : List (List Bytes)) :
    Operated s (plan₁ ++ plan₂) m k s' := by
  refine ⟨h.table, h.evolves, h.le, h.le_succ, ?_, ?_, h.finished⟩
  · rw [List.length_append]
    exact h.le_length.trans (Nat.le_add_right _ _)
  · rw [List.take_append_of_le_length h.le_length]
    exact h.log

/-- **Commands after commands.** -/
theorem Operated.append (h : Operated s plan₁ plan₁.length plan₁.length s₁)
    (h' : Operated s₁ plan₂ m k s₂) :
    Operated s (plan₁ ++ plan₂) (plan₁.length + m) (plan₁.length + k) s₂ := by
  have hlen := h.length
  have hle := h'.le
  have hle' := h'.le_succ
  have hlast := h'.le_length
  refine ⟨h'.table.trans h.table, h.evolves.trans h'.evolves, by omega, by omega, ?_, ?_, ?_⟩
  · rw [List.length_append]
    omega
  · rw [h'.log, h.log, List.take_length, List.take_length_add_append, List.map_append,
      List.append_assoc]
  · intro j hj
    by_cases hfirst : j < plan₁.length
    · obtain ⟨c, hc, hfinished⟩ := h.finished j hfirst
      obtain ⟨c', hc', hleads⟩ := h'.evolves _ c hc
      exact ⟨c', hc', hleads.finishedWell hfinished⟩
    · obtain ⟨c, hc, hfinished⟩ := h'.finished (j - plan₁.length) (by omega)
      refine ⟨c, ?_, hfinished⟩
      rw [← hc, hlen]
      congr 1
      omega

/-- **A method after a method**: the second one is run if the first one succeeds. -/
theorem Carried.append {P : α → ProcessState → Prop} {Q : β → ProcessState → Prop} {a : α}
    {r : Result β} (h : Carried s plan₁ P (.ok a) s₁) (h' : Carried s₁ plan₂ Q r s₂) :
    Carried s (plan₁ ++ plan₂) Q r s₂ := by
  obtain ⟨hfirst, -⟩ := h
  cases r with
  | ok b =>
      obtain ⟨hsecond, hQ⟩ := h'
      refine ⟨?_, hQ⟩
      rw [List.length_append]
      exact hfirst.append hsecond
  | error e =>
      obtain ⟨m, k, hsecond, hlast⟩ := h'
      refine ⟨_, _, hfirst.append hsecond, fun hk => ?_⟩
      obtain ⟨c, hc, hreaped⟩ := hlast (by omega)
      refine ⟨c, ?_, hreaped⟩
      rw [← hc, hfirst.length]
      congr 1
      omega

theorem Carried.weaken {P : α → ProcessState → Prop} {Q : β → ProcessState → Prop} {e : Error}
    (h : Carried s plan₁ P (.error e) s') (plan₂ : List (List Bytes)) :
    Carried s (plan₁ ++ plan₂) Q (.error e) s' := by
  obtain ⟨m, k, hoperated, hlast⟩ := h
  exact ⟨m, k, hoperated.weaken plan₂, hlast⟩

/-- One process that was run. -/
theorem Ran.carried {args : List Bytes} {out : α → Child → Prop} {r : Result α}
    (h : Ran s args out r s') : Carried s [args] (fun a s' =>
      ∃ c, s'.children[s.children.length]? = some c ∧ out a c) r s' := by
  have hone : ∀ {flag : Bool} {m : ℕ}, s'.table = s.table → Evolves s s' →
      s'.log = s.log ++ [(args.map cStr, flag)] → m ≤ 1 →
      (m = 1 → ∃ c, s'.children[s.children.length]? = some c ∧ c.FinishedWell) →
      Operated s [args] m 1 s' := by
    intro flag m htable hevolves hlog hm hfinished
    refine ⟨htable, hevolves, hm, by omega, le_rfl, by simp [hlog], fun j hj => ?_⟩
    obtain rfl : j = 0 := by omega
    exact hfinished (by omega)
  have hchild : ∀ {flag : Bool} {c : Child}, s'.log = s.log ++ [(args.map cStr, flag)] →
      s'.children[s.children.length]? = some c → c.reaped = flag := by
    intro flag c hlog hc
    have hget : s'.log[s.children.length]? = some (c.argv, c.reaped) := by
      rw [ProcessState.log, List.getElem?_map, hc]
      rfl
    rw [hlog, ← length_log, List.getElem?_append_right le_rfl, Nat.sub_self] at hget
    exact (congrArg Prod.snd (Option.some.inj hget)).symm
  cases h with
  | notStarted table evolves log =>
      exact ⟨0, 0, operated_zero table evolves log _, fun h => by omega⟩
  | lost table evolves log errno =>
      refine ⟨0, 1, hone table evolves log (by omega) (fun h => by omega), fun _ => ?_⟩
      have hlt : s.children.length < s'.children.length := by
        have hlen := congrArg List.length log
        rw [length_log, List.length_append, length_log, List.length_singleton] at hlen
        omega
      refine ⟨_, List.getElem?_eq_getElem hlt, ?_⟩
      rw [hchild log (List.getElem?_eq_getElem hlt)]
      simp [errno]
  | failed table evolves log child exited ill errno =>
      refine ⟨0, 1, hone table evolves log (by omega) (fun h => by omega), fun _ => ?_⟩
      exact ⟨_, child, by simp [hchild log child, errno]⟩
  | ok table evolves log child exited well result =>
      exact ⟨hone table evolves log le_rfl fun _ =>
        ⟨_, child, hchild log child, _, exited, well⟩, _, child, result⟩

/-! ### What the methods run -/

/-- The commands of a controller, which runs none of them in a dry run. -/
def planned (dryRun : Bool) (plan : List (List Bytes)) : List (List Bytes) :=
  if dryRun then [] else plan

/-- The command that shows the status of a unit. -/
def showWords (userName unit : Bytes) : List Bytes :=
  userWords userName "show" (some unit) ++ showProperties

/-- Where a status comes from: the output of the process at the place `i`, or, in a dry run,
nowhere. -/
def StatusRead (dryRun : Bool) (s : ProcessState) (i : ℕ) (unit : Bytes) (status : UnitStatus)
    (s' : ProcessState) : Prop :=
  if dryRun then status = { unit := unit }
  else ∃ c output, s'.children[i]? = some c ∧ CapturedOutput s output c ∧
    status = parseShowStatus unit output

theorem carried_rejected {Q : α → ProcessState → Prop} {e : Error} :
    Carried s plan Q (.error e) s :=
  ⟨0, 0, operated_zero rfl (.refl s) rfl plan, fun h => by omega⟩

theorem carried_nothing {Q : α → ProcessState → Prop} {a : α} (h : Q a s) :
    Carried s [] Q (.ok a) s := ⟨operated_zero rfl (.refl s) rfl [], h⟩

theorem Carried.mono {P Q : α → ProcessState → Prop} {r : Result α} (h : Carried s plan P r s')
    (hPQ : ∀ a, P a s' → Q a s') : Carried s plan Q r s' := by
  cases r with
  | ok a => exact ⟨h.1, hPQ a h.2⟩
  | error e => exact h

/-- A check that comes before everything else. -/
theorem ensures_checkedBind {r : Result α} {f : α → ProcAction β} {Q : β → ProcessState → Prop}
    (hf : ∀ a, r = .ok a → Ensures processMachine t (f a).run
      (fun r w' => Carried w.toProcessState plan Q r w'.toProcessState) w) :
    Ensures processMachine t (checked r >>= f).run
      (fun r w' => Carried w.toProcessState plan Q r w'.toProcessState) w := by
  cases r with
  | ok a => exact hf a rfl
  | error e => exact delivers_ret carried_rejected

/-- A method that goes on after a method. -/
theorem ensures_carriedBind {x : ProcAction α} {f : α → ProcAction β}
    {P : α → ProcessState → Prop} {Q : Processes → β → ProcessState → Prop}
    (hx : Ensures processMachine t x.run
      (fun r w' => Carried w.toProcessState plan₁ P r w'.toProcessState) w)
    (hf : ∀ a w', Ensures processMachine t (f a).run
      (fun r w'' => Carried w'.toProcessState plan₂ (Q w') r w''.toProcessState) w') :
    Ensures processMachine t (x >>= f).run (fun r w'' =>
      (∃ a w', Carried w.toProcessState plan₁ P (.ok a) w'.toProcessState ∧
        Carried w'.toProcessState plan₂ (Q w') r w''.toProcessState) ∨
      ∃ e, r = .error e ∧ Carried w.toProcessState plan₁ P (.error e) w''.toProcessState) w := by
  refine Ensures.exceptTBind hx (fun a w' h => ?_) fun e w' h => .inr ⟨e, rfl, h⟩
  exact (hf a w').weaken fun r w'' h' => .inl ⟨a, w', h, h'⟩

theorem ensures_runProcess_carried (args : List Bytes) :
    Ensures processMachine t (runProcess args).run (fun r w' =>
      Carried w.toProcessState [args] (fun _ _ => True) r w'.toProcessState) w :=
  (ensures_runProcess args).weaken fun _ _ h => h.carried.mono fun _ _ => trivial

namespace SystemctlUserSystemdController

variable (controller : SystemctlUserSystemdController) (reads : ℕ) (target : PodmanTarget)

/-- **`daemon_reload`** runs one command. -/
theorem ensures_daemonReload : Ensures processMachine t (controller.daemonReload target).run
    (fun r w' => Carried w.toProcessState
      (planned controller.dryRun [userWords target.userName "daemon-reload" none])
      (fun _ _ => True) r w'.toProcessState) w := by
  rw [daemonReload]
  refine ensures_checkedBind fun args hargs => ?_
  obtain ⟨-, -, -, rfl⟩ := buildSystemctlUserArgs_eq_ok.1 hargs
  cases controller.dryRun with
  | true => exact delivers_ret (carried_nothing trivial)
  | false =>
      simp only [planned, Bool.false_eq_true, if_false]
      exact ensures_runProcess_carried _

/-- **`status`** runs one command, and reads what it prints. -/
theorem ensures_status (unit : Bytes) :
    Ensures processMachine t (controller.status reads target unit).run
      (fun r w' => Carried w.toProcessState
        (planned controller.dryRun [showWords target.userName unit])
        (StatusRead controller.dryRun w.toProcessState w.children.length unit) r
        w'.toProcessState) w := by
  rw [status]
  refine ensures_checkedBind fun _ _ => ?_
  cases controller.dryRun with
  | true => exact delivers_ret (carried_nothing rfl)
  | false =>
      refine ensures_checkedBind fun args hargs => ?_
      obtain ⟨-, -, -, rfl⟩ := buildSystemctlUserArgs_eq_ok.1 hargs
      refine Ensures.exceptTBind (ensures_runProcessCapture _ _) (fun output w' h => ?_)
        fun e w' h => ?_
      · obtain ⟨hoperated, c, hc, houtput⟩ := h.carried
        exact delivers_ret ⟨hoperated, c, output, hc, houtput, rfl⟩
      · obtain ⟨m, k, hoperated, hlast⟩ := h.carried
        exact ⟨m, k, hoperated, hlast⟩

/-- **An operation on a unit** runs its command, and then looks at the status. -/
theorem ensures_unitOperation (command unit : Bytes) :
    Ensures processMachine t (controller.unitOperation reads target command unit).run
      (fun r w' => Carried w.toProcessState
        (planned controller.dryRun
          [userWords target.userName command (some unit), showWords target.userName unit])
        (fun result s' => result.jobPath = none ∧ StatusRead controller.dryRun w.toProcessState
          (w.children.length + 1) unit result.finalStatus s') r w'.toProcessState) w := by
  -- the look at the status, from wherever it starts
  have hcompleted : ∀ w₁ : Processes, Ensures processMachine t
      (controller.completedOperation reads target unit).run
      (fun r w' => Carried w₁.toProcessState
        (planned controller.dryRun [showWords target.userName unit])
        (fun result s' => result.jobPath = none ∧ StatusRead controller.dryRun w₁.toProcessState
          w₁.children.length unit result.finalStatus s') r w'.toProcessState) w₁ := by
    intro w₁
    refine Ensures.exceptTBind (controller.ensures_status reads target unit) (fun status w' h => ?_)
      fun e w' h => h
    exact delivers_ret ⟨h.1, rfl, h.2⟩
  rw [unitOperation]
  refine ensures_checkedBind fun args hargs => ?_
  obtain ⟨-, -, -, rfl⟩ := buildSystemctlUserArgs_eq_ok.1 hargs
  cases hdry : controller.dryRun with
  | true =>
      refine (hcompleted w).weaken fun r w' h => ?_
      rw [hdry] at h
      exact h.mono fun result hresult => hresult
  | false =>
      refine (ensures_carriedBind (ensures_runProcess_carried _)
        fun _ w' => hcompleted w').weaken fun r w'' h => ?_
      rcases h with ⟨u, w', hfirst, hsecond⟩ | ⟨e, rfl, hfirst⟩
      · rw [hdry] at hsecond
        refine (hfirst.append hsecond).mono fun result hresult => ?_
        obtain ⟨hjob, c, output, hc, houtput, hstatus⟩ := hresult
        refine ⟨hjob, c, output, ?_, ?_, hstatus⟩
        · rwa [hfirst.1.length] at hc
        · unfold CapturedOutput at houtput ⊢
          rwa [hfirst.1.table] at houtput
      · exact hfirst.weaken _

end SystemctlUserSystemdController

end

/-! ### Sessions -/

/-- A method of `UserSystemdController`, with its arguments. -/
inductive ManagerCall
  | daemonReload (target : PodmanTarget)
  | status (target : PodmanTarget) (unit : Bytes)
  | startUnit (target : PodmanTarget) (unit : Bytes)
  | restartUnit (target : PodmanTarget) (unit : Bytes)
  | stopUnit (target : PodmanTarget) (unit : Bytes)

namespace ManagerCall

/-- What a method returns if it succeeds. -/
abbrev Answer : ManagerCall → Type
  | .daemonReload _ => Unit
  | .status _ _ => UnitStatus
  | .startUnit _ _ => UnitOperationResult
  | .restartUnit _ _ => UnitOperationResult
  | .stopUnit _ _ => UnitOperationResult

/-- The commands that an operation on a unit is there to run. -/
def operationPlan (target : PodmanTarget) (command unit : Bytes) : List (List Bytes) :=
  [userWords target.userName command (some unit), showWords target.userName unit]

/-- The commands that a method is there to run. -/
def plan : ManagerCall → List (List Bytes)
  | .daemonReload target => [userWords target.userName "daemon-reload" none]
  | .status target unit => [showWords target.userName unit]
  | .startUnit target unit => operationPlan target "start" unit
  | .restartUnit target unit => operationPlan target "restart" unit
  | .stopUnit target unit => operationPlan target "stop" unit

/-- What is promised of the result of an operation on a unit. -/
def OperationReported (dryRun : Bool) (s : ProcessState) (unit : Bytes)
    (result : UnitOperationResult) (s' : ProcessState) : Prop :=
  result.jobPath = none ∧
    StatusRead dryRun s (s.children.length + 1) unit result.finalStatus s'

/-- What is promised of what a method returns. -/
def Reported (dryRun : Bool) (s : ProcessState) :
    (m : ManagerCall) → m.Answer → ProcessState → Prop
  | .daemonReload _ => fun _ _ => True
  | .status _ unit => StatusRead dryRun s s.children.length unit
  | .startUnit _ unit => OperationReported dryRun s unit
  | .restartUnit _ unit => OperationReported dryRun s unit
  | .stopUnit _ unit => OperationReported dryRun s unit

end ManagerCall

namespace SystemctlUserSystemdController

variable (controller : SystemctlUserSystemdController) (reads : ℕ)

/-- A method, with its arguments. -/
def manage : (m : ManagerCall) → ProcAction m.Answer
  | .daemonReload target => controller.daemonReload target
  | .status target unit => controller.status reads target unit
  | .startUnit target unit => controller.startUnit reads target unit
  | .restartUnit target unit => controller.restartUnit reads target unit
  | .stopUnit target unit => controller.stopUnit reads target unit

/-- Methods that are called one after another, whatever the ones before have returned. -/
def session : List ManagerCall → Prog Proc.Resp (List ((m : ManagerCall) × Result m.Answer))
  | [] => return []
  | m :: calls => do
    let r ← (controller.manage reads m).run
    let results ← session calls
    return ⟨m, r⟩ :: results

end SystemctlUserSystemdController

section

variable {s s' : ProcessState} {plan : List (List Bytes)} {t : ℕ} {w : Processes} {α : Type}

/-- **What a method runs.** -/
theorem SystemctlUserSystemdController.ensures_manage (controller : SystemctlUserSystemdController)
    (reads : ℕ) (m : ManagerCall) :
    Ensures processMachine t (controller.manage reads m).run (fun r w' =>
      Carried w.toProcessState (planned controller.dryRun m.plan)
        (m.Reported controller.dryRun w.toProcessState) r w'.toProcessState) w := by
  cases m with
  | daemonReload target => exact controller.ensures_daemonReload target
  | status target unit => exact controller.ensures_status reads target unit
  | startUnit target unit => exact controller.ensures_unitOperation reads target "start" unit
  | restartUnit target unit => exact controller.ensures_unitOperation reads target "restart" unit
  | stopUnit target unit => exact controller.ensures_unitOperation reads target "stop" unit

/-- How methods that are called one after another end: each one does its part, from where the one
before it has left. -/
inductive Conducted (dryRun : Bool) : ProcessState →
    List ((m : ManagerCall) × Result m.Answer) → ProcessState → Prop
  | nil (s : ProcessState) : Conducted dryRun s [] s
  | cons {s s₁ s' : ProcessState} {m : ManagerCall} {r : Result m.Answer}
      {results : List ((m : ManagerCall) × Result m.Answer)}
      (first : Carried s (planned dryRun m.plan) (m.Reported dryRun s) r s₁)
      (rest : Conducted dryRun s₁ results s') : Conducted dryRun s (⟨m, r⟩ :: results) s'

/-- **How a session ends.** -/
theorem ensures_session (controller : SystemctlUserSystemdController) (reads : ℕ)
    (calls : List ManagerCall) :
    Ensures processMachine t (controller.session reads calls) (fun results w' =>
      results.map Sigma.fst = calls ∧
        Conducted controller.dryRun w.toProcessState results w'.toProcessState) w := by
  induction calls generalizing w with
  | nil => exact delivers_ret ⟨rfl, .nil _⟩
  | cons m calls ih =>
      rw [SystemctlUserSystemdController.session]
      refine Delivers.bind (controller.ensures_manage reads m) fun r w₁ hfirst => ?_
      refine Delivers.bind ih fun results w' hrest => ?_
      obtain ⟨hcalls, hrest⟩ := hrest
      refine delivers_ret ⟨?_, .cons hfirst hrest⟩
      rw [List.map_cons, hcalls]

/-- What a method has run is an initial part of what it is there to run, the whole of it if the
method has succeeded. -/
theorem Carried.ran {Q : α → ProcessState → Prop} {r : Result α} (h : Carried s plan Q r s') :
    s'.table = s.table ∧ Evolves s s' ∧ ∃ part, part <+: plan ∧ (r.toBool = true → part = plan) ∧
      s'.log.map Prod.fst = s.log.map Prod.fst ++ part.map (·.map cStr) := by
  cases r with
  | ok a =>
      obtain ⟨hoperated, -⟩ := h
      refine ⟨hoperated.table, hoperated.evolves, plan, List.prefix_rfl, fun _ => rfl, ?_⟩
      rw [hoperated.log, List.take_length]
  | error e =>
      obtain ⟨m, k, hoperated, -⟩ := h
      exact ⟨hoperated.table, hoperated.evolves, plan.take k, List.take_prefix _ _,
        fun hok => (by cases hok), hoperated.log⟩

/-- A part of the commands of a method that was called, all of them if it has succeeded. -/
def PartRun (dryRun : Bool) (part : List (List Bytes))
    (result : (m : ManagerCall) × Result m.Answer) : Prop :=
  part <+: planned dryRun result.1.plan ∧
    (result.2.toBool = true → part = planned dryRun result.1.plan)

/-- In a dry run every part is empty. -/
theorem flatten_parts_dryRun {parts : List (List (List Bytes))}
    {results : List ((m : ManagerCall) × Result m.Answer)}
    (h : List.Forall₂ (PartRun true) parts results) : parts.flatten = [] := by
  induction h with
  | nil => rfl
  | cons first _ ih =>
      rw [List.flatten_cons, ih, List.append_nil]
      exact List.prefix_nil.1 first.1

theorem Conducted.ran {dryRun : Bool} {results : List ((m : ManagerCall) × Result m.Answer)}
    (h : Conducted dryRun s results s') : s'.table = s.table ∧ Evolves s s' ∧
      ∃ parts, List.Forall₂ (PartRun dryRun) parts results ∧
        s'.log.map Prod.fst = s.log.map Prod.fst ++ parts.flatten.map (·.map cStr) := by
  induction h with
  | nil s => exact ⟨rfl, .refl s, [], .nil, by simp⟩
  | cons first rest ih =>
      obtain ⟨htable, hevolves, part, hpart, hall, hlog⟩ := first.ran
      obtain ⟨htable', hevolves', parts, hparts, hlog'⟩ := ih
      refine ⟨htable'.trans htable, hevolves.trans hevolves', part :: parts,
        .cons ⟨hpart, hall⟩ hparts, ?_⟩
      rw [hlog', hlog, List.flatten_cons, List.map_append, List.append_assoc]

/-- **What a session has run.**  Whatever fails on the way, the descriptors of the program are what
they were, and the processes that were spawned are, call by call, an initial part of the commands
that the method is there to run, all of them if it has succeeded.  A dry run spawns nothing. -/
theorem session_conducted {controller : SystemctlUserSystemdController} {reads : ℕ}
    {calls : List ManagerCall} {results : List ((m : ManagerCall) × Result m.Answer)}
    {tr : List (Event Proc.Resp Processes ProcChoice)} {w' : Processes}
    (h : Exec processMachine t w (controller.session reads calls) tr w' results) :
    results.map Sigma.fst = calls ∧
      Conducted controller.dryRun w.toProcessState results w'.toProcessState ∧
      w'.table = w.table ∧
      (controller.dryRun = true → w'.children.length = w.children.length) ∧
      ∃ parts, List.Forall₂ (PartRun controller.dryRun) parts results ∧
        w'.log.map Prod.fst = w.log.map Prod.fst ++ parts.flatten.map (·.map cStr) := by
  obtain ⟨hcalls, hconducted⟩ := (ensures_session controller reads calls).exec h
  obtain ⟨htable, -, parts, hparts, hlog⟩ := hconducted.ran
  refine ⟨hcalls, hconducted, htable, fun hdry => ?_, parts, hparts, hlog⟩
  rw [hdry] at hparts
  rw [flatten_parts_dryRun hparts, List.map_nil, List.append_nil] at hlog
  have hlen := congrArg List.length hlog
  rwa [List.length_map, List.length_map, length_log, length_log] at hlen

/-- **What a status says** is what the process of `systemctl show` has printed, for each property in
the last line about it. -/
theorem status_shown {controller : SystemctlUserSystemdController} {reads : ℕ}
    {target : PodmanTarget} {unit : Bytes} {status : UnitStatus}
    {tr : List (Event Proc.Resp Processes ProcChoice)} {w' : Processes}
    (h : Exec processMachine t w (controller.status reads target unit).run tr w' (.ok status))
    (hdry : controller.dryRun = false) (hout : w.table STDOUT_FILENO ≠ none) :
    w'.log.map Prod.fst = w.log.map Prod.fst ++ [(showWords target.userName unit).map cStr] ∧
      ∃ c, w'.children[w.children.length]? = some c ∧ c.FinishedWell ∧ c.ended = true ∧
        status = {
          unit := unit
          loadState := lastValue "LoadState" (pieces (ch '\n') c.printed)
          activeState := lastValue "ActiveState" (pieces (ch '\n') c.printed)
          subState := lastValue "SubState" (pieces (ch '\n') c.printed) } ∧
        ∀ shown : UnitStatus, shown.unit = unit → ch '\n' ∉ shown.loadState →
          ch '\n' ∉ shown.activeState → ch '\n' ∉ shown.subState →
          c.printed = renderStatus shown → status = shown := by
  obtain ⟨hoperated, hread⟩ := (controller.ensures_status reads target unit).exec h
  rw [hdry] at hoperated hread
  obtain ⟨c, output, hc, hcaptured, rfl⟩ := hread
  rw [CapturedOutput, if_pos hout] at hcaptured
  obtain ⟨hended, rfl⟩ := hcaptured
  obtain ⟨c', hc', hfinished⟩ := hoperated.finished 0 Nat.zero_lt_one
  obtain rfl := Option.some.inj (hc.symm.trans hc')
  refine ⟨hoperated.log, c, hc, hfinished, hended, parseShowStatus_eq _ _,
    fun shown hunit hload hactive hsub hprinted => ?_⟩
  rw [hprinted, ← hunit]
  exact parseShowStatus_render hload hactive hsub

/-- **What `apply` runs says what was asked for**: a policy that is refused, or a dry run, spawns
nothing, and otherwise the words of the process that is spawned read as the policy. -/
theorem apply_reads_back {controller : SystemctlSliceController} {policy : UserSlicePolicy}
    {r : Result Unit} {tr : List (Event Proc.Resp Processes ProcChoice)} {w' : Processes}
    (h : Exec processMachine t w (controller.apply policy).run tr w' r) :
    (∃ e, buildSystemctlSetPropertyArgs policy = .error e ∧ r = .error e ∧ w' = w) ∨
      ∃ args, buildSystemctlSetPropertyArgs policy = .ok args ∧
        readPolicy (args.map cStr) = some policy ∧
        (controller.dryRun = true → r = .ok () ∧ w' = w) ∧
        (controller.dryRun = false →
          Ran w.toProcessState args (fun _ _ => True) r w'.toProcessState) := by
  rw [SystemctlSliceController.apply] at h
  cases hbuild : buildSystemctlSetPropertyArgs policy with
  | error e =>
      rw [hbuild] at h
      obtain ⟨-, rfl, rfl⟩ := exec_ret.1 h
      exact .inl ⟨e, rfl, rfl, rfl⟩
  | ok args =>
      rw [hbuild] at h
      refine .inr ⟨args, rfl, readPolicy_setProperty hbuild, fun hdry => ?_, fun hdry => ?_⟩
      · rw [hdry] at h
        obtain ⟨-, rfl, rfl⟩ := exec_ret.1 h
        exact ⟨rfl, rfl⟩
      · rw [hdry] at h
        exact (ensures_runProcess args).exec h

end

/-! ### A session with a user's manager -/

/-- A user. -/
def demoUser : PodmanTarget := makeTarget 1000 "demo" {} "5.0.0"

/-- A command that goes well. -/
def goesWell (i : ℕ) : List ProcChoice := [⟨[], .go⟩, ⟨[.exit i 0, .finish i], .go⟩]

/-- A look at a status that is read in one piece. -/
def showsStatus (i : ℕ) (printed : Bytes) : List ProcChoice :=
  [⟨[], .go⟩, ⟨[], .go⟩, ⟨[], .go⟩, ⟨[.print i printed], .moved printed.length⟩,
    ⟨[.exit i 0, .finish i], .go⟩, ⟨[], .go⟩, ⟨[], .go⟩]

/-- The manager reloads, and the restart fails when its process has exited. -/
theorem session_conducted_failing : ∃ tr w' results,
    Exec processMachine 0 plainProcesses (SystemctlUserSystemdController.session {} 2
      [.daemonReload demoUser, .restartUnit demoUser "web.service"]) tr w' results ∧
    results.map (·.2.toBool) = [true, false] ∧
    w'.table = plainProcesses.table ∧
    Conducted false plainProcesses.toProcessState results w'.toProcessState := by
  have hrun : (run processMachine 0 (goesWell 0 ++ [⟨[], .go⟩, ⟨[.exit 1 256, .finish 1], .go⟩])
      plainProcesses (SystemctlUserSystemdController.session {} 2
        [.daemonReload demoUser, .restartUnit demoUser "web.service"])).any
      (fun out => out.2.2.map (·.2.toBool) == [true, false]) = true := by decide +kernel
  obtain ⟨tr, w', results, h, hresults⟩ := exists_exec_of_run hrun
  obtain ⟨-, hconducted, htable, -⟩ := session_conducted h
  exact ⟨tr, w', results, h, by simpa using hresults, htable, hconducted⟩

/-- The status of a unit that is running. -/
theorem status_shown_active : ∃ tr w' status,
    Exec processMachine 0 plainProcesses
      (SystemctlUserSystemdController.status {} 2 demoUser "web.service").run tr w' (.ok status) ∧
    status = ⟨"web.service", "loaded", "active", "running"⟩ ∧
    ∃ c, w'.children[0]? = some c ∧ c.FinishedWell ∧ c.ended = true := by
  have hrun : (run processMachine 0 (showsStatus 0
        (renderStatus ⟨"web.service", "loaded", "active", "running"⟩)) plainProcesses
      (SystemctlUserSystemdController.status {} 2 demoUser "web.service").run).any
      (fun out => out.2.2.toOption == some ⟨"web.service", "loaded", "active", "running"⟩) =
        true := by decide +kernel
  obtain ⟨tr, w', r, h, hr⟩ := exists_exec_of_run hrun
  cases r with
  | error e => simp [Except.toOption] at hr
  | ok status =>
      have hstatus : status = ⟨"web.service", "loaded", "active", "running"⟩ := by
        simpa [Except.toOption] using hr
      obtain ⟨-, c, hc, hfinished, hended, -⟩ := status_shown h rfl (by decide)
      exact ⟨tr, w', status, h, hstatus, c, hc, hfinished, hended⟩

/-- A policy whose process could not be waited for. -/
theorem apply_reads_back_lost : ∃ tr w' e,
    Exec processMachine 0 plainProcesses (SystemctlSliceController.apply {}
      { uid := 1000, memoryMax := some "2G", tasksMax := some 512 }).run tr w' (.error e) ∧
    ∃ args, readPolicy (args.map cStr) =
        some { uid := 1000, memoryMax := some "2G", tasksMax := some 512 } ∧
      Ran plainProcesses.toProcessState args (fun _ _ => True) (.error e : Result Unit)
        w'.toProcessState := by
  have hrun : (run processMachine 0 [⟨[], .go⟩, ⟨[], .fault 10⟩] plainProcesses
      (SystemctlSliceController.apply {}
        { uid := 1000, memoryMax := some "2G", tasksMax := some 512 }).run).any
      (fun out => !out.2.2.toBool) = true := by decide +kernel
  obtain ⟨tr, w', r, h, hr⟩ := exists_exec_of_run hrun
  cases r with
  | ok u => cases hr
  | error e =>
      rcases apply_reads_back h with ⟨e', herror, -⟩ | ⟨args, -, hread, -, hran⟩
      · have hbuilt : (buildSystemctlSetPropertyArgs
            { uid := 1000, memoryMax := some "2G", tasksMax := some 512 }).toBool = true := by
          decide +kernel
        rw [herror] at hbuilt
        cases hbuilt
      · exact ⟨tr, w', e, h, args, hread, hran rfl⟩

end PodInstaller
