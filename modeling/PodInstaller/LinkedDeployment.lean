/-
**Deployments that run systemctl.**

A deployment knows the manager of a user as a controller that it can ask to reload, to restart a
unit and to show its status.  The controller that is meant to be used answers by running
`systemctl`.  Here the two are put on top of one another: the deployment calls on the kernel as
before, and its calls to the controller are answered by the processes that the controller runs.

So what is known of deployments is known of these, and in addition what they run: the processes are
those of the calls to the controller, in their order, for the user and the unit of the bundle.  A
reload or a restart that could not be observed to succeed counts as one that has failed.

Main definitions:

* `PodInstaller.managed` — what a deployment has asked its controller;
* `PodInstaller.RollbackAsks`, `PodInstaller.ActivationAsks`, `PodInstaller.DeploymentAsks` — what
  deployments ask, in which order;
* `PodInstaller.systemctlHandler`, `PodInstaller.systemctlMachine` — the controller below the
  kernel.

Main results:

* `PodInstaller.deploymentAsks_deploy` — **what a deployment asks**, however it ends;
* `PodInstaller.threaded_conducted` — the processes of what was asked;
* `PodInstaller.linked_deployment` — **what a deployment runs**;
* `PodInstaller.linked_deployment_success` — what a deployment that succeeds has run.
-/

import PodInstaller.Linking
import PodInstaller.SystemctlRuns
import PodInstaller.DeploymentSuccess

set_option relaxedAutoImplicit false
set_option autoImplicit false

namespace PodInstaller

open Bytes

/-! ### What a deployment asks -/

/-- What was asked of a controller, with the answers. -/
abbrev ManagerLog := List ((m : ManagerCall) × Result m.Answer)

/-- The calls to the controller. -/
def Sys.isManagerCall : Sys → Bool
  | .daemonReload _ => true
  | .restartUnit _ _ => true
  | .status _ _ => true
  | _ => false

/-- A call to the controller, with its answer. -/
def Sys.managed : (o : Sys) → o.Resp → Option ((m : ManagerCall) × Result m.Answer)
  | .daemonReload target => fun r => some ⟨.daemonReload target, r⟩
  | .restartUnit target unit => fun r => some ⟨.restartUnit target unit, r⟩
  | .status target unit => fun r => some ⟨.status target unit, r⟩
  | _ => fun _ => none

/-- What was asked of the controller on the way. -/
def managed {World Choice : Type} (tr : List (Event Sys.Resp World Choice)) : ManagerLog :=
  tr.filterMap fun e => e.op.managed e.resp

/-- What a rollback asks: nothing if the snapshot could not be restored, else to reload, and then
perhaps to restart the unit. -/
inductive RollbackAsks (target : PodmanTarget) (unit : Bytes) : Bool → ManagerLog → Prop
  | nothing (restarts : Bool) : RollbackAsks target unit restarts []
  | reload (restarts : Bool) (r : Result Unit) :
      RollbackAsks target unit restarts [⟨.daemonReload target, r⟩]
  | restart (r : Result UnitOperationResult) : RollbackAsks target unit true
      [⟨.daemonReload target, .ok ()⟩, ⟨.restartUnit target unit, r⟩]

/-- What is asked once the file is in place, and how the deployment ends. -/
inductive ActivationAsks (restarts : Bool) (target : PodmanTarget) (unit : Bytes) :
    ManagerLog → Except Failure DeploymentResult → Prop
  | notReloaded {e : Error} {failure : Failure} {l : ManagerLog}
      (rollback : RollbackAsks target unit false l) : ActivationAsks restarts target unit
        (⟨.daemonReload target, .error e⟩ :: l) (.error failure)
  | notRestarted {r : Result UnitOperationResult} {failure : Failure} {l : ManagerLog}
      (option : restarts = true)
      (ill : ∀ operation, r = .ok operation → deployedStatusIsHealthy operation.finalStatus = false)
      (rollback : RollbackAsks target unit true l) : ActivationAsks restarts target unit
        (⟨.daemonReload target, .ok ()⟩ :: ⟨.restartUnit target unit, r⟩ :: l) (.error failure)
  | restarted {operation : UnitOperationResult} {result : DeploymentResult}
      (option : restarts = true) (healthy : deployedStatusIsHealthy operation.finalStatus = true)
      (status : result.status = some operation.finalStatus) : ActivationAsks restarts target unit
        [⟨.daemonReload target, .ok ()⟩, ⟨.restartUnit target unit, .ok operation⟩] (.ok result)
  | shown {r : Result UnitStatus} {result : DeploymentResult} (option : restarts = false)
      (status : result.status = r.toOption) : ActivationAsks restarts target unit
        [⟨.daemonReload target, .ok ()⟩, ⟨.status target unit, r⟩] (.ok result)

/-- What a deployment asks: nothing in a dry run, or if it fails before its file is replaced. -/
inductive DeploymentAsks (options : DeploymentOptions) (target : PodmanTarget) (unit : Bytes) :
    ManagerLog → Except Failure DeploymentResult → Prop
  | failed (e : Error) : DeploymentAsks options target unit [] (.error ⟨e, none⟩)
  | dry {result : DeploymentResult} (option : options.dryRun = true) :
      DeploymentAsks options target unit [] (.ok result)
  | activated {l : ManagerLog} {r : Except Failure DeploymentResult}
      (option : options.dryRun = false)
      (asks : ActivationAsks options.restartUnit target unit l r) :
      DeploymentAsks options target unit l r

section

variable {K : Kernel} {t : ℕ} {w w' : World} {α : Type} {tr tr₁ tr₂ : Trace Sys.Resp World Choice}
variable {target : PodmanTarget} {unit : Bytes} {orchestrator : DeploymentOrchestrator}
variable {bundle : DeploymentBundle}

@[simp] theorem managed_nil : managed ([] : Trace Sys.Resp World Choice) = [] := rfl

@[simp] theorem managed_append : managed (tr₁ ++ tr₂) = managed tr₁ ++ managed tr₂ :=
  List.filterMap_append

/-- Nothing is asked by a program without such calls. -/
theorem managed_of_calls {p : SysProg α} {a : α} (h : Exec K.machine t w p tr w' a)
    (hcalls : p.Calls fun o _ => o.isManagerCall = false) : managed tr = [] := by
  rw [managed, List.filterMap_eq_nil_iff]
  intro e he
  have hop := exec_calls h hcalls e he
  obtain ⟨before, o, c, r, after⟩ := e
  cases o <;> first | rfl | cases hop

theorem noManager_of_lookups {p : SysProg α} (h : p.Calls LookupOnce) :
    p.Calls fun o _ => o.isManagerCall = false := by
  refine h.mono fun o again ho => ?_
  cases o <;> first | rfl | cases ho.1

theorem noManager_of_treeCalls {p : SysProg α} (h : TreeCalls p) :
    p.Calls fun o _ => o.isManagerCall = false := by
  refine h.mono fun o _ ho => ?_
  cases o <;> first | rfl | cases ho

theorem noManager_lockDeployment (layout : QuadletInstallLayout) (uid : UInt32) (unit : Bytes) :
    (lockDeployment layout uid unit).run.Calls fun o _ => o.isManagerCall = false := by
  have hopen : (openLock layout uid unit).run.Calls fun o _ => o.isManagerCall = false :=
    (lockCalls_openLock layout uid unit).mono fun o _ ho => by
      cases o <;> first | rfl | cases ho.1
  exact calls_exceptT_bind hopen fun fd => calls_exceptT_bind
    (calls_attempt ⟨rfl, fun _ => trivial⟩) fun _ => trivial

theorem noManager_loadImage (target : PodmanTarget) (archive : Option OpenArchive) :
    (DeploymentOrchestrator.loadImage target archive).run.Calls
      fun o _ => o.isManagerCall = false := by
  cases archive with
  | none => trivial
  | some archive =>
      refine calls_exceptT_bind ?_ fun _ => calls_exceptT_bind ?_ fun _ => trivial
      · exact calls_exceptT_bind (calls_attempt (calls_sys rfl)) fun _ => trivial
      · rw [loadImageArchiveFd_natCast]
        refine calls_exceptT_bind (calls_attempt (calls_sys rfl)) fun st => ?_
        refine calls_exceptT_bind trivial fun _ => calls_exceptT_bind trivial fun _ => ?_
        refine calls_exceptT_bind trivial fun _ => ?_
        exact calls_exceptT_bind (calls_attempt (calls_sys rfl)) fun _ => trivial

/-- A call to the controller. -/
theorem exec_manager {o : Sys} {r : o.Resp} (h : Exec K.machine t w (sys o) tr w' r) :
    managed tr = (o.managed r).toList := by
  obtain ⟨c, -, rfl⟩ := exec_sys.1 h
  cases hmanaged : o.managed r <;> simp [managed, hmanaged]

/-- **What a rollback asks.** -/
theorem rollbackAsks_rollbackError {installer : QuadletInstaller} {uid : UInt32}
    {snapshot : QuadletSnapshot} {restarts : Bool} {original : Error} {failure : Failure}
    (h : Exec K.machine t w
      (rollbackError installer target uid snapshot unit restarts original) tr w' failure) :
    RollbackAsks target unit restarts (managed tr) := by
  obtain ⟨tr₁, w₁, restored, tr₂, hrestore, hrest, rfl⟩ := exec_bind.1 h
  rw [managed_append, managed_of_calls hrestore
    (noManager_of_treeCalls (treeCalls_restoreForUser installer uid snapshot)), List.nil_append]
  cases restored with
  | error e =>
      obtain ⟨rfl, -, -⟩ := exec_ret.1 hrest
      exact .nothing restarts
  | ok u =>
      obtain ⟨tr₃, w₂, reload, tr₄, hreload, hrest, rfl⟩ := exec_bind.1 hrest
      rw [managed_append, exec_manager hreload]
      cases reload with
      | error e =>
          obtain ⟨rfl, -, -⟩ := exec_ret.1 hrest
          exact .reload restarts _
      | ok u =>
          dsimp only at hrest
          split at hrest
          · rename_i hcondition
            obtain ⟨tr₅, w₃, restart, tr₆, hrestart, hmessage, rfl⟩ := exec_bind.1 hrest
            -- what follows on the restart is put into the message
            have hnothing : managed tr₆ = [] := by
              refine managed_of_calls hmessage ?_
              cases restart with
              | error e => trivial
              | ok operation =>
                  dsimp only
                  split <;> trivial
            rw [managed_append, exec_manager hrestart, hnothing, hcondition.1]
            exact .restart restart
          · obtain ⟨rfl, -, -⟩ := exec_ret.1 hrest
            exact .reload restarts _

theorem exec_failAfterRollback {p : SysProg Failure} {r : Except Failure α}
    (h : Exec K.machine t w (failAfterRollback p : Deploy α).run tr w' r) :
    ∃ failure, r = .error failure ∧ Exec K.machine t w p tr w' failure := by
  rw [failAfterRollback, ExceptT.run_mk] at h
  obtain ⟨tr₁, w₁, failure, tr₂, hrollback, hret, rfl⟩ := exec_bind.1 h
  obtain ⟨rfl, rfl, rfl⟩ := exec_ret.1 hret
  exact ⟨failure, rfl, by rwa [List.append_nil]⟩

/-- **What is asked once the file is in place.** -/
theorem activationAsks_activate {snapshot : QuadletSnapshot} {made : DeploymentResult}
    {r : Except Failure DeploymentResult} (hmade : made.status = none)
    (h : Exec K.machine t w (orchestrator.activate bundle target snapshot made).run tr w' r) :
    ActivationAsks orchestrator.options.restartUnit target made.systemdUnit (managed tr) r := by
  unfold DeploymentOrchestrator.activate at h
  obtain ⟨tr₁, w₁, reload, tr₂, hreload, hrest, rfl⟩ := exec_observe_bind.1 h
  rw [managed_append, exec_manager hreload]
  cases reload with
  | error e =>
      obtain ⟨failure, rfl, hrollback⟩ := exec_failAfterRollback hrest
      exact .notReloaded (rollbackAsks_rollbackError hrollback)
  | ok u =>
      dsimp only at hrest
      split at hrest
      · rename_i hoption
        rw [hoption]
        obtain ⟨tr₃, w₂, operation, tr₄, hoperation, hrest, rfl⟩ := exec_observe_bind.1 hrest
        rw [managed_append, exec_manager hoperation]
        cases operation with
        | error e =>
            obtain ⟨failure, rfl, hrollback⟩ := exec_failAfterRollback hrest
            exact .notRestarted rfl (fun _ h => by cases h) (rollbackAsks_rollbackError hrollback)
        | ok operation =>
            dsimp only at hrest
            split at hrest
            · rename_i hhealthy
              obtain ⟨rfl, -, rfl⟩ := exec_ret.1 hrest
              exact .restarted rfl hhealthy rfl
            · rename_i hill
              obtain ⟨failure, rfl, hrollback⟩ := exec_failAfterRollback hrest
              refine .notRestarted rfl (fun _ h => ?_) (rollbackAsks_rollbackError hrollback)
              rw [← Except.ok.inj h]
              exact Bool.of_not_eq_true hill
      · rename_i hoption
        rw [Bool.of_not_eq_true hoption]
        obtain ⟨tr₃, w₂, status, tr₄, hstatus, hrest, rfl⟩ := exec_observe_bind.1 hrest
        rw [managed_append, exec_manager hstatus]
        cases status with
        | error e =>
            obtain ⟨rfl, -, rfl⟩ := exec_ret.1 hrest
            exact .shown rfl hmade
        | ok status =>
            obtain ⟨rfl, -, rfl⟩ := exec_ret.1 hrest
            exact .shown rfl rfl

/-- What is asked under the lock. -/
theorem deploymentAsks_deployLocked {prepared : DeploymentOrchestrator.Prepared}
    {r : Except Failure DeploymentResult} (hdry : orchestrator.options.dryRun = false)
    (hexpected : orchestrator.installer.expectedInstall bundle.targetUid bundle.quadlet =
      .ok prepared.expected)
    (h : Exec K.machine t w (orchestrator.deployLocked bundle prepared).run tr w' r) :
    DeploymentAsks orchestrator.options prepared.target prepared.expected.systemdUnit
      (managed tr) r := by
  rw [DeploymentOrchestrator.deployLocked] at h
  rcases exec_noRollback_bind.1 h with ⟨e, rfl, hsocket⟩ | ⟨tr₁, w₁, u, _, hsocket, h₁, rfl⟩
  · rw [managed_of_calls hsocket
      (noManager_of_lookups (DeploymentOrchestrator.validateSocket_looksUp _ _ _))]
    exact .failed e
  rw [managed_append, managed_of_calls hsocket
    (noManager_of_lookups (DeploymentOrchestrator.validateSocket_looksUp _ _ _)), List.nil_append]
  rcases exec_noRollback_bind.1 h₁ with ⟨e, rfl, hload⟩ | ⟨tr₂, w₂, u, _, hload, h₂, rfl⟩
  · rw [managed_of_calls hload (noManager_loadImage _ _)]
    exact .failed e
  rw [managed_append, managed_of_calls hload (noManager_loadImage _ _), List.nil_append]
  rcases exec_noRollback_bind.1 h₂ with
    ⟨e, rfl, hsnapshot⟩ | ⟨tr₃, w₃, snapshot, _, hsnapshot, h₃, rfl⟩
  · rw [managed_of_calls hsnapshot (noManager_of_treeCalls (treeCalls_snapshotForUser _ _ _))]
    exact .failed e
  rw [managed_append, managed_of_calls hsnapshot
    (noManager_of_treeCalls (treeCalls_snapshotForUser _ _ _)), List.nil_append]
  rcases exec_noRollback_bind.1 h₃ with
    ⟨e, rfl, hinstall⟩ | ⟨tr₄, w₄, installed, tr₅, hinstall, h₄, rfl⟩
  · rw [managed_of_calls hinstall (noManager_of_treeCalls (treeCalls_installForUser _ _ _))]
    exact .failed e
  rw [managed_append, managed_of_calls hinstall
    (noManager_of_treeCalls (treeCalls_installForUser _ _ _)), List.nil_append]
  obtain rfl := exec_installForUser_expected hexpected hinstall
  exact .activated hdry (activationAsks_activate rfl h₄)

/-- The user that was found under an id. -/
def FindsUser (uid : UInt32) (layout : RuntimeDirectoryLayout) (apiVersion : Bytes)
    (target : PodmanTarget) (e : Event Sys.Resp World Choice) : Prop :=
  ∃ w c pw w', e = ⟨w, .getpwuid uid, c, .ok (some pw), w'⟩ ∧ pw.uid = uid ∧
    target = makeTarget uid pw.name layout apiVersion

theorem exec_resolveUid_found {uid : UInt32} {layout : RuntimeDirectoryLayout} {apiVersion : Bytes}
    (h : Exec K.machine t w (resolveUid uid layout apiVersion).run tr w' (.ok target)) :
    ∃ e, tr = [e] ∧ FindsUser uid layout apiVersion target e := by
  rw [resolveUid] at h
  obtain ⟨tr₁, w₁, pw, tr₂, hlookup, hrest, rfl⟩ := exec_bind_ok.1 h
  obtain ⟨c, hstep, rfl⟩ := exec_sys.1 (exec_attempt_ok.1 hlookup)
  cases pw with
  | none =>
      obtain ⟨-, -, hr⟩ := exec_throw.1 hrest
      cases hr
  | some pw =>
      obtain ⟨rfl, -, hr⟩ := exec_pure.1 hrest
      have huid := System.step_getpwuid_some (Kernel.machine_step.1 hstep)
      refine ⟨_, rfl, w, c, pw, w₁, rfl, huid, ?_⟩
      rw [Except.ok.inj hr, huid]

/-- The target of a deployment is the user of its bundle, as found at the start. -/
theorem exec_prepare_target {prepared : DeploymentOrchestrator.Prepared}
    (h : Exec K.machine t w (orchestrator.prepare bundle).run tr w' (.ok prepared)) :
    ∃ e tr₁, tr = e :: tr₁ ∧ FindsUser bundle.targetUid orchestrator.options.runtimeLayout
      orchestrator.options.apiVersion prepared.target e := by
  rw [DeploymentOrchestrator.prepare] at h
  obtain ⟨-, h₁⟩ := exec_rejectIf_bind_ok.1 h
  obtain ⟨_, _, u, _, hcheck, h₂, rfl⟩ := exec_bind_ok.1 h₁
  obtain ⟨rfl, rfl, -⟩ := exec_done.1 hcheck
  obtain ⟨tr₁, w₁, target, _, htarget, h₃, rfl⟩ := exec_bind_ok.1 h₂
  obtain ⟨e, rfl, hfinds⟩ := exec_resolveUid_found htarget
  obtain ⟨_, _, expected, _, -, h₄, rfl⟩ := exec_bind_ok.1 h₃
  obtain ⟨tr₂, w₂, archive, _, -, hret, rfl⟩ := exec_bind_ok.1 h₄
  obtain ⟨-, -, hprepared⟩ := exec_pure.1 hret
  obtain rfl := Except.ok.inj hprepared
  exact ⟨e, _, rfl, hfinds⟩

/-- What a deployment has asked in a run: nothing, or it is about the user and the unit of its
bundle. -/
def Asked (orchestrator : DeploymentOrchestrator) (bundle : DeploymentBundle)
    (tr : Trace Sys.Resp World Choice) (r : Except Failure DeploymentResult) : Prop :=
  (managed tr = [] ∧ ∃ e, r = .error ⟨e, none⟩) ∨
    ∃ e ∈ tr.head?, ∃ target unit, FindsUser bundle.targetUid orchestrator.options.runtimeLayout
        orchestrator.options.apiVersion target e ∧
      serviceUnitNameFromQuadlet bundle.quadlet.fileName = .ok unit ∧
      DeploymentAsks orchestrator.options target unit (managed tr) r

/-- **What a deployment asks**, however it ends. -/
theorem deploymentAsks_deploy {r : Except Failure DeploymentResult}
    (h : Exec K.machine t w (orchestrator.deploy bundle).run tr w' r) :
    Asked orchestrator bundle tr r := by
  rw [DeploymentOrchestrator.run_deploy] at h
  obtain ⟨tr₁, w₁, prepared, trRest, hprepare, hrest, rfl⟩ := exec_bind.1 h
  have hnone : managed tr₁ = [] := managed_of_calls hprepare
    (noManager_of_lookups (DeploymentOrchestrator.prepare_looksUp _ _))
  cases prepared with
  | error e =>
      obtain ⟨rfl, -, rfl⟩ := exec_ret.1 hrest
      exact .inl ⟨by rw [List.append_nil, hnone], e, rfl⟩
  | ok prepared =>
      obtain ⟨-, -, hexpected, -⟩ := exec_prepare_ok hprepare
      obtain ⟨e, trUser, rfl, hfinds⟩ := exec_prepare_target hprepare
      obtain ⟨-, -, hunit, -⟩ := QuadletInstaller.expectedInstall_eq_ok.1 hexpected
      refine .inr ⟨e, rfl, prepared.target, prepared.expected.systemdUnit, hfinds, hunit, ?_⟩
      rw [managed_append, hnone, List.nil_append]
      rw [DeploymentOrchestrator.afterPrepare] at hrest
      split at hrest
      · rename_i hdry
        obtain ⟨rfl, -, rfl⟩ := exec_ret.1 hrest
        exact .dry hdry
      · rename_i hdry
        rw [DeploymentOrchestrator.deployFromLock] at hrest
        rcases exec_noRollback_bind.1 hrest with ⟨e, rfl, hlock⟩ | ⟨tr₂, w₂, fd, _, hlock, h₂, rfl⟩
        · rw [managed_of_calls hlock (noManager_lockDeployment _ _ _)]
          exact .failed e
        obtain ⟨tr₃, w₃, r', tr₄, hlocked, hclose, rfl⟩ := exec_observe_bind.1 h₂
        obtain ⟨tr₅, w₄, _, tr₆, hclosed, hret, rfl⟩ := exec_observe_bind.1 hclose
        obtain ⟨rfl, -, rfl⟩ := exec_ret.1 hret
        obtain ⟨c, -, rfl⟩ := exec_sys.1 hclosed
        rw [managed_append, managed_of_calls hlock (noManager_lockDeployment _ _ _),
          List.nil_append, managed_append]
        have hclose : managed ([⟨w₃, .close fd, c, (), w₄⟩] ++ [] : Trace Sys.Resp World Choice) =
            [] := rfl
        rw [hclose, List.append_nil]
        exact deploymentAsks_deployLocked (Bool.of_not_eq_true hdry) hexpected hlocked

/-! ### Calls that are made once -/

/-- The controller is asked once. -/
def ManagerOnce (o : Sys) (again : o.Resp → Bool) : Prop :=
  o.isManagerCall = true → ∀ r, again r = false

theorem managerOnce_of_noManager {p : SysProg α}
    (h : p.Calls fun o _ => o.isManagerCall = false) : p.Calls ManagerOnce :=
  h.mono fun o _ ho hcall => by
    rw [ho] at hcall
    cases hcall

theorem managerOnce_sys (o : Sys) : (sys o).Calls ManagerOnce := calls_sys fun _ _ => rfl

theorem managerOnce_rollbackError (installer : QuadletInstaller) (target : PodmanTarget)
    (uid : UInt32) (snapshot : QuadletSnapshot) (unit : Bytes) (restarts : Bool)
    (original : Error) :
    (rollbackError installer target uid snapshot unit restarts original).Calls ManagerOnce := by
  refine Prog.calls_bind (managerOnce_of_noManager
    (noManager_of_treeCalls (treeCalls_restoreForUser installer uid snapshot))) fun r => ?_
  cases r with
  | error e => trivial
  | ok u =>
      refine Prog.calls_bind (managerOnce_sys _) fun reload => ?_
      cases reload with
      | error e => trivial
      | ok u =>
          dsimp only
          split
          · refine Prog.calls_bind (managerOnce_sys _) fun restart => ?_
            cases restart with
            | error e => trivial
            | ok operation =>
                dsimp only
                split <;> trivial
          · trivial

theorem managerOnce_activate (orchestrator : DeploymentOrchestrator) (bundle : DeploymentBundle)
    (target : PodmanTarget) (snapshot : QuadletSnapshot) (made : DeploymentResult) :
    (orchestrator.activate bundle target snapshot made).run.Calls ManagerOnce := by
  have hrollback : ∀ restarts e, (failAfterRollback (rollbackError orchestrator.installer target
      bundle.targetUid snapshot made.systemdUnit restarts e) :
        Deploy DeploymentResult).run.Calls ManagerOnce :=
    fun restarts e => Prog.calls_bind (managerOnce_rollbackError _ _ _ _ _ _ _) fun _ => trivial
  refine calls_exceptT_bind (calls_observe (managerOnce_sys _)) fun reload => ?_
  cases reload with
  | error e => exact hrollback _ _
  | ok u =>
      dsimp only
      split
      · refine calls_exceptT_bind (calls_observe (managerOnce_sys _)) fun operation => ?_
        cases operation with
        | error e => exact hrollback _ _
        | ok operation =>
            dsimp only
            split
            · trivial
            · exact hrollback _ _
      · refine calls_exceptT_bind (calls_observe (managerOnce_sys _)) fun status => ?_
        cases status <;> trivial

theorem managerOnce_deployLocked (orchestrator : DeploymentOrchestrator)
    (bundle : DeploymentBundle) (prepared : DeploymentOrchestrator.Prepared) :
    (orchestrator.deployLocked bundle prepared).run.Calls ManagerOnce := by
  refine calls_exceptT_bind (calls_noRollback (managerOnce_of_noManager
    (noManager_of_lookups (DeploymentOrchestrator.validateSocket_looksUp _ _ _)))) fun _ => ?_
  refine calls_exceptT_bind (calls_noRollback (managerOnce_of_noManager
    (noManager_loadImage _ _))) fun _ => ?_
  refine calls_exceptT_bind (calls_noRollback (managerOnce_of_noManager
    (noManager_of_treeCalls (treeCalls_snapshotForUser _ _ _)))) fun snapshot => ?_
  refine calls_exceptT_bind (calls_noRollback (managerOnce_of_noManager
    (noManager_of_treeCalls (treeCalls_installForUser _ _ _)))) fun installed => ?_
  exact managerOnce_activate _ _ _ _ _

/-- **A deployment asks its controller once** for each thing that it asks. -/
theorem managerOnce_deploy (orchestrator : DeploymentOrchestrator) (bundle : DeploymentBundle) :
    (orchestrator.deploy bundle).run.Calls ManagerOnce := by
  refine calls_exceptT_bind (calls_noRollback (managerOnce_of_noManager
    (noManager_of_lookups (DeploymentOrchestrator.prepare_looksUp _ _)))) fun prepared => ?_
  split
  · trivial
  · refine calls_exceptT_bind (calls_noRollback (managerOnce_of_noManager
      (noManager_lockDeployment _ _ _))) fun fd => ?_
    refine calls_exceptT_bind (calls_observe (managerOnce_deployLocked _ _ _)) fun r => ?_
    exact calls_exceptT_bind (calls_observe (managerOnce_sys _)) fun _ => trivial

end

/-! ### The controller below the kernel -/

/-- The controller that runs `systemctl` answers what a deployment asks.  What is left open is
whether a restart that fails leaves the unit running. -/
def systemctlHandler (reads : ℕ) : Handler Sys.Resp Proc.Resp Choice Bool where
  prog
    | .daemonReload target =>
      some (SystemctlUserSystemdController.daemonReload {} target).run
    | .restartUnit target unit =>
      some (SystemctlUserSystemdController.restartUnit {} reads target unit).run
    | .status target unit =>
      some (SystemctlUserSystemdController.status {} reads target unit).run
    | _ => none
  choose
    | .daemonReload _ => fun r _ => .reload r
    | .restartUnit _ _ => fun r leavesRunning => .restart r leavesRunning
    | .status _ _ => fun r _ => .status r
    | _ => fun _ _ => .go

/-- The kernel, with a controller that runs `systemctl`. -/
def systemctlMachine (K : Kernel) (reads : ℕ) :
    Machine Sys.Resp (World × Processes) (LinkChoice Choice ProcChoice Bool) :=
  K.machine.link processMachine (systemctlHandler reads)

/-- What is recorded of a call. -/
abbrev LinkedEvent := Event Sys.Resp (World × Processes) (LinkChoice Choice ProcChoice Bool)

section

variable {K : Kernel} {reads t : ℕ} {w w' : World × Processes} {tr : List LinkedEvent}
variable {orchestrator : DeploymentOrchestrator} {bundle : DeploymentBundle}
variable {s s' : ProcessState}

/-- The managers give the answers that the processes have given. -/
theorem systemctlHandler_lawful : (systemctlHandler reads).Lawful K.machine := by
  intro t w o r x r' w' hsome hstep
  have hstep := Kernel.machine_step.1 hstep
  cases o with
  | daemonReload target =>
      cases r with
      | ok u => exact (congrArg Prod.fst (Option.some.inj hstep)).symm
      | error e => exact (congrArg Prod.fst (Option.some.inj hstep)).symm
  | restartUnit target unit => exact (congrArg Prod.fst (Option.some.inj hstep)).symm
  | status target unit => exact (congrArg Prod.fst (Option.some.inj hstep)).symm
  | _ => cases hsome

/-- **The processes of what was asked.** -/
theorem threaded_conducted {v v' : Processes}
    (h : (systemctlHandler reads).Threaded processMachine t v tr v') :
    Conducted false v.toProcessState (managed tr) v'.toProcessState := by
  induction h with
  | nil v => exact .nil _
  | @direct v v' e tr hnone rest ih =>
      obtain ⟨before, o, c, r, after⟩ := e
      have hskip : managed (⟨before, o, c, r, after⟩ :: tr) = managed tr := by
        cases o <;> first | rfl | cases hnone
      rw [hskip]
      exact ih
  | @handled v v₁ v' e p tr inner hsome hexec rest ih =>
      obtain ⟨before, o, c, r, after⟩ := e
      have hmanage : ∀ m : ManagerCall, ∀ {r}, Exec processMachine t v
          (SystemctlUserSystemdController.manage {} reads m).run inner v₁ r →
          Carried v.toProcessState (planned false m.plan) (m.Reported false v.toProcessState) r
            v₁.toProcessState :=
        fun m r h => (SystemctlUserSystemdController.ensures_manage {} reads m).exec h
      cases o with
      | daemonReload target =>
          obtain rfl := Option.some.inj hsome
          exact .cons (hmanage (.daemonReload target) hexec) ih
      | restartUnit target unit =>
          obtain rfl := Option.some.inj hsome
          exact .cons (hmanage (.restartUnit target unit) hexec) ih
      | status target unit =>
          obtain rfl := Option.some.inj hsome
          exact .cons (hmanage (.status target unit) hexec) ih
      | _ => cases hsome

theorem managed_outer :
    managed (tr.map (Event.outer (systemctlHandler reads))) = managed tr := by
  rw [managed, managed, List.filterMap_map]
  rfl

/-- A run of a deployment, on the kernel and on the processes. -/
theorem exec_systemctl {r : Except Failure DeploymentResult}
    (h : Exec (systemctlMachine K reads) t w (orchestrator.deploy bundle).run tr w' r) :
    Exec K.machine t w.1 (orchestrator.deploy bundle).run
        (tr.map (Event.outer (systemctlHandler reads))) w'.1 r ∧
      Conducted false w.2.toProcessState (managed tr) w'.2.toProcessState := by
  have hcalls : (orchestrator.deploy bundle).run.Calls fun o again =>
      ((systemctlHandler reads).prog o).isSome → ∀ r, again r = false := by
    refine (managerOnce_deploy orchestrator bundle).mono fun o again honce hsome => ?_
    refine honce ?_
    cases o <;> first | rfl | cases hsome
  exact ⟨h.outer systemctlHandler_lawful,
    threaded_conducted (h.threaded systemctlHandler_lawful hcalls)⟩

/-- The commands for a unit of a user. -/
def UnitCommand (userName unit : Bytes) (words : List Bytes) : Prop :=
  words = userWords userName "daemon-reload" none ∨
    words = userWords userName "restart" (some unit) ∨ words = showWords userName unit

/-- What was run for a unit of a user: a few of the commands for it, and the descriptors of the
controller are what they were. -/
structure RanCommands (s : ProcessState) (userName unit : Bytes) (s' : ProcessState) : Prop where
  table : s'.table = s.table
  few : s'.children.length ≤ s.children.length + 6
  words : ∃ commands : List (List Bytes),
    s'.log.map Prod.fst = s.log.map Prod.fst ++ commands.map (·.map cStr) ∧
    ∀ command ∈ commands, UnitCommand userName unit command

/-- The commands that are there to be run for what was asked. -/
def plannedCommands (l : ManagerLog) : List (List Bytes) := l.flatMap (·.1.plan)

@[simp] theorem plannedCommands_nil : plannedCommands [] = [] := rfl

@[simp] theorem plannedCommands_daemonReload {target : PodmanTarget} {r : Result Unit}
    {l : ManagerLog} : plannedCommands (⟨.daemonReload target, r⟩ :: l) =
      userWords target.userName "daemon-reload" none :: plannedCommands l := rfl

@[simp] theorem plannedCommands_restartUnit {target : PodmanTarget} {unit : Bytes}
    {r : Result UnitOperationResult} {l : ManagerLog} :
    plannedCommands (⟨.restartUnit target unit, r⟩ :: l) =
      userWords target.userName "restart" (some unit) :: showWords target.userName unit ::
        plannedCommands l := rfl

@[simp] theorem plannedCommands_status {target : PodmanTarget} {unit : Bytes}
    {r : Result UnitStatus} {l : ManagerLog} : plannedCommands (⟨.status target unit, r⟩ :: l) =
      showWords target.userName unit :: plannedCommands l := rfl

/-- What was run is among what was planned. -/
theorem PartRun.flatten {parts : List (List (List Bytes))} {results : ManagerLog}
    (h : List.Forall₂ (PartRun false) parts results) :
    parts.flatten.length ≤ (plannedCommands results).length ∧
      ∀ command ∈ parts.flatten, command ∈ plannedCommands results := by
  induction h with
  | nil => exact ⟨le_rfl, fun _ h => h⟩
  | @cons part result parts results first rest ih =>
      have hinitial : part <+: result.1.plan := first.1
      rw [plannedCommands, List.flatten_cons, List.flatMap_cons, List.length_append,
        List.length_append]
      refine ⟨Nat.add_le_add hinitial.length_le ih.1, fun command hcommand => ?_⟩
      rcases List.mem_append.1 hcommand with hmem | hmem
      · exact List.mem_append_left _ (hinitial.subset hmem)
      · exact List.mem_append_right _ (ih.2 command hmem)

/-- What a rollback runs at most. -/
theorem RollbackAsks.commands {target : PodmanTarget} {unit : Bytes} {restarts : Bool}
    {l : ManagerLog} (h : RollbackAsks target unit restarts l) :
    (plannedCommands l).length ≤ 3 ∧ (restarts = false → (plannedCommands l).length ≤ 1) ∧
      ∀ command ∈ plannedCommands l, UnitCommand target.userName unit command := by
  cases h with
  | nothing => simp
  | reload => simp [UnitCommand]
  | restart r => simp [UnitCommand]

/-- What a deployment runs at most. -/
theorem DeploymentAsks.commands {options : DeploymentOptions} {target : PodmanTarget}
    {unit : Bytes} {l : ManagerLog} {r : Except Failure DeploymentResult}
    (h : DeploymentAsks options target unit l r) :
    (plannedCommands l).length ≤ 6 ∧
      ∀ command ∈ plannedCommands l, UnitCommand target.userName unit command := by
  cases h with
  | failed => simp
  | dry => simp
  | activated option asks =>
      cases asks with
      | notReloaded rollback =>
          obtain ⟨-, hfew, hcommands⟩ := rollback.commands
          have hfew := hfew rfl
          simp only [plannedCommands_daemonReload, List.length_cons, List.forall_mem_cons]
          exact ⟨by omega, .inl rfl, hcommands⟩
      | notRestarted option ill rollback =>
          obtain ⟨hfew, -, hcommands⟩ := rollback.commands
          simp only [plannedCommands_daemonReload, plannedCommands_restartUnit, List.length_cons,
            List.forall_mem_cons]
          exact ⟨by omega, .inl rfl, .inr (.inl rfl), .inr (.inr rfl), hcommands⟩
      | restarted => simp [UnitCommand]
      | shown => simp [UnitCommand]

/-- What was run for what was asked. -/
theorem Conducted.ranCommands {results : ManagerLog} {userName unit : Bytes}
    (h : Conducted false s results s') (hfew : (plannedCommands results).length ≤ 6)
    (hcommands : ∀ command ∈ plannedCommands results, UnitCommand userName unit command) :
    RanCommands s userName unit s' := by
  obtain ⟨htable, -, parts, hparts, hlog⟩ := h.ran
  obtain ⟨hlen, hmem⟩ := PartRun.flatten hparts
  refine ⟨htable, ?_, parts.flatten, hlog, fun command h => hcommands _ (hmem _ h)⟩
  have hcount := congrArg List.length hlog
  rw [List.length_append, List.length_map, List.length_map, List.length_map, length_log,
    length_log] at hcount
  omega

/-- **What a deployment runs.**  It is a deployment on the kernel.  If it has asked for anything, it
has run at most six commands, all of them for the unit of its file and the user that was found under
the id of the bundle, rollback included; otherwise it has run none. -/
theorem linked_deployment {r : Except Failure DeploymentResult}
    (h : Exec (systemctlMachine K reads) t w (orchestrator.deploy bundle).run tr w' r) :
    Exec K.machine t w.1 (orchestrator.deploy bundle).run
        (tr.map (Event.outer (systemctlHandler reads))) w'.1 r ∧
      w'.2.table = w.2.table ∧
      (w'.2.children.length = w.2.children.length ∨
        ∃ e ∈ (tr.map (Event.outer (systemctlHandler reads))).head?, ∃ target unit,
          FindsUser bundle.targetUid orchestrator.options.runtimeLayout
            orchestrator.options.apiVersion target e ∧
          serviceUnitNameFromQuadlet bundle.quadlet.fileName = .ok unit ∧
          DeploymentAsks orchestrator.options target unit (managed tr) r ∧
          RanCommands w.2.toProcessState target.userName unit w'.2.toProcessState) := by
  obtain ⟨hexec, hconducted⟩ := exec_systemctl h
  refine ⟨hexec, hconducted.ran.1, ?_⟩
  rcases deploymentAsks_deploy hexec with ⟨hnone, -⟩ | ⟨e, he, target, unit, huser, hunit, hasks⟩
  · rw [managed_outer] at hnone
    rw [hnone] at hconducted
    obtain ⟨-, -, parts, hparts, hlog⟩ := hconducted.ran
    cases hparts
    have hcount := congrArg List.length hlog
    left
    simpa [length_log] using hcount
  · rw [managed_outer] at hasks
    obtain ⟨hfew, hcommands⟩ := hasks.commands
    exact .inr ⟨e, he, target, unit, huser, hunit, hasks, hconducted.ranCommands hfew hcommands⟩

/-- What a deployment has run that succeeds after a restart. -/
structure RanRestart (s : ProcessState) (target : PodmanTarget) (unit : Bytes)
    (result : DeploymentResult) (s' : ProcessState) : Prop where
  operated : Operated s [userWords target.userName "daemon-reload" none,
    userWords target.userName "restart" (some unit), showWords target.userName unit] 3 3 s'
  shown : ∃ c, s'.children[s.children.length + 2]? = some c ∧ c.ended = true ∧
    result.status = some (parseShowStatus unit c.printed) ∧
    lastValue "LoadState" (pieces (ch '\n') c.printed) = "loaded" ∧
    lastValue "ActiveState" (pieces (ch '\n') c.printed) = "active"

/-- The processes of a reload and a restart that have both succeeded. -/
theorem Conducted.ranRestart {target : PodmanTarget} {unit : Bytes}
    {operation : UnitOperationResult} {result : DeploymentResult}
    (h : Conducted false s
      [⟨.daemonReload target, .ok ()⟩, ⟨.restartUnit target unit, .ok operation⟩] s')
    (hhealthy : deployedStatusIsHealthy operation.finalStatus = true)
    (hstatus : result.status = some operation.finalStatus) :
    RanRestart s target unit result s' := by
  cases h with
  | @cons _ s₁ _ _ _ _ hreload hrest =>
      cases hrest with
      | cons hrestart hnil =>
          cases hnil
          have hlen := hreload.1.length
          obtain ⟨hoperated, -, c, output, hc, hcaptured, hshown⟩ := hreload.append hrestart
          rw [deployedStatusIsHealthy, Bool.and_eq_true, beq_iff_eq, beq_iff_eq, hshown,
            parseShowStatus_eq] at hhealthy
          -- without a standard output nothing is printed, and no unit is healthy
          have hout : s₁.table STDOUT_FILENO ≠ none := by
            intro hclosed
            rw [CapturedOutput, hclosed, if_neg (by simp)] at hcaptured
            have hloaded : lastValue "LoadState" (pieces (ch '\n') []) = "loaded" :=
              hcaptured ▸ hhealthy.1
            exact absurd hloaded (by decide)
          rw [CapturedOutput, if_pos hout] at hcaptured
          obtain ⟨hended, rfl⟩ := hcaptured
          refine ⟨hoperated, c, ?_, hended, by rw [hstatus, hshown], hhealthy⟩
          rw [← hc, hlen]
          rfl

/-- The contents of a deployment that has succeeded are in place. -/
theorem installed_of_deploy_ok {K : Kernel} {w w' : World} {tr : Trace Sys.Resp World Choice}
    {result : DeploymentResult} (hroot : orchestrator.installer.layout.adminUserRoot = K.adminRoot)
    (hdry : orchestrator.options.dryRun = false)
    (h : Exec K.machine t w (orchestrator.deploy bundle).run tr w' (.ok result)) :
    w'.look bundle.targetUid bundle.quadlet.fileName =
      some (.regular bundle.quadlet.contents) := by
  obtain ⟨_, _, prepared, _, _, _, _, _, _, hprepare, -⟩ := exec_deploy_ok hdry h
  obtain ⟨-, -, hexpected, -⟩ := exec_prepare_ok hprepare
  -- a deployment that runs alone has replaced its file
  rcases deploy_alone hroot hdry (visible_of_expectedInstall hexpected) h with ⟨e, he, -⟩ | hnew
  · cases he
  · exact hnew.new

/-- The processes of a deployment that succeeds after a restart. -/
theorem ranRestart_of_deploy_ok {result : DeploymentResult}
    (hdry : orchestrator.options.dryRun = false)
    (hrestart : orchestrator.options.restartUnit = true)
    (h : Exec (systemctlMachine K reads) t w (orchestrator.deploy bundle).run tr w' (.ok result)) :
    ∃ e ∈ (tr.map (Event.outer (systemctlHandler reads))).head?, ∃ target,
      FindsUser bundle.targetUid orchestrator.options.runtimeLayout
        orchestrator.options.apiVersion target e ∧
      RanRestart w.2.toProcessState target (bundle.serviceName ++ ofString ".service") result
        w'.2.toProcessState := by
  obtain ⟨hexec, hconducted⟩ := exec_systemctl h
  obtain ⟨_, _, prepared, _, _, _, _, _, _, hprepare, -⟩ := exec_deploy_ok hdry hexec
  obtain ⟨hbundle, -, -, -⟩ := exec_prepare_ok hprepare
  obtain ⟨-, -, hservice⟩ := validateDeploymentBundle_ok hbundle
  rcases deploymentAsks_deploy hexec with ⟨-, e, he⟩ | ⟨e, he, target, unit, huser, hunit, hasks⟩
  · cases he
  · rw [managed_outer] at hasks
    obtain rfl := Except.ok.inj (hunit.symm.trans hservice)
    refine ⟨e, he, target, huser, ?_⟩
    generalize managed tr = l at hasks hconducted
    cases hasks with
    | dry hoption =>
        rw [hdry] at hoption
        cases hoption
    | activated _ hasks =>
        rw [hrestart] at hasks
        cases hasks with
        | restarted _ hhealthy hstatus => exact hconducted.ranRestart hhealthy hstatus
        | shown hoption => cases hoption

/-- **What a deployment has run that succeeds**: the manager of the user that was found has reloaded
and has restarted the unit, each by a process that has exited well, and afterwards `systemctl show`
has printed that the unit is loaded and active.  The contents of the bundle are in place. -/
theorem linked_deployment_success {result : DeploymentResult}
    (hroot : orchestrator.installer.layout.adminUserRoot = K.adminRoot)
    (hdry : orchestrator.options.dryRun = false)
    (hrestart : orchestrator.options.restartUnit = true)
    (h : Exec (systemctlMachine K reads) t w (orchestrator.deploy bundle).run tr w' (.ok result)) :
    (∃ e ∈ (tr.map (Event.outer (systemctlHandler reads))).head?, ∃ target,
      FindsUser bundle.targetUid orchestrator.options.runtimeLayout
        orchestrator.options.apiVersion target e ∧
      RanRestart w.2.toProcessState target (bundle.serviceName ++ ofString ".service") result
        w'.2.toProcessState) ∧
    w'.1.look bundle.targetUid bundle.quadlet.fileName =
      some (.regular bundle.quadlet.contents) :=
  ⟨ranRestart_of_deploy_ok hdry hrestart h,
    installed_of_deploy_ok hroot hdry (exec_systemctl h).1⟩

end

/-! ### Runs -/

/-- The processes of a unit that is healthy after its restart. -/
def healthyProcesses : List (LinkChoice Choice ProcChoice Bool) :=
  [.handled (goesWell 0) false,
    .handled (goesWell 1 ++ showsStatus 2
      (renderStatus ⟨"web.service", "loaded", "active", "running"⟩)) false,
    .direct .go]

theorem linked_deployment_success_web : ∃ tr w' result,
    Exec (systemctlMachine defaultKernel 2) 0 (emptyWorld, plainProcesses)
      (DeploymentOrchestrator.deploy { installer := {} } webBundle).run tr w' (.ok result) ∧
    w'.1.look 1000 webQuadlet.fileName = some (.regular webQuadlet.contents) ∧
    ∃ target : PodmanTarget, RanRestart plainProcesses.toProcessState target "web.service" result
      w'.2.toProcessState := by
  have hrun : (run (systemctlMachine defaultKernel 2) 0
      (untilReload.map .direct ++ healthyProcesses) (emptyWorld, plainProcesses)
      (DeploymentOrchestrator.deploy { installer := {} } webBundle).run).any
        (fun out => out.2.2.toBool) = true := by decide +kernel
  obtain ⟨tr, w', r, h, hr⟩ := exists_exec_of_run hrun
  cases r with
  | error failure => cases hr
  | ok result =>
      obtain ⟨⟨e, -, target, -, hran⟩, hlook⟩ :=
        linked_deployment_success rfl rfl rfl h
      exact ⟨tr, w', result, h, hlook, target, hran⟩

/-- The first `systemctl` could not be spawned; the rollback restores the file and reloads. -/
theorem linked_deployment_rolled_back : ∃ tr w' failure,
    Exec (systemctlMachine defaultKernel 2) 0 (emptyWorld, plainProcesses)
      (DeploymentOrchestrator.deploy { installer := {} } webBundle).run tr w' (.error failure) ∧
    w'.2.table = plainProcesses.table ∧
    ∃ userName unit, RanCommands plainProcesses.toProcessState userName unit
      w'.2.toProcessState := by
  have hrun : (run (systemctlMachine defaultKernel 2) 0
      (untilReload.map .direct ++ .handled [⟨[], .fault 2⟩] false ::
        (List.replicate 11 (.direct .go) ++ [.handled (goesWell 0) false, .direct .go]))
      (emptyWorld, plainProcesses)
      (DeploymentOrchestrator.deploy { installer := {} } webBundle).run).any
        (fun out => !out.2.2.toBool && decide (out.2.1.2.children.length = 1)) = true := by
    decide +kernel
  obtain ⟨tr, w', r, h, hr⟩ := exists_exec_of_run hrun
  rw [Bool.and_eq_true, decide_eq_true_eq] at hr
  cases r with
  | ok result => cases hr.1
  | error failure =>
      obtain ⟨-, htable, hnone | ⟨e, -, target, unit, -, -, -, hran⟩⟩ := linked_deployment h
      · rw [hr.2] at hnone
        cases hnone
      · exact ⟨tr, w', failure, h, htable, target.userName, unit, hran⟩

end PodInstaller
