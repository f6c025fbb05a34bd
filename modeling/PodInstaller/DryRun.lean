/-
**What a dry run says about the run.**

A dry run of a deployment returns after the bundle has been checked, the user looked up, the Quadlet
judged and the image archive opened.  It makes no call that changes anything.  A run that is not dry
starts in the same way, so that with the same answers of the environment it fails with the same
error, or goes on to take the lock.  From there the name and the policy of the Quadlet are checked
again, by `snapshot_for_user` and `install_for_user`; these checks have been made before with the
same outcome, and no other error behind the lock is one of policy.

Main definitions:

* `PodInstaller.DeploymentOrchestrator.withDryRun` — the two runs that are compared;
* `PodInstaller.DeploymentOrchestrator.deployFromLock` — what a dry run leaves out;
* `PodInstaller.NotPolicy`, `PodInstaller.ControllerAnswers`, `PodInstaller.Behaves` — programs that
  return no error of policy;
* `PodInstaller.DryRunPredicts` — what a dry run says.

Main results:

* `PodInstaller.DeploymentOrchestrator.keepsTo_deployFromLock` — how a deployment ends that has been
  prepared;
* `PodInstaller.dryRun_predicts` — **a dry run predicts the run**.
-/

import PodInstaller.DeploymentSpec

set_option relaxedAutoImplicit false
set_option autoImplicit false

namespace PodInstaller

open Bytes

/- Statements about errors are made under an assumption, `polite`: that the systemd controller
itself returns no error of policy.  Statements about results are not. -/
variable {polite : Prop}

/-! ### Errors that are not of policy -/

/-- A result that is not an error of policy, under an assumption. -/
def NotPolicy (polite : Prop) {α : Type} (r : Result α) : Prop :=
  ∀ e, r = .error e → polite → e.kind ≠ .policy

/-- The systemd controller returns no error of policy, under an assumption. -/
def ControllerAnswers (polite : Prop) : (o : Sys) → o.Resp → Prop
  | .daemonReload _ => fun r => NotPolicy polite r
  | .restartUnit _ _ => fun r => NotPolicy polite r
  | .status _ _ => fun r => NotPolicy polite r
  | _ => fun _ => True

theorem ControllerAnswers.of_true {o : Sys} {r : o.Resp}
    (h : polite → ControllerAnswers True o r) : ControllerAnswers polite o r := by
  cases o with
  | daemonReload target => exact fun e he hpolite => h hpolite e he trivial
  | restartUnit target unit => exact fun e he hpolite => h hpolite e he trivial
  | status target unit => exact fun e he hpolite => h hpolite e he trivial
  | _ => trivial

/-- A program that returns no error of policy unless the controller does. -/
abbrev Behaves (polite : Prop) {α : Type} (x : Action α) : Prop :=
  x.run.Ends (ControllerAnswers polite) (NotPolicy polite)

section

variable {α β ε : Type}

theorem notPolicy_ok (a : α) : NotPolicy polite (.ok a) := fun e he => by cases he

theorem notPolicy_error {e : Error} :
    NotPolicy polite (.error e : Result α) ↔ (polite → e.kind ≠ .policy) := by
  constructor
  · intro h
    exact h e rfl
  · intro h e' he
    rwa [← Except.error.inj he]

@[simp] theorem makeError_kind (kind : ErrorKind) (message : Bytes) (httpStatus : ℤ)
    (osErrno transportCode : ℕ) :
    (makeError kind message httpStatus osErrno transportCode).kind = kind := rfl

@[simp] theorem sysError_kind (what : Bytes) (e : Errno) :
    (sysError what e).kind = .filesystem := rfl

@[simp] theorem curlError_kind (failure : CurlFailure) : (curlError failure).kind = .transport := by
  cases failure <;> rfl

theorem behaves_bind {x : Action α} {f : α → Action β} (hx : Behaves polite x)
    (hf : ∀ a, Behaves polite (f a)) : Behaves polite (x >>= f) := by
  refine ends_exceptT_bind hx (fun e he => ?_) fun a _ => hf a
  exact notPolicy_error.2 (notPolicy_error.1 he)

theorem behaves_pure (a : α) : Behaves polite (pure a : Action α) := notPolicy_ok a

theorem behaves_throw {e : Error} (he : polite → e.kind ≠ .policy) :
    Behaves polite (throw e : Action α) :=
  notPolicy_error.2 he

theorem behaves_done {r : Result α} (hr : NotPolicy polite r) : Behaves polite (done r) := hr

theorem behaves_rejectIf {p : Prop} [Decidable p] {e : Error} (he : polite → e.kind ≠ .policy) :
    Behaves polite (rejectIf p e) := by
  refine behaves_done ?_
  unfold reject
  split
  · exact notPolicy_error.2 he
  · exact notPolicy_ok _

theorem behaves_attempt {call : SysProg (Except ε α)} {error : ε → Error}
    (he : ∀ n, polite → (error n).kind ≠ .policy) : Behaves polite (attempt call error) := by
  refine Prog.ends_bind (Prog.ends_of_forall (P := fun _ => True) (fun _ => trivial) call)
    fun r _ => ?_
  cases r with
  | ok a => exact notPolicy_ok a
  | error n => exact notPolicy_error.2 (he n)

/-- A call whose answer the function looks at itself. -/
theorem behaves_call_bind {o : Sys} {f : o.Resp → Action β}
    (hf : ∀ r, ControllerAnswers polite o r → Behaves polite (f r)) :
    Behaves polite (call o >>= f) := by
  rw [Behaves, run_exceptT_bind]
  intro r hr
  exact hf r hr

/-- A function whose result the caller looks at itself. -/
theorem behaves_outcome_bind {x : Action α} {f : Result α → Action β} (hx : Behaves polite x)
    (hf : ∀ r, NotPolicy polite r → Behaves polite (f r)) : Behaves polite (outcome x >>= f) := by
  refine ends_exceptT_bind (P := fun r => ∃ r', r = .ok r' ∧ NotPolicy polite r') ?_ ?_ ?_
  · exact Prog.ends_bind hx fun r hr => ⟨r, rfl, hr⟩
  · rintro e ⟨r, hr, -⟩
    cases hr
  · rintro r ⟨r', hr, hnot⟩
    obtain rfl := Except.ok.inj hr
    exact hf r hnot

end

/-! ### The functions behind the lock -/

theorem behaves_validateOwnerIfRequired (fd : Fd) (layout : QuadletInstallLayout)
    (description : Bytes) : Behaves polite (validateOwnerIfRequired fd layout description) := by
  refine behaves_bind (behaves_attempt (by simp)) fun st => ?_
  exact behaves_bind (behaves_rejectIf (by simp)) fun _ => behaves_rejectIf (by simp)

theorem behaves_makeLocks (rootFd : Fd) : Behaves polite (makeLocks rootFd) := by
  refine behaves_call_bind fun made _ => ?_
  cases made with
  | ok u => exact behaves_pure ()
  | error e => exact behaves_rejectIf (by simp)

theorem behaves_lockDeployment (layout : QuadletInstallLayout) (uid : UInt32) (unit : Bytes) :
    Behaves polite (lockDeployment layout uid unit) := by
  refine behaves_bind ?_ fun lockFd =>
    behaves_bind (behaves_attempt (by simp)) fun _ => behaves_pure lockFd
  refine behaves_bind (behaves_attempt (by simp)) fun _ => ?_
  refine behaves_bind (behaves_attempt (by simp)) fun rootFd => ?_
  refine behaves_bind (behaves_validateOwnerIfRequired _ _ _) fun _ => ?_
  refine behaves_bind (behaves_makeLocks rootFd) fun _ => ?_
  refine behaves_bind (behaves_attempt (by simp)) fun dirFd => ?_
  refine behaves_bind (behaves_validateOwnerIfRequired _ _ _) fun _ => ?_
  exact behaves_bind (behaves_attempt (by simp)) fun _ => behaves_attempt (by simp)

theorem behaves_validateSocket (options : DeploymentOptions) (bundle : DeploymentBundle)
    (target : PodmanTarget) :
    Behaves polite (DeploymentOrchestrator.validateSocket options bundle target) := by
  unfold DeploymentOrchestrator.validateSocket
  split
  · refine behaves_bind (behaves_rejectIf (by simp)) fun _ => ?_
    refine behaves_bind (behaves_rejectIf (by simp)) fun _ => ?_
    refine behaves_bind (behaves_attempt (by simp)) fun st => ?_
    refine behaves_bind (behaves_rejectIf (by simp)) fun _ => ?_
    exact behaves_bind (behaves_rejectIf (by simp)) fun _ => behaves_rejectIf (by simp)
  · exact behaves_pure ()

theorem notPolicy_requireSuccess (response : HttpResponse) (operation : Bytes) :
    NotPolicy polite (requireSuccess response operation) := by
  unfold requireSuccess reject
  split
  · exact notPolicy_error.2 (by simp)
  · exact notPolicy_ok response

theorem behaves_loadImage (target : PodmanTarget) (archive : Option OpenArchive) :
    Behaves polite (DeploymentOrchestrator.loadImage target archive) := by
  cases archive with
  | none => exact behaves_pure ()
  | some archive =>
      refine behaves_bind ?_ fun _ => behaves_bind ?_ fun _ => behaves_pure ()
      · refine behaves_bind (behaves_attempt (by simp)) fun response => ?_
        exact behaves_done (notPolicy_requireSuccess response _)
      · rw [loadImageArchiveFd_natCast]
        refine behaves_bind (behaves_attempt (by simp)) fun st => ?_
        refine behaves_bind (behaves_rejectIf (by simp)) fun _ => ?_
        refine behaves_bind (behaves_rejectIf (by simp)) fun _ => ?_
        refine behaves_bind (behaves_rejectIf (by simp)) fun _ => ?_
        refine behaves_bind (behaves_attempt (by simp)) fun response => ?_
        exact behaves_done (notPolicy_requireSuccess response _)

theorem behaves_ensureDirectorySafe (dir : PosixPath) (layout : QuadletInstallLayout) :
    Behaves polite (ensureDirectorySafe dir layout) := by
  refine behaves_bind (behaves_attempt (by simp)) fun _ => ?_
  refine behaves_bind (behaves_attempt (by simp)) fun st => ?_
  refine behaves_bind (behaves_rejectIf (by simp)) fun _ => ?_
  refine behaves_bind (behaves_rejectIf (by simp)) fun _ => ?_
  refine behaves_bind (behaves_rejectIf (by simp)) fun _ => ?_
  refine behaves_bind (behaves_attempt (by simp)) fun _ => ?_
  exact behaves_bind (behaves_attempt (by simp)) fun st => behaves_rejectIf (by simp)

theorem behaves_ensureAdminTree (uid : UInt32) (layout : QuadletInstallLayout) :
    Behaves polite (ensureAdminTree uid layout) :=
  behaves_bind (behaves_ensureDirectorySafe _ _) fun _ => behaves_ensureDirectorySafe _ _

theorem behaves_fsyncDirectory (dirFd : Fd) : Behaves polite (fsyncDirectory dirFd) :=
  behaves_attempt (by simp)

theorem behaves_writeAll (fd : Fd) (contents : Bytes) (skip : ℕ) :
    Behaves polite (writeAll fd contents skip) := by
  induction contents generalizing skip with
  | nil => exact behaves_pure ()
  | cons c rest ih =>
      cases skip with
      | zero => exact behaves_bind (behaves_attempt (by simp)) fun written => ih _
      | succ skip => exact ih skip

theorem behaves_openTemporary (dir : PosixPath) (dirFd : Fd) (finalName : Bytes) (mode : ℕ)
    (attempts : List ℕ) : Behaves polite (openTemporary dir dirFd finalName mode attempts) := by
  induction attempts with
  | nil => exact behaves_throw (by simp)
  | cons attempt attempts ih =>
      refine behaves_call_bind fun pid _ => behaves_call_bind fun opened _ => ?_
      cases opened with
      | ok fd => exact behaves_pure _
      | error e =>
          dsimp only
          split
          · exact behaves_throw (by simp)
          · exact ih

theorem behaves_replaceFile (finalPath : PosixPath) (dirFd : Fd) (tmpName : Bytes) (fd : Fd)
    (contents : Bytes) : Behaves polite (replaceFile finalPath dirFd tmpName fd contents) := by
  refine behaves_outcome_bind (behaves_writeAll fd contents 0) fun written hwritten => ?_
  cases written with
  | error e => exact behaves_call_bind fun _ _ => behaves_throw (hwritten e rfl)
  | ok u =>
      refine behaves_call_bind fun synced _ => ?_
      cases synced with
      | error e => exact behaves_call_bind fun _ _ => behaves_throw (by simp)
      | ok u =>
          refine behaves_call_bind fun _ _ => behaves_call_bind fun renamed _ => ?_
          cases renamed with
          | error e => exact behaves_call_bind fun _ _ => behaves_throw (by simp)
          | ok u => exact behaves_fsyncDirectory dirFd

theorem behaves_atomicWriteFile (finalPath : PosixPath) (contents : Bytes) (mode : ℕ) :
    Behaves polite (atomicWriteFile finalPath contents mode) := by
  refine behaves_bind (behaves_attempt (by simp)) fun dirFd => ?_
  exact behaves_bind (behaves_openTemporary _ _ _ _ _) fun tmp => behaves_replaceFile _ _ _ _ _

theorem behaves_readBytes (path : PosixPath) (fd : Fd) (left skip : ℕ) :
    Behaves polite (readBytes path fd left skip) := by
  induction left generalizing skip with
  | zero => exact behaves_pure []
  | succ left ih =>
      cases skip with
      | zero =>
          refine behaves_bind (behaves_attempt (by simp)) fun bytes => ?_
          refine behaves_bind (behaves_rejectIf (by simp)) fun _ => ?_
          exact behaves_bind (ih _) fun rest => behaves_pure _
      | succ skip => exact ih skip

theorem behaves_readRegularFileNoSymlink (path : PosixPath) (maxSize : ℕ) :
    Behaves polite (readRegularFileNoSymlink path maxSize) := by
  refine behaves_bind (behaves_attempt (by simp)) fun fd => ?_
  refine behaves_bind (behaves_attempt (by simp)) fun st => ?_
  refine behaves_bind (behaves_rejectIf (by simp)) fun _ => ?_
  exact behaves_bind (behaves_rejectIf (by simp)) fun _ => behaves_readBytes _ _ _ _

namespace QuadletInstaller

variable {installer : QuadletInstaller} {uid : UInt32} {fileName : Bytes} {quadlet : QuadletFile}

/-- **`snapshot_for_user`** for a name that has been checked already. -/
theorem behaves_snapshotForUser (hvalid : validateQuadletFileName fileName = .ok ()) :
    Behaves polite (installer.snapshotForUser uid fileName) := by
  refine behaves_bind (behaves_done ?_) fun _ => ?_
  · rw [hvalid]
    exact notPolicy_ok ()
  refine behaves_bind (behaves_ensureAdminTree _ _) fun _ => behaves_call_bind fun found _ => ?_
  cases found with
  | ok st => exact behaves_bind (behaves_readRegularFileNoSymlink _ _) fun _ => behaves_pure _
  | error e =>
      dsimp only
      split
      · exact behaves_pure _
      · exact behaves_throw (by simp)

/-- **`install_for_user`** for a Quadlet that has been judged already: it returns what was expected,
or no error of policy. -/
theorem behaves_installForUser {expected : InstalledQuadlet}
    (hexpected : installer.expectedInstall uid quadlet = .ok expected) :
    (installer.installForUser uid quadlet).run.Ends (ControllerAnswers polite) fun r =>
      NotPolicy polite r ∧ ∀ installed, r = .ok installed → installed = expected := by
  rw [installForUser, hexpected]
  have herror : ∀ e, NotPolicy polite (.error e : Result Unit) →
      NotPolicy polite (.error e : Result InstalledQuadlet) ∧
      ∀ installed, (.error e : Result InstalledQuadlet) = .ok installed → installed = expected := by
    intro e he
    refine ⟨notPolicy_error.2 (notPolicy_error.1 he), fun installed h => by cases h⟩
  refine ends_exceptT_bind (P := fun r => r = .ok expected) rfl (fun e he => by cases he)
    fun a ha => ?_
  obtain rfl := Except.ok.inj ha
  refine ends_exceptT_bind (behaves_ensureAdminTree _ _) herror fun _ _ => ?_
  refine ends_exceptT_bind (behaves_atomicWriteFile _ _ _) herror fun _ _ => ?_
  exact ⟨notPolicy_ok a, fun installed h => (Except.ok.inj h).symm⟩

end QuadletInstaller

/-! ### The deployment behind the lock -/

@[simp] theorem Error.appendMessage_kind (e : Error) (more : Bytes) :
    (e.appendMessage more).kind = e.kind := rfl

/-- What a deployment returns once its Quadlet is known: the path and the unit that were expected,
or no error of policy. -/
def KeepsTo (polite : Prop) (expected : InstalledQuadlet) : Except Failure DeploymentResult → Prop
  | .ok result =>
      result.installedQuadletPath = expected.path ∧ result.systemdUnit = expected.systemdUnit
  | .error failure => polite → failure.error.kind ≠ .policy

section

variable {installer : QuadletInstaller} {target : PodmanTarget} {uid : UInt32} {unit : Bytes}
variable {snapshot : QuadletSnapshot} {expected : InstalledQuadlet}
variable {orchestrator : DeploymentOrchestrator} {bundle : DeploymentBundle}

theorem ends_sys {o : Sys} {P : o.Resp → Prop} (h : ∀ r, ControllerAnswers polite o r → P r) :
    (sys o).Ends (ControllerAnswers polite) P := h

theorem ends_sys_bind {α : Type} {o : Sys} {f : o.Resp → SysProg α} {P : α → Prop}
    (h : ∀ r, ControllerAnswers polite o r → (f r).Ends (ControllerAnswers polite) P) :
    (sys o >>= f).Ends (ControllerAnswers polite) P := h

theorem ends_observe_bind {α β : Type} {p : SysProg α} {f : α → Deploy β} {P : α → Prop}
    {Q : Except Failure β → Prop} (hp : p.Ends (ControllerAnswers polite) P)
    (hf : ∀ a, P a → (f a).run.Ends (ControllerAnswers polite) Q) :
    (observe p >>= f).run.Ends (ControllerAnswers polite) Q := by
  refine ends_exceptT_bind (P := fun r => ∃ a, r = .ok a ∧ P a) ?_ ?_ ?_
  · exact Prog.ends_bind hp fun a ha => ⟨a, rfl, ha⟩
  · rintro e ⟨a, ha, -⟩
    cases ha
  · rintro a ⟨b, hb, hP⟩
    obtain rfl := Except.ok.inj hb
    exact hf a hP

/-- **A rollback** adds to the message of the error it starts from. -/
theorem rollbackError_kind (restartRestoredUnit : Bool) (original : Error) :
    (rollbackError installer target uid snapshot unit restartRestoredUnit original).Ends
      (ControllerAnswers polite) fun failure => failure.error.kind = original.kind := by
  refine Prog.ends_bind (Prog.ends_of_forall (P := fun _ => True) (fun _ => trivial) _)
    fun r _ => ?_
  cases r with
  | error e => rfl
  | ok u =>
      refine ends_sys_bind fun reload _ => ?_
      cases reload with
      | error e => rfl
      | ok u =>
          dsimp only
          split
          · refine ends_sys_bind fun restart _ => ?_
            cases restart with
            | error e => rfl
            | ok operation =>
                dsimp only
                split <;> rfl
          · rfl

theorem keepsTo_failAfterRollback {restartRestoredUnit : Bool} {e : Error}
    (he : polite → e.kind ≠ .policy) :
    (failAfterRollback
      (rollbackError installer target uid snapshot unit restartRestoredUnit e)).run.Ends
        (ControllerAnswers polite) (KeepsTo polite expected) := by
  refine Prog.ends_bind (rollbackError_kind restartRestoredUnit e) fun failure hkind => ?_
  change polite → failure.error.kind ≠ .policy
  rwa [hkind]

/-- The managers are told, and the rollback is made if they fail. -/
theorem keepsTo_activate {result : DeploymentResult}
    (hresult : result.installedQuadletPath = expected.path ∧
      result.systemdUnit = expected.systemdUnit) :
    (orchestrator.activate bundle target snapshot result).run.Ends (ControllerAnswers polite)
      (KeepsTo polite expected) := by
  refine ends_observe_bind (P := fun r => NotPolicy polite r) (ends_sys fun _ hr => hr)
    fun reload hreload => ?_
  cases reload with
  | error e => exact keepsTo_failAfterRollback (hreload e rfl)
  | ok u =>
      dsimp only
      split
      · refine ends_observe_bind (P := fun r => NotPolicy polite r) (ends_sys fun _ hr => hr)
          fun operation hoperation => ?_
        cases operation with
        | error e => exact keepsTo_failAfterRollback (hoperation e rfl)
        | ok operation =>
            dsimp only
            split
            · exact hresult
            · exact keepsTo_failAfterRollback (by simp)
      · refine ends_observe_bind (P := fun r => NotPolicy polite r) (ends_sys fun _ hr => hr)
          fun status _ => ?_
        cases status <;> exact hresult

theorem keepsTo_noRollback_bind {α : Type} {x : Action α} {f : α → Deploy DeploymentResult}
    {P : Result α → Prop} (hx : x.run.Ends (ControllerAnswers polite) P)
    (herror : ∀ e, P (.error e) → polite → e.kind ≠ .policy)
    (hf : ∀ a, P (.ok a) → (f a).run.Ends (ControllerAnswers polite) (KeepsTo polite expected)) :
    (noRollback x >>= f).run.Ends (ControllerAnswers polite) (KeepsTo polite expected) := by
  refine ends_exceptT_bind (P := fun r => ∃ r', r = r'.mapError (fun e => ⟨e, none⟩) ∧ P r')
    ?_ ?_ ?_
  · exact Prog.ends_bind hx fun r hr => ⟨r, rfl, hr⟩
  · rintro failure ⟨r, hr, hP⟩
    cases r with
    | ok a => cases hr
    | error e =>
        obtain rfl := Except.error.inj hr
        exact herror e hP
  · rintro a ⟨r, hr, hP⟩
    cases r with
    | ok b =>
        obtain rfl := Except.ok.inj hr
        exact hf a hP
    | error e => cases hr

/-- **Under the lock** the checks that are made again go as before. -/
theorem keepsTo_deployLocked {prepared : DeploymentOrchestrator.Prepared}
    (hexpected : orchestrator.installer.expectedInstall bundle.targetUid bundle.quadlet =
      .ok prepared.expected) :
    (orchestrator.deployLocked bundle prepared).run.Ends (ControllerAnswers polite)
      (KeepsTo polite prepared.expected) := by
  have hvalid : validateQuadletFileName bundle.quadlet.fileName = .ok () :=
    (validateQuadletPolicy_eq_ok.1 (QuadletInstaller.expectedInstall_eq_ok.1 hexpected).2.1).1
  refine keepsTo_noRollback_bind (behaves_validateSocket _ _ _) (fun e he => he e rfl) fun _ _ => ?_
  refine keepsTo_noRollback_bind (behaves_loadImage _ _) (fun e he => he e rfl) fun _ _ => ?_
  refine keepsTo_noRollback_bind (QuadletInstaller.behaves_snapshotForUser hvalid)
    (fun e he => he e rfl) fun snapshot _ => ?_
  refine keepsTo_noRollback_bind (QuadletInstaller.behaves_installForUser hexpected)
    (fun e he => he.1 e rfl) fun installed hinstalled => ?_
  obtain rfl := hinstalled.2 installed rfl
  exact keepsTo_activate ⟨rfl, rfl⟩

end

/-! ### The two runs -/

namespace DeploymentOrchestrator

/-- The same orchestrator with or without `dry_run`. -/
def withDryRun (orchestrator : DeploymentOrchestrator) (dryRun : Bool) : DeploymentOrchestrator :=
  { orchestrator with options := { orchestrator.options with dryRun := dryRun } }

/-- `DeploymentOrchestrator::deploy` from the taking of the lock on. -/
def deployFromLock (orchestrator : DeploymentOrchestrator) (bundle : DeploymentBundle)
    (prepared : Prepared) : Deploy DeploymentResult := do
  let lockFd ← noRollback (lockDeployment orchestrator.installer.layout bundle.targetUid
    prepared.expected.systemdUnit)
  let result ← observe (orchestrator.deployLocked bundle prepared).run
  observe (sys (.close lockFd))
  ExceptT.mk (pure result)

/-- What a dry run returns. -/
def dryResult (prepared : Prepared) : DeploymentResult where
  installedQuadletPath := prepared.expected.path
  systemdUnit := prepared.expected.systemdUnit
  dryRun := true

variable (orchestrator : DeploymentOrchestrator) (bundle : DeploymentBundle)

/-- How a deployment goes on once it is prepared. -/
def afterPrepare : Result Prepared → SysProg (Except Failure DeploymentResult)
  | .error e => .ret (.error ⟨e, none⟩)
  | .ok prepared =>
    if orchestrator.options.dryRun then .ret (.ok (dryResult prepared))
    else (orchestrator.deployFromLock bundle prepared).run

/-- A deployment is prepared, and then goes on from the lock unless it is dry. -/
theorem run_deploy : (orchestrator.deploy bundle).run =
    (orchestrator.prepare bundle).run >>= orchestrator.afterPrepare bundle := by
  rw [deploy, run_exceptT_bind, noRollback, ExceptT.run_mk, Prog.bind_assoc]
  congr 1
  funext r
  cases r with
  | error e => rfl
  | ok prepared =>
      rw [afterPrepare]
      change (if _ then _ else _ : Deploy DeploymentResult).run = _
      split
      · rfl
      · rfl

theorem openComponents_withDryRun (options : DeploymentOptions) (dryRun : Bool) (current : Fd)
    (parts : List Bytes) :
    openComponents { options with dryRun := dryRun } current parts =
      openComponents options current parts := by
  induction parts generalizing current with
  | nil => rfl
  | cons name rest ih =>
      simp only [openComponents, ih]
      rfl

/-- The preparation does not look at `dry_run`. -/
theorem prepare_withDryRun (dryRun : Bool) :
    (orchestrator.withDryRun dryRun).prepare bundle = orchestrator.prepare bundle := by
  have harchive : openArchive (orchestrator.withDryRun dryRun).options bundle =
      openArchive orchestrator.options bundle := by
    simp only [openArchive, withDryRun, openStagedImageArchive, openComponents_withDryRun]
    rfl
  rw [prepare, prepare, harchive]
  rfl

/-- What is prepared is the Quadlet that is expected. -/
theorem prepare_ends : (orchestrator.prepare bundle).run.Ends (fun _ _ => True) fun r =>
    ∀ prepared, r = .ok prepared →
      orchestrator.installer.expectedInstall bundle.targetUid bundle.quadlet =
        .ok prepared.expected := by
  have herror : ∀ e : Error, True → ∀ prepared : Prepared,
      (.error e : Result Prepared) = .ok prepared →
      orchestrator.installer.expectedInstall bundle.targetUid bundle.quadlet =
        .ok prepared.expected := by
    intro e _ prepared h
    cases h
  have hany : ∀ {α : Type} (x : Action α), x.run.Ends (fun _ _ => True) fun _ => True :=
    fun x => Prog.ends_of_forall (fun _ => trivial) _
  refine ends_exceptT_bind (hany _) herror fun _ _ => ?_
  refine ends_exceptT_bind (hany _) herror fun _ _ => ?_
  refine ends_exceptT_bind (hany _) herror fun target _ => ?_
  refine ends_exceptT_bind (P := fun r => r = orchestrator.installer.expectedInstall _ _) rfl
    (fun e _ prepared h => by cases h) fun expected hexpected => ?_
  refine ends_exceptT_bind (hany _) herror fun archive _ => ?_
  intro prepared h
  rw [← Except.ok.inj h]
  exact hexpected.symm

variable {orchestrator bundle}

/-- **A deployment that has been prepared** returns what was expected, or no error of policy. -/
theorem keepsTo_deployFromLock {prepared : Prepared}
    (hexpected : orchestrator.installer.expectedInstall bundle.targetUid bundle.quadlet =
      .ok prepared.expected) :
    (orchestrator.deployFromLock bundle prepared).run.Ends (ControllerAnswers polite)
      (KeepsTo polite prepared.expected) := by
  refine keepsTo_noRollback_bind (behaves_lockDeployment _ _ _) (fun e he => he e rfl)
    fun lockFd _ => ?_
  refine ends_observe_bind (keepsTo_deployLocked hexpected) fun result hresult => ?_
  exact ends_observe_bind (ends_sys (P := fun _ => True) fun _ _ => trivial) fun _ _ => hresult

end DeploymentOrchestrator

/-- **What a dry run says.**  It only looks things up.  When it fails, so does the run that is not
dry, with the same error and after the same calls.  When it succeeds, that run makes the same calls
and goes on to take the lock; from there it returns no error of policy unless the controller does,
and if it succeeds it reports the same path and unit. -/
structure DryRunPredicts {World Choice : Type} (M : Machine Sys.Resp World Choice) (t : ℕ)
    (cs : List Choice) (w : World) (orchestrator : DeploymentOrchestrator)
    (bundle : DeploymentBundle) (tr : Trace Sys.Resp World Choice) (w₁ : World)
    (r : Except Failure DeploymentResult) : Prop where
  looksUp : ∀ e ∈ tr, e.op.looksUp = true
  error : ∀ failure, r = .error failure →
    run M t cs w ((orchestrator.withDryRun false).deploy bundle).run = some (tr, w₁, .error failure)
  ok : ∀ predicted, r = .ok predicted → ∀ tr' w' r',
    run M t cs w ((orchestrator.withDryRun false).deploy bundle).run = some (tr', w', r') →
    ∃ prepared tr₂, tr' = tr ++ tr₂ ∧
      Exec M t w₁ ((orchestrator.withDryRun false).deployFromLock bundle prepared).run tr₂ w' r' ∧
      ((∀ e ∈ tr₂, ControllerAnswers True e.op e.resp) →
        ∀ failure, r' = .error failure → failure.error.kind ≠ .policy) ∧
      ∀ result, r' = .ok result →
        result.installedQuadletPath = predicted.installedQuadletPath ∧
          result.systemdUnit = predicted.systemdUnit

/-- **A dry run predicts the run**, in every environment that answers both in the same way. -/
theorem dryRun_predicts {World Choice : Type} (M : Machine Sys.Resp World Choice) (t : ℕ)
    (orchestrator : DeploymentOrchestrator) (bundle : DeploymentBundle) (cs : List Choice)
    (w : World) : ∀ tr w₁ r,
      run M t cs w ((orchestrator.withDryRun true).deploy bundle).run = some (tr, w₁, r) →
      DryRunPredicts M t cs w orchestrator bundle tr w₁ r := by
  intro tr w₁ r hdry
  rw [DeploymentOrchestrator.run_deploy, DeploymentOrchestrator.prepare_withDryRun,
    run_bind] at hdry
  obtain ⟨⟨tr₁, w₂, prepared, cs'⟩, hprepare, hrest⟩ := Option.bind_eq_some_iff.1 hdry
  have hexec := exec_of_runOn hprepare
  have hlooks : ∀ e ∈ tr₁, e.op.looksUp = true :=
    exec_calls hexec ((orchestrator.prepare_looksUp bundle).mono fun _ _ h => h.1)
  -- the other run is prepared in the same way
  have hreal : run M t cs w ((orchestrator.withDryRun false).deploy bundle).run =
      (run M t cs' w₂ ((orchestrator.withDryRun false).afterPrepare bundle prepared)).map
        fun out => (tr₁ ++ out.1, out.2) := by
    rw [DeploymentOrchestrator.run_deploy, DeploymentOrchestrator.prepare_withDryRun, run_bind,
      hprepare]
    rfl
  cases prepared with
  | error e =>
      obtain ⟨rfl, rfl, rfl⟩ : tr₁ = tr ∧ w₂ = w₁ ∧ .error ⟨e, none⟩ = r := by
        simpa [run, DeploymentOrchestrator.afterPrepare] using hrest
      refine ⟨hlooks, fun failure hfailure => ?_, fun predicted h => by cases h⟩
      obtain rfl := Except.error.inj hfailure
      rw [hreal]
      simp [run, DeploymentOrchestrator.afterPrepare]
  | ok prepared =>
      obtain ⟨rfl, rfl, rfl⟩ : tr₁ = tr ∧ w₂ = w₁ ∧
          .ok (DeploymentOrchestrator.dryResult prepared) = r := by
        simpa [run, DeploymentOrchestrator.afterPrepare,
          DeploymentOrchestrator.withDryRun] using hrest
      refine ⟨hlooks, (fun failure h => by cases h), fun predicted hpredicted tr' w' r' hrun => ?_⟩
      obtain rfl := Except.ok.inj hpredicted
      rw [hreal] at hrun
      obtain ⟨⟨tr₂, w₃, r₃⟩, hlock, heq⟩ := Option.map_eq_some_iff.1 hrun
      obtain ⟨rfl, rfl, rfl⟩ : tr₁ ++ tr₂ = tr' ∧ w₃ = w' ∧ r₃ = r' := by simpa using heq
      have hexpected : orchestrator.installer.expectedInstall bundle.targetUid bundle.quadlet =
          .ok prepared.expected :=
        exec_ends (orchestrator.prepare_ends bundle) hexec (fun _ _ => trivial) prepared rfl
      have hkeeps : KeepsTo (∀ e ∈ tr₂, ControllerAnswers True e.op e.resp) prepared.expected r₃ :=
        exec_ends (DeploymentOrchestrator.keepsTo_deployFromLock hexpected) (exec_of_run hlock)
          fun e he => ControllerAnswers.of_true fun hpolite => hpolite e he
      refine ⟨prepared, tr₂, rfl, exec_of_run hlock, fun hpolite failure hfailure => ?_,
        fun result hresult => ?_⟩
      · rw [hfailure] at hkeeps
        exact hkeeps hpolite
      · rw [hresult] at hkeeps
        exact hkeeps

/-- A bundle without an image archive. -/
def plainBundle : DeploymentBundle where
  targetUid := 1000
  serviceName := "web"
  imageArchive := none
  quadlet :=
    { fileName := "web.container"
      contents := "[Container]\nImage=busybox\nLabel=com.example.pod-installer.managed=true\n" }

def plainOrchestrator : DeploymentOrchestrator where
  installer := {}

/-- An environment that knows the user, and in which everything that is looked up is there. -/
def userThere : (o : Sys) → o.Resp
  | .getpwuid uid => .ok (some ⟨uid, "app"⟩)
  | o => everythingThere o

/-- The dry run of this bundle succeeds. -/
theorem plainBundle_predicted :
    ∃ tr r, run stagingTree 0 [userThere] ()
        ((plainOrchestrator.withDryRun true).deploy plainBundle).run = some (tr, (), r) ∧
      r.toBool = true ∧
      DryRunPredicts stagingTree 0 [userThere] () plainOrchestrator plainBundle tr () r := by
  have hrun : (run stagingTree 0 [userThere] ()
      ((plainOrchestrator.withDryRun true).deploy plainBundle).run).any
        (fun out => out.2.2.toBool) = true := by decide +kernel
  obtain ⟨⟨tr, u, r⟩, heq, hr⟩ := (Option.any_eq_true _ _).1 hrun
  exact ⟨tr, r, heq, hr, dryRun_predicts stagingTree 0 plainOrchestrator plainBundle [userThere] ()
    tr u r heq⟩

end PodInstaller
