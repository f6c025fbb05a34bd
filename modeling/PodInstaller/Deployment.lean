/-
**Deployments.**

`PodInstaller.DeploymentOrchestrator.deploy` installs a Quadlet for a user and brings its unit up:
it checks the bundle, opens the staged image archive, takes the lock of the user's unit, loads the
image, takes a snapshot of the installed file, replaces the file, and has the user's systemd manager
reload and restart.  When a step after the replacement fails, the snapshot is restored.

The source puts what happened to a rollback into the message of the error.  Here the error is
accompanied by a report of the steps of the rollback, so that statements can speak of them; nothing
reads the report.

Main definitions:

* `PodInstaller.DeploymentBundle`, `PodInstaller.DeploymentResult`,
  `PodInstaller.DeploymentOrchestrator` — the data;
* `PodInstaller.Failure`, `PodInstaller.RollbackReport` — how a deployment fails;
* `PodInstaller.lockDeployment` — the lock of a user's unit;
* `PodInstaller.rollbackError` — restoring the snapshot;
* `PodInstaller.DeploymentOrchestrator.deploy`, with its parts
  `PodInstaller.DeploymentOrchestrator.prepare`, before the lock, and
  `PodInstaller.DeploymentOrchestrator.deployLocked`, under it.
-/

import PodInstaller.Installer
import PodInstaller.StagedArchive

set_option relaxedAutoImplicit false
set_option autoImplicit false

namespace PodInstaller

open Bytes

/-! ### The data -/

/-- `DeploymentBundle`, without the revision, which nothing reads. -/
structure DeploymentBundle where
  targetUid : UInt32
  serviceName : Bytes
  imageArchive : Option ImageArchive
  quadlet : QuadletFile

/-- `DeploymentResult`. -/
structure DeploymentResult where
  installedQuadletPath : PosixPath
  systemdUnit : Bytes
  jobPath : Option Bytes := none
  status : Option UnitStatus := none
  statusError : Option Bytes := none
  dryRun : Bool := false
  rolledBack : Bool := false

/-- `DeploymentOrchestrator`; `hasSystemd` says that the pointer to the controller is not null. -/
structure DeploymentOrchestrator where
  installer : QuadletInstaller
  hasSystemd : Bool := true
  options : DeploymentOptions := {}

/-- The steps of a rollback that were attempted, with what they returned. -/
structure RollbackReport where
  restore : Result Unit
  reload : Option (Result Unit) := none
  restart : Option (Result UnitOperationResult) := none

/-- The error of a deployment, with the report of the rollback if there was one. -/
structure Failure where
  error : Error
  rollback : Option RollbackReport := none

/-- A program that returns what a deployment returns. -/
abbrev Deploy (α : Type) := ExceptT Failure (Prog Sys.Resp) α

/-- A step whose failure ends the deployment without a rollback. -/
def noRollback {α : Type} (x : Action α) : Deploy α :=
  ExceptT.mk (x.run >>= fun r => pure (r.mapError fun e => ⟨e, none⟩))

/-- A program whose result the deployment looks at itself. -/
def observe {α : Type} (p : SysProg α) : Deploy α := ExceptT.mk (p >>= fun a => pure (.ok a))

/-! ### Checking the bundle -/

/-- `validate_deployment_bundle`. -/
def validateDeploymentBundle (bundle : DeploymentBundle) : Result Unit := do
  reject (bundle.targetUid = 0)
    (makeError .policy "deployment target must be a non-root user uid")
  reject (bundle.serviceName = [])
    (makeError .invalidArgument "deployment service_name is empty")
  let unit ← serviceUnitNameFromQuadlet bundle.quadlet.fileName
  reject (unit ≠ bundle.serviceName ++ ofString ".service")
    (makeError .invalidArgument (ofString "deployment service_name '" ++ bundle.serviceName ++
      ofString "' does not match Quadlet file '" ++ bundle.quadlet.fileName ++ ofString "'"))
  reject (∃ archive ∈ bundle.imageArchive, archive.path = [])
    (makeError .invalidArgument "image archive path is empty")

/-! ### The lock -/

/-- `validate_owner_if_required`. -/
def validateOwnerIfRequired (fd : Fd) (layout : QuadletInstallLayout) (description : Bytes) :
    Action Unit := do
  let st ← attempt (sys (.fstat fd)) (sysError (ofString "failed to stat " ++ description))
  rejectIf (∃ uid ∈ layout.requiredOwnerUid, st.uid ≠ uid)
    (makeError .filesystem (description ++ ofString " owner uid " ++ uidString st.uid ++
      ofString " does not match required uid " ++ uidString (layout.requiredOwnerUid.getD 0)))
  rejectIf (∃ gid ∈ layout.requiredOwnerGid, st.gid ≠ gid)
    (makeError .filesystem (description ++ ofString " owner gid " ++ uidString st.gid ++
      ofString " does not match required gid " ++ uidString (layout.requiredOwnerGid.getD 0)))

/-- The directory of the locks. -/
def locksName : Bytes := ".locks"

/-- The name of the lock file of a user's unit. -/
def lockName (uid : UInt32) (unit : Bytes) : Bytes :=
  uidString uid ++ ofString "-" ++ unit ++ ofString ".lock"

/-- `mkdirat` of the directory of the locks, which may be there already. -/
def makeLocks (rootFd : Fd) : Action Unit := do
  let made ← call (.mkdirat rootFd (cStr locksName) 0o755)
  match made with
  | .ok () => return ()
  | .error e =>
    rejectIf (e ≠ EEXIST) (sysError "failed to create deployment lock directory" e)

/-- `lock_deployment` up to the lock file. -/
def openLock (layout : QuadletInstallLayout) (uid : UInt32) (unit : Bytes) : Action Fd := do
  let root := layout.adminUserRoot
  attempt (sys (.createDirectories (cStr root))) fun e =>
    makeError .filesystem
      (ofString "failed to create deployment lock root '" ++ root ++ ofString "': " ++ strerror e)
  let rootFd ← attempt (sys (.openPath (cStr root) { directory := true }))
    (sysError (ofString "failed to open deployment lock root '" ++ root ++ ofString "'"))
  validateOwnerIfRequired rootFd layout "deployment lock root"
  makeLocks rootFd
  let dirFd ← attempt (sys (.openat rootFd (cStr locksName) { directory := true }))
    (sysError "failed to open deployment lock directory")
  validateOwnerIfRequired dirFd layout "deployment lock directory"
  attempt (sys (.fchmod dirFd 0o755)) (sysError "failed to chmod deployment lock directory")
  attempt (sys (.openat dirFd (cStr (lockName uid unit))
      { access := .rdwr, creat := true, mode := 0o644 }))
    (sysError (ofString "failed to open deployment lock '" ++ lockName uid unit ++ ofString "'"))

/-- `lock_deployment`. -/
def lockDeployment (layout : QuadletInstallLayout) (uid : UInt32) (unit : Bytes) : Action Fd := do
  let lockFd ← openLock layout uid unit
  attempt (sysUntil (.flock lockFd) interrupted)
    (sysError (ofString "failed to lock deployment '" ++ lockName uid unit ++ ofString "'"))
  return lockFd

/-! ### The rollback -/

/-- `deployed_status_is_healthy`. -/
def deployedStatusIsHealthy (status : UnitStatus) : Bool :=
  status.loadState == "loaded" && status.activeState == "active"

/-- `describe_status`. -/
def describeStatus (status : UnitStatus) : Bytes :=
  ofString "LoadState=" ++ status.loadState ++ ofString " ActiveState=" ++ status.activeState ++
    ofString " SubState=" ++ status.subState

/-- An error whose message goes on. -/
def Error.appendMessage (e : Error) (more : Bytes) : Error :=
  { e with message := e.message ++ more }

/-- `rollback_error`. -/
def rollbackError (installer : QuadletInstaller) (target : PodmanTarget) (uid : UInt32)
    (snapshot : QuadletSnapshot) (unit : Bytes) (restartRestoredUnit : Bool) (original : Error) :
    SysProg Failure := do
  let rollback ← (installer.restoreForUser uid snapshot).run
  match rollback with
  | .error e =>
    return ⟨original.appendMessage (ofString "; rollback failed: " ++ e.message),
      some { restore := rollback }⟩
  | .ok () =>
    let original := original.appendMessage "; rolled back installed Quadlet"
    let reload ← sys (.daemonReload target)
    match reload with
    | .error e =>
      return ⟨original.appendMessage (ofString "; rollback daemon-reload failed: " ++ e.message),
        some { restore := rollback, reload := some reload }⟩
    | .ok () =>
      -- without an earlier Quadlet there is no unit to restart
      if restartRestoredUnit ∧ snapshot.existed then
        let restart ← sys (.restartUnit target unit)
        let report : RollbackReport :=
          { restore := rollback, reload := some reload, restart := some restart }
        match restart with
        | .error e =>
          return ⟨original.appendMessage (ofString "; rollback restart failed: " ++ e.message),
            some report⟩
        | .ok operation =>
          if deployedStatusIsHealthy operation.finalStatus then return ⟨original, some report⟩
          else return ⟨original.appendMessage
            (ofString "; rollback restart left unit unhealthy: " ++
              describeStatus operation.finalStatus), some report⟩
      else return ⟨original, some { restore := rollback, reload := some reload }⟩

/-- A failure of the deployment that is rolled back. -/
def failAfterRollback {α : Type} (rollback : SysProg Failure) : Deploy α :=
  ExceptT.mk (rollback >>= fun failure => pure (.error failure))

/-! ### The deployment -/

namespace DeploymentOrchestrator

/-- What is known before the lock is taken. -/
structure Prepared where
  target : PodmanTarget
  expected : InstalledQuadlet
  archive : Option OpenArchive

/-- The image archive of a deployment that loads one. -/
def openArchive (options : DeploymentOptions) (bundle : DeploymentBundle) :
    Action (Option OpenArchive) :=
  match options.loadImageArchive, bundle.imageArchive with
  | true, some archive => do
    let opened ← openStagedImageArchive archive options
    return some opened
  | _, _ => return none

/-- `DeploymentOrchestrator::deploy` up to the return of a dry run. -/
def prepare (orchestrator : DeploymentOrchestrator) (bundle : DeploymentBundle) :
    Action Prepared := do
  rejectIf (orchestrator.hasSystemd = false)
    (makeError .invalidArgument "deployment orchestrator requires a systemd controller")
  done (validateDeploymentBundle bundle)
  let target ← resolveUid bundle.targetUid orchestrator.options.runtimeLayout
    orchestrator.options.apiVersion
  let expected ← done (orchestrator.installer.expectedInstall bundle.targetUid bundle.quadlet)
  let archive ← openArchive orchestrator.options bundle
  return ⟨target, expected, archive⟩

/-- The validation of the socket, if it is asked for. -/
def validateSocket (options : DeploymentOptions) (bundle : DeploymentBundle)
    (target : PodmanTarget) : Action Unit :=
  if options.validateSocket ∧ options.loadImageArchive ∧ bundle.imageArchive.isSome then
    validatePodmanSocket target { layout := options.runtimeLayout }
  else return ()

/-- Loading the image archive, if there is one. -/
def loadImage (target : PodmanTarget) : Option OpenArchive → Action Unit
  | none => return ()
  | some archive => do
    let _ ← ping target
    let _ ← loadImageArchiveFd target archive.fd archive.size
    return ()

/-- What follows on the replacement of the file: the manager reloads, and the unit is restarted or
its status is asked for. -/
def activate (orchestrator : DeploymentOrchestrator) (bundle : DeploymentBundle)
    (target : PodmanTarget) (snapshot : QuadletSnapshot) (result : DeploymentResult) :
    Deploy DeploymentResult := do
  let rollback := rollbackError orchestrator.installer target bundle.targetUid snapshot
    result.systemdUnit
  let reload ← observe (sys (.daemonReload target))
  match reload with
  -- the unit was not restarted yet, so the rollback does not restart it either
  | .error e => failAfterRollback (rollback false e)
  | .ok () =>
    if orchestrator.options.restartUnit then
      let operation ← observe (sys (.restartUnit target result.systemdUnit))
      match operation with
      | .error e => failAfterRollback (rollback true e)
      | .ok operation =>
        -- a restart that leaves the unit unhealthy counts as failed
        if deployedStatusIsHealthy operation.finalStatus then
          return { result with jobPath := operation.jobPath, status := some operation.finalStatus }
        else
          failAfterRollback (rollback true (makeError .systemd
            (ofString "deployment unit is unhealthy after restart: " ++
              describeStatus operation.finalStatus)))
    else
      let status ← observe (sys (.status target result.systemdUnit))
      match status with
      | .ok status => return { result with status := some status }
      -- the deployment has succeeded, whether or not the status can be read
      | .error e => return { result with statusError := some e.message }

/-- `DeploymentOrchestrator::deploy` from the lock to its release. -/
def deployLocked (orchestrator : DeploymentOrchestrator) (bundle : DeploymentBundle)
    (prepared : Prepared) : Deploy DeploymentResult := do
  -- up to the installation no Quadlet file is changed, and nothing is rolled back
  noRollback (validateSocket orchestrator.options bundle prepared.target)
  noRollback (loadImage prepared.target prepared.archive)
  let snapshot ← noRollback
    (orchestrator.installer.snapshotForUser bundle.targetUid bundle.quadlet.fileName)
  let installed ← noRollback
    (orchestrator.installer.installForUser bundle.targetUid bundle.quadlet)
  orchestrator.activate bundle prepared.target snapshot
    { installedQuadletPath := installed.path, systemdUnit := installed.systemdUnit }

/-- `DeploymentOrchestrator::deploy`.  The lock is released when the deployment returns, whatever it
returns. -/
def deploy (orchestrator : DeploymentOrchestrator) (bundle : DeploymentBundle) :
    Deploy DeploymentResult := do
  let prepared ← noRollback (orchestrator.prepare bundle)
  if orchestrator.options.dryRun then
    return { installedQuadletPath := prepared.expected.path
             systemdUnit := prepared.expected.systemdUnit
             dryRun := true }
  else
    let lockFd ← noRollback (lockDeployment orchestrator.installer.layout bundle.targetUid
      prepared.expected.systemdUnit)
    let result ← observe (orchestrator.deployLocked bundle prepared).run
    -- the lock goes with the `DeploymentLock`, on every way out
    observe (sys (.close lockFd))
    ExceptT.mk (pure result)

end DeploymentOrchestrator

end PodInstaller
