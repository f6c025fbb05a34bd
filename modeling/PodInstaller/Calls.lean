/-
**What the operations call.**

The installer's operations first make sure of the directories and then work on a file; a deployment
takes the lock of the unit before it, and talks to Podman and to the systemd manager around it.
This module says which calls each part can make, whatever it is answered.

Main definitions:

* `PodInstaller.FileCalls`, `PodInstaller.TreeCalls`, `PodInstaller.UnitCalls`,
  `PodInstaller.LockCalls` — programs that only look after files, directories, the unit and the
  lock.

Main results:

* `PodInstaller.calls_ensureAdminTree`, `PodInstaller.calls_writeAll`,
  `PodInstaller.calls_openTemporary`, `PodInstaller.calls_replaceFile`,
  `PodInstaller.calls_readRegularFileNoSymlink` — what the installer's functions call;
* `PodInstaller.treeCalls_snapshotForUser`, `PodInstaller.treeCalls_restoreForUser`,
  `PodInstaller.treeCalls_installForUser` — the operations;
* `PodInstaller.DeploymentOrchestrator.unitCalls_activate` — what a deployment does once the file is
  in place;
* `PodInstaller.lockCalls_openLock` — the way to the lock.
-/

import PodInstaller.Deployment

set_option relaxedAutoImplicit false
set_option autoImplicit false

namespace PodInstaller

open Bytes

/-! ### What holds of every call -/

section

variable {P : (o : Sys) → (o.Resp → Bool) → Prop}

theorem calls_ensureDirectorySafe (hmake : ∀ path, P (.createDirectories path) fun _ => false)
    (hlstat : ∀ path, P (.lstat path) fun _ => false)
    (hchmod : ∀ path mode, P (.chmod path mode) fun _ => false) (dir : PosixPath)
    (layout : QuadletInstallLayout) : (ensureDirectorySafe dir layout).run.Calls P := by
  refine calls_exceptT_bind (calls_attempt (calls_sys (hmake _))) fun _ => ?_
  refine calls_exceptT_bind (calls_attempt (calls_sys (hlstat _))) fun st => ?_
  refine calls_exceptT_bind trivial fun _ => calls_exceptT_bind trivial fun _ => ?_
  refine calls_exceptT_bind trivial fun _ => ?_
  refine calls_exceptT_bind (calls_attempt (calls_sys (hchmod _ _))) fun _ => ?_
  exact calls_exceptT_bind (calls_attempt (calls_sys (hlstat _))) fun st => trivial

theorem calls_ensureAdminTree (hmake : ∀ path, P (.createDirectories path) fun _ => false)
    (hlstat : ∀ path, P (.lstat path) fun _ => false)
    (hchmod : ∀ path mode, P (.chmod path mode) fun _ => false) (uid : UInt32)
    (layout : QuadletInstallLayout) : (ensureAdminTree uid layout).run.Calls P :=
  calls_exceptT_bind (calls_ensureDirectorySafe hmake hlstat hchmod _ _) fun _ =>
    calls_ensureDirectorySafe hmake hlstat hchmod _ _

theorem calls_writeAll {fd : Fd} (hwrite : ∀ data, P (.write fd data) writeAgain)
    (contents : Bytes) (skip : ℕ) : (writeAll fd contents skip).run.Calls P := by
  induction contents generalizing skip with
  | nil => exact trivial
  | cons c rest ih =>
      cases skip with
      | zero =>
          rw [writeAll]
          refine calls_exceptT_bind (calls_attempt ?_) fun written => ih _
          exact ⟨hwrite _, fun _ => trivial⟩
      | succ skip =>
          rw [writeAll]
          exact ih skip

theorem calls_openTemporary {dirFd : Fd} (hpid : P .getpid fun _ => false)
    (hopen : ∀ name flags, P (.openat dirFd name flags) fun _ => false) (dir : PosixPath)
    (finalName : Bytes) (mode : ℕ) (attempts : List ℕ) :
    (openTemporary dir dirFd finalName mode attempts).run.Calls P := by
  induction attempts with
  | nil => exact trivial
  | cons attempt attempts ih =>
      rw [openTemporary]
      refine calls_exceptT_bind (calls_call hpid) fun pid => ?_
      refine calls_exceptT_bind (calls_call (hopen _ _)) fun opened => ?_
      cases opened with
      | ok fd => exact trivial
      | error e =>
          dsimp only
          split
          · exact trivial
          · exact ih

theorem calls_replaceFile {fd : Fd} (hwrite : ∀ data, P (.write fd data) writeAgain)
    (hsync : ∀ fd, P (.fsync fd) fun _ => false) (hclose : P (.close fd) fun _ => false)
    (hrename : ∀ oldDir old newDir new, P (.renameat oldDir old newDir new) fun _ => false)
    (hunlink : ∀ dir name, P (.unlinkat dir name) fun _ => false) (finalPath : PosixPath)
    (dirFd : Fd) (tmpName contents : Bytes) :
    (replaceFile finalPath dirFd tmpName fd contents).run.Calls P := by
  rw [replaceFile]
  refine calls_exceptT_bind (calls_outcome (calls_writeAll hwrite contents 0)) fun written => ?_
  cases written with
  | error e => exact calls_exceptT_bind (calls_call (hunlink _ _)) fun removed => trivial
  | ok u =>
      refine calls_exceptT_bind (calls_call (hsync _)) fun synced => ?_
      cases synced with
      | error e => exact calls_exceptT_bind (calls_call (hunlink _ _)) fun removed => trivial
      | ok u =>
          refine calls_exceptT_bind (calls_call hclose) fun closed => ?_
          refine calls_exceptT_bind (calls_call (hrename _ _ _ _)) fun renamed => ?_
          cases renamed with
          | error e => exact calls_exceptT_bind (calls_call (hunlink _ _)) fun removed => trivial
          | ok u => exact calls_attempt (calls_sys (hsync _))

theorem calls_readBytes {fd : Fd} (hread : ∀ count, P (.read fd count) interrupted)
    (path : PosixPath) (left skip : ℕ) : (readBytes path fd left skip).run.Calls P := by
  induction left generalizing skip with
  | zero => exact trivial
  | succ left ih =>
      cases skip with
      | zero =>
          rw [readBytes]
          refine calls_exceptT_bind (calls_attempt ⟨hread _, fun _ => trivial⟩) fun bytes => ?_
          refine calls_exceptT_bind trivial fun _ => ?_
          exact calls_exceptT_bind (ih _) fun _ => trivial
      | succ skip =>
          rw [readBytes]
          exact ih skip

theorem calls_readRegularFileNoSymlink
    (hopen : ∀ path flags, P (.openPath path flags) fun _ => false)
    (hfstat : ∀ fd, P (.fstat fd) fun _ => false)
    (hread : ∀ fd count, P (.read fd count) interrupted) (path : PosixPath) (maxSize : ℕ) :
    (readRegularFileNoSymlink path maxSize).run.Calls P := by
  rw [readRegularFileNoSymlink]
  refine calls_exceptT_bind (calls_attempt (calls_sys (hopen _ _))) fun fd => ?_
  refine calls_exceptT_bind (calls_attempt (calls_sys (hfstat _))) fun st => ?_
  refine calls_exceptT_bind trivial fun _ => calls_exceptT_bind trivial fun _ => ?_
  exact calls_readBytes (hread fd) _ _ _

end

/-! ### Files -/

/-- The calls that look at a file, write it or remove it. -/
def Sys.isFileCall : Sys → Bool
  | .getpid => true
  | .openPath _ _ => true
  | .openat _ _ _ => true
  | .lstat _ => true
  | .fstat _ => true
  | .write _ _ => true
  | .read _ _ => true
  | .fsync _ => true
  | .close _ => true
  | .renameat _ _ _ _ => true
  | .unlinkat _ _ => true
  | _ => false

/-- A program that makes such calls only. -/
abbrev FileCalls {α : Type} (p : SysProg α) : Prop := p.Calls fun o _ => o.isFileCall = true

theorem fileCalls_fsyncDirectory (dirFd : Fd) : FileCalls (fsyncDirectory dirFd).run :=
  calls_attempt (calls_sys rfl)

theorem fileCalls_atomicWriteFile (finalPath : PosixPath) (contents : Bytes) (mode : ℕ) :
    FileCalls (atomicWriteFile finalPath contents mode).run := by
  rw [atomicWriteFile]
  refine calls_exceptT_bind (calls_attempt (calls_sys rfl)) fun dirFd => ?_
  refine calls_exceptT_bind (calls_openTemporary rfl (fun _ _ => rfl) _ _ _ _) fun tmp => ?_
  exact calls_replaceFile (fun _ => rfl) (fun _ => rfl) rfl (fun _ _ _ _ => rfl) (fun _ _ => rfl)
    _ _ _ _

theorem fileCalls_unlinkQuadletFile (path : PosixPath) :
    FileCalls (unlinkQuadletFile path).run := by
  rw [unlinkQuadletFile]
  refine calls_exceptT_bind (calls_attempt (calls_sys rfl)) fun dirFd => ?_
  refine calls_exceptT_bind (calls_call rfl) fun removed => ?_
  cases removed with
  | ok u => exact fileCalls_fsyncDirectory dirFd
  | error e =>
      dsimp only
      split
      · exact trivial
      · exact fileCalls_fsyncDirectory dirFd

theorem fileCalls_readRegularFileNoSymlink (path : PosixPath) (maxSize : ℕ) :
    FileCalls (readRegularFileNoSymlink path maxSize).run :=
  calls_readRegularFileNoSymlink (fun _ _ => rfl) (fun _ => rfl) (fun _ _ => rfl) path maxSize

/-! ### Directories and files -/

/-- The calls of the installer's operations. -/
def Sys.isTreeCall : Sys → Bool
  | .createDirectories _ => true
  | .chmod _ _ => true
  | o => o.isFileCall

/-- A program that makes such calls only. -/
abbrev TreeCalls {α : Type} (p : SysProg α) : Prop := p.Calls fun o _ => o.isTreeCall = true

theorem FileCalls.treeCalls {α : Type} {p : SysProg α} (h : FileCalls p) : TreeCalls p := by
  refine h.mono fun o _ ho => ?_
  cases o <;> first | exact ho | rfl

theorem treeCalls_ensureAdminTree (uid : UInt32) (layout : QuadletInstallLayout) :
    TreeCalls (ensureAdminTree uid layout).run :=
  calls_ensureAdminTree (fun _ => rfl) (fun _ => rfl) (fun _ _ => rfl) uid layout

section

variable (installer : QuadletInstaller) (uid : UInt32)

theorem treeCalls_snapshotForUser (fileName : Bytes) :
    TreeCalls (installer.snapshotForUser uid fileName).run := by
  refine calls_exceptT_bind trivial fun _ => ?_
  refine calls_exceptT_bind (treeCalls_ensureAdminTree _ _) fun _ => ?_
  refine FileCalls.treeCalls (calls_exceptT_bind (calls_call rfl) fun found => ?_)
  cases found with
  | error e =>
      dsimp only
      split <;> trivial
  | ok st => exact calls_exceptT_bind (fileCalls_readRegularFileNoSymlink _ _) fun _ => trivial

theorem treeCalls_restoreForUser (snapshot : QuadletSnapshot) :
    TreeCalls (installer.restoreForUser uid snapshot).run := by
  refine calls_exceptT_bind trivial fun _ => ?_
  refine calls_exceptT_bind (treeCalls_ensureAdminTree _ _) fun _ => ?_
  refine calls_exceptT_bind trivial fun _ => ?_
  split
  · exact (fileCalls_atomicWriteFile _ _ _).treeCalls
  · exact (fileCalls_unlinkQuadletFile _).treeCalls

theorem treeCalls_installForUser (quadlet : QuadletFile) :
    TreeCalls (installer.installForUser uid quadlet).run := by
  refine calls_exceptT_bind trivial fun expected => ?_
  refine calls_exceptT_bind (treeCalls_ensureAdminTree _ _) fun _ => ?_
  exact calls_exceptT_bind (fileCalls_atomicWriteFile _ _ _).treeCalls fun _ => trivial

/-! ### The unit -/

/-- The calls of a deployment once the file is in place, rollback included. -/
def Sys.isUnitCall : Sys → Bool
  | .daemonReload _ => true
  | .restartUnit _ _ => true
  | .status _ _ => true
  | o => o.isTreeCall

/-- A program that makes such calls only. -/
abbrev UnitCalls {α : Type} (p : SysProg α) : Prop := p.Calls fun o _ => o.isUnitCall = true

theorem TreeCalls.unitCalls {α : Type} {p : SysProg α} (h : TreeCalls p) : UnitCalls p := by
  refine h.mono fun o _ ho => ?_
  cases o <;> first | exact ho | rfl

theorem unitCalls_rollbackError (target : PodmanTarget) (snapshot : QuadletSnapshot) (unit : Bytes)
    (restartRestoredUnit : Bool) (original : Error) :
    UnitCalls (rollbackError installer target uid snapshot unit restartRestoredUnit original) := by
  refine Prog.calls_bind (treeCalls_restoreForUser installer uid snapshot).unitCalls fun r => ?_
  cases r with
  | error e => trivial
  | ok u =>
      refine Prog.calls_bind (calls_sys rfl) fun reload => ?_
      cases reload with
      | error e => trivial
      | ok u =>
          dsimp only
          split
          · refine Prog.calls_bind (calls_sys rfl) fun restart => ?_
            cases restart with
            | error e => trivial
            | ok operation =>
                dsimp only
                split <;> trivial
          · trivial

end

theorem calls_observe {P : (o : Sys) → (o.Resp → Bool) → Prop} {α : Type} {p : SysProg α}
    (h : p.Calls P) : (observe p).run.Calls P := Prog.calls_bind h fun _ => trivial

theorem calls_noRollback {P : (o : Sys) → (o.Resp → Bool) → Prop} {α : Type} {x : Action α}
    (h : x.run.Calls P) : (noRollback x).run.Calls P := Prog.calls_bind h fun _ => trivial

namespace DeploymentOrchestrator

/-- **Once the file is in place** a deployment looks after the unit. -/
theorem unitCalls_activate (orchestrator : DeploymentOrchestrator) (bundle : DeploymentBundle)
    (target : PodmanTarget) (snapshot : QuadletSnapshot) (result : DeploymentResult) :
    UnitCalls (orchestrator.activate bundle target snapshot result).run := by
  have hrollback : ∀ restart e, UnitCalls (failAfterRollback (rollbackError
      orchestrator.installer target bundle.targetUid snapshot result.systemdUnit restart e) :
        Deploy DeploymentResult).run :=
    fun restart e => Prog.calls_bind (unitCalls_rollbackError _ _ _ _ _ _ _) fun _ => trivial
  refine calls_exceptT_bind (calls_observe (calls_sys rfl)) fun reload => ?_
  cases reload with
  | error e => exact hrollback _ _
  | ok u =>
      dsimp only
      split
      · refine calls_exceptT_bind (calls_observe (calls_sys rfl)) fun operation => ?_
        cases operation with
        | error e => exact hrollback _ _
        | ok operation =>
            dsimp only
            split
            · trivial
            · exact hrollback _ _
      · refine calls_exceptT_bind (calls_observe (calls_sys rfl)) fun status => ?_
        cases status <;> trivial

end DeploymentOrchestrator

/-! ### The lock -/

/-- The calls on the way to the lock. -/
def Sys.isLockCall : Sys → Bool
  | .createDirectories _ => true
  | .openPath _ _ => true
  | .fstat _ => true
  | .mkdirat _ _ _ => true
  | .openat _ _ _ => true
  | .fchmod _ _ => true
  | _ => false

/-- A program that makes such calls only, each of them once. -/
abbrev LockCalls {α : Type} (p : SysProg α) : Prop :=
  p.Calls fun o again => o.isLockCall = true ∧ ∀ r, again r = false

theorem lockCalls_sys {o : Sys} (ho : o.isLockCall = true) : LockCalls (sys o) :=
  calls_sys ⟨ho, fun _ => rfl⟩

theorem lockCalls_validateOwnerIfRequired (fd : Fd) (layout : QuadletInstallLayout)
    (description : Bytes) : LockCalls (validateOwnerIfRequired fd layout description).run := by
  refine calls_exceptT_bind (calls_attempt (lockCalls_sys rfl)) fun st => ?_
  exact calls_exceptT_bind trivial fun _ => trivial

theorem lockCalls_makeLocks (rootFd : Fd) : LockCalls (makeLocks rootFd).run := by
  refine calls_exceptT_bind (Prog.calls_bind (lockCalls_sys rfl) fun _ => trivial) fun made => ?_
  cases made <;> trivial

/-- **The way to the lock.** -/
theorem lockCalls_openLock (layout : QuadletInstallLayout) (uid : UInt32) (unit : Bytes) :
    LockCalls (openLock layout uid unit).run := by
  refine calls_exceptT_bind (calls_attempt (lockCalls_sys rfl)) fun _ => ?_
  refine calls_exceptT_bind (calls_attempt (lockCalls_sys rfl)) fun rootFd => ?_
  refine calls_exceptT_bind (lockCalls_validateOwnerIfRequired _ _ _) fun _ => ?_
  refine calls_exceptT_bind (lockCalls_makeLocks _) fun _ => ?_
  refine calls_exceptT_bind (calls_attempt (lockCalls_sys rfl)) fun dirFd => ?_
  refine calls_exceptT_bind (lockCalls_validateOwnerIfRequired _ _ _) fun _ => ?_
  refine calls_exceptT_bind (calls_attempt (lockCalls_sys rfl)) fun _ => ?_
  exact calls_attempt (lockCalls_sys rfl)

end PodInstaller
