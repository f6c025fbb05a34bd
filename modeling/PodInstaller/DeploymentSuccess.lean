/-
**What a deployment has done when it succeeds.**

A deployment that returns a result has gone through all its stages: the bundle was checked, the
archive opened, the lock taken, the socket validated, the archive loaded, the snapshot taken, the
file replaced, the manager reloaded, and the unit restarted.  Which of these are left out is up to
the options only.  The order of the stages is the order of the calls in the trace.

Main definitions:

* `PodInstaller.PartOf` — a function that succeeded on the way;
* `PodInstaller.LoadsArchive`, `PodInstaller.Reloads`, `PodInstaller.RestartsHealthy` — calls that
  succeeded;
* `PodInstaller.Deploys` — what a deployment has done.

Main results:

* `PodInstaller.exec_deploy_ok`, `PodInstaller.exec_deployLocked_ok`,
  `PodInstaller.exec_activate_ok` — the stages;
* `PodInstaller.deploys_of_success` — **success means deployed**.
-/

import PodInstaller.Rollback
import PodInstaller.DerivedNames

set_option relaxedAutoImplicit false
set_option autoImplicit false

namespace PodInstaller

open Bytes

section

variable {K : Kernel} {t : ℕ} {w w' : World} {tr : Trace Sys.Resp World Choice}
variable {orchestrator : DeploymentOrchestrator} {bundle : DeploymentBundle}
variable {result : DeploymentResult}

/-! ### The stages -/

/-- A step without a rollback, in a deployment that succeeds. -/
theorem exec_noRollback_bind_ok {α β : Type} {x : Action α} {f : α → Deploy β} {b : β} :
    Exec K.machine t w (noRollback x >>= f).run tr w' (.ok b) ↔
      ∃ tr₁ w₁ a tr₂, Exec K.machine t w x.run tr₁ w₁ (.ok a) ∧
        Exec K.machine t w₁ (f a).run tr₂ w' (.ok b) ∧ tr = tr₁ ++ tr₂ := by
  rw [exec_noRollback_bind, or_iff_right]
  rintro ⟨e, he, -⟩
  cases he

/-- A rollback is no success. -/
theorem not_exec_failAfterRollback {α : Type} {p : SysProg Failure} {a : α} :
    ¬ Exec K.machine t w (failAfterRollback p : Deploy α).run tr w' (.ok a) := by
  intro h
  rw [failAfterRollback, ExceptT.run_mk, exec_bind] at h
  obtain ⟨_, _, _, _, -, hret, -⟩ := h
  obtain ⟨-, -, hr⟩ := exec_ret.1 hret
  cases hr

/-- **The stages of a deployment**: it is prepared, takes the lock, and works under it. -/
theorem exec_deploy_ok (hdry : orchestrator.options.dryRun = false)
    (h : Exec K.machine t w (orchestrator.deploy bundle).run tr w' (.ok result)) :
    ∃ tr₁ w₁ prepared tr₂ w₂ fd tr₃ w₃ tr₄,
      Exec K.machine t w (orchestrator.prepare bundle).run tr₁ w₁ (.ok prepared) ∧
      Exec K.machine t w₁ (lockDeployment orchestrator.installer.layout bundle.targetUid
        prepared.expected.systemdUnit).run tr₂ w₂ (.ok fd) ∧
      Exec K.machine t w₂ (orchestrator.deployLocked bundle prepared).run tr₃ w₃ (.ok result) ∧
      tr = tr₁ ++ (tr₂ ++ (tr₃ ++ tr₄)) := by
  rw [DeploymentOrchestrator.run_deploy] at h
  obtain ⟨tr₁, w₁, prepared, trRest, hprepare, hrest, rfl⟩ := exec_bind.1 h
  cases prepared with
  | error e =>
      obtain ⟨-, -, hr⟩ := exec_ret.1 hrest
      cases hr
  | ok prepared =>
      rw [DeploymentOrchestrator.afterPrepare, hdry, if_neg Bool.false_ne_true,
        DeploymentOrchestrator.deployFromLock] at hrest
      obtain ⟨tr₂, w₂, fd, trWork, hlock, hwork, rfl⟩ := exec_noRollback_bind_ok.1 hrest
      obtain ⟨tr₃, w₃, r, tr₄, hlocked, hclose, rfl⟩ := exec_observe_bind.1 hwork
      obtain ⟨_, _, _, _, -, hret, -⟩ := exec_observe_bind.1 hclose
      obtain ⟨-, -, rfl⟩ := exec_ret.1 hret
      exact ⟨tr₁, w₁, prepared, tr₂, w₂, fd, tr₃, w₃, tr₄, hprepare, hlock, hlocked, rfl⟩

/-- **The stages under the lock.** -/
theorem exec_deployLocked_ok {prepared : DeploymentOrchestrator.Prepared}
    (h : Exec K.machine t w (orchestrator.deployLocked bundle prepared).run tr w' (.ok result)) :
    ∃ tr₁ w₁ tr₂ w₂ tr₃ w₃ snapshot tr₄ w₄ installed tr₅,
      Exec K.machine t w (DeploymentOrchestrator.validateSocket orchestrator.options bundle
        prepared.target).run tr₁ w₁ (.ok ()) ∧
      Exec K.machine t w₁ (DeploymentOrchestrator.loadImage prepared.target
        prepared.archive).run tr₂ w₂ (.ok ()) ∧
      Exec K.machine t w₂ (orchestrator.installer.snapshotForUser bundle.targetUid
        bundle.quadlet.fileName).run tr₃ w₃ (.ok snapshot) ∧
      Exec K.machine t w₃ (orchestrator.installer.installForUser bundle.targetUid
        bundle.quadlet).run tr₄ w₄ (.ok installed) ∧
      Exec K.machine t w₄ (orchestrator.activate bundle prepared.target snapshot
        { installedQuadletPath := installed.path
          systemdUnit := installed.systemdUnit }).run tr₅ w' (.ok result) ∧
      tr = tr₁ ++ (tr₂ ++ (tr₃ ++ (tr₄ ++ tr₅))) := by
  rw [DeploymentOrchestrator.deployLocked] at h
  obtain ⟨tr₁, w₁, _, _, hsocket, h₁, rfl⟩ := exec_noRollback_bind_ok.1 h
  obtain ⟨tr₂, w₂, _, _, hload, h₂, rfl⟩ := exec_noRollback_bind_ok.1 h₁
  obtain ⟨tr₃, w₃, snapshot, _, hsnapshot, h₃, rfl⟩ := exec_noRollback_bind_ok.1 h₂
  obtain ⟨tr₄, w₄, installed, tr₅, hinstall, h₄, rfl⟩ := exec_noRollback_bind_ok.1 h₃
  exact ⟨tr₁, w₁, tr₂, w₂, tr₃, w₃, snapshot, tr₄, w₄, installed, tr₅, hsocket, hload, hsnapshot,
    hinstall, h₄, rfl⟩

/-- A successful reload of the manager of a target. -/
def Reloads (target : PodmanTarget) (e : Event Sys.Resp World Choice) : Prop :=
  ∃ w c w', e = ⟨w, .daemonReload target, c, .ok (), w'⟩

/-- A restart of a unit after which it is loaded and active. -/
def RestartsHealthy (target : PodmanTarget) (unit : Bytes) (e : Event Sys.Resp World Choice) :
    Prop :=
  ∃ w c operation w', e = ⟨w, .restartUnit target unit, c, .ok operation, w'⟩ ∧
    operation.finalStatus.loadState = ofString "loaded" ∧
    operation.finalStatus.activeState = ofString "active"

/-- **The last stage**: the manager has reloaded, and the unit was restarted if that was asked
for. -/
theorem exec_activate_ok {target : PodmanTarget} {snapshot : QuadletSnapshot}
    {made : DeploymentResult}
    (h : Exec K.machine t w (orchestrator.activate bundle target snapshot made).run tr w'
      (.ok result)) :
    ∃ reload tr₁, tr = reload :: tr₁ ∧ Reloads target reload ∧
      (orchestrator.options.restartUnit = true →
        ∃ e ∈ tr₁, RestartsHealthy target made.systemdUnit e) := by
  unfold DeploymentOrchestrator.activate at h
  obtain ⟨_, w₁, reload, tr₁, hreload, h₁, rfl⟩ := exec_observe_bind.1 h
  obtain ⟨c, -, rfl⟩ := exec_sys.1 hreload
  cases reload with
  | error e => exact absurd h₁ not_exec_failAfterRollback
  | ok u =>
      refine ⟨_, tr₁, rfl, ⟨w, c, w₁, rfl⟩, fun hrestart => ?_⟩
      dsimp only at h₁
      rw [if_pos hrestart] at h₁
      obtain ⟨_, w₂, operation, tr₂, hoperation, h₂, rfl⟩ := exec_observe_bind.1 h₁
      obtain ⟨c, -, rfl⟩ := exec_sys.1 hoperation
      cases operation with
      | error e => exact absurd h₂ not_exec_failAfterRollback
      | ok operation =>
          dsimp only at h₂
          split at h₂
          · rename_i hhealthy
            rw [deployedStatusIsHealthy, Bool.and_eq_true, beq_iff_eq, beq_iff_eq] at hhealthy
            exact ⟨_, List.mem_cons_self, _, c, operation, w₂, rfl, hhealthy⟩
          · exact absurd h₂ not_exec_failAfterRollback

/-! ### What was checked -/

/-- The bundles that pass the check are for a user, and name the unit of their file. -/
theorem validateDeploymentBundle_ok (h : validateDeploymentBundle bundle = .ok ()) :
    bundle.targetUid ≠ 0 ∧
      bundle.quadlet.fileName = bundle.serviceName ++ ofString ".container" ∧
      serviceUnitNameFromQuadlet bundle.quadlet.fileName =
        .ok (bundle.serviceName ++ ofString ".service") := by
  simp only [validateDeploymentBundle, bind_eq_ok, reject_eq_ok] at h
  obtain ⟨_, huser, _, -, unit, hunit, _, hservice, -⟩ := h
  rw [not_not.1 hservice] at hunit
  refine ⟨huser, ?_, hunit⟩
  obtain ⟨_, hvalid, -⟩ := bind_eq_ok.1 hunit
  obtain ⟨stem, -, hfile, hstem⟩ := exists_stem hvalid
  rw [hunit] at hstem
  rw [hfile, List.append_cancel_right (Except.ok.inj hstem)]

/-- The target is the user of the bundle. -/
theorem exec_resolveUid_ok {uid : UInt32} {layout : RuntimeDirectoryLayout} {apiVersion : Bytes}
    {target : PodmanTarget}
    (h : Exec K.machine t w (resolveUid uid layout apiVersion).run tr w' (.ok target)) :
    target.uid = uid := by
  rw [resolveUid] at h
  obtain ⟨tr₁, w₁, pw, tr₂, hlookup, hrest, -⟩ := exec_bind_ok.1 h
  obtain ⟨c, hstep, -⟩ := exec_sys.1 (exec_attempt_ok.1 hlookup)
  cases pw with
  | none =>
      obtain ⟨-, -, hr⟩ := exec_throw.1 hrest
      cases hr
  | some pw =>
      obtain ⟨-, -, hr⟩ := exec_pure.1 hrest
      rw [Except.ok.inj hr]
      exact System.step_getpwuid_some (Kernel.machine_step.1 hstep)

/-- **What a prepared deployment has made sure of.** -/
theorem exec_prepare_ok {prepared : DeploymentOrchestrator.Prepared}
    (h : Exec K.machine t w (orchestrator.prepare bundle).run tr w' (.ok prepared)) :
    validateDeploymentBundle bundle = .ok () ∧ prepared.target.uid = bundle.targetUid ∧
      orchestrator.installer.expectedInstall bundle.targetUid bundle.quadlet =
        .ok prepared.expected ∧
      ∃ tr₁ w₁ tr₂, tr = tr₁ ++ tr₂ ∧ Exec K.machine t w₁
        (DeploymentOrchestrator.openArchive orchestrator.options bundle).run tr₂ w'
        (.ok prepared.archive) := by
  rw [DeploymentOrchestrator.prepare] at h
  obtain ⟨-, h₁⟩ := exec_rejectIf_bind_ok.1 h
  obtain ⟨_, _, u, _, hcheck, h₂, rfl⟩ := exec_bind_ok.1 h₁
  obtain ⟨rfl, rfl, hbundle⟩ := exec_done.1 hcheck
  obtain ⟨tr₁, w₁, target, _, htarget, h₃, rfl⟩ := exec_bind_ok.1 h₂
  obtain ⟨_, _, expected, _, hinstall, h₄, rfl⟩ := exec_bind_ok.1 h₃
  obtain ⟨rfl, rfl, hexpected⟩ := exec_done.1 hinstall
  obtain ⟨tr₂, w₂, archive, _, harchive, hret, rfl⟩ := exec_bind_ok.1 h₄
  obtain ⟨rfl, rfl, hprepared⟩ := exec_pure.1 hret
  obtain rfl := Except.ok.inj hprepared
  exact ⟨hbundle.symm, exec_resolveUid_ok htarget, hexpected.symm, tr₁, _, tr₂, by simp, harchive⟩

/-! ### The image archive -/

/-- A function that succeeded on the way. -/
def PartOf (K : Kernel) (t : ℕ) {α : Type} (x : Action α) (a : α)
    (tr : Trace Sys.Resp World Choice) : Prop :=
  ∃ tr₁ w tr₂ w' tr₃, tr = tr₁ ++ (tr₂ ++ tr₃) ∧ Exec K.machine t w x.run tr₂ w' (.ok a)

theorem PartOf.append_left {α : Type} {x : Action α} {a : α} (h : PartOf K t x a tr)
    (tr₀ : Trace Sys.Resp World Choice) : PartOf K t x a (tr₀ ++ tr) := by
  obtain ⟨tr₁, w, tr₂, w', tr₃, rfl, h⟩ := h
  exact ⟨tr₀ ++ tr₁, w, tr₂, w', tr₃, by simp, h⟩

theorem PartOf.append_right {α : Type} {x : Action α} {a : α} (h : PartOf K t x a tr)
    (tr₀ : Trace Sys.Resp World Choice) : PartOf K t x a (tr ++ tr₀) := by
  obtain ⟨tr₁, w, tr₂, w', tr₃, rfl, h⟩ := h
  exact ⟨tr₁, w, tr₂, w', tr₃ ++ tr₀, by simp, h⟩

theorem partOf_exec {α : Type} {x : Action α} {a : α}
    (h : Exec K.machine t w x.run tr w' (.ok a)) : PartOf K t x a tr :=
  ⟨[], w, tr, w', [], by simp, h⟩

/-- The archive is opened if it is to be loaded. -/
theorem exec_openArchive_ok {options : DeploymentOptions} {archive : ImageArchive}
    {a : Option OpenArchive} (hoption : options.loadImageArchive = true)
    (harchive : bundle.imageArchive = some archive)
    (h : Exec K.machine t w (DeploymentOrchestrator.openArchive options bundle).run tr w' (.ok a)) :
    ∃ opened, a = some opened ∧ PartOf K t (openStagedImageArchive archive options) opened tr := by
  rw [DeploymentOrchestrator.openArchive, hoption, harchive] at h
  obtain ⟨tr₁, w₁, opened, tr₂, hopen, hret, rfl⟩ := exec_bind_ok.1 h
  obtain ⟨rfl, rfl, ha⟩ := exec_pure.1 hret
  exact ⟨opened, Except.ok.inj ha, (partOf_exec hopen).append_right _⟩

/-- The request that loads an archive. -/
def loadTransfer (target : PodmanTarget) (archive : OpenArchive) : Transfer where
  socketPath := cStr target.socketPath
  url := cStr (baseUrl ++ versionedPath target "/libpod/images/load")
  method := "POST"
  headers := ["Content-Type: application/x-tar"]
  upload := some (archive.fd, archive.size)

/-- Podman has loaded an archive. -/
def Loads (target : PodmanTarget) (archive : OpenArchive) (e : Event Sys.Resp World Choice) :
    Prop :=
  ∃ w c response w', e = ⟨w, .curl (loadTransfer target archive), c, .ok response, w'⟩ ∧
    200 ≤ response.status ∧ response.status < 300

/-- The archive of a deployment that has one is loaded last. -/
theorem exec_loadImage_ok {target : PodmanTarget} {archive : OpenArchive}
    (h : Exec K.machine t w (DeploymentOrchestrator.loadImage target (some archive)).run tr w'
      (.ok ())) : ∃ tr₁ e, tr = tr₁ ++ [e] ∧ Loads target archive e := by
  rw [DeploymentOrchestrator.loadImage] at h
  obtain ⟨tr₁, w₁, _, _, -, h₁, rfl⟩ := exec_bind_ok.1 h
  obtain ⟨tr₂, w₂, _, _, hload, hret, rfl⟩ := exec_bind_ok.1 h₁
  obtain ⟨rfl, rfl, -⟩ := exec_pure.1 hret
  rw [loadImageArchiveFd_natCast, loadFromFd] at hload
  obtain ⟨tr₃, w₃, st, _, -, hload₁, rfl⟩ := exec_bind_ok.1 hload
  obtain ⟨-, hload₂⟩ := exec_rejectIf_bind_ok.1 hload₁
  obtain ⟨-, hload₃⟩ := exec_rejectIf_bind_ok.1 hload₂
  obtain ⟨-, hload₄⟩ := exec_rejectIf_bind_ok.1 hload₃
  obtain ⟨tr₄, w₄, response, _, hcurl, hdone, rfl⟩ := exec_bind_ok.1 hload₄
  obtain ⟨rfl, rfl, hresponse⟩ := exec_done.1 hdone
  obtain ⟨c, -, rfl⟩ := exec_sys.1 (exec_attempt_ok.1 hcurl)
  obtain ⟨hstatus, -⟩ := requireSuccess_eq_ok.1 hresponse.symm
  refine ⟨tr₁ ++ tr₃, ⟨w₃, .curl (loadTransfer target archive), c, .ok response, w'⟩, ?_, w₃, c,
    response, w', rfl, hstatus⟩
  simp [loadTransfer]

/-- The bundle's archive was opened, and Podman has loaded it, only after the socket was validated
if that was asked for. -/
def LoadsArchive (K : Kernel) (t : ℕ) (options : DeploymentOptions) (archive : ImageArchive)
    (target : PodmanTarget) (tr : Trace Sys.Resp World Choice) : Prop :=
  ∃ opened tr₁ e tr₂, tr = tr₁ ++ e :: tr₂ ∧ Loads target opened e ∧
    PartOf K t (openStagedImageArchive archive options) opened tr₁ ∧
    (options.validateSocket = true →
      PartOf K t (validatePodmanSocket target { layout := options.runtimeLayout }) () tr₁)

/-! ### Success -/

/-- **What a deployment has done**: the bundle is for a user and names its file, the contents are
accepted and in place, and the calls came in their order. -/
structure Deploys (K : Kernel) (t : ℕ) (orchestrator : DeploymentOrchestrator)
    (bundle : DeploymentBundle) (tr : Trace Sys.Resp World Choice) (w' : World) : Prop where
  user : bundle.targetUid ≠ 0
  fileName : bundle.quadlet.fileName = bundle.serviceName ++ ofString ".container"
  policy : validateQuadletPolicy bundle.quadlet orchestrator.installer.policy = .ok ()
  size : bundle.quadlet.contents.length ≤ orchestrator.installer.layout.maxQuadletBytes.toNat
  inPlace : w'.look bundle.targetUid bundle.quadlet.fileName =
    some (.regular bundle.quadlet.contents)
  order : ∃ (target : PodmanTarget) (tr₁ : Trace Sys.Resp World Choice)
      (put : Event Sys.Resp World Choice) (tr₂ : Trace Sys.Resp World Choice)
      (reload : Event Sys.Resp World Choice) (tr₃ : Trace Sys.Resp World Choice),
    target.uid = bundle.targetUid ∧ tr = tr₁ ++ put :: (tr₂ ++ reload :: tr₃) ∧
    PutsInPlace bundle.targetUid bundle.quadlet.fileName bundle.quadlet.contents put ∧
    Reloads target reload ∧
    (orchestrator.options.restartUnit = true → ∃ e ∈ tr₃,
      RestartsHealthy target (bundle.serviceName ++ ofString ".service") e) ∧
    (orchestrator.options.loadImageArchive = true → ∀ archive, bundle.imageArchive = some archive →
      LoadsArchive K t orchestrator.options archive target tr₁)

/-- An installation that succeeds has renamed. -/
theorem exec_installForUser_ok {installer : QuadletInstaller} {uid : UInt32} {quadlet : QuadletFile}
    {installed : InstalledQuadlet} (hroot : installer.layout.adminUserRoot = K.adminRoot)
    (h : Exec K.machine t w (installer.installForUser uid quadlet).run tr w' (.ok installed)) :
    ∃ tr₁ put tr₂, tr = tr₁ ++ put :: tr₂ ∧
      PutsInPlace uid quadlet.fileName quadlet.contents put := by
  cases replaces_installForUser hroot h with
  | renamed _ htrace _ hput _ _ => exact ⟨_, _, _, htrace, hput⟩

/-- An installation returns what was expected. -/
theorem exec_installForUser_expected {installer : QuadletInstaller} {uid : UInt32}
    {quadlet : QuadletFile} {expected installed : InstalledQuadlet}
    (hexpected : installer.expectedInstall uid quadlet = .ok expected)
    (h : Exec K.machine t w (installer.installForUser uid quadlet).run tr w' (.ok installed)) :
    installed = expected := by
  have hends : (installer.installForUser uid quadlet).run.Ends (ControllerAnswers False) _ :=
    QuadletInstaller.behaves_installForUser hexpected
  exact (exec_ends hends h fun _ _ => ControllerAnswers.of_true fun h => h.elim).2 installed rfl

/-- **Success means deployed.** -/
theorem deploys_of_success (hroot : orchestrator.installer.layout.adminUserRoot = K.adminRoot)
    (hdry : orchestrator.options.dryRun = false)
    (h : Exec K.machine t w (orchestrator.deploy bundle).run tr w' (.ok result)) :
    Deploys K t orchestrator bundle tr w' := by
  obtain ⟨trPrepare, w₁, prepared, trLock, w₂, fd, trWork, w₃, trClose, hprepare, -, hwork, rfl⟩ :=
    exec_deploy_ok hdry h
  obtain ⟨hbundle, htarget, hexpected, trUser, w₀, trOpen, rfl, harchive⟩ :=
    exec_prepare_ok hprepare
  obtain ⟨trSocket, w₄, trLoad, w₅, trSnapshot, w₆, snapshot, trInstall, w₇, installed, trActivate,
    hsocket, hload, -, hinstall, hactivate, rfl⟩ := exec_deployLocked_ok hwork
  obtain ⟨huser, hfile, hservice⟩ := validateDeploymentBundle_ok hbundle
  obtain ⟨hsize, hpolicy, hunit, -⟩ := QuadletInstaller.expectedInstall_eq_ok.1 hexpected
  refine ⟨huser, hfile, hpolicy, hsize, ?_, ?_⟩
  · -- a deployment that runs alone has replaced its file
    rcases deploy_alone hroot hdry (visible_of_expectedInstall hexpected) h with ⟨e, he, -⟩ | hnew
    · cases he
    · exact hnew.new
  · -- the calls in their order
    obtain ⟨reload, trAfter, rfl, hreload, hrestart⟩ := exec_activate_ok hactivate
    obtain ⟨trBefore, put, trSync, rfl, hput⟩ := exec_installForUser_ok hroot hinstall
    have hinstalled : installed.systemdUnit = bundle.serviceName ++ ofString ".service" := by
      rw [exec_installForUser_expected hexpected hinstall]
      exact Except.ok.inj (hunit.symm.trans hservice)
    refine ⟨prepared.target, trUser ++ (trOpen ++ (trLock ++ (trSocket ++ (trLoad ++ (trSnapshot ++
      trBefore))))), put, trSync, reload, trAfter ++ trClose, htarget, by simp, hput, hreload,
      fun hoption => ?_, fun hoption archive harchived => ?_⟩
    · obtain ⟨e, he, hhealthy⟩ := hrestart hoption
      exact ⟨e, List.mem_append_left _ he, hinstalled ▸ hhealthy⟩
    · obtain ⟨opened, hopened, hopen⟩ := exec_openArchive_ok hoption harchived harchive
      rw [hopened] at hload
      obtain ⟨trPing, load, rfl, hloads⟩ := exec_loadImage_ok hload
      refine ⟨opened, trUser ++ (trOpen ++ (trLock ++ (trSocket ++ trPing))), load,
        trSnapshot ++ trBefore, by simp, hloads, (hopen.append_right _).append_left _,
        fun hvalidate => ?_⟩
      rw [DeploymentOrchestrator.validateSocket, if_pos ⟨hvalidate, hoption, by simp [harchived]⟩]
        at hsocket
      exact ((((partOf_exec hsocket).append_right _).append_left _).append_left _).append_left _

end

/-- A bundle with an image archive, and a deployer that finds it below a staging root. -/
def archivedBundle : DeploymentBundle :=
  { webBundle with imageArchive := some { path := "web.tar" } }

def stagingDeployer : DeploymentOrchestrator where
  installer := {}
  options := { imageArchiveRoot := some "/srv/staging" }

/-- A staged archive. -/
def stagedArchive : Stat := ⟨.regular, 0, 0, 0o644, 4096⟩

/-- The choices for a deployment of the bundle: its archive is opened, and loaded under the lock. -/
def loadsArchive : List Choice :=
  [.passwd (.ok (some ⟨1000, "app"⟩)), .go, .stat stagedArchive, .go, .stat stagedArchive] ++
    List.replicate 9 .go ++
    [.stat ⟨.socket, 1000, 1000, 0o600, 0⟩, .http (.ok { status := 200 }), .stat stagedArchive,
      .http (.ok { status := 200 })] ++
    List.replicate 18 .go ++ [.pid 7, .go, .moved webQuadlet.contents.length] ++
    List.replicate 4 .go ++ [.reload (.ok ()), .restart healthyRestart true, .go]

/-- A deployment with an image archive that succeeds. -/
theorem webBundle_deploys :
    ∃ tr w' result, Exec defaultKernel.machine 0 emptyWorld
        (stagingDeployer.deploy archivedBundle).run tr w' (.ok result) ∧
      Deploys defaultKernel 0 stagingDeployer archivedBundle tr w' ∧
      ∃ target tr₁ tr₂, tr = tr₁ ++ tr₂ ∧ LoadsArchive defaultKernel 0 stagingDeployer.options
        { path := "web.tar" } target tr₁ := by
  have hrun : (run defaultKernel.machine 0 loadsArchive emptyWorld
      (stagingDeployer.deploy archivedBundle).run).any (fun out => out.2.2.toBool) = true := by
    decide +kernel
  obtain ⟨tr, w', r, h, hr⟩ := exists_exec_of_run hrun
  cases r with
  | error failure => cases hr
  | ok result =>
      have hdeploys := deploys_of_success rfl rfl h
      obtain ⟨target, tr₁, put, tr₂, reload, tr₃, -, htr, -, -, -, hloads⟩ := hdeploys.order
      exact ⟨tr, w', result, h, hdeploys, target, tr₁, _, htr, hloads rfl _ rfl⟩

end PodInstaller
