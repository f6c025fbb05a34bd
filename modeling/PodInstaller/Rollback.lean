/-
**What a failed deployment leaves in place.**

A deployment that fails before the file is replaced has changed no Quadlet file.  Once the file is
replaced, it fails with a rollback only, and the rollback restores the snapshot that was taken
under the same lock.  So the file is back where it was if the rollback could restore it; the
exception is `fsync` of the directory, which is assumed not to fail here.

Main definitions:

* `PodInstaller.SameLooks`, `PodInstaller.Replaced` — the Quadlet files, with one of them replaced
  or not.

Main results:

* `PodInstaller.exchange_alone` — a caller that is alone replaces a file and puts it back;
* `PodInstaller.rollback_exact` — **a failed deployment leaves all Quadlet files as they were**.
-/

import PodInstaller.DeploymentRun
import PodInstaller.InstallFailure

set_option relaxedAutoImplicit false
set_option autoImplicit false

namespace PodInstaller

open Bytes

section

variable {K : Kernel} {t : ℕ} {w₀ w w' : World} {uid : UInt32} {n contents : Bytes}

/-! ### One file is replaced -/

/-- All Quadlet files are as they were. -/
def SameLooks (w₀ w : World) : Prop := ∀ uid n, ¬ Hidden n → w.look uid n = w₀.look uid n

/-- One Quadlet file is replaced, the others are as they were. -/
structure Replaced (w₀ : World) (uid : UInt32) (n contents : Bytes) (w : World) : Prop where
  new : w.look uid n = some (.regular contents)
  others : ∀ uid' n', ¬ Hidden n' → ¬ (uid' = uid ∧ n' = n) → w.look uid' n' = w₀.look uid' n'

/-- What a deployment for a file may change. -/
abbrev mayOnly (uid : UInt32) (n : Bytes) : May := fun _ uid' n' _ => uid' = uid ∧ n' = n

theorem stable_sameLooks : Stable t Eq (SameLooks w₀) where
  others := by
    rintro w _ rfl hw
    exact hw
  quiet hguar hw uid n hn := (hguar.look_eq hn).trans (hw uid n hn)

theorem stable_replaced (hn : ¬ Hidden n) : Stable t Eq (Replaced w₀ uid n contents) where
  others := by
    rintro w _ rfl hw
    exact hw
  quiet hguar hw := ⟨(hguar.look_eq hn).trans hw.new,
    fun uid' n' hn' hne => (hguar.look_eq hn').trans (hw.others uid' n' hn' hne)⟩

/-- **A caller that is alone** replaces a file, and puts it back. -/
theorem exchange_alone (hn : ¬ Hidden n) : Exchange t Eq (mayOnly uid n) uid n (SameLooks w₀)
    (Replaced w₀ uid n contents) contents where
  install := {
    before := stable_sameLooks
    after := stable_replaced hn
    allowed := fun _ _ => ⟨rfl, rfl⟩
    change := fun w w' hw hguar hlook => by
      refine ⟨hlook, fun uid' n' hn' hne => ?_⟩
      rw [(hguar.look hn').resolve_right hne, hw uid' n' hn'] }
  restore := fun w₁ hw₁ => {
    before := stable_replaced hn
    after := stable_sameLooks
    allowed := fun _ _ => ⟨rfl, rfl⟩
    change := fun w w' hw hguar hlook uid' n' hn' => by
      by_cases heq : uid' = uid ∧ n' = n
      · rw [heq.1, heq.2, hlook, hw₁ uid n hn]
      · rw [(hguar.look hn').resolve_right heq, hw.others uid' n' hn' heq] }

/-! ### The deployment -/

variable {orchestrator : DeploymentOrchestrator} {bundle : DeploymentBundle}
variable {tr : List (Event Sys.Resp World Choice)} {failure : Failure}

/-- The file names that are accepted are not hidden. -/
theorem visible_of_expectedInstall {installer : QuadletInstaller} {quadlet : QuadletFile}
    {expected : InstalledQuadlet} (h : installer.expectedInstall uid quadlet = .ok expected) :
    ¬ Hidden quadlet.fileName := (quadletName_of_expectedInstall h).visible

/-- Small changes leave all entries as they are. -/
theorem System.Minor.look {s s' : System} (h : System.Minor t s s') (uid : UInt32) (n : Bytes) :
    s'.look uid n = s.look uid n := by
  cases h <;> rfl

/-- A deployment of a Quadlet that is not accepted changes no file. -/
theorem deploy_refused {r : Except Failure DeploymentResult}
    (hrefused : ∀ expected, orchestrator.installer.expectedInstall bundle.targetUid bundle.quadlet ≠
      .ok expected)
    (h : Exec K.machine t w (orchestrator.deploy bundle).run tr w' r) :
    w'.look uid n = w.look uid n := by
  rw [DeploymentOrchestrator.run_deploy] at h
  obtain ⟨tr₁, w₁, prepared, tr₂, hprepare, hrest, rfl⟩ := exec_bind.1 h
  cases prepared with
  | ok prepared =>
      exact absurd (exec_ends (orchestrator.prepare_ends bundle) hprepare (fun _ _ => trivial)
        prepared rfl) (hrefused _)
  | error e =>
      obtain ⟨-, rfl, -⟩ := exec_ret.1 hrest
      refine (exec_invariant (P := fun w' => w'.look uid n = w.look uid n) ?_
        ((orchestrator.prepare_minor bundle).mono fun _ _ h => h.1) hprepare rfl).2
      intro w w' o c r ho hstep hw
      rw [(System.step_minor w.wellFormed ho (Kernel.machine_step.1 hstep)).look, hw]

/-- Statements about what Quadlet files hold do not look at anything else. -/
theorem SameLooks.of_look (hlook : ∀ uid n, w'.look uid n = w.look uid n) (h : SameLooks w₀ w) :
    SameLooks w₀ w' := fun uid n hn => (hlook uid n).trans (h uid n hn)

theorem Replaced.of_look (hlook : ∀ uid n, w'.look uid n = w.look uid n)
    (h : Replaced w₀ uid n contents w) : Replaced w₀ uid n contents w' :=
  ⟨(hlook uid n).trans h.new, fun uid' n' hn hne => (hlook uid' n').trans (h.others uid' n' hn hne)⟩

/-- **A deployment that runs alone.** -/
theorem deploy_alone (hroot : orchestrator.installer.layout.adminUserRoot = K.adminRoot)
    (hdry : orchestrator.options.dryRun = false) (hn : ¬ Hidden bundle.quadlet.fileName)
    {r : Except Failure DeploymentResult}
    (h : Exec K.machine t w (orchestrator.deploy bundle).run tr w' r) :
    (∃ e, r = .error ⟨e, none⟩ ∧ SameLooks w w') ∨
      Deployed K (SameLooks w) (Replaced w bundle.targetUid bundle.quadlet.fileName
        bundle.quadlet.contents) r w' := by
  obtain ⟨unit, hunit⟩ : ∃ unit, ∀ expected, orchestrator.installer.expectedInstall
      bundle.targetUid bundle.quadlet = .ok expected → expected.systemdUnit = unit := by
    cases orchestrator.installer.expectedInstall bundle.targetUid bundle.quadlet with
    | ok expected => exact ⟨_, fun _ h => by rw [← Except.ok.inj h]⟩
    | error e => exact ⟨[], fun _ h => by cases h⟩
  have hexchange : Exchange t Eq (mayOnly bundle.targetUid bundle.quadlet.fileName)
      bundle.targetUid bundle.quadlet.fileName (SameLooks w) (Replaced w bundle.targetUid
        bundle.quadlet.fileName bundle.quadlet.contents) bundle.quadlet.contents :=
    exchange_alone hn
  have hbefore : Stable t Eq (SameLooks w) := stable_sameLooks
  have hsafe := safe_deploy (K := K) (L := fun _ _ => SameLooks w) othersOnly_eq hroot hdry hbefore
    hunit (fun _ _ hw _ => ⟨hw, hbefore, stable_replaced hn, fun _ _ => hexchange⟩)
    (fun _ _ _ => rfl)
  obtain ⟨hended, -⟩ := (hsafe.exec (fun _ => rfl) h).1
  cases hended with
  | before hresult hsame _ => exact .inl ⟨_, hresult, hsame⟩
  | @locked _ _ _ _ w₁ _ _ _ _ _ hdeployed hclosed =>
      right
      -- the release of the lock changes no file
      refine hdeployed.others (R := fun w w' => ∀ uid n, w'.look uid n = w.look uid n)
        (fun hlook h => h.of_look hlook) (fun hlook h => h.of_look hlook) fun uid n => ?_
      rw [hclosed]
      rfl

/-- **A failed deployment leaves all Quadlet files as they were**, unless the rollback could not
restore its own. -/
theorem rollback_exact (hroot : orchestrator.installer.layout.adminUserRoot = K.adminRoot)
    (hsync : K.dirFsyncFails = false) (hdry : orchestrator.options.dryRun = false)
    (h : Exec K.machine t w (orchestrator.deploy bundle).run tr w' (.error failure))
    (hrestored : ∀ report, failure.rollback = some report → report.restore = .ok ()) :
    w'.look bundle.targetUid bundle.quadlet.fileName =
        w.look bundle.targetUid bundle.quadlet.fileName ∧
      ∀ uid n, ¬ Hidden n → w'.look uid n = w.look uid n := by
  by_cases hn : Hidden bundle.quadlet.fileName
  · have hrefused : ∀ expected, orchestrator.installer.expectedInstall bundle.targetUid
        bundle.quadlet ≠ .ok expected := fun _ hexpected =>
      visible_of_expectedInstall hexpected hn
    exact ⟨deploy_refused hrefused h, fun _ _ _ => deploy_refused hrefused h⟩
  · have hsame : SameLooks w w' := by
      rcases deploy_alone hroot hdry hn h with ⟨_, -, hsame⟩ | ⟨-, hnone, hsome⟩
      · exact hsame
      · cases hreport : failure.rollback with
        | none => exact hnone hreport hsync
        | some report => exact hsome report hreport (hrestored report hreport)
    exact ⟨hsame _ _ hn, hsame⟩

end

/-! ### A reload that fails -/

def webBundle : DeploymentBundle where
  targetUid := 1000
  serviceName := "web"
  imageArchive := none
  quadlet := webQuadlet

/-- The defaults, in a system in which `fsync` of a directory does not fail. -/
def syncedKernel : Kernel := defaultKernel.withFaults false true

/-- The choices up to the first call of the controller. -/
def untilReload : List Choice :=
  .passwd (.ok (some ⟨1000, "app"⟩)) :: List.replicate 27 .go ++
    [.pid 7, .go, .moved webQuadlet.contents.length] ++ List.replicate 4 .go

/-- A restart that goes well. -/
def healthyRestart : Result UnitOperationResult :=
  .ok { finalStatus := { loadState := "loaded", activeState := "active" } }

/-- The controller does not reload, and the new file is removed again. -/
theorem failed_reload_rolled_back :
    ∃ tr w' failure report, Exec syncedKernel.machine 0 emptyWorld
        (DeploymentOrchestrator.deploy { installer := {} } webBundle).run tr w' (.error failure) ∧
      failure.rollback = some report ∧
      w'.look 1000 webQuadlet.fileName = emptyWorld.look 1000 webQuadlet.fileName := by
  have hrun : (run syncedKernel.machine 0 (untilReload ++ .reload (.error (makeError .systemd
      "no bus")) :: List.replicate 11 .go ++ [.reload (.ok ()), .go]) emptyWorld
      (DeploymentOrchestrator.deploy { installer := {} } webBundle).run).any (fun out =>
        (errorOf out.2.2).any fun failure =>
          failure.rollback.any fun report => report.restore.toBool) = true := by
    decide +kernel
  obtain ⟨tr, w', r, h, hr⟩ := exists_exec_of_run hrun
  cases r with
  | ok result => cases hr
  | error failure =>
      replace hr : failure.rollback.any (fun report => report.restore.toBool) = true := hr
      obtain ⟨report, hreport, hrestored⟩ := (Option.any_eq_true _ _).1 hr
      refine ⟨tr, w', failure, report, h, hreport, (rollback_exact rfl rfl rfl h ?_).1⟩
      intro report' hreport'
      obtain rfl := Option.some.inj (hreport.symm.trans hreport')
      cases hrestore : report.restore with
      | ok u => rfl
      | error e =>
          rw [hrestore] at hrestored
          cases hrestored

end PodInstaller
