/-
**What a deployment does to the Quadlet file.**

Under its lock a deployment takes a snapshot of the Quadlet file, replaces the file, and tells the
user's manager to reload and to restart the unit.  If the manager fails, the snapshot is restored.
So the file goes from what it was, `L`, to the contents of the bundle, `L'`, and it is back at `L`
if the deployment fails, unless the rollback fails itself or `fsync` of the directory does.

`L` and `L'` are any facts that last while nobody changes a Quadlet file: statements about a
deployment that runs alone, and about one among others, come from the same theorem.

Main definitions:

* `PodInstaller.Performs` — a program that may also talk to the managers;
* `PodInstaller.Exchange` — from `L` to `L'` and back;
* `PodInstaller.Deployed` — how a deployment ends.

Main results:

* `PodInstaller.performs_rollbackError` — a rollback;
* `PodInstaller.performs_deployLocked` — **a deployment under its lock**.
-/

import PodInstaller.DeploymentLock

set_option relaxedAutoImplicit false
set_option autoImplicit false

namespace PodInstaller

open Bytes

/-! ### Programs that talk to the managers -/

/-- A program that is run among others, stays within the guarantee about files and locks, and ends
as the postcondition says. -/
def Performs (K : Kernel) (t : ℕ) (R : World → World → Prop) (may : May) {α : Type} (p : SysProg α)
    (post : α → World → Prop) (w : World) : Prop :=
  ∀ tr, Safe K.machine t R (fun w w' => Guarantee t (may w) w.toSystem w'.toSystem)
    (fun _ _ => True) (fun _ => post) p tr w

section

variable {K : Kernel} {t : ℕ} {R : World → World → Prop} {may : May} {α β : Type} {w : World}
variable {L L' : World → Prop}

theorem Meets.performs {p : SysProg α} {post : α → World → Prop} (h : Meets K t R may p post w) :
    Performs K t R may p post w :=
  fun tr => (h tr).mono (fun _ _ h => h) (fun _ _ h => h.toGuarantee) (fun _ _ h => h)
    fun _ _ _ h => h

theorem performs_ret {a : α} {post : α → World → Prop} (h : post a w) :
    Performs K t R may (.ret a) post w := fun _ => h

theorem Performs.seq {p : SysProg α} {f : α → SysProg β} {mid : α → World → Prop}
    {post : β → World → Prop} (hp : Performs K t R may p mid w)
    (hf : ∀ a w, mid a w → Performs K t R may (f a) post w) :
    Performs K t R may (p >>= f) post w :=
  fun tr => safe_bind (hp tr) fun tr a w h => hf a w h tr

/-- A step that may end the deployment without a rollback. -/
theorem Performs.noRollbackBind {x : Action α} {f : α → Deploy β} {mid : Result α → World → Prop}
    {post : Except Failure β → World → Prop} (hx : Performs K t R may x.run mid w)
    (hok : ∀ a w, mid (.ok a) w → Performs K t R may (f a).run post w)
    (herror : ∀ e w, mid (.error e) w → post (.error ⟨e, none⟩) w) :
    Performs K t R may (noRollback x >>= f).run post w :=
  fun tr => safe_noRollback_bind (hx tr) (fun tr a w h => hok a w h tr) fun _ e w h => herror e w h

/-- A step that the deployment looks at itself. -/
theorem Performs.observeBind {p : SysProg α} {f : α → Deploy β} {mid : α → World → Prop}
    {post : Except Failure β → World → Prop} (hp : Performs K t R may p mid w)
    (hf : ∀ a w, mid a w → Performs K t R may (f a).run post w) :
    Performs K t R may (observe p >>= f).run post w :=
  fun tr => safe_observe_bind (hp tr) fun tr a w h => hf a w h tr

/-- A call to a manager changes no file. -/
theorem guarantee_manager {o : Sys} {s s' : System} {c : Choice} {r : o.Resp}
    (ho : (∃ target, o = .daemonReload target) ∨ ∃ target unit, o = .restartUnit target unit)
    (hstep : s.step K t o c = some (r, s')) : Guarantee t nothing s s' := by
  rcases ho with ⟨target, rfl⟩ | ⟨target, unit, rfl⟩
  · rcases System.step_daemonReload hstep with ⟨e, -, rfl⟩ | ⟨-, rfl⟩
    · exact .refl _ _ _
    · exact guarantee_setManagers
  · obtain ⟨leavesRunning, -, rfl⟩ := System.step_restartUnit hstep
    exact guarantee_setManagers

/-- What lasts is not changed by a manager. -/
theorem performs_manager {o : Sys}
    (ho : (∃ target, o = .daemonReload target) ∨ ∃ target unit, o = .restartUnit target unit)
    (hL : Stable t R L) (hw : L w) : Performs K t R may (sys o) (fun _ => L) w := by
  intro tr
  refine safe_call (fun _ _ => trivial) fun w₁ c r w₂ hR₁ hstep => ?_
  have hguar := guarantee_manager ho (Kernel.machine_step.1 hstep)
  exact ⟨hguar.mono fun _ _ _ _ h => h.elim, fun hagain => by simp at hagain,
    fun _ => hL.quiet hguar (hL.others hR₁ hw)⟩

end

/-! ### A rollback -/

/-- From `L` to `L'` and back, by changes of one Quadlet file. -/
structure Exchange (t : ℕ) (R : World → World → Prop) (may : May) (uid : UInt32) (n : Bytes)
    (L L' : World → Prop) (contents : Bytes) : Prop where
  install : Transition t R may uid n L L' (some (.regular contents))
  restore : ∀ w, L w → Transition t R may uid n L' L (w.look uid n)

section

variable {K : Kernel} {t : ℕ} {R : World → World → Prop} {may : May} {w : World}
variable {L L' : World → Prop} {installer : QuadletInstaller} {uid : UInt32} {n : Bytes}

/-- How a rollback ends. -/
def RolledBack (L L' : World → Prop) (failure : Failure) (w : World) : Prop :=
  (L w ∨ L' w) ∧ ∃ report, failure.rollback = some report ∧ (report.restore = .ok () → L w)

/-- **A rollback** leads back, if the snapshot is restored. -/
theorem performs_rollbackError (hR : OthersOnly t R)
    (hroot : installer.layout.adminUserRoot = K.adminRoot) (hL' : Stable t R L')
    {snapshot : QuadletSnapshot}
    (hback : Transition t R may uid n L' L snapshot.content) (hname : snapshot.fileName = n)
    (hw : L' w) (target : PodmanTarget) (unit : Bytes) (restartRestored : Bool) (original : Error) :
    Performs K t R may (rollbackError installer target uid snapshot unit restartRestored original)
      (RolledBack L L') w := by
  have hL : Stable t R L := hback.after
  have hrestore : Meets K t R may (installer.restoreForUser uid snapshot).run
      (Changed K t w.nextIno L' L) w :=
    meets_restoreForUser hR hroot hL' (fun _ _ => hname ▸ hback) hw (clean_nextIno w.wellFormed)
  rw [rollbackError]
  refine hrestore.performs.seq fun restored w h => ?_
  cases restored with
  | error e =>
      refine performs_ret ⟨h.1.elim .inr fun h => .inl h.2, _, rfl, fun hok => ?_⟩
      cases hok
  | ok u =>
      have hw : L w := h
      refine (performs_manager (.inl ⟨_, rfl⟩) hL hw).seq fun reload w hw => ?_
      cases reload with
      | error e => exact performs_ret ⟨.inl hw, _, rfl, fun _ => hw⟩
      | ok u =>
          dsimp only
          split
          · refine (performs_manager (.inr ⟨_, _, rfl⟩) hL hw).seq fun restart w hw => ?_
            cases restart with
            | error e => exact performs_ret ⟨.inl hw, _, rfl, fun _ => hw⟩
            | ok operation =>
                dsimp only
                split
                · exact performs_ret ⟨.inl hw, _, rfl, fun _ => hw⟩
                · exact performs_ret ⟨.inl hw, _, rfl, fun _ => hw⟩
          · exact performs_ret ⟨.inl hw, _, rfl, fun _ => hw⟩

end

/-! ### A deployment -/

section

variable {K : Kernel} {t : ℕ} {R : World → World → Prop} {may : May} {w : World}
variable {L L' : World → Prop} {orchestrator : DeploymentOrchestrator} {bundle : DeploymentBundle}

/-- How a deployment ends. -/
def Deployed (K : Kernel) (L L' : World → Prop) : Except Failure DeploymentResult → World → Prop
  | .ok _ => L'
  | .error failure => fun w => (L w ∨ L' w) ∧
      (failure.rollback = none → K.dirFsyncFails = false → L w) ∧
      ∀ report, failure.rollback = some report → report.restore = .ok () → L w

theorem RolledBack.deployed {failure : Failure} (h : RolledBack L L' failure w) :
    Deployed K L L' (.error failure) w := by
  obtain ⟨hor, report, hreport, hrestored⟩ := h
  refine ⟨hor, fun hnone => ?_, fun report' hreport' hok => ?_⟩
  · rw [hreport] at hnone
    cases hnone
  · obtain rfl : report = report' := Option.some.inj (hreport.symm.trans hreport')
    exact hrestored hok

/-- A deployment that ends before the file is touched. -/
theorem deployed_of_before {e : Error} (hw : L w) : Deployed K L L' (.error ⟨e, none⟩) w := by
  refine ⟨.inl hw, fun _ _ => hw, fun report hreport => ?_⟩
  cases hreport

/-- The manager is told about the file that is in place. -/
theorem performs_activate (hR : OthersOnly t R)
    (hroot : orchestrator.installer.layout.adminUserRoot = K.adminRoot) (hL' : Stable t R L')
    {snapshot : QuadletSnapshot} {n : Bytes}
    (hback : Transition t R may bundle.targetUid n L' L snapshot.content)
    (hname : snapshot.fileName = n) (hw : L' w) (target : PodmanTarget)
    (result : DeploymentResult) :
    Performs K t R may (orchestrator.activate bundle target snapshot result).run
      (Deployed K L L') w := by
  -- every way to fail from here on puts the earlier file back
  have hroll : ∀ {w : World} (restartRestored : Bool) (e : Error), L' w →
      Performs K t R may (failAfterRollback (α := DeploymentResult) (rollbackError
        orchestrator.installer target bundle.targetUid snapshot result.systemdUnit restartRestored
        e)).run (Deployed K L L') w := fun restartRestored e hw =>
    (performs_rollbackError hR hroot hL' hback hname hw target result.systemdUnit restartRestored
      e).seq fun failure w h => performs_ret h.deployed
  unfold DeploymentOrchestrator.activate
  refine (performs_manager (.inl ⟨_, rfl⟩) hL' hw).observeBind fun reload w hw => ?_
  cases reload with
  | error e => exact hroll false e hw
  | ok u =>
      dsimp only
      split
      · refine (performs_manager (.inr ⟨_, _, rfl⟩) hL' hw).observeBind fun operation w hw => ?_
        cases operation with
        | error e => exact hroll true e hw
        | ok operation =>
            dsimp only
            split
            · exact performs_ret hw
            · exact hroll true _ hw
      · have hstatus : Meets K t R mayNothing (sys (.status target result.systemdUnit))
            (fun _ => L') w :=
          meets_of_minor (calls_sys (minorOnce rfl)) (fun _ _ => hL'.others)
            (fun _ _ => hL'.minor) hw
        refine hstatus.ofQuiet.performs.observeBind fun status w hw => ?_
        cases status with
        | ok status => exact performs_ret hw
        | error e => exact performs_ret hw

/-- **A deployment under its lock.** -/
theorem performs_deployLocked (hR : OthersOnly t R)
    (hroot : orchestrator.installer.layout.adminUserRoot = K.adminRoot) (hL : Stable t R L)
    (hexchange : ∀ expected,
      orchestrator.installer.expectedInstall bundle.targetUid bundle.quadlet = .ok expected →
      Exchange t R may bundle.targetUid bundle.quadlet.fileName L L' bundle.quadlet.contents)
    (hw : L w) (prepared : DeploymentOrchestrator.Prepared) :
    Performs K t R may (orchestrator.deployLocked bundle prepared).run (Deployed K L L') w := by
  have hminor : ∀ {p : Action Unit} {w : World}, p.run.Calls MinorOnce → L w →
      Meets K t R mayNothing p.run (fun _ => L) w :=
    fun hp hw => meets_of_minor hp (fun _ _ => hL.others) (fun _ _ => hL.minor) hw
  unfold DeploymentOrchestrator.deployLocked
  -- the socket and the archive come before the file and leave it alone
  refine (hminor (DeploymentOrchestrator.validateSocket_minor _ _ _) hw).ofQuiet.performs
    |>.noRollbackBind (fun _ w hw => ?_) fun e w hw => deployed_of_before hw
  refine (hminor (DeploymentOrchestrator.loadImage_minor _ _) hw).ofQuiet.performs
    |>.noRollbackBind (fun _ w hw => ?_) fun e w hw => deployed_of_before hw
  refine ((meets_snapshotForUser hR hroot hL hw).keeps hL hw).ofQuiet.performs.noRollbackBind
    (fun snapshot w h => ?_) fun e w h => deployed_of_before h.2
  obtain ⟨htaken, hw⟩ := h
  obtain ⟨-, hname, w₀, hw₀, hcontent⟩ := htaken snapshot rfl
  refine (meets_installForUser hR hroot hL (fun expected h => (hexchange expected h).install) hw
    (clean_nextIno w.wellFormed)).performs.noRollbackBind (fun installed w h => ?_) fun e w h => ?_
  · obtain ⟨hexpected, hw⟩ := h
    -- the snapshot is the file of an earlier world in which `L` held
    have hback := (hexchange installed hexpected).restore w₀ hw₀
    rw [hcontent] at hback
    exact performs_activate hR hroot (hexchange installed hexpected).install.after
      hback hname hw _ _
  · obtain ⟨hor, -⟩ := h
    refine ⟨hor.imp_right fun h => h.2, fun _ hfsync => ?_, fun report hreport => by cases hreport⟩
    rcases hor with hw | ⟨hfails, -⟩
    · exact hw
    · rw [hfsync] at hfails
      cases hfails

end

end PodInstaller
