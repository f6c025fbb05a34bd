/-
**The steps of a deployment.**

A deployment is put together from steps that may end it without a rollback and from steps whose
results it looks at itself.  The rules for both, among others and alone, are here.  Before it takes
the lock it only looks things up.

Main definitions:

* `PodInstaller.LookupOnce`, `PodInstaller.OpensOnce` — calls that look something up.

Main results:

* `PodInstaller.safe_noRollback_bind`, `PodInstaller.safe_observe_bind`,
  `PodInstaller.exec_noRollback_bind`, `PodInstaller.exec_observe_bind` — the rules;
* `PodInstaller.DeploymentOrchestrator.prepare_opensOnce`,
  `PodInstaller.DeploymentOrchestrator.prepare_minor` — what comes before the lock.
-/

import PodInstaller.Deployment
import PodInstaller.InstallerSpec

set_option relaxedAutoImplicit false
set_option autoImplicit false

namespace PodInstaller

open Bytes

/-! ### The steps of a deployment -/

section

variable {World Choice α β : Type} {M : Machine Sys.Resp World Choice} {t : ℕ} {w w' : World}
variable {R G : World → World → Prop} {J : Trace Sys.Resp World Choice → World → Prop}
variable {tr : Trace Sys.Resp World Choice}

theorem safe_noRollback_bind {P : Trace Sys.Resp World Choice → Result α → World → Prop}
    {Q : Trace Sys.Resp World Choice → Except Failure β → World → Prop} {x : Action α}
    {f : α → Deploy β} (hx : Safe M t R G J P x.run tr w)
    (hok : ∀ tr a w, P tr (.ok a) w → Safe M t R G J Q (f a).run tr w)
    (herror : ∀ tr e w, P tr (.error e) w → Q tr (.error ⟨e, none⟩) w) :
    Safe M t R G J Q (noRollback x >>= f).run tr w := by
  rw [run_exceptT_bind]
  refine safe_bind (P := fun tr r w => ∃ r', r = r'.mapError (fun e => ⟨e, none⟩) ∧ P tr r' w) ?_ ?_
  · exact safe_bind hx fun tr r w h => ⟨r, rfl, h⟩
  · rintro tr _ w ⟨r, rfl, h⟩
    cases r with
    | ok a => exact hok _ _ _ h
    | error e => exact herror _ _ _ h

theorem safe_observe_bind {P : Trace Sys.Resp World Choice → α → World → Prop}
    {Q : Trace Sys.Resp World Choice → Except Failure β → World → Prop} {p : SysProg α}
    {f : α → Deploy β} (hp : Safe M t R G J P p tr w)
    (hf : ∀ tr a w, P tr a w → Safe M t R G J Q (f a).run tr w) :
    Safe M t R G J Q (observe p >>= f).run tr w := by
  rw [run_exceptT_bind]
  refine safe_bind (P := fun tr r w => ∃ a, r = .ok a ∧ P tr a w) ?_ ?_
  · exact safe_bind hp fun tr a w h => ⟨a, rfl, h⟩
  · rintro tr _ w ⟨a, rfl, h⟩
    exact hf _ _ _ h

/-- A run of a step that may end the deployment. -/
theorem exec_noRollback_bind {x : Action α} {f : α → Deploy β} {r : Except Failure β} :
    Exec M t w (noRollback x >>= f).run tr w' r ↔
      (∃ e, r = .error ⟨e, none⟩ ∧ Exec M t w x.run tr w' (.error e)) ∨
      ∃ tr₁ w₁ a tr₂, Exec M t w x.run tr₁ w₁ (.ok a) ∧ Exec M t w₁ (f a).run tr₂ w' r ∧
        tr = tr₁ ++ tr₂ := by
  -- a failure of `x` is passed on without a report
  have hstep : ∀ {w w' : World} {tr r'}, Exec M t w (noRollback x).run tr w' r' ↔
      ∃ r, r' = r.mapError (fun e => ⟨e, none⟩) ∧ Exec M t w x.run tr w' r := by
    intro w w' tr r'
    rw [noRollback, ExceptT.run_mk, exec_bind]
    constructor
    · rintro ⟨tr₁, w₁, r, tr₂, h, hret, rfl⟩
      obtain ⟨rfl, rfl, rfl⟩ := exec_ret.1 hret
      exact ⟨r, rfl, by rwa [List.append_nil]⟩
    · rintro ⟨r, rfl, h⟩
      exact ⟨tr, w', r, [], h, .ret _ _, by simp⟩
  rw [exec_exceptT_bind]
  refine or_congr ?_ ?_
  · constructor
    · rintro ⟨f, rfl, h⟩
      obtain ⟨r, hr, hx⟩ := hstep.1 h
      cases r with
      | ok a => cases hr
      | error e =>
          cases hr
          exact ⟨e, rfl, hx⟩
    · rintro ⟨e, rfl, h⟩
      exact ⟨_, rfl, hstep.2 ⟨.error e, rfl, h⟩⟩
  · constructor
    · rintro ⟨tr₁, w₁, a, tr₂, h, hrest, rfl⟩
      obtain ⟨r, hr, hx⟩ := hstep.1 h
      cases r with
      | error e => cases hr
      | ok b =>
          cases hr
          exact ⟨tr₁, w₁, _, tr₂, hx, hrest, rfl⟩
    · rintro ⟨tr₁, w₁, a, tr₂, h, hrest, rfl⟩
      exact ⟨tr₁, w₁, a, tr₂, hstep.2 ⟨.ok a, rfl, h⟩, hrest, rfl⟩

/-- A run of a step that the deployment looks at itself. -/
theorem exec_observe_bind {p : SysProg α} {f : α → Deploy β} {r : Except Failure β} :
    Exec M t w (observe p >>= f).run tr w' r ↔
      ∃ tr₁ w₁ a tr₂, Exec M t w p tr₁ w₁ a ∧ Exec M t w₁ (f a).run tr₂ w' r ∧
        tr = tr₁ ++ tr₂ := by
  rw [run_exceptT_bind, observe, ExceptT.run_mk, exec_bind]
  constructor
  · rintro ⟨tr₁, w₁, r', tr₂, h, hrest, rfl⟩
    obtain ⟨tr₃, w₃, a, tr₄, hp, hret, rfl⟩ := exec_bind.1 h
    obtain ⟨rfl, rfl, rfl⟩ := exec_ret.1 hret
    exact ⟨_, _, a, _, hp, hrest, by simp⟩
  · rintro ⟨tr₁, w₁, a, tr₂, h, hrest, rfl⟩
    exact ⟨tr₁, w₁, .ok a, tr₂, exec_bind.2 ⟨tr₁, w₁, a, [], h, .ret _ _, by simp⟩, hrest, rfl⟩

end

/-! ### What comes before the lock -/

section

variable {K : Kernel} {t : ℕ} {R : World → World → Prop} {may : May} {w w' : World}
variable {layout : QuadletInstallLayout} {uid : UInt32} {unit : Bytes} {L : World → Prop}

/-- The calls that look something up.  They change nothing, but may open a descriptor. -/
def Sys.looksUp : Sys → Bool
  | .getpwuid _ => true
  | .openPath _ flags => !flags.creat
  | .openat _ _ flags => !flags.creat
  | .lstat _ => true
  | .fstatat _ _ => true
  | .fstat _ => true
  | _ => false

/-- The calls of `lstat`. -/
def Sys.isLstat : Sys → Bool
  | .lstat _ => true
  | _ => false

/-- A call that only looks something up, and is made once. -/
def LookupOnce (o : Sys) (again : o.Resp → Bool) : Prop := o.looksUp = true ∧ ∀ r, again r = false

theorem lookupOnce {o : Sys} (h : o.looksUp = true) : LookupOnce o fun _ => false :=
  ⟨h, fun _ => rfl⟩

theorem LookupOnce.minorOnce {o : Sys} {again : o.Resp → Bool} (h : LookupOnce o again) :
    MinorOnce o again := by
  refine ⟨?_, h.2⟩
  have hlooks := h.1
  cases o with
  | openat dir name flags => exact hlooks
  | _ => first | rfl | cases hlooks

/-- A call that looks something up, but not with `lstat`. -/
def OpensOnce (o : Sys) (again : o.Resp → Bool) : Prop := LookupOnce o again ∧ o.isLstat = false

theorem opensOnce {o : Sys} (h : o.looksUp = true) (hlstat : o.isLstat = false) :
    OpensOnce o fun _ => false := ⟨lookupOnce h, hlstat⟩

theorem checkArchiveStat_opensOnce (st : Stat) (options : DeploymentOptions) :
    (checkArchiveStat st options).run.Calls OpensOnce :=
  calls_exceptT_bind trivial fun _ => trivial

theorem openComponents_opensOnce (options : DeploymentOptions) (current : Fd) (parts : List Bytes) :
    (openComponents options current parts).run.Calls OpensOnce := by
  induction parts generalizing current with
  | nil => trivial
  | cons name rest ih =>
      refine calls_exceptT_bind ?_ fun _ => ?_
      · split
        · exact calls_exceptT_bind (calls_attempt (calls_sys (opensOnce rfl rfl))) fun st =>
            checkArchiveStat_opensOnce st options
        · trivial
      · refine calls_exceptT_bind (calls_attempt (calls_sys (opensOnce ?_ rfl))) fun next => ih next
        split <;> rfl

theorem openStagedImageArchive_opensOnce (archive : ImageArchive) (options : DeploymentOptions) :
    (openStagedImageArchive archive options).run.Calls OpensOnce := by
  refine calls_exceptT_bind trivial fun _ => ?_
  cases options.imageArchiveRoot with
  | none => trivial
  | some root =>
      refine calls_exceptT_bind trivial fun relative => ?_
      refine calls_exceptT_bind (calls_attempt (calls_sys (opensOnce rfl rfl))) fun current => ?_
      refine calls_exceptT_bind (openComponents_opensOnce _ _ _) fun current => ?_
      refine calls_exceptT_bind (calls_attempt (calls_sys (opensOnce rfl rfl))) fun st => ?_
      exact calls_exceptT_bind (checkArchiveStat_opensOnce _ _) fun _ => trivial

namespace DeploymentOrchestrator

/-- Before the lock is taken things are only looked up, and no path with `lstat`. -/
theorem prepare_opensOnce (orchestrator : DeploymentOrchestrator) (bundle : DeploymentBundle) :
    (orchestrator.prepare bundle).run.Calls OpensOnce := by
  refine calls_exceptT_bind trivial fun _ => calls_exceptT_bind trivial fun _ => ?_
  refine calls_exceptT_bind ?_ fun target => calls_exceptT_bind trivial fun expected => ?_
  · refine calls_exceptT_bind (calls_attempt (calls_sys (opensOnce rfl rfl))) fun pw => ?_
    cases pw <;> trivial
  · refine calls_exceptT_bind ?_ fun archive => trivial
    unfold openArchive
    split
    · exact calls_exceptT_bind (openStagedImageArchive_opensOnce _ _) fun _ => trivial
    · trivial

theorem prepare_looksUp (orchestrator : DeploymentOrchestrator) (bundle : DeploymentBundle) :
    (orchestrator.prepare bundle).run.Calls LookupOnce :=
  (prepare_opensOnce orchestrator bundle).mono fun _ _ h => h.1

/-- Nothing is changed before the lock is taken. -/
theorem prepare_minor (orchestrator : DeploymentOrchestrator) (bundle : DeploymentBundle) :
    (orchestrator.prepare bundle).run.Calls MinorOnce :=
  (prepare_looksUp orchestrator bundle).mono fun _ _ h => h.minorOnce

theorem validateSocket_looksUp (options : DeploymentOptions) (bundle : DeploymentBundle)
    (target : PodmanTarget) : (validateSocket options bundle target).run.Calls LookupOnce := by
  unfold validateSocket
  split
  · refine calls_exceptT_bind trivial fun _ => calls_exceptT_bind trivial fun _ => ?_
    refine calls_exceptT_bind (calls_attempt (calls_sys (lookupOnce rfl))) fun st => ?_
    exact calls_exceptT_bind trivial fun _ => calls_exceptT_bind trivial fun _ => trivial
  · trivial

theorem validateSocket_minor (options : DeploymentOptions) (bundle : DeploymentBundle)
    (target : PodmanTarget) : (validateSocket options bundle target).run.Calls MinorOnce :=
  (validateSocket_looksUp options bundle target).mono fun _ _ h => h.minorOnce

theorem loadImage_minor (target : PodmanTarget) (archive : Option OpenArchive) :
    (loadImage target archive).run.Calls MinorOnce := by
  cases archive with
  | none => trivial
  | some archive =>
      refine calls_exceptT_bind ?_ fun _ => calls_exceptT_bind ?_ fun _ => trivial
      · exact calls_exceptT_bind (calls_sys (minorOnce rfl)) fun _ => trivial
      · rw [loadImageArchiveFd_natCast]
        refine calls_exceptT_bind (calls_attempt (calls_sys (minorOnce rfl))) fun st => ?_
        refine calls_exceptT_bind trivial fun _ => calls_exceptT_bind trivial fun _ => ?_
        refine calls_exceptT_bind trivial fun _ => ?_
        exact calls_exceptT_bind (calls_sys (minorOnce rfl)) fun _ => trivial

end DeploymentOrchestrator

end

end PodInstaller
