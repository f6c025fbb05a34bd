/-
**What a rejected deployment leaves running.**

The user's manager has loaded a definition of the unit, and runs one, or none.  A deployment that is
rejected brings the Quadlet file back and has the manager reload, so that the loaded definition is
the earlier one again.  What is running is brought back by a restart, which is only made if there
was a Quadlet before: a unit that the rejected deployment has started for the first time is never
stopped.

The runs of this module are those of a deployment that runs alone; what is followed is the Quadlet
file, the loaded definition, the running one, and whether the unit was started on the way.

Main definitions:

* `PodInstaller.StartsUnit` — a restart after which the unit runs;
* `PodInstaller.RollbackReport.Succeeded` — every step of a rollback that was attempted succeeded;
* `PodInstaller.LeavesNothing` — a rejected deployment leaves nothing running.

Main results:

* `PodInstaller.alone_rollbackError`, `PodInstaller.alone_activate` — the unit in a rollback, and
  once the file is in place;
* `PodInstaller.leavesNothing_iff` — **when a rejected deployment leaves nothing running**.
-/

import PodInstaller.DeploymentSuccess

set_option relaxedAutoImplicit false
set_option autoImplicit false

namespace PodInstaller

open Bytes

/-! ### The unit -/

/-- A restart of a user's unit after which it runs: it succeeded, or it failed and left the unit
running all the same. -/
def StartsUnit (uid : UInt32) (unit : Bytes) (e : Event Sys.Resp World Choice) : Prop :=
  ∃ w target r leaves w', e = ⟨w, .restartUnit target unit, .restart r leaves, r, w'⟩ ∧
    target.uid = uid ∧ (r.toBool || leaves) = true

/-- A unit was started on the way. -/
def Starts (uid : UInt32) (unit : Bytes) (tr : Trace Sys.Resp World Choice) : Prop :=
  ∃ e ∈ tr, StartsUnit uid unit e

/-- The calls of `restart_unit`. -/
def Sys.isRestart : Sys → Bool
  | .restartUnit _ _ => true
  | _ => false

/-- A program that restarts no unit. -/
abbrev NoRestart {α : Type} (p : SysProg α) : Prop := p.Calls fun o _ => o.isRestart = false

/-- Every step of a rollback that was attempted succeeded. -/
structure RollbackReport.Succeeded (report : RollbackReport) : Prop where
  restore : report.restore = .ok ()
  reload : ∀ r, report.reload = some r → r = .ok ()
  restart : ∀ r, report.restart = some r → ∃ operation, r = .ok operation

/-- The unit of a bundle. -/
def DeploymentBundle.unit (bundle : DeploymentBundle) : Bytes :=
  bundle.serviceName ++ ofString ".service"

/-- A deployment that is rejected leaves nothing running: the Quadlet file and the loaded definition
are those of before, and the unit does not run the contents of the bundle. -/
structure LeavesNothing (bundle : DeploymentBundle) (w w' : World) : Prop where
  file : w'.look bundle.targetUid bundle.quadlet.fileName =
    w.look bundle.targetUid bundle.quadlet.fileName
  loaded : w'.loaded bundle.targetUid bundle.unit = w.loaded bundle.targetUid bundle.unit
  running : w'.running bundle.targetUid bundle.unit ≠ some bundle.quadlet.contents

section

variable {uid : UInt32} {unit : Bytes} {tr ext : Trace Sys.Resp World Choice}

theorem not_startsUnit {e : Event Sys.Resp World Choice} (h : e.op.isRestart = false) :
    ¬ StartsUnit uid unit e := by
  rintro ⟨w, target, r, leaves, w', rfl, -⟩
  cases h

/-- Calls that restart no unit make no difference. -/
theorem starts_append_iff (h : ∀ e ∈ ext, e.op.isRestart = false) :
    Starts uid unit (tr ++ ext) ↔ Starts uid unit tr := by
  constructor
  · rintro ⟨e, he, hstarts⟩
    rcases List.mem_append.1 he with hold | hnew
    · exact ⟨e, hold, hstarts⟩
    · exact absurd hstarts (not_startsUnit (h e hnew))
  · rintro ⟨e, he, hstarts⟩
    exact ⟨e, List.mem_append_left _ he, hstarts⟩

theorem starts_snoc_iff {e : Event Sys.Resp World Choice} (h : e.op.isRestart = false) :
    Starts uid unit (tr ++ [e]) ↔ Starts uid unit tr :=
  starts_append_iff (List.forall_mem_singleton.2 h)

/-- A definition depends on the Quadlet file only. -/
theorem System.definition_congr {s s' : System} {n : Bytes} (hn : System.quadletOf unit = n)
    (hlook : s'.look uid n = s.look uid n) : s'.definition uid unit = s.definition uid unit := by
  rw [System.definition, System.definition, hn, hlook]

theorem System.definition_of_look {s : System} {n contents : Bytes}
    (hn : System.quadletOf unit = n) :
    s.definition uid unit = some contents ↔ s.look uid n = some (.regular contents) := by
  rw [System.definition, hn]
  split
  · rename_i bytes hlook
    rw [hlook]
    simp
  · rename_i hother
    constructor
    · intro h
      cases h
    · intro h
      exact absurd h (hother contents)

theorem quadletOf_unit (bundle : DeploymentBundle)
    (hfile : bundle.quadlet.fileName = bundle.serviceName ++ ofString ".container") :
    System.quadletOf bundle.unit = bundle.quadlet.fileName := by
  rw [hfile, System.quadletOf, DeploymentBundle.unit]
  simp

end

/-! ### Deployments that run alone -/

/-- A program that runs alone, with a postcondition about its trace. -/
abbrev Alone (K : Kernel) (t : ℕ) {α : Type} (p : SysProg α)
    (Q : Trace Sys.Resp World Choice → α → World → Prop) (tr : Trace Sys.Resp World Choice)
    (w : World) : Prop :=
  Safe K.machine t Eq (fun _ _ => True) (fun _ _ => True) Q p tr w

/-- The managers have done nothing for a unit. -/
structure Untouched (uid : UInt32) (unit : Bytes) (tr : Trace Sys.Resp World Choice) (w : World)
    (tr' : Trace Sys.Resp World Choice) (w' : World) : Prop where
  loaded : w'.loaded uid unit = w.loaded uid unit
  running : w'.running uid unit = w.running uid unit
  starts : Starts uid unit tr' ↔ Starts uid unit tr

section

variable {K : Kernel} {t : ℕ} {uid : UInt32} {unit n contents : Bytes} {w w' w'' : World}
variable {tr tr' tr'' : Trace Sys.Resp World Choice} {α : Type} {may : May}

theorem Untouched.trans (h : Untouched uid unit tr w tr' w')
    (h' : Untouched uid unit tr' w' tr'' w'') : Untouched uid unit tr w tr'' w'' :=
  ⟨h'.loaded.trans h.loaded, h'.running.trans h.running, h'.starts.trans h.starts⟩

/-- **A program that works on files** does nothing about units. -/
theorem Meets.alone {p : SysProg α} {post : α → World → Prop} (h : Meets K t Eq may p post w)
    (hp : NoRestart p) (uid : UInt32) (unit : Bytes) (tr : Trace Sys.Resp World Choice) :
    Alone K t p (fun tr' a w' => post a w' ∧ Untouched uid unit tr w tr' w') tr w := by
  have hkeeps := ((h tr).keeps (P := fun w' => w'.loaded uid unit = w.loaded uid unit ∧
    w'.running uid unit = w.running uid unit) ?_ ?_ ⟨rfl, rfl⟩).records hp
  · refine hkeeps.mono (fun _ _ h => h) (fun _ _ _ => trivial) (fun _ _ _ => trivial) ?_
    rintro tr' a w' ⟨⟨hpost, hloaded, hrunning⟩, ext, rfl, hext⟩
    exact ⟨hpost, hloaded, hrunning, starts_append_iff fun e he => (hext e he).1⟩
  · rintro w _ rfl hw
    exact hw
  · intro w₁ w₂ hguar hw
    rw [hguar.loaded, hguar.running]
    exact hw

theorem noRestart_of_minor {p : SysProg α} (h : p.Calls MinorOnce) : NoRestart p := by
  refine h.mono fun o again ho => ?_
  cases o with
  | restartUnit target unit => cases ho.1
  | _ => rfl

theorem noRestart_of_treeCalls {p : SysProg α} (h : TreeCalls p) : NoRestart p := by
  refine h.mono fun o _ ho => ?_
  cases o with
  | restartUnit target unit => cases ho
  | _ => rfl

theorem noRestart_lockDeployment (layout : QuadletInstallLayout) (uid : UInt32) (unit : Bytes) :
    NoRestart (lockDeployment layout uid unit).run := by
  have hopen : NoRestart (openLock layout uid unit).run :=
    (lockCalls_openLock layout uid unit).mono fun o _ ho => by
      cases o with
      | restartUnit target unit => cases ho.1
      | _ => rfl
  exact calls_exceptT_bind hopen fun fd => calls_exceptT_bind
    (calls_attempt ⟨rfl, fun _ => trivial⟩) fun _ => trivial

/-! ### The managers -/

/-- A manager was told to reload. -/
structure Reloaded (uid : UInt32) (unit : Bytes) (tr : Trace Sys.Resp World Choice) (w : World)
    (tr' : Trace Sys.Resp World Choice) (r : Result Unit) (w' : World) : Prop where
  look : ∀ n, w'.look uid n = w.look uid n
  loaded : w'.loaded uid unit = if r.toBool then w.definition uid unit else w.loaded uid unit
  running : w'.running uid unit = w.running uid unit
  starts : Starts uid unit tr' ↔ Starts uid unit tr

/-- A manager was told to restart a unit, which runs afterwards or does not. -/
structure Restarted (uid : UInt32) (unit : Bytes) (tr : Trace Sys.Resp World Choice) (w : World)
    (tr' : Trace Sys.Resp World Choice) (runs : Bool) (w' : World) : Prop where
  look : ∀ n, w'.look uid n = w.look uid n
  loaded : w'.loaded uid unit = w.loaded uid unit
  running : w'.running uid unit = if runs then w.loaded uid unit else none
  starts : Starts uid unit tr' ↔ Starts uid unit tr ∨ runs = true

variable {target : PodmanTarget}

theorem alone_daemonReload (unit : Bytes) (huser : target.uid = uid) :
    Alone K t (sys (.daemonReload target))
      (fun tr' r w' => Reloaded uid unit tr w tr' r w') tr w := by
  refine safe_call (fun _ _ => trivial) ?_
  rintro _ c r w₂ rfl hstep
  refine ⟨trivial, (fun hagain => by cases hagain), fun _ => ?_⟩
  have hstarts : Starts uid unit (tr ++ [⟨w, .daemonReload target, c, r, w₂⟩]) ↔
      Starts uid unit tr := starts_snoc_iff rfl
  rcases System.step_daemonReload (Kernel.machine_step.1 hstep) with ⟨e, rfl, hw⟩ | ⟨rfl, hw⟩
  · obtain rfl := World.eq_of_toSystem hw
    exact ⟨fun _ => rfl, rfl, rfl, hstarts⟩
  · refine ⟨fun n => ?_, ?_, ?_, hstarts⟩
    · rw [hw]
      rfl
    · rw [hw, System.reload]
      simp [huser, Except.toBool]
    · rw [hw]
      rfl

theorem alone_restartUnit (unit : Bytes) (huser : target.uid = uid) :
    Alone K t (sys (.restartUnit target unit)) (fun tr' r w' =>
      ∃ leaves, Restarted uid unit tr w tr' (r.toBool || leaves) w') tr w := by
  refine safe_call (fun _ _ => trivial) ?_
  rintro _ c r w₂ rfl hstep
  refine ⟨trivial, (fun hagain => by cases hagain), fun _ => ?_⟩
  obtain ⟨leaves, rfl, hw⟩ := System.step_restartUnit (Kernel.machine_step.1 hstep)
  refine ⟨leaves, fun n => ?_, ?_, ?_, ?_⟩
  · rw [hw]
    rfl
  · rw [hw]
    rfl
  · rw [hw, System.restart, System.setRunning]
    simp [huser]
  · constructor
    · rintro ⟨e, he, hstarts⟩
      rcases List.mem_append.1 he with hold | hnew
      · exact .inl ⟨e, hold, hstarts⟩
      · rw [List.mem_singleton.1 hnew] at hstarts
        obtain ⟨_, _, _, _, _, heq, -, hruns⟩ := hstarts
        cases heq
        exact .inr hruns
    · rintro (⟨e, he, hstarts⟩ | hruns)
      · exact ⟨e, List.mem_append_left _ he, hstarts⟩
      · exact ⟨_, by simp, w, target, r, leaves, w₂, rfl, huser, hruns⟩

end

/-! ### The rollback -/

/-- What a rollback has brought back: the file and the loaded definition, and the running one if the
unit was restarted, which is so if it was to be restarted and there was a Quadlet before. -/
structure BroughtBack (uid : UInt32) (unit n : Bytes) (restarts : Bool) (w₀ : World)
    (tr : Trace Sys.Resp World Choice) (w : World) (tr' : Trace Sys.Resp World Choice)
    (w' : World) :
    Prop where
  file : w'.look uid n = w₀.look uid n
  loaded : w'.loaded uid unit = w₀.definition uid unit
  restarted : restarts = true → w₀.look uid n ≠ none →
    w'.running uid unit = w₀.definition uid unit
  left : restarts = false ∨ w₀.look uid n = none →
    w'.running uid unit = w.running uid unit ∧ (Starts uid unit tr' ↔ Starts uid unit tr)

section

variable {K : Kernel} {t : ℕ} {uid : UInt32} {unit n : Bytes} {w₀ w : World}
variable {tr : Trace Sys.Resp World Choice} {installer : QuadletInstaller}
variable {snapshot : QuadletSnapshot} {target : PodmanTarget}

/-- **A rollback** all of whose steps succeed. -/
theorem alone_rollbackError (hroot : installer.layout.adminUserRoot = K.adminRoot)
    (hn : ¬ Hidden n) (hunit : System.quadletOf unit = n) (huser : target.uid = uid)
    (hname : snapshot.fileName = n) (hcontent : snapshot.content = w₀.look uid n)
    (restarts : Bool) (original : Error) :
    Alone K t (rollbackError installer target uid snapshot unit restarts original)
      (fun tr' failure w' => ∃ report, failure.rollback = some report ∧
        (report.Succeeded → BroughtBack uid unit n restarts w₀ tr w tr' w')) tr w := by
  subst hname
  have hrestore := meets_restoreForUser (K := K) (t := t) othersOnly_eq hroot
    (stable_look hn (w.look uid snapshot.fileName))
    (fun _ _ => transition_look hn _ snapshot.content) rfl (clean_nextIno w.wellFormed)
  have hexisted : snapshot.existed = true ↔ w₀.look uid snapshot.fileName ≠ none := by
    rw [← hcontent, QuadletSnapshot.content]
    split <;> simp_all
  rw [rollbackError]
  refine safe_bind (hrestore.alone (noRestart_of_treeCalls
    (treeCalls_restoreForUser installer uid snapshot)) uid unit tr) fun tr₁ restored w₁ h => ?_
  obtain ⟨hrestored, huntouched⟩ := h
  cases restored with
  | error e => exact ⟨_, rfl, fun hs => by cases hs.restore⟩
  | ok u =>
      replace hrestored : w₁.look uid snapshot.fileName = w₀.look uid snapshot.fileName :=
        hrestored.trans hcontent
      refine safe_bind (alone_daemonReload unit huser) fun tr₂ reload w₂ hreload => ?_
      have hfile : w₂.look uid snapshot.fileName = w₀.look uid snapshot.fileName :=
        (hreload.look _).trans hrestored
      cases reload with
      | error e =>
          refine ⟨_, rfl, fun hs => ?_⟩
          cases hs.reload _ rfl
      | ok u =>
          have hloaded : w₂.loaded uid unit = w₀.definition uid unit :=
            hreload.loaded.trans (System.definition_congr hunit hrestored)
          dsimp only
          split
          · -- the earlier unit is restarted
            rename_i hrestart
            refine safe_bind (alone_restartUnit unit huser) fun tr₃ r w₃ h => ?_
            obtain ⟨leaves, hrestarted⟩ := h
            have hback : r.toBool = true →
                BroughtBack uid unit snapshot.fileName restarts w₀ tr w tr₃ w₃ := by
              intro hr
              refine ⟨(hrestarted.look _).trans hfile, hrestarted.loaded.trans hloaded,
                fun _ _ => ?_, ?_⟩
              · rw [hrestarted.running, hr, Bool.true_or, if_pos rfl, hloaded]
              · rintro (hno | hnone)
                · rw [hrestart.1] at hno
                  cases hno
                · exact absurd hnone (hexisted.1 hrestart.2)
            cases r with
            | error e =>
                refine ⟨_, rfl, fun hs => ?_⟩
                obtain ⟨_, hr⟩ := hs.restart _ rfl
                cases hr
            | ok operation =>
                dsimp only
                split
                · exact ⟨_, rfl, fun _ => hback rfl⟩
                · exact ⟨_, rfl, fun _ => hback rfl⟩
          · rename_i hrestart
            refine ⟨_, rfl, fun _ => ⟨hfile, hloaded, fun hr hne => ?_, fun _ => ?_⟩⟩
            · exact absurd ⟨hr, hexisted.2 hne⟩ hrestart
            · exact ⟨hreload.running.trans huntouched.running,
                hreload.starts.trans huntouched.starts⟩

end

/-! ### The deployment -/

/-- How a deployment ends for the unit that is rejected: everything is as before, but the contents
of the bundle are running if there was no Quadlet before and the unit was started. -/
structure Rejected (bundle : DeploymentBundle) (w₀ : World) (tr : Trace Sys.Resp World Choice)
    (w : World) : Prop where
  file : w.look bundle.targetUid bundle.quadlet.fileName =
    w₀.look bundle.targetUid bundle.quadlet.fileName
  loaded : w.loaded bundle.targetUid bundle.unit = w₀.loaded bundle.targetUid bundle.unit
  running : w.running bundle.targetUid bundle.unit = some bundle.quadlet.contents ↔
    w₀.look bundle.targetUid bundle.quadlet.fileName = none ∧
      Starts bundle.targetUid bundle.unit tr

/-- A deployment that fails ends so, provided that every step of its rollback succeeds. -/
def EndsRejected {α : Type} (bundle : DeploymentBundle) (w₀ : World)
    (tr : Trace Sys.Resp World Choice) : Except Failure α → World → Prop
  | .ok _ => fun _ => True
  | .error failure => fun w => (∀ report, failure.rollback = some report → report.Succeeded) →
      Rejected bundle w₀ tr w

/-- The states that a deployment may start from: the loaded definition matches the installed file,
which does not hold the contents of the bundle, and the unit does not run them. -/
structure Startable (bundle : DeploymentBundle) (w₀ : World) : Prop where
  loaded : w₀.loaded bundle.targetUid bundle.unit = w₀.definition bundle.targetUid bundle.unit
  running : w₀.running bundle.targetUid bundle.unit ≠ some bundle.quadlet.contents
  differs : w₀.look bundle.targetUid bundle.quadlet.fileName ≠
    some (.regular bundle.quadlet.contents)

section

variable {K : Kernel} {t : ℕ} {w₀ w : World} {tr : Trace Sys.Resp World Choice}
variable {orchestrator : DeploymentOrchestrator} {bundle : DeploymentBundle}
variable {snapshot : QuadletSnapshot} {target : PodmanTarget}

/-- **A deployment that is rolled back**, from a state in which the contents of the bundle run only
if they were started. -/
theorem alone_failAfterRollback
    (hroot : orchestrator.installer.layout.adminUserRoot = K.adminRoot)
    (hn : ¬ Hidden bundle.quadlet.fileName)
    (hunit : System.quadletOf bundle.unit = bundle.quadlet.fileName)
    (huser : target.uid = bundle.targetUid) (hname : snapshot.fileName = bundle.quadlet.fileName)
    (hcontent : snapshot.content = w₀.look bundle.targetUid bundle.quadlet.fileName)
    (hstart : Startable bundle w₀) (restarts : Bool) (e : Error)
    (hruns : restarts = false ∨ w₀.look bundle.targetUid bundle.quadlet.fileName = none →
      (w.running bundle.targetUid bundle.unit = some bundle.quadlet.contents ↔
        w₀.look bundle.targetUid bundle.quadlet.fileName = none ∧
          Starts bundle.targetUid bundle.unit tr)) :
    Alone K t (failAfterRollback (α := DeploymentResult) (rollbackError orchestrator.installer
      target bundle.targetUid snapshot bundle.unit restarts e)).run
      (fun tr r w => EndsRejected bundle w₀ tr r w) tr w := by
  refine safe_bind (alone_rollbackError hroot hn hunit huser hname hcontent restarts e)
    fun tr₁ failure w₁ h => ?_
  obtain ⟨report, hreport, hback⟩ := h
  intro hsucceeded
  obtain ⟨hfile, hloaded, hrestarted, hleft⟩ := hback (hsucceeded report hreport)
  refine ⟨hfile, hloaded.trans hstart.loaded.symm, ?_⟩
  by_cases hcase : restarts = false ∨ w₀.look bundle.targetUid bundle.quadlet.fileName = none
  · -- nothing is restarted, and what was running still is
    obtain ⟨hrunning, hstarts⟩ := hleft hcase
    rw [hrunning, hstarts]
    exact hruns hcase
  · -- the earlier unit runs again, whose contents are others
    rw [not_or, Bool.not_eq_false] at hcase
    rw [hrestarted hcase.1 hcase.2, System.definition_of_look hunit]
    constructor
    · intro hsame
      exact absurd hsame hstart.differs
    · intro h
      exact absurd h.1 hcase.2

/-- **Once the file is in place.** -/
theorem alone_activate (hroot : orchestrator.installer.layout.adminUserRoot = K.adminRoot)
    (hn : ¬ Hidden bundle.quadlet.fileName)
    (hunit : System.quadletOf bundle.unit = bundle.quadlet.fileName)
    (huser : target.uid = bundle.targetUid) (hname : snapshot.fileName = bundle.quadlet.fileName)
    (hcontent : snapshot.content = w₀.look bundle.targetUid bundle.quadlet.fileName)
    (hstart : Startable bundle w₀)
    (hfile : w.look bundle.targetUid bundle.quadlet.fileName =
      some (.regular bundle.quadlet.contents))
    (hrunning : w.running bundle.targetUid bundle.unit =
      w₀.running bundle.targetUid bundle.unit)
    (hstarts : ¬ Starts bundle.targetUid bundle.unit tr) {result : DeploymentResult}
    (hresult : result.systemdUnit = bundle.unit) :
    Alone K t (orchestrator.activate bundle target snapshot result).run
      (fun tr r w => EndsRejected bundle w₀ tr r w) tr w := by
  have hroll : ∀ restarts e {tr w}, _ → Alone K t (failAfterRollback (α := DeploymentResult)
      (rollbackError orchestrator.installer target bundle.targetUid snapshot bundle.unit restarts
        e)).run (fun tr r w => EndsRejected bundle w₀ tr r w) tr w := fun restarts e {tr w} =>
    alone_failAfterRollback hroot hn hunit huser hname hcontent hstart restarts e
  unfold DeploymentOrchestrator.activate
  rw [hresult]
  refine safe_observe_bind (alone_daemonReload bundle.unit huser) fun tr₁ reload w₁ hreload => ?_
  cases reload with
  | error e =>
      -- the unit has not been restarted, and what ran before runs on
      refine hroll false e fun _ => ?_
      rw [hreload.running, hrunning, hreload.starts]
      constructor
      · intro hsame
        exact absurd hsame hstart.running
      · intro h
        exact absurd h.2 hstarts
  | ok u =>
      have hloaded : w₁.loaded bundle.targetUid bundle.unit = some bundle.quadlet.contents :=
        hreload.loaded.trans ((System.definition_of_look hunit).2 hfile)
      dsimp only
      split
      · refine safe_observe_bind (alone_restartUnit bundle.unit huser) fun tr₂ r w₂ h => ?_
        obtain ⟨leaves, hrestarted⟩ := h
        have hfails : ∀ e, Alone K t (failAfterRollback (α := DeploymentResult)
            (rollbackError orchestrator.installer target bundle.targetUid snapshot bundle.unit true
              e)).run (fun tr r w => EndsRejected bundle w₀ tr r w) tr₂ w₂ := by
          intro e
          refine hroll true e fun hcase => ?_
          -- what runs now is what the restart left behind
          have hnone := hcase.resolve_left (by simp)
          rw [hrestarted.running, hloaded, hrestarted.starts, hreload.starts]
          rw [show Starts bundle.targetUid bundle.unit tr ↔ False from iff_false_intro hstarts,
            false_or]
          cases r.toBool || leaves <;> simp [hnone]
        cases r with
        | error e => exact hfails e
        | ok operation =>
            dsimp only
            split
            · exact trivial
            · exact hfails _
      · refine safe_observe_bind (P := fun _ _ _ => True) ?_ fun tr₂ status w₂ _ => ?_
        · exact safe_call (fun _ _ => trivial) fun _ _ _ _ _ _ =>
            ⟨trivial, (fun hagain => by cases hagain), fun _ => trivial⟩
        · cases status <;> exact trivial

end

/-! ### Before the file is in place -/

section

variable {K : Kernel} {t : ℕ} {w₀ w w' : World} {tr tr' : Trace Sys.Resp World Choice}
variable {bundle : DeploymentBundle} {orchestrator : DeploymentOrchestrator} {α : Type} {may : May}

/-- The managers have done nothing for the unit since the beginning. -/
abbrev NotStarted (bundle : DeploymentBundle) (w₀ : World) (tr : Trace Sys.Resp World Choice)
    (w : World) : Prop := Untouched bundle.targetUid bundle.unit [] w₀ tr w

theorem not_starts_of_notStarted (h : NotStarted bundle w₀ tr w) :
    ¬ Starts bundle.targetUid bundle.unit tr := by
  rw [h.starts]
  rintro ⟨e, he, -⟩
  cases he

/-- The Quadlet file is the one of the beginning. -/
abbrev SameFile (bundle : DeploymentBundle) (w₀ w : World) : Prop :=
  w.look bundle.targetUid bundle.quadlet.fileName =
    w₀.look bundle.targetUid bundle.quadlet.fileName

/-- A deployment that has changed nothing. -/
theorem rejected_of_notStarted (h : NotStarted bundle w₀ tr w) (hfile : SameFile bundle w₀ w)
    (hstart : Startable bundle w₀) : Rejected bundle w₀ tr w := by
  refine ⟨hfile, h.loaded, ?_⟩
  rw [h.running]
  constructor
  · intro hsame
    exact absurd hsame hstart.running
  · intro hstarts
    exact absurd hstarts.2 (not_starts_of_notStarted h)

/-- A step that changes no Quadlet file and restarts nothing. -/
theorem alone_noRollback_bind {β : Type} {x : Action α} {f : α → Deploy β}
    {mid : Result α → World → Prop} (hx : Meets K t Eq may x.run mid w) (hp : NoRestart x.run)
    (hbefore : NotStarted bundle w₀ tr w) (hstart : Startable bundle w₀)
    (hok : ∀ tr a w, mid (.ok a) w → NotStarted bundle w₀ tr w →
      Alone K t (f a).run (fun tr r w => EndsRejected bundle w₀ tr r w) tr w)
    (herror : ∀ e w, mid (.error e) w → SameFile bundle w₀ w) :
    Alone K t (noRollback x >>= f).run (fun tr r w => EndsRejected bundle w₀ tr r w) tr w := by
  refine safe_noRollback_bind (hx.alone hp bundle.targetUid bundle.unit tr)
    (fun tr a w h => hok tr a w h.1 (hbefore.trans h.2)) fun tr e w h _ => ?_
  exact rejected_of_notStarted (hbefore.trans h.2) (herror e w h.1) hstart

/-- **A deployment that has the lock.** -/
theorem alone_deployLocked (hroot : orchestrator.installer.layout.adminUserRoot = K.adminRoot)
    (hsync : K.dirFsyncFails = false)
    (hfileName : bundle.quadlet.fileName = bundle.serviceName ++ ofString ".container")
    (hservice : serviceUnitNameFromQuadlet bundle.quadlet.fileName = .ok bundle.unit)
    {prepared : DeploymentOrchestrator.Prepared} (huser : prepared.target.uid = bundle.targetUid)
    (hstart : Startable bundle w₀) (hfile : SameFile bundle w₀ w)
    (hbefore : NotStarted bundle w₀ tr w) :
    Alone K t (orchestrator.deployLocked bundle prepared).run
      (fun tr r w => EndsRejected bundle w₀ tr r w) tr w := by
  have hn : ¬ Hidden bundle.quadlet.fileName := (quadletName_of_unit hservice).visible
  have hL : Stable t Eq (SameFile bundle w₀) := stable_look hn _
  have hminor : ∀ {p : Action Unit} {w : World}, p.run.Calls MinorOnce → SameFile bundle w₀ w →
      Meets K t Eq mayNothing p.run (fun _ => SameFile bundle w₀) w :=
    fun hp hw => meets_of_minor hp (fun _ _ => hL.others) (fun _ _ => hL.minor) hw
  unfold DeploymentOrchestrator.deployLocked
  -- the socket and the archive
  refine alone_noRollback_bind (hminor (DeploymentOrchestrator.validateSocket_minor _ _ _) hfile)
    (noRestart_of_minor (DeploymentOrchestrator.validateSocket_minor _ _ _)) hbefore hstart
    (fun tr _ w hfile hbefore => ?_) fun _ _ hfile => hfile
  refine alone_noRollback_bind (hminor (DeploymentOrchestrator.loadImage_minor _ _) hfile)
    (noRestart_of_minor (DeploymentOrchestrator.loadImage_minor _ _)) hbefore hstart
    (fun tr _ w hfile hbefore => ?_) fun _ _ hfile => hfile
  -- the snapshot
  refine alone_noRollback_bind ((meets_snapshotForUser othersOnly_eq hroot hL hfile).keeps hL hfile)
    (noRestart_of_treeCalls (treeCalls_snapshotForUser _ _ _)) hbefore hstart
    (fun tr snapshot w h hbefore => ?_) fun _ _ h => h.2
  obtain ⟨htaken, hfile⟩ := h
  obtain ⟨-, hname, w₁, hw₁, hcontent⟩ := htaken snapshot rfl
  -- the file
  refine alone_noRollback_bind (meets_installForUser othersOnly_eq hroot hL
      (fun _ _ => transition_look hn _ (some (.regular bundle.quadlet.contents))) hfile
      (clean_nextIno w.wellFormed))
    (noRestart_of_treeCalls (treeCalls_installForUser _ _ _)) hbefore hstart
    (fun tr installed w h hbefore => ?_) fun e w h => ?_
  · obtain ⟨hexpected, hfile⟩ := h
    obtain ⟨-, -, hunit, -⟩ := QuadletInstaller.expectedInstall_eq_ok.1 hexpected
    exact alone_activate hroot hn (quadletOf_unit bundle hfileName) huser hname
      (hcontent.symm.trans hw₁) hstart hfile hbefore.running
      (not_starts_of_notStarted hbefore)
      (Except.ok.inj (hunit.symm.trans hservice))
  · rcases h.1 with hsame | ⟨hfails, -⟩
    · exact hsame
    · rw [hsync] at hfails
      cases hfails

/-- **Taking the lock** changes no Quadlet file. -/
theorem meets_lockDeployment {layout : QuadletInstallLayout} {uid : UInt32} {unit : Bytes}
    {L : World → Prop} (hL : Stable t Eq L) (hroot : layout.adminUserRoot = K.adminRoot)
    (hw : L w) : Meets K t Eq mayNothing (lockDeployment layout uid unit).run (fun _ => L) w := by
  rw [lockDeployment]
  refine (meets_openLock othersOnly_eq hL hroot hw).bind (fun fd w h => ?_) fun e w h => h.1
  obtain ⟨hw, hopen⟩ := h
  have hflock : Meets K t Eq mayNothing (sysUntil (.flock fd) interrupted) (fun _ => L) w := by
    refine (meets_sysUntil (callMeets_flock othersOnly_eq hL hw (hopen fd rfl))
      fun _ _ _ _ _ => flock_again).weaken fun r w h => ?_
    cases r with
    | ok u => exact h.1
    | error e => exact h
  exact hflock.attemptBind (fun _ w hw => meets_ret hw) fun _ _ hw => hw

/-- Releasing the lock is no matter of units. -/
theorem alone_release {β : Type} {r : Except Failure β} {fd : Fd} {w₃ : World}
    (h : EndsRejected bundle w₀ tr r w₃) :
    Alone K t (observe (sys (.close fd)) >>= fun _ => (ExceptT.mk (pure r) : Deploy β)).run
      (fun tr r w => EndsRejected bundle w₀ tr r w) tr w₃ := by
  refine safe_call (fun _ _ => trivial) ?_
  rintro _ c u w₄ rfl hstep
  refine ⟨trivial, (fun hagain => by cases hagain), fun _ => ?_⟩
  have hclosed := System.step_close (Kernel.machine_step.1 hstep)
  have hlook : ∀ uid n, w₄.look uid n = w₃.look uid n := fun _ _ => by
    rw [hclosed]
    rfl
  have hloaded : w₄.loaded = w₃.loaded := by rw [hclosed]; rfl
  have hrunning : w₄.running = w₃.running := by rw [hclosed]; rfl
  cases r with
  | ok a => exact trivial
  | error failure =>
      intro hsucceeded
      obtain ⟨hfile, hsame, hruns⟩ := h hsucceeded
      refine ⟨(hlook _ _).trans hfile, (congrFun₂ hloaded _ _).trans hsame, ?_⟩
      rw [hrunning, hruns, starts_snoc_iff rfl]

/-- **A deployment that is rejected.** -/
theorem rejected_of_deploy (hroot : orchestrator.installer.layout.adminUserRoot = K.adminRoot)
    (hdry : orchestrator.options.dryRun = false) (hsync : K.dirFsyncFails = false)
    (hstart : Startable bundle w) {failure : Failure}
    (hexec : Exec K.machine t w (orchestrator.deploy bundle).run tr w' (.error failure))
    (hsucceeded : ∀ report, failure.rollback = some report → report.Succeeded) :
    Rejected bundle w tr w' := by
  rw [DeploymentOrchestrator.run_deploy] at hexec
  obtain ⟨tr₁, w₁, prepared, tr₂, hprepare, hrest, rfl⟩ := exec_bind.1 hexec
  have hminor := orchestrator.prepare_minor bundle
  have hprepared : Meets K t Eq mayNothing (orchestrator.prepare bundle).run
      (fun _ w' => SameFile bundle w w') w := by
    refine meets_of_minor hminor ?_ (fun _ _ hminor h => (hminor.look _ _).trans h) rfl
    rintro w _ rfl h
    exact h
  obtain ⟨⟨hfile, hbefore⟩, -⟩ := (hprepared.alone (noRestart_of_minor hminor) bundle.targetUid
    bundle.unit []).exec (fun _ => rfl) hprepare
  cases prepared with
  | error e =>
      obtain ⟨rfl, rfl, -⟩ := exec_ret.1 hrest
      rw [List.append_nil]
      exact rejected_of_notStarted hbefore hfile hstart
  | ok prepared =>
      obtain ⟨hbundle, huser, -⟩ := exec_prepare_ok hprepare
      obtain ⟨-, hfileName, hservice⟩ := validateDeploymentBundle_ok hbundle
      have hn : ¬ Hidden bundle.quadlet.fileName := (quadletName_of_unit hservice).visible
      rw [DeploymentOrchestrator.afterPrepare, hdry, if_neg Bool.false_ne_true,
        DeploymentOrchestrator.deployFromLock] at hrest
      have hlock : Meets K t Eq mayNothing (lockDeployment orchestrator.installer.layout
          bundle.targetUid prepared.expected.systemdUnit).run (fun _ => SameFile bundle w) w₁ :=
        meets_lockDeployment (stable_look hn _) hroot hfile
      have hend : Alone K t (orchestrator.deployFromLock bundle prepared).run
          (fun tr r w' => EndsRejected bundle w tr r w') tr₁ w₁ := by
        refine alone_noRollback_bind hlock (noRestart_lockDeployment _ _ _) hbefore hstart
          (fun tr fd w₂ hfile hbefore => ?_) fun _ _ hfile => hfile
        refine safe_observe_bind (alone_deployLocked hroot hsync hfileName hservice huser hstart
          hfile hbefore) fun tr r w₃ h => ?_
        exact alone_release h
      exact ((hend.exec (fun _ => rfl) hrest).1) hsucceeded

/-- **When a rejected deployment leaves nothing running**: if there was a Quadlet before, or the
unit was never started. -/
theorem leavesNothing_iff (hroot : orchestrator.installer.layout.adminUserRoot = K.adminRoot)
    (hdry : orchestrator.options.dryRun = false) (hsync : K.dirFsyncFails = false)
    (hstart : Startable bundle w) {failure : Failure}
    (hexec : Exec K.machine t w (orchestrator.deploy bundle).run tr w' (.error failure))
    (hsucceeded : ∀ report, failure.rollback = some report → report.Succeeded) :
    LeavesNothing bundle w w' ↔
      w.look bundle.targetUid bundle.quadlet.fileName ≠ none ∨
        ∀ e ∈ tr, ¬ StartsUnit bundle.targetUid bundle.unit e := by
  obtain ⟨hfile, hloaded, hrunning⟩ := rejected_of_deploy hroot hdry hsync hstart hexec hsucceeded
  constructor
  · intro h
    by_cases hnone : w.look bundle.targetUid bundle.quadlet.fileName = none
    · right
      intro e he hstarts
      exact h.running (hrunning.2 ⟨hnone, e, he, hstarts⟩)
    · exact .inl hnone
  · intro hor
    refine ⟨hfile, hloaded, fun hruns => ?_⟩
    obtain ⟨hnone, e, he, hstarts⟩ := hrunning.1 hruns
    rcases hor with hsome | hnever
    · exact hsome hnone
    · exact hnever e he hstarts

end

/-! ### A first deployment -/

theorem RollbackReport.succeeded_iff {report : RollbackReport} : report.Succeeded ↔
    report.restore.toBool = true ∧ report.reload.all (·.toBool) = true ∧
      report.restart.all (·.toBool) = true := by
  obtain ⟨restore, reload, restart⟩ := report
  constructor
  · rintro ⟨hrestore, hreload, hrestart⟩
    refine ⟨?_, ?_, ?_⟩
    · rw [hrestore]
      rfl
    · rw [Option.all_eq_true]
      intro r hr
      rw [hreload r hr]
      rfl
    · rw [Option.all_eq_true]
      intro r hr
      obtain ⟨operation, rfl⟩ := hrestart r hr
      rfl
  · rw [Option.all_eq_true, Option.all_eq_true]
    rintro ⟨hrestore, hreload, hrestart⟩
    refine ⟨?_, fun r hr => ?_, fun r hr => ?_⟩
    · cases restore with
      | ok u => rfl
      | error e => cases hrestore
    · replace hreload := hreload r hr
      cases r with
      | ok u => rfl
      | error e => cases hreload
    · replace hrestart := hrestart r hr
      cases r with
      | ok operation => exact ⟨operation, rfl⟩
      | error e => cases hrestart

instance (report : RollbackReport) : Decidable report.Succeeded :=
  decidable_of_iff _ RollbackReport.succeeded_iff.symm

/-- A deployment that failed, every step of whose rollback has succeeded. -/
def FailsCleanly {α : Type} (r : Except Failure α) : Bool :=
  (errorOf r).any fun failure => failure.rollback.all fun report => decide report.Succeeded

theorem FailsCleanly.error {α : Type} {r : Except Failure α} (h : FailsCleanly r = true) :
    ∃ failure, r = .error failure ∧
      ∀ report, failure.rollback = some report → report.Succeeded := by
  cases r with
  | ok a => cases h
  | error failure =>
      refine ⟨failure, rfl, fun report hreport => ?_⟩
      replace h : failure.rollback.all (fun report => decide report.Succeeded) = true := h
      rw [Option.all_eq_true] at h
      exact of_decide_eq_true (h report hreport)

/-- There is no unit yet. -/
theorem startable_emptyWorld : Startable webBundle emptyWorld := by
  refine ⟨?_, ?_, ?_⟩
  · decide +kernel
  · intro h
    cases h
  · intro h
    cases h

/-- What a unit reports that takes its time. -/
def startingOperation : UnitOperationResult where
  finalStatus := { loadState := "loaded", activeState := "activating" }

/-- The unit is started for the first time, and is found to be unhealthy: the file is removed again,
and the unit runs on. -/
theorem unhealthy_unit_runs_on :
    Startable webBundle emptyWorld ∧ ∃ tr w' failure, Exec syncedKernel.machine 0 emptyWorld
        (DeploymentOrchestrator.deploy { installer := {} } webBundle).run tr w' (.error failure) ∧
      (∀ report, failure.rollback = some report → report.Succeeded) ∧
      ¬ LeavesNothing webBundle emptyWorld w' := by
  have hrun : (run syncedKernel.machine 0 (untilReload ++ [.reload (.ok ()),
      .restart (.ok startingOperation) true] ++ List.replicate 11 .go ++ [.reload (.ok ()), .go])
      emptyWorld (DeploymentOrchestrator.deploy { installer := {} } webBundle).run).any (fun out =>
        FailsCleanly out.2.2 &&
          (out.2.1.running 1000 webBundle.unit == some webBundle.quadlet.contents)) = true := by
    decide +kernel
  obtain ⟨tr, w', r, h, hr⟩ := exists_exec_of_run hrun
  rw [Bool.and_eq_true, beq_iff_eq] at hr
  obtain ⟨failure, rfl, hsucceeded⟩ := FailsCleanly.error hr.1
  exact ⟨startable_emptyWorld, tr, w', failure, h, hsucceeded, fun hnothing =>
    hnothing.running hr.2⟩

/-- The manager does not reload, so that the unit is never started. -/
theorem failed_reload_leavesNothing :
    ∃ tr w' failure, Exec syncedKernel.machine 0 emptyWorld
        (DeploymentOrchestrator.deploy { installer := {} } webBundle).run tr w' (.error failure) ∧
      LeavesNothing webBundle emptyWorld w' := by
  have hrun : (run syncedKernel.machine 0 (untilReload ++ .reload (.error (makeError .systemd
      "no bus")) :: List.replicate 11 .go ++ [.reload (.ok ()), .go]) emptyWorld
      (DeploymentOrchestrator.deploy { installer := {} } webBundle).run).any (fun out =>
        FailsCleanly out.2.2 && out.1.all fun e => !e.op.isRestart) = true := by
    decide +kernel
  obtain ⟨tr, w', r, h, hr⟩ := exists_exec_of_run hrun
  rw [Bool.and_eq_true, List.all_eq_true] at hr
  obtain ⟨failure, rfl, hsucceeded⟩ := FailsCleanly.error hr.1
  refine ⟨tr, w', failure, h, (leavesNothing_iff rfl rfl rfl startable_emptyWorld h hsucceeded).2
    (.inr fun e he => not_startsUnit (by simpa using hr.2 e he))⟩

end PodInstaller
