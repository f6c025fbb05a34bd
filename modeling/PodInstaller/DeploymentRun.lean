/-
**A deployment from its beginning to its end.**

A deployment looks things up, takes the lock, does its work under it, and releases it.  The call
that takes the lock divides the calls of the deployment: what comes before it changes no Quadlet
file, and from then on the lock is held up to the last call, the one that releases it.  What the
work under the lock achieves may be said in terms of the state in which the lock was taken.

Main definitions:

* `PodInstaller.takesLock`, `PodInstaller.Calm`, `PodInstaller.Orderly` — the lock in a trace;
* `PodInstaller.UnderLock` — what holds whenever a deployment makes a call;
* `PodInstaller.Ended` — how a deployment ends.

Main results:

* `PodInstaller.safe_lockDeployment` — taking the lock;
* `PodInstaller.safe_deploy` — **a deployment**.
-/

import PodInstaller.DeploymentEffect
import PodInstaller.DryRun
import PodInstaller.Calls

set_option relaxedAutoImplicit false
set_option autoImplicit false

namespace PodInstaller

open Bytes

/-! ### The lock in a trace -/

/-- The descriptor with which a call takes a lock, if it takes one. -/
def takesLock : Event Sys.Resp World Choice → Option Fd
  | ⟨_, .flock fd, _, .ok _, _⟩ => some fd
  | _ => none

/-- A call that changes no Quadlet file. -/
def QuietEvent (e : Event Sys.Resp World Choice) : Prop :=
  ∀ uid n, ¬ Hidden n → e.after.look uid n = e.before.look uid n

/-- Calls before the lock is taken. -/
def Calm (tr : Trace Sys.Resp World Choice) : Prop :=
  ∀ e ∈ tr, takesLock e = none ∧ QuietEvent e

/-- Up to the call that takes the lock no Quadlet file is changed. -/
def Orderly (tr : Trace Sys.Resp World Choice) : Prop :=
  ∀ tr₁ e tr₂, tr = tr₁ ++ e :: tr₂ → (∀ e ∈ tr₁, takesLock e = none) → QuietEvent e

/-- The lock that was taken in a trace is the one of a descriptor. -/
def LockedBy (fd : Fd) (tr : Trace Sys.Resp World Choice) : Prop :=
  (∃ e ∈ tr, takesLock e = some fd) ∧ ∀ e ∈ tr, ∀ fd', takesLock e = some fd' → fd' = fd

section

variable {tr tr' : Trace Sys.Resp World Choice} {fd : Fd}

theorem Calm.orderly (h : Calm tr) : Orderly tr := by
  rintro tr₁ e tr₂ rfl -
  exact (h e (by simp)).2

theorem Calm.append (h : Calm tr) (h' : Calm tr') : Calm (tr ++ tr') :=
  List.forall_mem_append.2 ⟨h, h'⟩

/-- The call that takes the lock. -/
theorem Calm.orderly_snoc (h : Calm tr) {e : Event Sys.Resp World Choice} (he : QuietEvent e) :
    Orderly (tr ++ [e]) := by
  intro tr₁ e' tr₂ heq _
  have hmem : e' ∈ tr ++ [e] := heq ▸ by simp
  rcases List.mem_append.1 hmem with hold | hnew
  · exact (h e' hold).2
  · rwa [List.mem_singleton.1 hnew]

/-- After it anything may come. -/
theorem Orderly.append (h : Orderly tr) (hlocked : ∃ e ∈ tr, takesLock e ≠ none)
    (ext : Trace Sys.Resp World Choice) : Orderly (tr ++ ext) := by
  intro tr₁ e tr₂ heq hnone
  rcases List.append_eq_append_iff.1 heq with ⟨as, rfl, -⟩ | ⟨bs, rfl, hbs⟩
  · obtain ⟨e', he', htakes⟩ := hlocked
    exact absurd (hnone e' (List.mem_append_left _ he')) htakes
  · cases bs with
    | nil =>
        obtain ⟨e', he', htakes⟩ := hlocked
        exact absurd (hnone e' (by simpa using he')) htakes
    | cons b bs =>
        obtain ⟨rfl, -⟩ := List.cons_eq_cons.1 hbs
        exact h tr₁ e bs rfl hnone

theorem LockedBy.append (h : LockedBy fd tr) (hnone : ∀ e ∈ tr', takesLock e = none) :
    LockedBy fd (tr ++ tr') := by
  obtain ⟨⟨e, he, htakes⟩, honly⟩ := h
  refine ⟨⟨e, List.mem_append_left _ he, htakes⟩, fun e' he' fd' htakes' => ?_⟩
  rcases List.mem_append.1 he' with hold | hnew
  · exact honly e' hold fd' htakes'
  · rw [hnone e' hnew] at htakes'
    cases htakes'

end

/-! ### Before the lock, and under it -/

/-- What holds whenever a deployment makes a call: Quadlet files were changed under the lock only,
and a lock that was taken is held. -/
structure UnderLock (t : ℕ) (uid : UInt32) (unit : Bytes) (tr : Trace Sys.Resp World Choice)
    (w : World) : Prop where
  orderly : Orderly tr
  holds : ∀ fd, (∃ e ∈ tr, takesLock e = some fd) → HoldsLock t uid unit fd w

/-- The calls of `flock`. -/
def Sys.isFlock : Sys → Bool
  | .flock _ => true
  | _ => false

/-- A program that takes no lock. -/
abbrev NoFlock {α : Type} (p : SysProg α) : Prop := p.Calls fun o _ => o.isFlock = false

theorem takesLock_eq_none {e : Event Sys.Resp World Choice} (h : e.op.isFlock = false) :
    takesLock e = none := by
  obtain ⟨w, o, c, r, w'⟩ := e
  cases o with
  | flock fd => cases h
  | _ => rfl

section

variable {K : Kernel} {t : ℕ} {R : World → World → Prop} {may : May} {α : Type}
variable {w w' : World} {uid : UInt32} {unit : Bytes} {fd : Fd}
variable {tr tr' : Trace Sys.Resp World Choice} {L : World → Prop}

theorem Calm.underLock (h : Calm tr) : UnderLock t uid unit tr w := by
  refine ⟨h.orderly, ?_⟩
  rintro fd ⟨e, he, htakes⟩
  rw [(h e he).1] at htakes
  cases htakes

/-- A call that changes no Quadlet file. -/
theorem quietEvent_of_guarantee {e : Event Sys.Resp World Choice}
    (h : Guarantee t nothing e.before.toSystem e.after.toSystem) : QuietEvent e :=
  fun _ _ hn => h.look_eq hn

theorem Guarantee.change {may : UInt32 → Bytes → Option Content → Prop} {s s' : System}
    (h : Guarantee t nothing s s') : Change t may s s' :=
  (h.mono fun _ _ _ _ h => h.elim).toChange

/-- **Before the lock** no Quadlet file is changed. -/
theorem Meets.calm {p : SysProg α} {post : α → World → Prop} (h : Meets K t R mayNothing p post w)
    (hp : NoFlock p) (htr : Calm tr) :
    Safe K.machine t R (fun w w' => Change t (may w) w.toSystem w'.toSystem) (UnderLock t uid unit)
      (fun tr a w => post a w ∧ Calm tr) p tr w := by
  have hcalm : ∀ {tr'}, Extends (fun o => o.isFlock = false)
      (fun w w' : World => FileGuarantee t nothing w.toSystem w'.toSystem) tr tr' → Calm tr' := by
    rintro _ ⟨ext, rfl, hext⟩
    refine htr.append fun e he => ⟨takesLock_eq_none (hext e he).1, ?_⟩
    exact quietEvent_of_guarantee (hext e he).2.toGuarantee
  refine ((h tr).records hp).mono (fun _ _ h => h) (fun _ _ h => h.toGuarantee.change) ?_ ?_
  · rintro tr' w ⟨-, hext⟩
    exact (hcalm hext).underLock
  · rintro tr' a w ⟨hpost, hext⟩
    exact ⟨hpost, hcalm hext⟩

/-- A trace in which the lock was taken, and is held. -/
structure Holding (t : ℕ) (uid : UInt32) (unit : Bytes) (fd : Fd) (tr : Trace Sys.Resp World Choice)
    (w : World) : Prop where
  orderly : Orderly tr
  locked : LockedBy fd tr
  holds : HoldsLock t uid unit fd w

theorem Holding.underLock (h : Holding t uid unit fd tr w) : UnderLock t uid unit tr w := by
  refine ⟨h.orderly, ?_⟩
  rintro fd' ⟨e, he, htakes⟩
  rw [h.locked.2 e he fd' htakes]
  exact h.holds

/-- **Under the lock** it stays held. -/
theorem Performs.underLock (hR : OthersOnly t R) {p : SysProg α} {post : α → World → Prop}
    (h : Performs K t R may p post w) (hp : NoFlock p) (hheld : Holding t uid unit fd tr w) :
    Safe K.machine t R (fun w w' => Change t (may w) w.toSystem w'.toSystem) (UnderLock t uid unit)
      (fun tr' a w => post a w ∧ Holding t uid unit fd tr' w ∧
        ∃ ext, tr' = tr ++ ext ∧ ∀ e ∈ ext, takesLock e = none) p tr w := by
  have hstable : Stable t R (HoldsLock t uid unit fd) := stable_holdsLock hR fd
  have hholding : ∀ {tr' w'}, Extends (fun o => o.isFlock = false)
      (fun w w' : World => Guarantee t (may w) w.toSystem w'.toSystem) tr tr' →
      HoldsLock t uid unit fd w' → Holding t uid unit fd tr' w' := by
    rintro _ w' ⟨ext, rfl, hext⟩ hholds
    obtain ⟨e, he, htakes⟩ := hheld.locked.1
    have hne : takesLock e ≠ none := by simp [htakes]
    exact ⟨hheld.orderly.append ⟨e, he, hne⟩ ext,
      hheld.locked.append fun e he => takesLock_eq_none (hext e he).1, hholds⟩
  refine (((h tr).keeps (fun _ _ => hstable.others) ?_ hheld.holds).records hp).mono
    (fun _ _ h => h) (fun _ _ h => h.toChange) ?_ ?_
  · intro w w' hguar
    exact hguar.holds locksName_ne
  · rintro tr' w ⟨⟨-, hholds⟩, hext⟩
    exact (hholding hext hholds).underLock
  · rintro tr' a w ⟨⟨hpost, hholds⟩, hext⟩
    refine ⟨hpost, hholding hext hholds, ?_⟩
    obtain ⟨ext, rfl, hext⟩ := hext
    exact ⟨ext, rfl, fun e he => takesLock_eq_none (hext e he).1⟩

/-! ### Taking the lock -/

variable {B : World → Prop} {layout : QuadletInstallLayout}

/-- The lock was taken by the last call of a trace. -/
structure Taken (t : ℕ) (uid : UInt32) (unit : Bytes) (B : World → Prop) (fd : Fd)
    (tr : Trace Sys.Resp World Choice) (e : Event Sys.Resp World Choice)
    (tr' : Trace Sys.Resp World Choice) (w : World) : Prop where
  trace : tr' = tr ++ [e]
  calm : Calm tr
  takes : takesLock e = some fd
  quiet : QuietEvent e
  after : e.after = w
  before : B w
  holds : HoldsLock t uid unit fd w

theorem Taken.holding {e : Event Sys.Resp World Choice}
    (h : Taken t uid unit B fd tr e tr' w) : Holding t uid unit fd tr' w := by
  obtain ⟨rfl, hcalm, htakes, hquiet, -, -, hholds⟩ := h
  refine ⟨hcalm.orderly_snoc hquiet, ⟨⟨e, by simp, htakes⟩, fun e' he' fd' htakes' => ?_⟩, hholds⟩
  rcases List.mem_append.1 he' with hold | hnew
  · rw [(hcalm e' hold).1] at htakes'
    cases htakes'
  · rw [List.mem_singleton.1 hnew, htakes] at htakes'
    exact (Option.some.inj htakes').symm

/-- How taking the lock ends. -/
def LockEnded (t : ℕ) (uid : UInt32) (unit : Bytes) (B : World → Prop)
    (tr : Trace Sys.Resp World Choice) (w : World) : Option Fd → Prop
  | some fd => ∃ tr₁ e, Taken t uid unit B fd tr₁ e tr w
  | none => B w ∧ Calm tr

/-- Waiting for the lock. -/
theorem safe_flock (hR : OthersOnly t R) (hB : Stable t R B) (hw : B w)
    (hopen : LockOpen t uid unit fd w) (htr : Calm tr) :
    Safe K.machine t R (fun w w' => Change t (may w) w.toSystem w'.toSystem) (UnderLock t uid unit)
      (fun tr r w => LockEnded t uid unit B tr w (r.toOption.map fun _ => fd))
      (sysUntil (.flock fd) interrupted) tr w := by
  refine safe_call (fun _ _ => htr.underLock) fun w₁ c r w₂ hR₁ hstep => ?_
  have hstep' := Kernel.machine_step.1 hstep
  obtain ⟨hguar, hlocked⟩ := callMeets_flock (K := K) hR hB hw hopen w₁ c r w₂ hR₁ hstep'
  refine ⟨hguar.toGuarantee.change, flock_again hstep', fun _ => ?_⟩
  have hquiet : QuietEvent ⟨w₁, .flock fd, c, r, w₂⟩ := quietEvent_of_guarantee hguar.toGuarantee
  cases r with
  | ok u => exact ⟨tr, _, rfl, htr, rfl, hquiet, rfl, hlocked.1, hlocked.2⟩
  | error e =>
      refine ⟨hlocked, htr.append ?_⟩
      rw [Calm, List.forall_mem_singleton]
      exact ⟨rfl, hquiet⟩

/-- **Taking the lock.** -/
theorem safe_lockDeployment (hR : OthersOnly t R) (hB : Stable t R B)
    (hroot : layout.adminUserRoot = K.adminRoot) (hw : B w) (htr : Calm tr) :
    Safe K.machine t R (fun w w' => Change t (may w) w.toSystem w'.toSystem) (UnderLock t uid unit)
      (fun tr r w => LockEnded t uid unit B tr w r.toOption)
      (lockDeployment layout uid unit).run tr w := by
  have hnone : NoFlock (openLock layout uid unit).run :=
    (lockCalls_openLock layout uid unit).mono fun o _ h => by
      cases o with
      | flock fd => cases h.1
      | _ => rfl
  rw [lockDeployment]
  refine safe_exceptT_bind ((meets_openLock hR hB hroot hw).calm hnone htr)
    (fun tr fd w h => ?_) fun tr e w h => ⟨h.1.1, h.2⟩
  obtain ⟨⟨hw, hopen⟩, htr⟩ := h
  refine safe_exceptT_bind (P := fun tr r w =>
      LockEnded t uid unit B tr w (r.toOption.map fun _ => fd))
    (safe_bind (safe_flock hR hB hw (hopen fd rfl) htr) fun tr r w h => ?_) (fun tr u w h => h)
    fun tr e w h => h
  cases r with
  | ok u => exact h
  | error e => exact h

/-! ### The whole deployment -/

variable {orchestrator : DeploymentOrchestrator} {bundle : DeploymentBundle}
variable {L' : World → Prop} {r : Except Failure DeploymentResult}

/-- How a deployment ends: before it has the lock, with the world as it was, or after its work
under the lock, when the lock is released. -/
inductive Ended (K : Kernel) (B : World → Prop) (L L' : Fd → World → World → Prop)
    (tr : Trace Sys.Resp World Choice) (r : Except Failure DeploymentResult) (w : World) : Prop
  | before {e : Error} (result : r = .error ⟨e, none⟩) (lasts : B w) (calm : Calm tr)
  | locked {tr₁ tr₂ : Trace Sys.Resp World Choice} {e : Event Sys.Resp World Choice} {fd : Fd}
      {w₁ : World} (trace : tr = tr₁ ++ e :: tr₂) (calm : Calm tr₁)
      (takes : takesLock e = some fd) (quiet : QuietEvent e)
      (rest : ∀ e ∈ tr₂, takesLock e = none)
      (deployed : Deployed K (L fd e.after) (L' fd e.after) r w₁)
      (closed : w.toSystem = w₁.toSystem.closeFd fd)

/-- What the others do changes nothing about how a deployment ends. -/
theorem Deployed.others (hL : ∀ {w w' : World}, R w w' → L w → L w')
    (hL' : ∀ {w w' : World}, R w w' → L' w → L' w') (hRw : R w w') (h : Deployed K L L' r w) :
    Deployed K L L' r w' := by
  cases r with
  | ok result => exact hL' hRw h
  | error failure =>
      obtain ⟨hor, hnone, hsome⟩ := h
      exact ⟨hor.imp (hL hRw) (hL' hRw), fun h h' => hL hRw (hnone h h'),
        fun report h h' => hL hRw (hsome report h h')⟩

/-- **Releasing the lock** ends a deployment. -/
theorem safe_release (hR : OthersOnly t R) (hL : ∀ {w w' : World}, R w w' → L w → L w')
    (hL' : ∀ {w w' : World}, R w w' → L' w → L' w') (hheld : Holding t uid unit fd tr w)
    (h : Deployed K L L' r w) :
    Safe K.machine t R (fun w w' => Change t (may w) w.toSystem w'.toSystem) (UnderLock t uid unit)
      (fun tr' r' w' => r' = r ∧ (∃ e, tr' = tr ++ [e] ∧ takesLock e = none) ∧
        ∃ w₁ : World, Deployed K L L' r w₁ ∧ w'.toSystem = w₁.toSystem.closeFd fd)
      (observe (sys (.close fd)) >>= fun _ => (ExceptT.mk (pure r) : Deploy DeploymentResult)).run
      tr w := by
  have hstable : Stable t R (HoldsLock t uid unit fd) := stable_holdsLock hR fd
  refine safe_call (fun w₁ hR₁ => ?_) fun w₁ c u w₂ hR₁ hstep => ?_
  · exact Holding.underLock ⟨hheld.orderly, hheld.locked, hstable.others hR₁ hheld.holds⟩
  · have hclosed := System.step_close (Kernel.machine_step.1 hstep)
    obtain ⟨i, o, hi, hlock, ho, howner⟩ := hstable.others hR₁ hheld.holds
    refine ⟨hclosed ▸ change_closeFd fun o' ho' => ?_, (fun hagain => by cases hagain), fun _ => ?_⟩
    · rw [ho, Option.mem_some_iff] at ho'
      rw [← ho', howner]
    · exact ⟨rfl, ⟨_, rfl, rfl⟩, w₁, h.others hL hL' hR₁, hclosed⟩

theorem noFlock_of_minor {p : SysProg α} (h : p.Calls MinorOnce) : NoFlock p := by
  refine h.mono fun o again ho => ?_
  cases o with
  | flock fd => cases ho.1
  | _ => rfl

theorem noFlock_of_unitCalls {p : SysProg α} (h : UnitCalls p) : NoFlock p := by
  refine h.mono fun o _ ho => ?_
  cases o with
  | flock fd => cases ho
  | _ => rfl

theorem noFlock_deployLocked (prepared : DeploymentOrchestrator.Prepared) :
    NoFlock (orchestrator.deployLocked bundle prepared).run := by
  refine calls_exceptT_bind (calls_noRollback (noFlock_of_minor
    (DeploymentOrchestrator.validateSocket_minor _ _ _))) fun _ => ?_
  refine calls_exceptT_bind (calls_noRollback (noFlock_of_minor
    (DeploymentOrchestrator.loadImage_minor _ _))) fun _ => ?_
  refine calls_exceptT_bind (calls_noRollback (noFlock_of_unitCalls
    (treeCalls_snapshotForUser _ _ _).unitCalls)) fun snapshot => ?_
  refine calls_exceptT_bind (calls_noRollback (noFlock_of_unitCalls
    (treeCalls_installForUser _ _ _).unitCalls)) fun installed => ?_
  exact noFlock_of_unitCalls (DeploymentOrchestrator.unitCalls_activate _ _ _ _ _)

/-- **A deployment**, from its beginning to its end. -/
theorem safe_deploy {L L' : Fd → World → World → Prop} (hR : OthersOnly t R)
    (hroot : orchestrator.installer.layout.adminUserRoot = K.adminRoot)
    (hdry : orchestrator.options.dryRun = false) (hB : Stable t R B)
    (hunit : ∀ expected, orchestrator.installer.expectedInstall bundle.targetUid bundle.quadlet =
      .ok expected → expected.systemdUnit = unit)
    (hlock : ∀ fd w, B w → HoldsLock t bundle.targetUid unit fd w →
      L fd w w ∧ Stable t R (L fd w) ∧ Stable t R (L' fd w) ∧ ∀ expected,
        orchestrator.installer.expectedInstall bundle.targetUid bundle.quadlet = .ok expected →
        Exchange t R may bundle.targetUid bundle.quadlet.fileName (L fd w) (L' fd w)
          bundle.quadlet.contents)
    (hw : B w) :
    Safe K.machine t R (fun w w' => Change t (may w) w.toSystem w'.toSystem)
      (UnderLock t bundle.targetUid unit)
      (fun tr r w => Ended K B L L' tr r w ∧ Orderly tr) (orchestrator.deploy bundle).run [] w := by
  have hcalm : Calm ([] : Trace Sys.Resp World Choice) := by simp [Calm]
  rw [DeploymentOrchestrator.run_deploy]
  have hprepare : Meets K t R mayNothing (orchestrator.prepare bundle).run (fun _ w => B w) w :=
    meets_of_minor (orchestrator.prepare_minor bundle) (fun _ _ => hB.others)
      (fun _ _ => hB.minor) hw
  refine safe_bind ((hprepare.calm (noFlock_of_minor (orchestrator.prepare_minor bundle))
    hcalm).ends (orchestrator.prepare_ends bundle)) fun tr prepared w h => ?_
  obtain ⟨⟨hw, hcalm⟩, hexpected⟩ := h
  cases prepared with
  | error e => exact ⟨.before rfl hw hcalm, hcalm.orderly⟩
  | ok prepared =>
      rw [DeploymentOrchestrator.afterPrepare, hdry]
      -- the lock
      rw [if_neg Bool.false_ne_true, DeploymentOrchestrator.deployFromLock,
        hunit _ (hexpected prepared rfl)]
      refine safe_noRollback_bind (safe_lockDeployment hR hB hroot hw hcalm) (fun tr fd w h => ?_)
        fun tr e w h => ⟨.before rfl h.1 h.2, h.2.orderly⟩
      obtain ⟨tr₁, e, htaken⟩ := h
      -- the work under the lock
      obtain ⟨hL, hstable, hstable', hexchange⟩ := hlock fd w htaken.before htaken.holds
      refine safe_observe_bind ((performs_deployLocked hR hroot hstable hexchange hL
        prepared).underLock hR (noFlock_deployLocked prepared) htaken.holding) fun tr r w₁ h => ?_
      obtain ⟨hdeployed, hheld, ext, rfl, hext⟩ := h
      -- the release of the lock
      refine (safe_release hR hstable.others hstable'.others hheld hdeployed).weaken ?_
      rintro tr r' w₂ ⟨rfl, ⟨e', rfl, he'⟩, w₃, hdeployed, hclosed⟩
      obtain ⟨rfl, hcalm₁, htakes, hquiet, rfl, -, -⟩ := htaken
      have htrace : tr₁ ++ [e] ++ ext ++ [e'] = tr₁ ++ e :: (ext ++ [e']) := by simp
      refine ⟨.locked htrace hcalm₁ htakes hquiet ?_ hdeployed hclosed, ?_⟩
      · exact List.forall_mem_append.2 ⟨hext, by simpa using he'⟩
      · exact hheld.orderly.append ⟨e, by simp, by simp [htakes]⟩ _

end

end PodInstaller
