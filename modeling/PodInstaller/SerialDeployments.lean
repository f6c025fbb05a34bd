/-
**Deployments take turns.**

Any number of deployments run in one tree at the same time.  Each takes the lock of its user's unit
before it takes a snapshot, and holds it up to its last call, so that two deployments for the same
Quadlet file are never at work at once.  Hence what a rollback puts back is still what the file held
when the lock was taken: no later success is lost, and in the end the file holds what the last
deployment that succeeded has put there.

Main definitions:

* `PodInstaller.DeployCall`, `PodInstaller.DeployPool` — deployments that run at the same time;
* `PodInstaller.InSection`, `PodInstaller.Sys.worksOnUnit` — the part of a deployment that must not
  overlap with another's;
* `PodInstaller.lockOrder`, `PodInstaller.lastDeployed` — the deployments in the order of their
  locks, and the last of them that succeeded;
* `PodInstaller.TakesTurns` — what is promised of all of them.

Main results:

* `PodInstaller.keeps_deployUnderLock` — a deployment changes its own file only, under its lock;
* `PodInstaller.Tracks.step` — one step of the deployments;
* `PodInstaller.deployments_takeTurns` — **deployments take turns**.
-/

import PodInstaller.CallerPools
import PodInstaller.Rollback

set_option relaxedAutoImplicit false
set_option autoImplicit false

namespace PodInstaller

open Bytes

/-! ### Deployments that run at the same time -/

/-- A deployment that is called. -/
structure DeployCall where
  orchestrator : DeploymentOrchestrator
  bundle : DeploymentBundle

namespace DeployCall

/-- What a deployment returns. -/
abbrev Out (_ : DeployCall) : Type := Except Failure DeploymentResult

/-- The function that is called. -/
def body (c : DeployCall) : SysProg (Except Failure DeploymentResult) :=
  (c.orchestrator.deploy c.bundle).run

/-- A deployment for a Quadlet file. -/
def IsFor (c : DeployCall) (uid : UInt32) (n : Bytes) : Prop :=
  c.bundle.targetUid = uid ∧ c.bundle.quadlet.fileName = n

instance (c : DeployCall) (uid : UInt32) (n : Bytes) : Decidable (c.IsFor uid n) :=
  inferInstanceAs (Decidable (_ ∧ _))

/-- The deployments that are called: over one layout, and none of them dry. -/
structure Allowed (layout : QuadletInstallLayout) (c : DeployCall) : Prop where
  layout : c.orchestrator.installer.layout = layout
  dryRun : c.orchestrator.options.dryRun = false

end DeployCall

/-- The deployments of a tree. -/
abbrev DeployPool := Pool Sys.Resp World Choice DeployCall DeployCall.Out

/-- The unit of a file name. -/
def unitOf (n : Bytes) : Bytes := (serviceUnitNameFromQuadlet n).toOption.getD []

theorem unitOf_of_expectedInstall {installer : QuadletInstaller} {uid : UInt32}
    {quadlet : QuadletFile} {expected : InstalledQuadlet}
    (h : installer.expectedInstall uid quadlet = .ok expected) :
    expected.systemdUnit = unitOf quadlet.fileName := by
  obtain ⟨-, -, hunit, -⟩ := QuadletInstaller.expectedInstall_eq_ok.1 h
  rw [unitOf, hunit]
  rfl

/-! ### What is done under the lock -/

/-- A caller changes a Quadlet file only while it holds the lock of its unit. -/
def ChangesUnderLock (t : ℕ) (w w' : World) : Prop :=
  Change t (fun uid n _ => ∃ fd, HoldsLock t uid (unitOf n) fd w) w.toSystem w'.toSystem

/-- The other deployments. -/
abbrev LockingOthers (t : ℕ) : World → World → Prop := Rely ChangesUnderLock t

/-- What a deployment may change: its own file, under its lock. -/
def mayUnderLock (c : DeployCall) (t : ℕ) : May := fun w uid n _ =>
  c.IsFor uid n ∧ ∃ fd, HoldsLock t uid (unitOf n) fd w

/-- All other Quadlet files stay as they are. -/
def OwnFile (c : DeployCall) (tr : Trace Sys.Resp World Choice) : Prop :=
  ∀ e ∈ tr, ∀ uid n, ¬ Hidden n → ¬ c.IsFor uid n → e.after.look uid n = e.before.look uid n

/-- While the lock is held the file holds what it held when the lock was taken. -/
def HeldUnchanged (c : DeployCall) (t : ℕ) (fd : Fd) (w₁ w : World) : Prop :=
  HoldsLock t c.bundle.targetUid (unitOf c.bundle.quadlet.fileName) fd w ∧
    (¬ Hidden c.bundle.quadlet.fileName →
      w.look c.bundle.targetUid c.bundle.quadlet.fileName =
        w₁.look c.bundle.targetUid c.bundle.quadlet.fileName)

/-- While the lock is held the file holds the contents of the bundle. -/
def HeldDeployed (c : DeployCall) (t : ℕ) (fd : Fd) (_ w : World) : Prop :=
  HoldsLock t c.bundle.targetUid (unitOf c.bundle.quadlet.fileName) fd w ∧
    (¬ Hidden c.bundle.quadlet.fileName →
      w.look c.bundle.targetUid c.bundle.quadlet.fileName =
        some (.regular c.bundle.quadlet.contents))

section

variable {K : Kernel} {t : ℕ} {w w' w₁ : World} {c : DeployCall} {fd : Fd} {uid : UInt32}
variable {n : Bytes}

theorem othersOnly_locking : OthersOnly t (LockingOthers t) := othersOnly_rely fun h => h.toFramed

/-- **A file whose lock is held** is changed by nobody else. -/
theorem stable_held (v : Option Content) : Stable t (LockingOthers t) fun w =>
    HoldsLock t uid (unitOf n) fd w ∧ (¬ Hidden n → w.look uid n = v) where
  others hRw hw := by
    refine hRw.lasts (P := fun w => HoldsLock t uid (unitOf n) fd w ∧
      (¬ Hidden n → w.look uid n = v)) ?_ hw
    rintro u w w' hne hstep ⟨hheld, hlook⟩
    refine ⟨hstep.toFramed.holds hne locksName_ne hheld, fun hn => ?_⟩
    rcases hstep.look hn with hsame | ⟨fd', hother⟩
    · exact hsame.trans (hlook hn)
    · exact absurd (hother.unique hheld) hne
  quiet hguar hw := ⟨hguar.holds locksName_ne hw.1, fun hn => (hguar.look_eq hn).trans (hw.2 hn)⟩

/-- **A deployment** replaces its file under its lock, and puts it back. -/
theorem exchange_held (w₁ : World) :
    Exchange t (LockingOthers t) (mayUnderLock c t) c.bundle.targetUid c.bundle.quadlet.fileName
      (HeldUnchanged c t fd w₁) (HeldDeployed c t fd w₁) c.bundle.quadlet.contents where
  install := {
    before := stable_held _
    after := stable_held _
    allowed := fun _ hw => ⟨⟨rfl, rfl⟩, fd, hw.1⟩
    change := fun _ _ hw hguar hlook => ⟨hguar.holds locksName_ne hw.1, fun _ => hlook⟩ }
  restore := fun _ hw => {
    before := stable_held _
    after := stable_held _
    allowed := fun _ hw' => ⟨⟨rfl, rfl⟩, fd, hw'.1⟩
    change := fun _ _ hw' hguar hlook =>
      ⟨hguar.holds locksName_ne hw'.1, fun hn => hlook.trans (hw.2 hn)⟩ }

/-- What holds whenever a deployment makes a call. -/
structure MayCall (t : ℕ) (c : DeployCall) (tr : Trace Sys.Resp World Choice) (w : World) :
    Prop where
  underLock : UnderLock t c.bundle.targetUid (unitOf c.bundle.quadlet.fileName) tr w
  ownFile : OwnFile c tr

/-- How a deployment has ended. -/
structure HasEnded (K : Kernel) (t : ℕ) (c : DeployCall) (tr : Trace Sys.Resp World Choice)
    (r : Except Failure DeploymentResult) (w : World) : Prop where
  ended : Ended K (fun _ => True) (HeldUnchanged c t) (HeldDeployed c t) tr r w
  orderly : Orderly tr
  ownFile : OwnFile c tr

/-- The contract between the deployments. -/
def lockingContract (K : Kernel) :
    Contract Sys.Resp World Choice DeployCall DeployCall.Out World.exit :=
  treeContract ChangesUnderLock (fun _ w => change_exit w) (fun _ => True)
    (fun _ _ _ _ _ => trivial) MayCall (HasEnded K)

/-- **A deployment** keeps the contract. -/
theorem keeps_deployUnderLock {layout : QuadletInstallLayout}
    (hroot : layout.adminUserRoot = K.adminRoot) (hallowed : c.Allowed layout) (w : World) :
    (lockingContract K).Keeps K.machine t c c.body [] w := by
  have hdeploy : Safe K.machine t (LockingOthers t)
      (fun w w' => Change t (mayUnderLock c t w) w.toSystem w'.toSystem)
      (UnderLock t c.bundle.targetUid (unitOf c.bundle.quadlet.fileName))
      (fun tr r w => Ended K (fun _ => True) (HeldUnchanged c t) (HeldDeployed c t) tr r w ∧
        Orderly tr) c.body [] w := by
    refine safe_deploy othersOnly_locking (by rw [hallowed.layout, hroot]) hallowed.dryRun
      stable_any (fun _ => unitOf_of_expectedInstall) (fun fd w₁ _ hheld => ?_) trivial
    exact ⟨⟨hheld, fun _ => rfl⟩, stable_held _, stable_held _, fun _ _ => exchange_held w₁⟩
  have hown : ∀ {tr}, Extends (fun _ => True)
      (fun w w' : World => Change t (mayUnderLock c t w) w.toSystem w'.toSystem) [] tr →
      OwnFile c tr := by
    rintro _ ⟨ext, rfl, hext⟩ e he uid n hn hother
    exact ((hext e he).2.look hn).resolve_right fun h => hother h.1
  refine (hdeploy.records (Prog.calls_of_forall (fun _ _ => trivial) _)).mono (fun _ _ h => h)
    ?_ (fun tr w h => ⟨h.1, hown h.2⟩) fun tr r w h => ⟨h.1.1, h.1.2, hown h.2⟩
  intro w w' h
  exact { h.toFramed with look := fun hn => (h.look hn).imp_right fun h => h.2 }

end

/-! ### Turns -/

/-- A lock was taken. -/
def LockTaken (tr : Trace Sys.Resp World Choice) : Prop := ∃ e ∈ tr, takesLock e ≠ none

/-- A deployment for a Quadlet file is at work: it has taken its lock, and has a call left to
make. -/
def InSection (P : DeployPool) (t : ℕ) (uid : UInt32) (n : Bytes) : Prop :=
  LockTaken (P.trace t) ∧ ∃ c o again next,
    P.caller t = .running c (.call o again next) ∧ c.IsFor uid n

/-- The contents that a deployment for a Quadlet file has put there when it has succeeded. -/
def deployed (P : DeployPool) (uid : UInt32) (n : Bytes) (t : ℕ) : Option Bytes :=
  match P.caller t with
  | .running c (.ret (.ok _)) => if c.IsFor uid n then some c.bundle.quadlet.contents else none
  | _ => none

/-- The callers in the order in which they have taken their locks. -/
def lockOrder (P : DeployPool) : List ℕ :=
  P.history.filterMap fun e => if (takesLock e.2).isSome then some e.1 else none

/-- What the last of the deployments for a Quadlet file that have succeeded has put there. -/
def lastDeployed (P : DeployPool) (uid : UInt32) (n : Bytes) : Option Bytes :=
  ((lockOrder P).filterMap (deployed P uid n)).getLast?

/-- What a Quadlet file is to hold, if it held what it did in the beginning. -/
def dueContent (w₀ : World) (P : DeployPool) (uid : UInt32) (n : Bytes) : Option Content :=
  match lastDeployed P uid n with
  | some contents => some (.regular contents)
  | none => w₀.look uid n

section

variable {K : Kernel} {P P' : DeployPool} {t u : ℕ} {uid : UInt32} {n : Bytes} {c : DeployCall}
variable {w₀ : World}

theorem mem_lockOrder : t ∈ lockOrder P ↔ LockTaken (P.trace t) := by
  rw [lockOrder, List.mem_filterMap]
  constructor
  · rintro ⟨⟨s, e⟩, hmem, heq⟩
    split at heq
    · rename_i htakes
      obtain rfl : s = t := by simpa using heq
      exact ⟨e, Pool.mem_trace.2 hmem, Option.isSome_iff_ne_none.1 htakes⟩
    · cases heq
  · rintro ⟨e, he, htakes⟩
    exact ⟨(t, e), Pool.mem_trace.1 he, if_pos (Option.isSome_iff_ne_none.2 htakes)⟩

theorem lockOrder_log_of_none {e : Event Sys.Resp World Choice} (h : takesLock e = none)
    (k : Caller Sys.Resp DeployCall DeployCall.Out) : lockOrder (P.log t e k) = lockOrder P := by
  simp [lockOrder, h]

theorem lockOrder_log_of_some {e : Event Sys.Resp World Choice} (h : takesLock e ≠ none)
    (k : Caller Sys.Resp DeployCall DeployCall.Out) :
    lockOrder (P.log t e k) = lockOrder P ++ [t] := by
  simp [lockOrder, Option.isSome_iff_ne_none.2 h]

theorem exists_lockOrder_log (e : Event Sys.Resp World Choice)
    (k : Caller Sys.Resp DeployCall DeployCall.Out) :
    ∃ l, lockOrder (P.log t e k) = lockOrder P ++ l ∧ ∀ u ∈ l, u = t := by
  by_cases htakes : takesLock e = none
  · exact ⟨[], by rw [lockOrder_log_of_none htakes, List.append_nil], by simp⟩
  · exact ⟨[t], lockOrder_log_of_some htakes _, by simp⟩

/-- What a caller has deployed depends on the caller only. -/
theorem deployed_congr (h : P'.caller t = P.caller t) :
    deployed P' uid n t = deployed P uid n t := by
  rw [deployed, deployed, h]

theorem deployed_call {o : Sys} {again : o.Resp → Bool}
    {next : o.Resp → SysProg (Except Failure DeploymentResult)}
    (h : P.caller t = .running c (.call o again next)) : deployed P uid n t = none := by
  rw [deployed, h]

theorem deployed_error {failure : Failure} (h : P.caller t = .running c (.ret (.error failure))) :
    deployed P uid n t = none := by
  rw [deployed, h]

theorem deployed_ok {result : DeploymentResult} (h : P.caller t = .running c (.ret (.ok result)))
    (hfor : c.IsFor uid n) : deployed P uid n t = some c.bundle.quadlet.contents := by
  rw [deployed, h]
  exact if_pos hfor

/-- A caller that is no deployment for a Quadlet file. -/
def NotFor (P : DeployPool) (uid : UInt32) (n : Bytes) (t : ℕ) : Prop :=
  ∀ c p, P.caller t = .running c p → ¬ c.IsFor uid n

theorem NotFor.congr (h : NotFor P uid n t) (hcaller : P'.caller t = P.caller t) :
    NotFor P' uid n t := by
  rw [NotFor, hcaller]
  exact h

theorem NotFor.deployed (h : NotFor P uid n t) : deployed P uid n t = none := by
  rw [PodInstaller.deployed]
  split
  · rename_i hcaller
    exact if_neg (h _ _ hcaller)
  · rfl

/-- Deployments that have put nothing in place make no difference. -/
theorem dueContent_congr {l : List ℕ} (horder : lockOrder P' = lockOrder P ++ l)
    (hl : ∀ u ∈ l, deployed P' uid n u = none)
    (hsame : ∀ u ∈ lockOrder P, deployed P' uid n u = deployed P uid n u) :
    dueContent w₀ P' uid n = dueContent w₀ P uid n := by
  have hlast : lastDeployed P' uid n = lastDeployed P uid n := by
    rw [lastDeployed, lastDeployed, horder, List.filterMap_append,
      List.filterMap_eq_nil_iff.2 hl, List.append_nil, List.filterMap_congr hsame]
  rw [dueContent, dueContent, hlast]

/-! ### One at a time -/

/-- **Two deployments for one file** are never at work at once. -/
theorem inSection_unique (h : (lockingContract K).Sound K.machine P)
    (ht : InSection P t uid n) (hu : InSection P u uid n) : t = u := by
  have hholds : ∀ {s : ℕ}, InSection P s uid n →
      ∃ fd, HoldsLock s uid (unitOf n) fd P.world := by
    rintro s ⟨⟨e, he, htakes⟩, c, o, again, next, hrun, rfl, rfl⟩
    obtain ⟨fd, hfd⟩ := Option.ne_none_iff_exists'.1 htakes
    exact ⟨fd, (h.may hrun).underLock.holds fd ⟨e, he, hfd⟩⟩
  obtain ⟨fd, hfd⟩ := hholds ht
  obtain ⟨fd', hfd'⟩ := hholds hu
  exact hfd.unique hfd'

/-- What the calls of a deployment have changed so far. -/
theorem orderly_of_sound (h : (lockingContract K).Sound K.machine P)
    {p : SysProg (Except Failure DeploymentResult)} (hrun : P.caller t = .running c p) :
    Orderly (P.trace t) ∧ OwnFile c (P.trace t) := by
  cases p with
  | ret r =>
      obtain ⟨w, -, hended⟩ := h.running t c _ hrun
      exact ⟨hended.orderly, hended.ownFile⟩
  | call o again next =>
      have hmay := h.may hrun
      exact ⟨hmay.underLock.orderly, hmay.ownFile⟩

/-- The deployments for a Quadlet file are on track: the one at work has found what was due when it
took its lock, as the last one to take it, and when none is at work the file holds what is due. -/
structure Tracks (w₀ : World) (uid : UInt32) (n : Bytes) (P : DeployPool) : Prop where
  found : ∀ t tr₁ e tr₂, InSection P t uid n → P.trace t = tr₁ ++ e :: tr₂ →
    (∀ e ∈ tr₁, takesLock e = none) → takesLock e ≠ none →
    e.after.look uid n = dueContent w₀ P uid n
  last : ∀ t, InSection P t uid n → ∃ l₁ l₂, lockOrder P = l₁ ++ t :: l₂ ∧
    ∀ u ∈ l₂, NotFor P uid n u
  settled : (∀ t, ¬ InSection P t uid n) → P.world.look uid n = dueContent w₀ P uid n

/-- **Steps that are no matter of the file.** -/
theorem Tracks.frame {l : List ℕ} (h : Tracks w₀ uid n P)
    (hlook : P'.world.look uid n = P.world.look uid n)
    (horder : lockOrder P' = lockOrder P ++ l) (hl : ∀ u ∈ l, NotFor P' uid n u)
    (hdeployed : ∀ u ∈ lockOrder P, deployed P' uid n u = deployed P uid n u)
    (hfor : ∀ u ∈ lockOrder P, NotFor P uid n u → NotFor P' uid n u)
    (hsection : ∀ u, InSection P' u uid n ↔ InSection P u uid n)
    (htrace : ∀ u, InSection P u uid n → P'.trace u = P.trace u) : Tracks w₀ uid n P' := by
  have hdue : dueContent w₀ P' uid n = dueContent w₀ P uid n :=
    dueContent_congr horder (fun u hu => (hl u hu).deployed) hdeployed
  refine ⟨fun t tr₁ e tr₂ ht htr hnone htakes => ?_, fun t ht => ?_, fun hnobody => ?_⟩
  · rw [hdue]
    rw [hsection] at ht
    exact h.found t tr₁ e tr₂ ht ((htrace t ht).symm.trans htr) hnone htakes
  · obtain ⟨l₁, l₂, hsplit, hnot⟩ := h.last t ((hsection t).1 ht)
    refine ⟨l₁, l₂ ++ l, by rw [horder, hsplit]; simp, ?_⟩
    intro u hu
    rcases List.mem_append.1 hu with hold | hnew
    · exact hfor u (by rw [hsplit]; simp [hold]) (hnot u hold)
    · exact hl u hnew
  · rw [hlook, hdue]
    exact h.settled fun t ht => hnobody t ((hsection t).2 ht)

/-! ### The next call of a deployment -/

variable {e : Event Sys.Resp World Choice} {k : Caller Sys.Resp DeployCall DeployCall.Out}
variable {p p' : SysProg (Except Failure DeploymentResult)}

theorem inSection_log_of_ne (hne : u ≠ t) :
    InSection (P.log t e k) u uid n ↔ InSection P u uid n := by
  rw [InSection, InSection, Pool.trace_log_of_ne hne, Pool.caller_log_of_ne hne]

/-- A caller in its section makes a call next, and is a deployment for the file. -/
theorem InSection.isFor (h : InSection P t uid n) (hrun : P.caller t = .running c p) :
    LockTaken (P.trace t) ∧ c.IsFor uid n := by
  obtain ⟨htaken, c', o, again, next, hrun', hfor⟩ := h
  rw [hrun] at hrun'
  cases hrun'
  exact ⟨htaken, hfor⟩

theorem not_inSection_ret {r : Except Failure DeploymentResult}
    (hrun : P.caller t = .running c (.ret r)) : ¬ InSection P t uid n := by
  rintro ⟨-, c', o, again, next, hrun', -⟩
  rw [hrun] at hrun'
  cases hrun'

/-- A call of a deployment for another file. -/
theorem tracks_log_of_not_for (h : Tracks w₀ uid n P) (hrun : P.caller t = .running c p)
    (hnot : ¬ c.IsFor uid n) (hlook : e.after.look uid n = P.world.look uid n) :
    Tracks w₀ uid n (P.log t e (.running c p')) := by
  have hnotFor : NotFor P uid n t := by
    intro c' p' hrun'
    rw [hrun] at hrun'
    cases hrun'
    exact hnot
  have hnotFor' : NotFor (P.log t e (.running c p')) uid n t := by
    intro c' p'' hrun'
    rw [Pool.caller_log_self] at hrun'
    cases hrun'
    exact hnot
  obtain ⟨l, horder, hl⟩ := exists_lockOrder_log (P := P) (t := t) e (.running c p')
  refine h.frame hlook horder (fun u hu => hl u hu ▸ hnotFor') (fun u _ => ?_) (fun u _ hu => ?_)
    (fun u => ?_) fun u hu => ?_
  · by_cases hut : u = t
    · rw [hut, hnotFor.deployed, hnotFor'.deployed]
    · exact deployed_congr (Pool.caller_log_of_ne hut)
  · by_cases hut : u = t
    · rw [hut]
      exact hnotFor'
    · exact hu.congr (Pool.caller_log_of_ne hut)
  · by_cases hut : u = t
    · subst hut
      constructor
      · intro hu
        exact absurd (hu.isFor Pool.caller_log_self).2 hnot
      · intro hu
        exact absurd (hu.isFor hrun).2 hnot
    · exact inSection_log_of_ne hut
  · refine Pool.trace_log_of_ne ?_
    rintro rfl
    exact hnot (hu.isFor hrun).2

/-- A call before the lock is taken. -/
theorem tracks_log_before (h : Tracks w₀ uid n P) (hnone : ¬ LockTaken (P.trace t))
    (htakes : takesLock e = none) (hlook : e.after.look uid n = P.world.look uid n) :
    Tracks w₀ uid n (P.log t e k) := by
  have horder : lockOrder (P.log t e k) = lockOrder P ++ [] := by
    rw [lockOrder_log_of_none htakes, List.append_nil]
  have hne : ∀ u, LockTaken (P.trace u) → u ≠ t := by
    rintro u hu rfl
    exact hnone hu
  refine h.frame hlook horder (by simp) (fun u hu => ?_) (fun u hu hnot => ?_) (fun u => ?_)
    fun u hu => Pool.trace_log_of_ne (hne u hu.1)
  · exact deployed_congr (Pool.caller_log_of_ne (hne u (mem_lockOrder.1 hu)))
  · exact hnot.congr (Pool.caller_log_of_ne (hne u (mem_lockOrder.1 hu)))
  · by_cases hut : u = t
    · subst hut
      constructor
      · rintro ⟨⟨e', he', htakes'⟩, -⟩
        rw [Pool.trace_log_self] at he'
        rcases List.mem_append.1 he' with hold | hnew
        · exact absurd ⟨e', hold, htakes'⟩ hnone
        · rw [List.mem_singleton.1 hnew] at htakes'
          exact absurd htakes htakes'
      · intro hu
        exact absurd hu.1 hnone
    · exact inSection_log_of_ne hut

/-- **The call that takes the lock**: what is due is found. -/
theorem tracks_log_takes (h : Tracks w₀ uid n P)
    (hsound : (lockingContract K).Sound K.machine (P.log t e (.running c p')))
    (hnone : ¬ LockTaken (P.trace t)) (htakes : takesLock e ≠ none)
    (hin : InSection (P.log t e (.running c p')) t uid n)
    (hlook : e.after.look uid n = P.world.look uid n) :
    Tracks w₀ uid n (P.log t e (.running c p')) := by
  have horder := lockOrder_log_of_some (P := P) (t := t) htakes (.running c p')
  -- who takes the lock takes it alone, so that the file is settled
  have halone : ∀ u, ¬ InSection P u uid n := by
    intro u hu
    by_cases hut : u = t
    · exact hnone (hut ▸ hu.1)
    · exact hut (inSection_unique hsound ((inSection_log_of_ne hut).2 hu) hin)
  have hdue : dueContent w₀ (P.log t e (.running c p')) uid n = dueContent w₀ P uid n := by
    refine dueContent_congr horder (fun u hu => ?_) fun u hu => ?_
    · rw [List.mem_singleton.1 hu]
      obtain ⟨-, c', o, again, next, hrun, -⟩ := hin
      exact deployed_call hrun
    · refine deployed_congr (Pool.caller_log_of_ne ?_)
      rintro rfl
      exact hnone (mem_lockOrder.1 hu)
  refine ⟨fun u tr₁ e' tr₂ hu htr hbefore htakes' => ?_, fun u hu => ?_, fun hnobody => ?_⟩
  · obtain rfl := inSection_unique hsound hu hin
    rw [Pool.trace_log_self] at htr
    rcases append_singleton_eq_append_cons.1 htr with ⟨-, rfl, -⟩ | ⟨tr₃, -, hold⟩
    · rw [hdue, hlook]
      exact h.settled halone
    · exact absurd ⟨e', by rw [hold]; simp, htakes'⟩ hnone
  · obtain rfl := inSection_unique hsound hu hin
    exact ⟨lockOrder P, [], horder, by simp⟩
  · exact absurd hin (hnobody t)

/-- **A call in the section.** -/
theorem tracks_log_inside (h : Tracks w₀ uid n P)
    (hsound : (lockingContract K).Sound K.machine (P.log t e (.running c p')))
    (hin : InSection P t uid n) (hin' : InSection (P.log t e (.running c p')) t uid n) :
    Tracks w₀ uid n (P.log t e (.running c p')) := by
  have hcall : ∀ {Q : DeployPool}, InSection Q t uid n → deployed Q uid n t = none := by
    rintro Q ⟨-, c', o, again, next, hrun, -⟩
    exact deployed_call hrun
  obtain ⟨l, horder, hl⟩ := exists_lockOrder_log (P := P) (t := t) e (.running c p')
  have hdue : dueContent w₀ (P.log t e (.running c p')) uid n = dueContent w₀ P uid n := by
    refine dueContent_congr horder (fun u hu => hl u hu ▸ hcall hin') fun u _ => ?_
    by_cases hut : u = t
    · rw [hut, hcall hin, hcall hin']
    · exact deployed_congr (Pool.caller_log_of_ne hut)
  refine ⟨fun u tr₁ e' tr₂ hu htr hbefore htakes => ?_, fun u hu => ?_, fun hnobody => ?_⟩
  · obtain rfl := inSection_unique hsound hu hin'
    rw [Pool.trace_log_self] at htr
    rcases append_singleton_eq_append_cons.1 htr with ⟨rfl, -, -⟩ | ⟨tr₃, -, hold⟩
    · obtain ⟨⟨e₁, he₁, htakes₁⟩, -⟩ := hin
      exact absurd (hbefore e₁ he₁) htakes₁
    · rw [hdue]
      exact h.found u tr₁ e' tr₃ hin hold hbefore htakes
  · obtain rfl := inSection_unique hsound hu hin'
    -- whether `e` takes a lock once more does not matter
    by_cases htakes : takesLock e = none
    · obtain ⟨l₁, l₂, hsplit, hnot⟩ := h.last u hin
      refine ⟨l₁, l₂, by rw [lockOrder_log_of_none htakes, hsplit], fun s hs => ?_⟩
      refine (hnot s hs).congr (Pool.caller_log_of_ne ?_)
      rintro rfl
      obtain ⟨-, c', o, again, next, hrun, hfor⟩ := hin
      exact hnot s hs _ _ hrun hfor
    · exact ⟨lockOrder P, [], lockOrder_log_of_some htakes _, by simp⟩
  · exact absurd hin' (hnobody t)

/-- A deployment that fails has left its file as it was, or has put it back. -/
theorem held_of_error {L L' : World → Prop} {failure : Failure} {w : World}
    (hsync : K.dirFsyncFails = false)
    (hrestored : ∀ report, failure.rollback = some report → report.restore = .ok ())
    (h : Deployed K L L' (.error failure) w) : L w := by
  obtain ⟨-, hnone, hsome⟩ := h
  cases hreport : failure.rollback with
  | none => exact hnone hreport hsync
  | some report => exact hsome report hreport (hrestored report hreport)

/-- After a failure the same is due. -/
theorem dueContent_log_error {failure : Failure} (hin : InSection P t uid n)
    (htakes : takesLock e = none) :
    dueContent w₀ (P.log t e (.running c (.ret (.error failure)))) uid n =
      dueContent w₀ P uid n := by
  have horder : lockOrder (P.log t e (.running c (.ret (.error failure)))) = lockOrder P ++ [] := by
    rw [lockOrder_log_of_none htakes, List.append_nil]
  refine dueContent_congr horder (by simp) fun u _ => ?_
  by_cases hut : u = t
  · subst hut
    obtain ⟨-, c', o, again, next, hrun, -⟩ := hin
    rw [deployed_call hrun, deployed_error Pool.caller_log_self]
  · exact deployed_congr (Pool.caller_log_of_ne hut)

/-- After a success the contents of the bundle are due. -/
theorem dueContent_log_ok {result : DeploymentResult} (h : Tracks w₀ uid n P)
    (hin : InSection P t uid n) (htakes : takesLock e = none) (hfor : c.IsFor uid n) :
    dueContent w₀ (P.log t e (.running c (.ret (.ok result)))) uid n =
      some (.regular c.bundle.quadlet.contents) := by
  obtain ⟨l₁, l₂, hsplit, hnot⟩ := h.last t hin
  -- the deployments that have taken their locks later are for other files
  have hlater : ∀ u ∈ l₂, deployed (P.log t e (.running c (.ret (.ok result)))) uid n u = none := by
    intro u hu
    refine ((hnot u hu).congr (Pool.caller_log_of_ne ?_)).deployed
    rintro rfl
    obtain ⟨-, c', o, again, next, hrun, hfor'⟩ := hin
    exact hnot u hu _ _ hrun hfor'
  have hown : deployed (P.log t e (.running c (.ret (.ok result)))) uid n t =
      some c.bundle.quadlet.contents := deployed_ok Pool.caller_log_self hfor
  rw [dueContent, lastDeployed, lockOrder_log_of_none htakes, hsplit, List.filterMap_append,
    List.filterMap_cons_some hown, List.filterMap_eq_nil_iff.2 hlater, List.getLast?_concat]

/-- **The last call of a deployment**: the file holds what is due. -/
theorem tracks_log_ended (hn : ¬ Hidden n) (hsync : K.dirFsyncFails = false)
    (h : Tracks w₀ uid n P) (hsound : (lockingContract K).Sound K.machine P)
    (hin : InSection P t uid n) (hfor : c.IsFor uid n) {r : Except Failure DeploymentResult}
    (hended : HasEnded K t c (P.trace t ++ [e]) r e.after)
    (hrestored : ∀ failure report, r = .error failure → failure.rollback = some report →
      report.restore = .ok ()) :
    Tracks w₀ uid n (P.log t e (.running c (.ret r))) := by
  obtain ⟨⟨e₁, he₁, htakes₁⟩, -⟩ := id hin
  -- nobody takes the place of the caller that has ended
  have hnobody : ∀ u, ¬ InSection (P.log t e (.running c (.ret r))) u uid n := by
    intro u hu
    by_cases hut : u = t
    · subst hut
      exact not_inSection_ret Pool.caller_log_self hu
    · exact hut (inSection_unique hsound ((inSection_log_of_ne hut).1 hu) hin)
  refine ⟨fun u _ _ _ hu => absurd hu (hnobody u), fun u hu => absurd hu (hnobody u), fun _ => ?_⟩
  cases hended.ended with
  | before hr _ hcalm => exact absurd (hcalm e₁ (List.mem_append_left _ he₁)).1 htakes₁
  | @locked tr₁ tr₂ e₀ fd w₁ htr hcalm htakes hquiet hrest hdeployed hclosed =>
      rcases append_singleton_eq_append_cons.1 htr with ⟨rfl, -, -⟩ | ⟨tr₃, rfl, hold⟩
      · exact absurd (hcalm e₁ he₁).1 htakes₁
      have hlast : takesLock e = none := hrest e (by simp)
      -- what was found with the lock is what had been due
      have hfound : e₀.after.look uid n = dueContent w₀ P uid n :=
        h.found t tr₁ e₀ tr₃ hin hold (fun e he => (hcalm e he).1) (by simp [htakes])
      have hlook : (P.log t e (.running c (.ret r))).world.look uid n = w₁.look uid n := by
        rw [Pool.world_log, hclosed]
        rfl
      obtain ⟨rfl, rfl⟩ := hfor
      rw [hlook]
      cases r with
      | ok result =>
          rw [dueContent_log_ok h hin hlast ⟨rfl, rfl⟩]
          exact hdeployed.2 hn
      | error failure =>
          have hheld : HeldUnchanged c t fd e₀.after w₁ :=
            held_of_error hsync (fun report => hrestored failure report rfl) hdeployed
          rw [dueContent_log_error hin hlast, ← hfound]
          exact hheld.2 hn

/-- A deployment makes a call after the one that takes the lock: at least the one that releases
it. -/
theorem not_ended_of_takesLock {tr : Trace Sys.Resp World Choice}
    {r : Except Failure DeploymentResult} (hnone : ¬ LockTaken tr) (htakes : takesLock e ≠ none)
    (hstep : e.before.toSystem.step K t e.op e.choice = some (e.resp, e.after.toSystem)) :
    ¬ HasEnded K t c (tr ++ [e]) r e.after := by
  intro h
  cases h.ended with
  | before _ _ hcalm => exact htakes (hcalm e (by simp)).1
  | @locked tr₁ tr₂ e₀ fd w₁ htr hcalm htakes₀ hquiet hrest hdeployed hclosed =>
      rcases append_singleton_eq_append_cons.1 htr with ⟨rfl, rfl, -⟩ | ⟨tr₃, -, hold⟩
      · -- the lock would be held, and released
        obtain ⟨w, o, choice, r, w'⟩ := e₀
        have hlocked : ∃ i, w'.lock i = some fd := by
          cases o with
          | flock fd' =>
              cases r with
              | error e => cases htakes₀
              | ok u =>
                  obtain rfl : fd' = fd := Option.some.inj htakes₀
                  rcases System.step_flock hstep with ⟨_, hr, -⟩ |
                    ⟨i, -, -, ⟨-, hw⟩ | ⟨hlock, hw⟩⟩
                  · cases hr
                  · exact ⟨i, by rw [hw]; simp [System.setLock]⟩
                  · exact ⟨i, by rw [hw]; exact hlock⟩
          | _ => cases htakes₀
        obtain ⟨i, hi⟩ := hlocked
        rw [show w'.toSystem = w₁.toSystem.closeFd fd from hclosed] at hi
        simp only [System.closeFd] at hi
        split at hi
        · cases hi
        · rename_i hne
          exact hne hi
      · exact hnone ⟨e₀, by rw [hold]; simp, by simp [htakes₀]⟩

/-! ### One step of the deployments -/

/-- No rollback has failed to put the file back. -/
def RestoresSucceed (P : DeployPool) : Prop :=
  ∀ t c failure report, P.caller t = .running c (.ret (.error failure)) →
    failure.rollback = some report → report.restore = .ok ()

/-- No deployment was killed, and every rollback has put the file back. -/
structure Undisturbed (P : DeployPool) : Prop where
  alive : ∀ t, P.caller t ≠ .stopped
  restored : RestoresSucceed P

variable {allowed : DeployPool → DeployCall → Prop}

/-- What has ended stays as it is. -/
theorem Undisturbed.of_step
    (hP : Pool.Step K.machine DeployCall.body World.exit allowed P P') (h : Undisturbed P') :
    Undisturbed P := by
  -- the caller that has moved was idle, or had a call to make
  have hmoved : ∀ {t : ℕ}, (∀ s, s ≠ t → P'.caller s = P.caller s) →
      (P.caller t ≠ .stopped ∧ ∀ c r, P.caller t ≠ .running c (.ret r)) → Undisturbed P := by
    intro t hothers ⟨halive, hcall⟩
    refine ⟨fun s hs => ?_, fun s c failure report hs => ?_⟩
    · by_cases hst : s = t
      · exact halive (hst ▸ hs)
      · exact h.alive s ((hothers s hst).trans hs)
    · by_cases hst : s = t
      · exact absurd (hst ▸ hs) (hcall c _)
      · exact h.restored s c failure report ((hothers s hst).trans hs)
  cases hP with
  | @start t c hidle hallowed =>
      exact hmoved (fun s hs => Pool.caller_set_of_ne hs) (by rw [hidle]; simp)
  | @again t c o again next choice r w hrun hstep hagain =>
      exact hmoved (fun s hs => Pool.caller_set_of_ne hs) (by rw [hrun]; simp)
  | @call t c o again next choice r w hrun hstep hagain =>
      exact hmoved (fun s hs => Pool.caller_log_of_ne hs) (by rw [hrun]; simp)
  | @stop t c p hrun => exact absurd Pool.caller_set_self (h.alive t)

/-- A call begins: it has taken no lock. -/
theorem tracks_start (h : Tracks w₀ uid n P) (hidle : P.caller t = .idle)
    (hnone : P.trace t = []) :
    Tracks w₀ uid n (P.set t P.world (.running c c.body)) := by
  have hne : ∀ u, LockTaken (P.trace u) → u ≠ t := by
    rintro u ⟨e, he, -⟩ rfl
    rw [hnone] at he
    cases he
  have horder : lockOrder (P.set t P.world (.running c c.body)) = lockOrder P ++ [] := by
    rw [List.append_nil]
    rfl
  refine h.frame rfl horder (by simp) (fun u hu => ?_) (fun u hu hnot => ?_) (fun u => ?_)
    fun u _ => rfl
  · exact deployed_congr (Pool.caller_set_of_ne (hne u (mem_lockOrder.1 hu)))
  · exact hnot.congr (Pool.caller_set_of_ne (hne u (mem_lockOrder.1 hu)))
  · constructor
    · rintro ⟨htaken, hrun⟩
      rw [Pool.caller_set_of_ne (hne u htaken)] at hrun
      exact ⟨htaken, hrun⟩
    · rintro ⟨htaken, hrun⟩
      refine ⟨htaken, ?_⟩
      rw [Pool.caller_set_of_ne (hne u htaken)]
      exact hrun

/-- **A call that a deployment makes** for its file. -/
theorem tracks_call {o : Sys} {again : o.Resp → Bool}
    {next : o.Resp → SysProg (Except Failure DeploymentResult)} {choice : Choice} {r : o.Resp}
    {w : World} (hn : ¬ Hidden n) (hsync : K.dirFsyncFails = false) (h : Tracks w₀ uid n P)
    (hsound : (lockingContract K).Sound K.machine P)
    (hrun : P.caller t = .running c (.call o again next))
    (hstep : K.machine.step t P.world o choice = some (r, w)) (hagain : again r = false)
    (hsound' : (lockingContract K).Sound K.machine
      (P.log t ⟨P.world, o, choice, r, w⟩ (.running c (next r))))
    (hrestored : RestoresSucceed (P.log t ⟨P.world, o, choice, r, w⟩ (.running c (next r))))
    (hfor : c.IsFor uid n) :
    Tracks w₀ uid n (P.log t ⟨P.world, o, choice, r, w⟩ (.running c (next r))) := by
  obtain ⟨-, -, -, hnext⟩ := hsound.next hrun hstep
  have hended := hnext hagain
  have hlast : ⟨P.world, o, choice, r, w⟩ ∈ P.trace t ++ [⟨P.world, o, choice, r, w⟩] := by simp
  by_cases htaken : LockTaken (P.trace t)
  · -- the deployment is at work
    have hin : InSection P t uid n := ⟨htaken, c, o, again, next, hrun, hfor⟩
    have hrestored := hrestored t c
    rw [Pool.caller_log_self] at hrestored
    revert hsound' hended hrestored
    cases next r with
    | ret res =>
        intro hsound' hended hrestored
        exact tracks_log_ended hn hsync h hsound hin hfor hended
          fun failure report hres => hrestored failure report (by rw [hres])
    | call o' again' next' =>
        intro hsound' hended hrestored
        refine tracks_log_inside h hsound' hin ⟨?_, c, o', again', next', ?_, hfor⟩
        · obtain ⟨e, he, htakes⟩ := htaken
          rw [Pool.trace_log_self]
          exact ⟨e, List.mem_append_left _ he, htakes⟩
        · exact Pool.caller_log_self
  · -- it has not begun its work
    obtain ⟨horderly, -⟩ := orderly_of_sound hsound' Pool.caller_log_self
    rw [Pool.trace_log_self] at horderly
    have hlook : w.look uid n = P.world.look uid n := by
      refine horderly _ _ [] rfl (fun e he => ?_) uid n hn
      by_contra htakes
      exact htaken ⟨e, he, htakes⟩
    by_cases htakes : takesLock ⟨P.world, o, choice, r, w⟩ = none
    · exact tracks_log_before h htaken htakes hlook
    · revert hsound' hended
      cases next r with
      | ret res =>
          intro hsound' hended
          exact absurd hended (not_ended_of_takesLock htaken htakes (Kernel.machine_step.1 hstep))
      | call o' again' next' =>
          intro hsound' hended
          refine tracks_log_takes h hsound' htaken htakes
            ⟨?_, c, o', again', next', Pool.caller_log_self, hfor⟩ hlook
          rw [Pool.trace_log_self]
          exact ⟨_, hlast, htakes⟩

/-- **One step** of the deployments keeps them on track. -/
theorem Tracks.step (hn : ¬ Hidden n) (hsync : K.dirFsyncFails = false) (h : Tracks w₀ uid n P)
    (hP : Pool.Step K.machine DeployCall.body World.exit allowed P P')
    (hsound : (lockingContract K).Sound K.machine P)
    (hsound' : (lockingContract K).Sound K.machine P') (hundisturbed : Undisturbed P') :
    Tracks w₀ uid n P' := by
  cases hP with
  | @start t c hidle hallowed => exact tracks_start h hidle (hsound.idle t hidle)
  | @again t c o again next choice r w hrun hstep hagain =>
      rwa [hsound.again_eq hrun hstep hagain]
  | @call t c o again next choice r w hrun hstep hagain =>
      by_cases hfor : c.IsFor uid n
      · exact tracks_call hn hsync h hsound hrun hstep hagain hsound' hundisturbed.restored hfor
      · -- a deployment of another file leaves this one alone
        have hown := (orderly_of_sound hsound' Pool.caller_log_self).2
        rw [Pool.trace_log_self] at hown
        exact tracks_log_of_not_for h hrun hfor (hown _ (by simp) uid n hn hfor)
  | @stop t c p hrun => exact absurd Pool.caller_set_self (hundisturbed.alive t)

/-! ### All steps of the deployments -/

/-- Deployments over one layout keep the contract. -/
theorem sound_of_reachable {layout : QuadletInstallLayout}
    (hroot : layout.adminUserRoot = K.adminRoot)
    (hP : Pool.Reachable K.machine DeployCall.body World.exit (fun _ c => c.Allowed layout) w₀ P) :
    (lockingContract K).Sound K.machine P :=
  Contract.sound trivial (fun P _ _ _ _ hallowed => keeps_deployUnderLock hroot hallowed P.world) hP

/-- **All steps** keep the deployments on track. -/
theorem tracks_of_reachable {layout : QuadletInstallLayout}
    (hroot : layout.adminUserRoot = K.adminRoot) (hn : ¬ Hidden n)
    (hsync : K.dirFsyncFails = false)
    (hP : Pool.Reachable K.machine DeployCall.body World.exit (fun _ c => c.Allowed layout) w₀ P)
    (hundisturbed : Undisturbed P) : Tracks w₀ uid n P := by
  induction hP with
  | refl =>
      have hnobody : ∀ t, ¬ InSection (Pool.initial w₀) t uid n := by
        rintro t ⟨⟨e, he, -⟩, -⟩
        cases he
      exact ⟨fun t _ _ _ ht => absurd ht (hnobody t), fun t ht => absurd ht (hnobody t),
        fun _ => rfl⟩
  | tail hreach hstep ih =>
      exact (ih (hundisturbed.of_step hstep)).step hn hsync hstep (sound_of_reachable hroot hreach)
        (sound_of_reachable hroot (hreach.tail hstep)) hundisturbed

/-! ### The calls of a section -/

/-- The calls with which a deployment reads and replaces a Quadlet file, and tells the manager. -/
def Sys.worksOnUnit : Sys → Bool
  | .lstat _ => true
  | .read _ _ => true
  | .write _ _ => true
  | .renameat _ _ _ _ => true
  | .unlinkat _ _ => true
  | .daemonReload _ => true
  | .restartUnit _ _ => true
  | .status _ _ => true
  | _ => false

/-- The calls that take a lock. -/
def Sys.Locks : (o : Sys) → o.Resp → Prop
  | .flock _, .ok _ => True
  | _, _ => False

theorem locks_iff : e.op.Locks e.resp ↔ takesLock e ≠ none := by
  obtain ⟨w, o, choice, r, w'⟩ := e
  cases o with
  | flock fd => cases r <;> simp [Sys.Locks, takesLock]
  | _ => simp [Sys.Locks, takesLock]

/-- Up to the lock nothing is read or replaced, and the manager is told nothing. -/
theorem until_lockDeployment (layout : QuadletInstallLayout) (uid : UInt32) (unit : Bytes) :
    (lockDeployment layout uid unit).run.Until (fun o => o.worksOnUnit = false) Sys.Locks
      fun r => r.toBool = false := by
  have hopen : (openLock layout uid unit).run.Calls fun o _ => o.worksOnUnit = false :=
    (lockCalls_openLock layout uid unit).mono fun o _ ho => by
      have hlock := ho.1
      cases o with
      | _ => first | rfl | cases hlock
  rw [lockDeployment, run_exceptT_bind]
  refine Prog.until_bind (Prog.until_of_calls (P := fun _ => True) hopen fun _ => trivial)
    fun opened _ => ?_
  cases opened with
  | error e => rfl
  | ok fd =>
      refine ⟨rfl, fun r hr => ?_⟩
      cases r with
      | ok u => exact absurd trivial hr
      | error e => rfl

/-- **A deployment works on its unit under the lock only.** -/
theorem until_body (c : DeployCall) :
    c.body.Until (fun o => o.worksOnUnit = false) Sys.Locks fun _ => True := by
  have hprepare : (c.orchestrator.prepare c.bundle).run.Calls fun o _ => o.worksOnUnit = false :=
    (c.orchestrator.prepare_opensOnce c.bundle).mono fun o _ ho => by
      obtain ⟨⟨hlooks, -⟩, hlstat⟩ := ho
      cases o with
      | lstat path => cases hlstat
      | _ => first | rfl | cases hlooks
  rw [DeployCall.body, DeploymentOrchestrator.run_deploy]
  refine Prog.until_bind (Prog.until_of_calls (P := fun _ => True) hprepare fun _ => trivial)
    fun prepared _ => ?_
  cases prepared with
  | error e => trivial
  | ok prepared =>
      rw [DeploymentOrchestrator.afterPrepare]
      split
      · trivial
      · rw [DeploymentOrchestrator.deployFromLock, run_exceptT_bind]
        refine Prog.until_bind (P := fun r => r.toBool = false) (Prog.until_bind
          (until_lockDeployment _ _ _) fun r hr => ?_) fun r hr => ?_
        · cases r with
          | ok fd => cases hr
          | error e => rfl
        · cases r with
          | ok fd => cases hr
          | error failure => trivial

/-! ### What is promised -/

/-- All calls have returned. -/
def AllReturned (P : DeployPool) : Prop :=
  ∀ t, P.caller t = .idle ∨ ∃ c r, P.caller t = .running c (.ret r)

/-- **Deployments take turns**: no two of them are at work for the same file, work on a unit is done
in a section only, and when all have returned every file holds what the last deployment that
succeeded has put there, in the order of the locks. -/
structure TakesTurns (w₀ : World) (P : DeployPool) : Prop where
  exclusive : ∀ t u uid n, InSection P t uid n → InSection P u uid n → t = u
  underLock : ∀ t tr₁ e tr₂, P.trace t = tr₁ ++ e :: tr₂ → e.op.worksOnUnit = true → LockTaken tr₁
  final : AllReturned P → RestoresSucceed P → ∀ uid n, ¬ Hidden n →
    P.world.look uid n = dueContent w₀ P uid n

/-- **Deployments over one layout take turns**, in every interleaving of their steps. -/
theorem deployments_takeTurns {layout : QuadletInstallLayout}
    (hroot : layout.adminUserRoot = K.adminRoot) (hsync : K.dirFsyncFails = false)
    (hP : Pool.Reachable K.machine DeployCall.body World.exit (fun _ c => c.Allowed layout) w₀ P) :
    TakesTurns w₀ P := by
  refine ⟨fun t u uid n => inSection_unique (sound_of_reachable hroot hP),
    fun t tr₁ e tr₂ htr hworks => ?_, fun hreturned hrestored uid n hn => ?_⟩
  · by_contra hnone
    have hcalls := (hP.keepsUntil until_body).trace t tr₁ e tr₂ htr fun e' he' hlocks =>
      hnone ⟨e', he', locks_iff.1 hlocks⟩
    rw [hworks] at hcalls
    cases hcalls
  · have hundisturbed : Undisturbed P := by
      refine ⟨fun t ht => ?_, hrestored⟩
      rcases hreturned t with hidle | ⟨c, r, hret⟩
      · rw [hidle] at ht
        cases ht
      · rw [hret] at ht
        cases ht
    refine (tracks_of_reachable hroot hn hsync hP hundisturbed).settled ?_
    rintro t ⟨-, c, o, again, next, hrun, -⟩
    rcases hreturned t with hidle | ⟨c', r, hret⟩
    · rw [hidle] at hrun
      cases hrun
    · rw [hret] at hrun
      cases hrun

end

/-- A deployment of a file, and one of other contents for it. -/
def firstDeployment : DeployCall := ⟨{ installer := {} }, webBundle⟩

def secondDeployment : DeployCall :=
  ⟨{ installer := {} }, { webBundle with quadlet := otherQuadlet }⟩

/-- The choices for a deployment that has the lock and succeeds. -/
def fromLock : List Choice :=
  List.replicate 18 .go ++ [.pid 7, .go, .moved webQuadlet.contents.length] ++
    List.replicate 4 .go ++ [.reload (.ok ()), .restart healthyRestart true, .go]

/-- The choices for one that takes the lock and is rolled back, since the manager does not
reload. -/
def untilRolledBack : List Choice :=
  List.replicate 12 .go ++ .moved webQuadlet.contents.length :: List.replicate 9 .go ++
    [.pid 8, .go, .moved otherQuadlet.contents.length] ++ List.replicate 4 .go ++
    .reload (.error (makeError .systemd "no bus")) :: List.replicate 9 .go ++
    [.pid 8, .go, .moved webQuadlet.contents.length] ++ List.replicate 4 .go ++
    [.reload (.ok ()), .go]

/-- Two deployments of one file.  The second one comes as far as the lock while the first one holds
it, and then is rolled back: the contents of the first one are due, and they are there. -/
theorem rolledBack_takesTurns :
    ∃ P : DeployPool, Pool.Reachable syncedKernel.machine DeployCall.body World.exit
        (fun _ c => c.Allowed {}) emptyWorld P ∧ AllReturned P ∧ RestoresSucceed P ∧
      P.world.look 1000 webQuadlet.fileName = some (.regular webQuadlet.contents) ∧
      TakesTurns emptyWorld P := by
  have hrun : (proceed syncedKernel.machine 0 (.passwd (.ok (some ⟨1000, "app"⟩)) ::
      List.replicate 9 .go) emptyWorld (DeployCall.body firstDeployment)).any (fun out =>
        (proceed syncedKernel.machine 1 (.passwd (.ok (some ⟨1000, "app"⟩)) ::
          List.replicate 8 .go) out.1 (DeployCall.body secondDeployment)).any fun out' =>
        (run syncedKernel.machine 0 fromLock out'.1 out.2).any fun first =>
          first.2.2.toBool && (run syncedKernel.machine 1 untilRolledBack first.2.1 out'.2).any
            fun last => decide (last.2.1.look 1000 webQuadlet.fileName =
                some (.regular webQuadlet.contents)) &&
              (errorOf last.2.2).any fun failure =>
                failure.rollback.any fun report => report.restore.toBool) = true := by
    decide +kernel
  obtain ⟨tr₀, w₀, q₀, h₀, hsecond⟩ := exists_begun_of_proceed hrun
  obtain ⟨tr₁, w₁, q₁, h₁, hends⟩ := exists_begun_of_proceed hsecond
  obtain ⟨tr₂, w₂, r₂, h₂, hlast⟩ := exists_exec_of_run hends
  rw [Bool.and_eq_true] at hlast
  obtain ⟨hok, hlast⟩ := hlast
  obtain ⟨tr₃, w₃, r₃, h₃, hend⟩ := exists_exec_of_run hlast
  rw [Bool.and_eq_true, decide_eq_true_eq] at hend
  obtain ⟨hlook, hrestored⟩ := hend
  -- the callers take turns
  have hstart₀ : Pool.Reachable syncedKernel.machine DeployCall.body World.exit
      (fun _ c => c.Allowed {}) emptyWorld
      ((Pool.initial emptyWorld).set 0 emptyWorld (.running firstDeployment _)) :=
    .tail .refl (.start rfl ⟨rfl, rfl⟩)
  obtain ⟨P₀, hP₀, rfl, hrun₀, hothers₀⟩ := hstart₀.begun h₀ rfl Pool.caller_set_self
  have hidle₀ : ∀ s, s ≠ 0 → P₀.caller s = .idle := fun s hs =>
    (hothers₀ s hs).trans (Pool.caller_set_of_ne hs)
  have hstart₁ : Pool.Reachable syncedKernel.machine DeployCall.body World.exit
      (fun _ c => c.Allowed {}) emptyWorld
      (P₀.set 1 P₀.world (.running secondDeployment _)) :=
    hP₀.tail (.start (hidle₀ 1 (by decide)) ⟨rfl, rfl⟩)
  obtain ⟨P₁, hP₁, rfl, hrun₁, hothers₁⟩ := hstart₁.begun h₁ rfl Pool.caller_set_self
  have hwaits : P₁.caller 0 = .running firstDeployment q₀ := by
    rw [hothers₁ 0 (by decide), Pool.caller_set_of_ne (by decide), hrun₀]
  obtain ⟨P₂, hP₂, rfl, hrun₂, hothers₂⟩ := hP₁.begun h₂.begun rfl hwaits
  obtain ⟨P, hP, rfl, hrun₃, hothers₃⟩ :=
    hP₂.begun h₃.begun rfl ((hothers₂ 1 (by decide)).trans hrun₁)
  have hfirst : P.caller 0 = .running firstDeployment (.ret r₂) :=
    (hothers₃ 0 (by decide)).trans hrun₂
  have hidle : ∀ s, s ≠ 0 → s ≠ 1 → P.caller s = .idle := fun s hs hs' => by
    rw [hothers₃ s hs', hothers₂ s hs, hothers₁ s hs', Pool.caller_set_of_ne hs', hidle₀ s hs]
  refine ⟨P, hP, fun t => ?_, fun t c failure report hcaller hreport => ?_, hlook,
    deployments_takeTurns rfl rfl hP⟩
  · by_cases ht : t = 0
    · exact .inr ⟨_, r₂, ht ▸ hfirst⟩
    by_cases ht' : t = 1
    · exact .inr ⟨_, r₃, ht' ▸ hrun₃⟩
    · exact .inl (hidle t ht ht')
  · by_cases ht : t = 0
    · rw [ht, hfirst] at hcaller
      cases hcaller
      cases hok
    by_cases ht' : t = 1
    · rw [ht', hrun₃] at hcaller
      cases hcaller
      replace hrestored : failure.rollback.any (fun report => report.restore.toBool) = true :=
        hrestored
      rw [hreport, Option.any_some] at hrestored
      cases hrestore : report.restore with
      | ok u => rfl
      | error e =>
          rw [hrestore] at hrestored
          cases hrestored
    · rw [hidle t ht ht'] at hcaller
      cases hcaller

end PodInstaller
