/-
**The lock of a deployment.**

The lock of a user's unit is a file in the directory `.locks` of the admin root.  Looking for it
changes no Quadlet file; the file is created if it is not there.  Once `flock` has succeeded, the
caller holds the lock until it closes the descriptor, whatever others do.

Main definitions:

* `PodInstaller.OpenedAs` — a descriptor that refers to a directory;
* `PodInstaller.LockOpen` — the lock file is open.

Main results:

* `PodInstaller.meets_openLock` — opening the lock file;
* `PodInstaller.callMeets_flock` — **taking the lock**;
* `PodInstaller.stable_holdsLock` — a lock that is held.
-/

import PodInstaller.DeploymentSpec

set_option relaxedAutoImplicit false
set_option autoImplicit false

namespace PodInstaller

open Bytes

section

variable {K : Kernel} {t : ℕ} {R : World → World → Prop} {may : May} {w w' : World}
variable {layout : QuadletInstallLayout} {uid : UInt32} {unit : Bytes} {L : World → Prop}
variable {target : OfdTarget} {fd : Fd}

/-! ### Descriptors on the way -/

/-- A descriptor of the caller that refers to a directory. -/
def OpenedAs (t : ℕ) (target : OfdTarget) (fd : Fd) (w : World) : Prop :=
  w.ofd fd = some ⟨target, 0, t⟩

theorem OpenedAs.targetOf (h : OpenedAs t target fd w) : w.targetOf fd = some target := by
  rw [System.targetOf, h]
  rfl

theorem OpenedAs.others (hR : OthersOnly t R) (hRw : R w w') (h : OpenedAs t target fd w) :
    OpenedAs t target fd w' := hR.ofd hRw h

theorem openedAs_openFd (h : w'.toSystem = w.openFd target t) : OpenedAs t target w.nextFd w' := by
  rw [OpenedAs, h]
  simp [System.openFd]

/-- Functions that only look and prepare keep what lasts and a descriptor. -/
theorem meets_keepsOpen {α : Type} {p : SysProg α} (hR : OthersOnly t R) (hL : Stable t R L)
    (hp : p.Calls MinorOnce) (hw : L w) (hfd : OpenedAs t target fd w) :
    Meets K t R mayNothing p (fun _ w => L w ∧ OpenedAs t target fd w) w := by
  refine meets_of_minor hp ?_ ?_ ⟨hw, hfd⟩
  · intro w w' hRw h
    exact ⟨hL.others hRw h.1, h.2.others hR hRw⟩
  · intro w w' hminor h
    exact ⟨hL.minor hminor h.1, hminor.ofd w.wellFormed h.2⟩

theorem validateOwnerIfRequired_minor (fd : Fd) (layout : QuadletInstallLayout)
    (description : Bytes) :
    (validateOwnerIfRequired fd layout description).run.Calls MinorOnce := by
  refine calls_exceptT_bind (calls_attempt (calls_sys (minorOnce rfl))) fun st => ?_
  exact calls_exceptT_bind trivial fun _ => trivial

theorem makeLocks_minor (rootFd : Fd) : (makeLocks rootFd).run.Calls MinorOnce := by
  refine calls_exceptT_bind (calls_call (minorOnce rfl)) fun made => ?_
  cases made with
  | ok u => trivial
  | error e => exact trivial

/-- How opening a directory ends, when `L` lasts. -/
def OpenedDirectory (t : ℕ) (target : OfdTarget) (L : World → Prop) :
    Except Errno Fd → World → Prop
  | .ok fd => fun w => L w ∧ OpenedAs t target fd w
  | .error _ => L

/-- Opening the admin root. -/
theorem callMeets_openRoot (hL : Stable t R L) (hroot : layout.adminUserRoot = K.adminRoot)
    {flags : OpenFlags} (hw : L w) :
    CallMeets K t R mayNothing (.openPath (cStr layout.adminUserRoot) flags)
      (OpenedDirectory t .root L) w := by
  intro w₁ c r w₂ hR₁ hstep
  have hw₁ := hL.others hR₁ hw
  rw [hroot, cStr_eq_self K.noNul] at hstep
  rcases System.step_openPath hstep with ⟨e, rfl, hw₂⟩ | ⟨target, hopen, rfl, hw₂⟩
  · obtain rfl := World.eq_of_toSystem hw₂
    exact ⟨.refl _ _ _, hw₁⟩
  · obtain rfl := System.openAt_root hopen
    have hguar : FileGuarantee t nothing w₁.toSystem w₂.toSystem := by
      rw [hw₂]
      exact fileGuarantee_openFd w₁.wellFormed
    exact ⟨hguar, hL.quiet hguar.toGuarantee hw₁, openedAs_openFd hw₂⟩

theorem locksName_isEntryName : PosixPath.IsEntryName (cStr locksName) := by decide

/-- Opening the directory of the locks. -/
theorem callMeets_openLocks (hR : OthersOnly t R) (hL : Stable t R L) {rootFd : Fd}
    {flags : OpenFlags} (hcreat : flags.creat = false) (hw : L w)
    (hfd : OpenedAs t .root rootFd w) :
    CallMeets K t R mayNothing (.openat rootFd (cStr locksName) flags)
      (OpenedDirectory t (.sub (cStr locksName)) L) w := by
  intro w₁ c r w₂ hR₁ hstep
  have hw₁ := hL.others hR₁ hw
  have hfd₁ := hfd.others hR hR₁
  rcases System.step_openat_root hfd₁.targetOf locksName_isEntryName hcreat hstep with
    ⟨e, rfl, hw₂⟩ | ⟨rfl, hw₂⟩
  · obtain rfl := World.eq_of_toSystem hw₂
    exact ⟨.refl _ _ _, hw₁⟩
  · have hguar : FileGuarantee t nothing w₁.toSystem w₂.toSystem := by
      rw [hw₂]
      exact fileGuarantee_openFd w₁.wellFormed
    exact ⟨hguar, hL.quiet hguar.toGuarantee hw₁, openedAs_openFd hw₂⟩

/-! ### The lock file -/

/-- The lock file is open. -/
def LockOpen (t : ℕ) (uid : UInt32) (unit : Bytes) (fd : Fd) (w : World) : Prop :=
  ∃ i, w.entry (cStr locksName) (cStr (lockName uid unit)) = some i ∧
    w.ofd fd = some ⟨.ino i, 0, t⟩

theorem locksName_ne (uid : UInt32) : cStr locksName ≠ uidString uid := by
  rw [show cStr locksName = ofString ".locks" by decide]
  exact (uidString_ne_locks uid).symm

theorem LockOpen.others (hR : OthersOnly t R) (hRw : R w w') (h : LockOpen t uid unit fd w) :
    LockOpen t uid unit fd w' := by
  refine hR.lasts (P := LockOpen t uid unit fd) ?_ hRw h
  rintro u w w' hne hframed ⟨i, hi, hfd⟩
  exact ⟨i, hframed.other hi fun uid => locksName_ne uid, hframed.own_ofd hne hfd⟩

/-- How opening the lock file ends. -/
def OpenedLock (t : ℕ) (uid : UInt32) (unit : Bytes) (L : World → Prop) :
    Except Errno Fd → World → Prop
  | .ok fd => fun w => L w ∧ LockOpen t uid unit fd w
  | .error _ => L

theorem callMeets_openLockFile (hR : OthersOnly t R) (hL : Stable t R L) {dirFd : Fd}
    {flags : OpenFlags} (hcreat : flags.creat = true) (hw : L w)
    (hfd : OpenedAs t (.sub (cStr locksName)) dirFd w) :
    CallMeets K t R mayNothing (.openat dirFd (cStr (lockName uid unit)) flags)
      (OpenedLock t uid unit L) w := by
  intro w₁ c r w₂ hR₁ hstep
  have hw₁ := hL.others hR₁ hw
  have hfd₁ := hfd.others hR hR₁
  rcases System.step_openat_creat w₁.wellFormed hcreat hstep with
    ⟨e, rfl, hw₂⟩ | ⟨sub, hsub, rfl, ⟨hnone, hdir, hw₂⟩ | ⟨i, hi, -, hw₂⟩⟩
  · obtain rfl := World.eq_of_toSystem hw₂
    exact ⟨.refl _ _ _, hw₁⟩
  · -- the lock file is made
    rw [hfd₁.targetOf] at hsub
    obtain rfl : cStr locksName = sub := by simpa using hsub
    generalize hnode : K.newFile t (w₁.sub (cStr locksName)) flags.mode = node at hw₂
    have hcreate : FileGuarantee t nothing w₁.toSystem
        (w₁.create (cStr locksName) (cStr (lockName uid unit)) node) :=
      fileGuarantee_create w₁.wellFormed hnone (.inr locksName_ne) (by rw [← hnode]; rfl)
    have hopened : FileGuarantee t nothing
        (w₁.create (cStr locksName) (cStr (lockName uid unit)) node) w₂.toSystem := by
      rw [hw₂]
      exact fileGuarantee_openFd (System.wellFormed_create w₁.wellFormed hnone hdir)
    have hguar := hcreate.trans w₁.wellFormed hopened
    refine ⟨hguar, hL.quiet hguar.toGuarantee hw₁, w₁.nextIno, ?_, ?_⟩
    · rw [hw₂]
      simp [System.openFd, System.create]
    · rw [hw₂]
      simp [System.openFd, System.create]
  · rw [hfd₁.targetOf] at hsub
    obtain rfl : cStr locksName = sub := by simpa using hsub
    have hguar : FileGuarantee t nothing w₁.toSystem w₂.toSystem := by
      rw [hw₂]
      exact fileGuarantee_openFd w₁.wellFormed
    refine ⟨hguar, hL.quiet hguar.toGuarantee hw₁, i, ?_, ?_⟩
    · rw [hw₂]
      exact hi
    · rw [hw₂]
      simp [System.openFd]

/-- **Opening the lock file** changes nothing else. -/
theorem meets_openLock (hR : OthersOnly t R) (hL : Stable t R L)
    (hroot : layout.adminUserRoot = K.adminRoot) (hw : L w) :
    Meets K t R mayNothing (openLock layout uid unit).run
      (fun r w => L w ∧ ∀ fd, r = .ok fd → LockOpen t uid unit fd w) w := by
  have herror : ∀ {e : Error} {w : World}, L w →
      L w ∧ ∀ fd, (.error e : Result Fd) = .ok fd → LockOpen t uid unit fd w :=
    fun hw => ⟨hw, fun fd hfd => by cases hfd⟩
  unfold openLock
  have hmake : Meets K t R mayNothing
      (sys (.createDirectories (cStr layout.adminUserRoot))) (fun _ w => L w) w :=
    meets_of_minor (calls_sys (minorOnce rfl)) (fun _ _ => hL.others) (fun _ _ => hL.minor) hw
  -- first the root of the installer, then the directory of the locks, then the lock itself
  refine hmake.attemptBind (fun _ w hw => ?_) fun e w hw => herror hw
  refine (meets_sys (callMeets_openRoot hL hroot hw)).attemptBind (fun rootFd w h => ?_)
    fun e w hw => herror hw
  refine (meets_keepsOpen hR hL (validateOwnerIfRequired_minor _ _ _) h.1 h.2).bind
    (fun _ w h => ?_) fun e w h => herror h.1
  refine (meets_keepsOpen hR hL (makeLocks_minor rootFd) h.1 h.2).bind (fun _ w h => ?_)
    fun e w h => herror h.1
  refine (meets_sys (callMeets_openLocks hR hL rfl h.1 h.2)).attemptBind (fun dirFd w h => ?_)
    fun e w hw => herror hw
  refine (meets_keepsOpen hR hL (validateOwnerIfRequired_minor _ _ _) h.1 h.2).bind
    (fun _ w h => ?_) fun e w h => herror h.1
  have hmode : Meets K t R mayNothing (sys (.fchmod dirFd 0o755))
      (fun _ w => L w ∧ OpenedAs t (.sub (cStr locksName)) dirFd w) w :=
    meets_keepsOpen hR hL (calls_sys (minorOnce rfl)) h.1 h.2
  refine hmode.attemptBind (fun _ w h => ?_) fun e w h => herror h.1
  refine meets_attempt ((meets_sys (callMeets_openLockFile hR hL rfl h.1 h.2)).weaken
    fun r w h => ?_)
  cases r with
  | ok fd =>
      refine ⟨h.1, fun fd' hfd' => ?_⟩
      obtain rfl : fd = fd' := by simpa [Except.mapError] using hfd'
      exact h.2
  | error e => exact herror h

/-! ### Taking the lock -/

/-- The caller holds the lock of a user's unit. -/
def HoldsLock (t : ℕ) (uid : UInt32) (unit : Bytes) (fd : Fd) (w : World) : Prop :=
  w.Holds t (cStr locksName) (cStr (lockName uid unit)) fd

/-- **A lock that is held** stays where it is. -/
theorem stable_holdsLock (hR : OthersOnly t R) (fd : Fd) :
    Stable t R (HoldsLock t uid unit fd) where
  others hRw h := hR.lasts (P := HoldsLock t uid unit fd)
    (fun hne hframed h => hframed.holds hne locksName_ne h) hRw h
  quiet hguar h := hguar.holds locksName_ne h

/-- How waiting for the lock ends. -/
def Locked (t : ℕ) (uid : UInt32) (unit : Bytes) (fd : Fd) (L : World → Prop) :
    Except Errno Unit → World → Prop
  | .ok _ => fun w => L w ∧ HoldsLock t uid unit fd w
  | .error _ => L

/-- **Taking the lock**: nobody else has it. -/
theorem callMeets_flock (hR : OthersOnly t R) (hL : Stable t R L) (hw : L w)
    (hopen : LockOpen t uid unit fd w) :
    CallMeets K t R mayNothing (.flock fd) (Locked t uid unit fd L) w := by
  intro w₁ c r w₂ hR₁ hstep
  have hw₁ := hL.others hR₁ hw
  obtain ⟨i, hi, hfd⟩ := hopen.others hR hR₁
  rcases System.step_flock hstep with ⟨e, rfl, hw₂⟩ | ⟨j, hj, rfl, ⟨hlock, hw₂⟩ | ⟨hlock, hw₂⟩⟩
  · obtain rfl := World.eq_of_toSystem hw₂
    exact ⟨.refl _ _ _, hw₁⟩
  · obtain rfl : i = j := by simpa [System.targetOf, hfd] using hj
    have hguar : FileGuarantee t nothing w₁.toSystem w₂.toSystem := by
      rw [hw₂]
      exact fileGuarantee_setLock hlock
    refine ⟨hguar, hL.quiet hguar.toGuarantee hw₁, i, ⟨.ino i, 0, t⟩, ?_, ?_, ?_, rfl⟩
    · rw [hw₂]
      exact hi
    · rw [hw₂]
      simp [System.setLock]
    · rw [hw₂]
      exact hfd
  · obtain rfl : i = j := by simpa [System.targetOf, hfd] using hj
    obtain rfl := World.eq_of_toSystem hw₂
    exact ⟨.refl _ _ _, hw₁, i, ⟨.ino i, 0, t⟩, hi, hlock, hfd, rfl⟩

/-- A `flock` that is made again was interrupted, and changed nothing. -/
theorem flock_again {c : Choice} {r : Except Errno Unit}
    (hstep : w.toSystem.step K t (.flock fd) c = some (r, w'.toSystem))
    (hagain : interrupted r = true) : w' = w := by
  rcases System.step_flock hstep with ⟨e, -, hw⟩ | ⟨_, -, rfl, -⟩
  · exact World.eq_of_toSystem hw
  · cases hagain

end

end PodInstaller
