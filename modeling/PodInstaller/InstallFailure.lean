/-
**What a failed installation leaves behind.**

`install_for_user` writes a temporary file and renames it to the Quadlet file.  Whatever fails
before the rename leaves the Quadlet file alone, and the temporary file is removed.  After the
rename one call is left, `fsync` of the directory.  If that fails, the function returns an error
although the new contents are in place, and `deploy` passes the error on without a rollback.

What can fail is a constant of the kernel.  A run in which certain calls have not failed is
therefore also a run of the kernel in which they cannot fail, and what is known of all runs of that
kernel holds of it.

Main definitions:

* `PodInstaller.DirectorySyncFailed`, `PodInstaller.UnlinkFailed` — calls that have failed;
* `PodInstaller.Kernel.withFaults` — the same system with other constants;
* `PodInstaller.PutsInPlace`, `PodInstaller.Replaces` — the rename, and what comes before it;
* `PodInstaller.LeavesOld` — nothing is left behind.

Main results:

* `PodInstaller.exec_withFaults` — a run without certain failures;
* `PodInstaller.replaces_installForUser` — an installation fails before the rename, or renames;
* `PodInstaller.leavesOld_iff` — **when a failed installation leaves the old Quadlet in place**.
-/

import PodInstaller.InstallerSpec

set_option relaxedAutoImplicit false
set_option autoImplicit false

namespace PodInstaller

open Bytes

/-! ### Calls that fail -/

/-- A call of `fsync` for a directory that has failed. -/
def DirectorySyncFailed (e : Event Sys.Resp World Choice) : Prop :=
  ∃ w fd c n w', e = ⟨w, .fsync fd, c, .error n, w'⟩ ∧ w.isDirectoryFd fd = true

/-- A call of `unlinkat` that has failed. -/
def UnlinkFailed (e : Event Sys.Resp World Choice) : Prop :=
  ∃ w dir name c n w', e = ⟨w, .unlinkat dir name, c, .error n, w'⟩

/-- The same system with other constants for what can fail. -/
def Kernel.withFaults (K : Kernel) (sync unlink : Bool) : Kernel :=
  { K with dirFsyncFails := sync, unlinkFails := unlink }

/-- The calls of `fsync`. -/
def Sys.isSync : Sys → Bool
  | .fsync _ => true
  | _ => false

/-- The calls that a constant of the kernel is about. -/
def Sys.hasConstant : Sys → Bool
  | .fsync _ => true
  | .unlinkat _ _ => true
  | _ => false

/-- A call that no constant is about, or that is made once. -/
def FaultOnce (o : Sys) (again : o.Resp → Bool) : Prop :=
  o.hasConstant = false ∨ ∀ r, again r = false

section

variable {K : Kernel} {t : ℕ} {sync unlink : Bool}

/-- The constants are about two calls only. -/
theorem System.step_withFaults {s : System} {o : Sys} {c : Choice} (ho : o.hasConstant = false) :
    s.step (K.withFaults sync unlink) t o c = s.step K t o c := by
  cases o with
  | fsync fd => cases ho
  | unlinkat dir name => cases ho
  | _ => rfl

/-- A call that has not failed where it cannot. -/
theorem step_withFaults {e : Event Sys.Resp World Choice}
    (hstep : K.machine.step t e.before e.op e.choice = some (e.resp, e.after))
    (hsync : sync = false → ¬ DirectorySyncFailed e) (hunlink : unlink = false → ¬ UnlinkFailed e) :
    (K.withFaults sync unlink).machine.step t e.before e.op e.choice = some (e.resp, e.after) := by
  obtain ⟨w, o, c, r, w'⟩ := e
  rw [Kernel.machine_step] at hstep ⊢
  cases o with
  | fsync fd =>
      refine System.failOr_eq_some.2 ((System.failOr_eq_some.1 hstep).imp_left ?_)
      rintro ⟨e, hc, he, rfl, hw⟩
      refine ⟨e, hc, ?_, rfl, hw⟩
      rw [Bool.and_eq_true] at he ⊢
      refine ⟨he.1, ?_⟩
      cases hs : sync with
      | true => rfl
      | false =>
          have hdir : w.isDirectoryFd fd ≠ true := fun hdir =>
            hsync hs ⟨w, fd, c, e, w', rfl, hdir⟩
          simpa [Kernel.withFaults] using hdir
  | unlinkat dir name =>
      refine System.failOr_eq_some.2 ((System.failOr_eq_some.1 hstep).imp_left ?_)
      rintro ⟨e, hc, he, rfl, hw⟩
      refine ⟨e, hc, ?_, rfl, hw⟩
      rw [Bool.and_eq_true] at he ⊢
      refine ⟨he.1, ?_⟩
      cases hu : unlink with
      | true => rfl
      | false => exact absurd ⟨w, dir, name, c, e, w', rfl⟩ (hunlink hu)
  | _ => exact hstep

/-- **A run without certain failures** is a run of the kernel in which they are ruled out. -/
theorem exec_withFaults {α : Type} {p : SysProg α} {w w' : World} {a : α}
    {tr : List (Event Sys.Resp World Choice)} (hp : p.Calls FaultOnce)
    (h : Exec K.machine t w p tr w' a)
    (htr : ∀ e ∈ tr, (sync = false → ¬ DirectorySyncFailed e) ∧
      (unlink = false → ¬ UnlinkFailed e)) :
    Exec (K.withFaults sync unlink).machine t w p tr w' a := by
  induction h with
  | ret w a => exact .ret _ _
  | again hstep hagain _ ih =>
      rcases hp.1 with hconstant | honce
      · rw [Kernel.machine_step, ← System.step_withFaults hconstant, ← Kernel.machine_step] at hstep
        exact .again hstep hagain (ih hp htr)
      · rw [honce] at hagain
        cases hagain
  | step hstep hagain _ ih =>
      rw [List.forall_mem_cons] at htr
      exact .step (step_withFaults hstep htr.1.1 htr.1.2) hagain (ih (hp.2 _) htr.2)

end

/-! ### The calls of an installation -/

section

theorem faultOnce {o : Sys} : FaultOnce o fun _ => false := .inr fun _ => rfl

/-- An installation makes every call once, except for `write`. -/
theorem faultOnce_installForUser (installer : QuadletInstaller) (uid : UInt32)
    (quadlet : QuadletFile) : (installer.installForUser uid quadlet).run.Calls FaultOnce := by
  refine calls_exceptT_bind trivial fun expected => ?_
  refine calls_exceptT_bind ((ensureAdminTree_minor _ _).mono fun o again h => .inr h.2) fun _ => ?_
  refine calls_exceptT_bind ?_ fun _ => trivial
  refine calls_exceptT_bind (calls_attempt (calls_sys faultOnce)) fun dirFd => ?_
  refine calls_exceptT_bind (calls_openTemporary faultOnce (fun _ _ => faultOnce) _ _ _ _)
    fun tmp => ?_
  exact calls_replaceFile (fun _ => .inl rfl) (fun _ => faultOnce) faultOnce
    (fun _ _ _ _ => faultOnce) (fun _ _ => faultOnce) _ _ _ _

/-- A program that makes no call of `fsync`. -/
abbrev NoSync {α : Type} (p : SysProg α) : Prop := p.Calls fun o _ => o.isSync = false

theorem not_directorySyncFailed {e : Event Sys.Resp World Choice} (h : e.op.isSync = false) :
    ¬ DirectorySyncFailed e := by
  rintro ⟨w, fd, c, n, w', rfl, -⟩
  cases h

theorem noSync_exec {K : Kernel} {t : ℕ} {α : Type} {p : SysProg α} {w w' : World} {a : α}
    {tr : List (Event Sys.Resp World Choice)} (hp : NoSync p)
    (h : Exec K.machine t w p tr w' a) : ∀ e ∈ tr, ¬ DirectorySyncFailed e :=
  fun e he => not_directorySyncFailed (exec_calls h hp e he)

theorem noSync_ensureAdminTree (uid : UInt32) (layout : QuadletInstallLayout) :
    NoSync (ensureAdminTree uid layout).run :=
  calls_ensureAdminTree (fun _ => rfl) (fun _ => rfl) (fun _ _ => rfl) uid layout

theorem noSync_writeAll (fd : Fd) (contents : Bytes) (skip : ℕ) :
    NoSync (writeAll fd contents skip).run := calls_writeAll (fun _ => rfl) contents skip

theorem noSync_openTemporary (dir : PosixPath) (dirFd : Fd) (finalName : Bytes) (mode : ℕ)
    (attempts : List ℕ) : NoSync (openTemporary dir dirFd finalName mode attempts).run :=
  calls_openTemporary rfl (fun _ _ => rfl) dir finalName mode attempts

end

/-! ### The rename -/

/-- A rename that puts contents in place. -/
def PutsInPlace (uid : UInt32) (n contents : Bytes) (e : Event Sys.Resp World Choice) : Prop :=
  ∃ w dirFd name c w', e = ⟨w, .renameat dirFd name dirFd n, c, .ok (), w'⟩ ∧
    w'.look uid n = some (.regular contents)

section

variable {K : Kernel} {t N : ℕ} {w w' : World} {tr : List (Event Sys.Resp World Choice)}
variable {layout : QuadletInstallLayout} {installer : QuadletInstaller} {uid : UInt32}
variable {n contents : Bytes} {α : Type} {r : Result α}

/-- What a Quadlet file holds lasts, when the caller is alone and changes no Quadlet file. -/
theorem stable_look (hn : ¬ Hidden n) (v : Option Content) :
    Stable t Eq fun w => w.look uid n = v where
  others := by
    rintro w _ rfl hw
    exact hw
  quiet hguar hw := (hguar.look_eq hn).trans hw

/-- The change of a single file. -/
theorem transition_look (hn : ¬ Hidden n) (v c : Option Content) :
    Transition t Eq (fun _ _ _ _ => True) uid n (fun w => w.look uid n = v)
      (fun w => w.look uid n = c) c where
  before := stable_look hn v
  after := stable_look hn c
  allowed _ _ := trivial
  change _ _ _ _ h := h

/-- How a run goes that is to replace a file: it fails before the rename, or it renames and ends
with `fsync` of the directory. -/
inductive Replaces (K : Kernel) (t : ℕ) (uid : UInt32) (n contents : Bytes)
    (tr : List (Event Sys.Resp World Choice)) (w' : World) : Result α → Prop
  | failed {e : Error} (before : ∀ e ∈ tr, ¬ DirectorySyncFailed e) :
      Replaces K t uid n contents tr w' (.error e)
  | renamed {tr₁ tr₂ : List (Event Sys.Resp World Choice)} {put : Event Sys.Resp World Choice}
      {dirFd : Fd} {r : Result α} {r' : Result Unit} (visible : ¬ Hidden n)
      (trace : tr = tr₁ ++ put :: tr₂)
      (before : ∀ e ∈ tr₁, ¬ DirectorySyncFailed e) (puts : PutsInPlace uid n contents put)
      (dirOpen : UserDirOpen t uid dirFd put.after)
      (sync : Exec K.machine t put.after (fsyncDirectory dirFd).run tr₂ w' r') :
      Replaces K t uid n contents tr w' r

/-- What comes before without failing does not matter. -/
theorem Replaces.after {β : Type} {r' : Result β} {tr₁ : List (Event Sys.Resp World Choice)}
    (h : Replaces K t uid n contents tr w' r) (hbefore : ∀ e ∈ tr₁, ¬ DirectorySyncFailed e)
    (hr : r'.toBool = true → r.toBool = true) :
    Replaces K t uid n contents (tr₁ ++ tr) w' r' := by
  cases h with
  | failed hno =>
      cases r' with
      | ok a => cases hr rfl
      | error e => exact .failed (List.forall_mem_append.2 ⟨hbefore, hno⟩)
  | renamed hn htrace hno hputs hopen hsync =>
      subst htrace
      exact .renamed hn (List.append_assoc _ _ _).symm (List.forall_mem_append.2 ⟨hbefore, hno⟩)
        hputs
        hopen hsync

/-- A failure of `fsync` for the directory comes after the rename. -/
theorem Replaces.look_of_syncFailed (h : Replaces K t uid n contents tr w' r)
    (hfailed : ∃ e ∈ tr, DirectorySyncFailed e) : w'.look uid n = some (.regular contents) := by
  cases h with
  | failed hno =>
      obtain ⟨e, he, hfailed⟩ := hfailed
      exact absurd hfailed (hno e he)
  | renamed hn _ _ hputs hopen hsync =>
      obtain ⟨_, _, _, _, w₁, rfl, hlook⟩ := hputs
      have hlasts := meets_fsyncDirectory (K := K) othersOnly_eq
        (fun _ _ => (stable_look (t := t) hn _).others) hopen hlook
      exact (hlasts.exec (fun _ => rfl) hsync).1

/-- **Once the temporary file is open.** -/
theorem replaces_replaceFile (hn : QuadletName n) {dirFd fd : Fd} {tmpName : Bytes} {i : ℕ}
    (h : Pending t N uid dirFd (cStr tmpName) i [] w) (hfd : w.ofd fd = some ⟨.ino i, 0, t⟩)
    {r : Result Unit} (hexec : Exec K.machine t w
      (replaceFile (layout.quadletPath uid n) dirFd tmpName fd contents).run tr w' r) :
    Replaces K t uid n contents tr w' r := by
  rw [replaceFile, filename_quadletPath hn, cStr_eq_self hn.noNul] at hexec
  -- a step that fails is followed by the removal of the temporary file
  have hdiscard : ∀ {e : Except Errno Unit → Error} {w : World} {tr r},
      Exec K.machine t w (call (.unlinkat dirFd (cStr tmpName)) >>= fun a =>
        (throw (e a) : Action Unit)).run tr w' r → Replaces K t uid n contents tr w' r := by
    intro e w tr r hexec
    have hcalls : NoSync (call (.unlinkat dirFd (cStr tmpName)) >>= fun a =>
        (throw (e a) : Action Unit)).run :=
      calls_exceptT_bind (calls_call rfl) fun _ => trivial
    obtain ⟨_, _, _, _, -, hthrow, -⟩ := exec_call_bind.1 hexec
    obtain ⟨-, -, rfl⟩ := exec_throw.1 hthrow
    exact .failed (noSync_exec hcalls hexec)
  obtain ⟨tr₁, w₁, written, tr₂, hwrite, hrest₁, rfl⟩ := exec_outcome_bind.1 hexec
  have hwritten := (meets_writeAll (K := K) othersOnly_eq h hfd).exec (fun _ => rfl) hwrite
  refine Replaces.after (r := r) ?_ (noSync_exec (noSync_writeAll _ _ _) hwrite) id
  cases written with
  | error _ => exact hdiscard hrest₁
  | ok u =>
      obtain ⟨hpending, offset, hfd⟩ := hwritten
      obtain ⟨c, synced, w₂, tr₃, hstep, hrest₂, rfl⟩ := exec_call_bind.1 hrest₁
      obtain ⟨-, hpending, hfd₂, -⟩ := callMeets_fsyncFile othersOnly_eq stable_any hpending hfd
        trivial w₁ c synced w₂ rfl (Kernel.machine_step.1 hstep)
      -- the temporary file is no directory
      have hfile : ∀ e ∈ [(⟨w₁, .fsync fd, c, synced, w₂⟩ : Event Sys.Resp World Choice)],
          ¬ DirectorySyncFailed e := by
        rw [List.forall_mem_singleton]
        rintro ⟨_, _, _, _, _, heq, hdir⟩
        cases heq
        simp [System.isDirectoryFd, System.targetOf, hfd] at hdir
      refine Replaces.after (r := r) ?_ hfile id
      cases synced with
      | error _ => exact hdiscard hrest₂
      | ok u =>
          obtain ⟨c, _, w₃, tr₄, hstep, hrest₃, rfl⟩ := exec_call_bind.1 hrest₂
          obtain ⟨-, hpending, -⟩ := callMeets_close othersOnly_eq stable_any hpending hfd₂ trivial
            w₂ c _ w₃ rfl (Kernel.machine_step.1 hstep)
          have hclose : ∀ e ∈ [(⟨w₂, .close fd, c, (), w₃⟩ : Event Sys.Resp World Choice)],
              ¬ DirectorySyncFailed e := by
            rw [List.forall_mem_singleton]
            exact not_directorySyncFailed rfl
          refine Replaces.after (r := r) ?_ hclose id
          obtain ⟨c, renamed, w₄, tr₅, hstep, hrest₄, rfl⟩ := exec_call_bind.1 hrest₃
          have hrenamed := callMeets_rename othersOnly_eq (transition_look hn.visible
            (w₃.look uid n) (some (.regular contents))) hn hpending rfl w₃ c renamed w₄ rfl
            (Kernel.machine_step.1 hstep)
          cases renamed with
          | error e =>
              have hrename : ∀ e' ∈ [(⟨w₃, .renameat dirFd (cStr tmpName) dirFd n, c, .error e,
                  w₄⟩ : Event Sys.Resp World Choice)], ¬ DirectorySyncFailed e' := by
                rw [List.forall_mem_singleton]
                exact not_directorySyncFailed rfl
              exact (hdiscard hrest₄).after hrename id
          | ok u =>
              obtain ⟨⟨hlook, -⟩, hopen⟩ := hrenamed.2
              exact .renamed hn.visible (List.nil_append _).symm (by simp)
                ⟨_, _, _, _, _, rfl, hlook⟩ hopen hrest₄

/-- **An installation** fails before the rename, or renames. -/
theorem replaces_installForUser (hroot : installer.layout.adminUserRoot = K.adminRoot)
    {quadlet : QuadletFile} {r : Result InstalledQuadlet}
    (hexec : Exec K.machine t w (installer.installForUser uid quadlet).run tr w' r) :
    Replaces K t uid quadlet.fileName quadlet.contents tr w' r := by
  rw [QuadletInstaller.installForUser] at hexec
  rcases exec_exceptT_bind.1 hexec with ⟨e, rfl, hdone⟩ | ⟨_, _, expected, tr₁, hdone, hrest₁, rfl⟩
  · obtain ⟨rfl, -⟩ := exec_done.1 hdone
    exact .failed (by simp)
  obtain ⟨rfl, rfl, hexpected⟩ := exec_done.1 hdone
  obtain ⟨-, -, -, hpath⟩ := QuadletInstaller.expectedInstall_eq_ok.1 hexpected.symm
  have hn : QuadletName quadlet.fileName := quadletName_of_expectedInstall hexpected.symm
  rw [List.nil_append]
  -- the directories
  rcases exec_exceptT_bind.1 hrest₁ with ⟨e, rfl, htree⟩ | ⟨tr₂, w₂, _, tr₃, htree, hrest₂, rfl⟩
  · exact .failed (noSync_exec (noSync_ensureAdminTree _ _) htree)
  obtain ⟨r', hwrite, hr⟩ : ∃ r', Exec K.machine t w₂ (atomicWriteFile expected.path
      quadlet.contents 0o644).run tr₃ w' r' ∧ (r.toBool = true → r'.toBool = true) := by
    rcases exec_exceptT_bind.1 hrest₂ with ⟨e, rfl, h⟩ | ⟨tr₄, w₄, u, tr₅, h, hret, rfl⟩
    · exact ⟨_, h, id⟩
    · obtain ⟨rfl, rfl, -⟩ := exec_pure.1 hret
      exact ⟨_, by rwa [List.append_nil], fun _ => rfl⟩
  refine Replaces.after (r := r') ?_ (noSync_exec (noSync_ensureAdminTree _ _) htree) hr
  -- the temporary file
  rw [atomicWriteFile, hpath, parentPath_quadletPath hn, filename_quadletPath hn] at hwrite
  rcases exec_exceptT_bind.1 hwrite with ⟨e, rfl, hopen⟩ | ⟨tr₄, w₄, dirFd, tr₅, hopen, hrest₃, rfl⟩
  · exact .failed (noSync_exec (calls_attempt (calls_sys rfl)) hopen)
  refine Replaces.after (r := r') ?_ (noSync_exec (calls_attempt (calls_sys rfl)) hopen) id
  have hready := (meets_openUserDirectory othersOnly_eq hroot (clean_nextIno w₂.wellFormed)).exec
    (fun _ => rfl) (exec_attempt_ok.1 hopen)
  rcases exec_exceptT_bind.1 hrest₃ with ⟨e, rfl, htmp⟩ | ⟨tr₆, w₆, tmp, tr₇, htmp, hreplace, rfl⟩
  · exact .failed (noSync_exec (noSync_openTemporary _ _ _ _ _) htmp)
  refine Replaces.after (r := r') ?_ (noSync_exec (noSync_openTemporary _ _ _ _ _) htmp) id
  obtain ⟨i, hpending, hfd⟩ :=
    (meets_openTemporary (K := K) othersOnly_eq hready).exec (fun _ => rfl) htmp
  exact replaces_replaceFile hn hpending hfd hreplace

end

/-! ### What is left behind -/

section

variable {K : Kernel} {t : ℕ} {w w' : World} {tr : List (Event Sys.Resp World Choice)}
variable {installer : QuadletInstaller} {uid : UInt32}

/-- Nothing is left behind: the Quadlet file holds what it held before, and unless `unlinkat` has
failed no temporary file is there that was created on the way. -/
structure LeavesOld (t : ℕ) (uid : UInt32) (n : Bytes) (w : World)
    (tr : List (Event Sys.Resp World Choice)) (w' : World) : Prop where
  file : w'.look uid n = w.look uid n
  clean : (∀ e ∈ tr, ¬ UnlinkFailed e) → w'.Clean t w.nextIno

/-- An installation that fails, as far as certain failures are ruled out. -/
theorem installForUser_error (hroot : installer.layout.adminUserRoot = K.adminRoot)
    {quadlet : QuadletFile} {e : Error}
    (hexec : Exec K.machine t w (installer.installForUser uid quadlet).run tr w' (.error e))
    (sync unlink : Bool) (hsync : sync = false → ∀ e ∈ tr, ¬ DirectorySyncFailed e)
    (hunlink : unlink = false → ∀ e ∈ tr, ¬ UnlinkFailed e) :
    (w'.look uid quadlet.fileName = w.look uid quadlet.fileName ∨
      sync = true ∧ w'.look uid quadlet.fileName = some (.regular quadlet.contents)) ∧
    (unlink = false → w'.Clean t w.nextIno) := by
  have hrun : Exec (K.withFaults sync unlink).machine t w
      (installer.installForUser uid quadlet).run tr w' (.error e) :=
    exec_withFaults (faultOnce_installForUser _ _ _) hexec
      fun e he => ⟨fun h => hsync h e he, fun h => hunlink h e he⟩
  cases hexpected : installer.expectedInstall uid quadlet with
  | error e' =>
      rw [QuadletInstaller.installForUser, hexpected] at hrun
      rcases exec_exceptT_bind.1 hrun with ⟨_, -, hdone⟩ | ⟨_, _, _, _, hdone, -⟩
      · obtain ⟨-, rfl, -⟩ := exec_done.1 hdone
        exact ⟨.inl rfl, fun _ => clean_nextIno w'.wellFormed⟩
      · obtain ⟨-, -, h⟩ := exec_done.1 hdone
        cases h
  | ok expected =>
      have hn : ¬ Hidden quadlet.fileName := (quadletName_of_expectedInstall hexpected).visible
      have hmeets := meets_installForUser (K := K.withFaults sync unlink) (t := t) othersOnly_eq
        hroot (stable_look hn (w.look uid quadlet.fileName))
        (fun _ _ => transition_look hn _ (some (.regular quadlet.contents))) rfl
        (clean_nextIno w.wellFormed)
      obtain ⟨hlook, hclean⟩ := hmeets.exec (fun _ => rfl) hrun
      exact ⟨hlook, hclean⟩

/-- **When a failed installation leaves the old Quadlet in place**: unless `fsync` fails for the
directory, which comes after the rename, or if the file had the new contents before. -/
theorem leavesOld_iff (hroot : installer.layout.adminUserRoot = K.adminRoot) {quadlet : QuadletFile}
    {e : Error}
    (hexec : Exec K.machine t w (installer.installForUser uid quadlet).run tr w' (.error e)) :
    LeavesOld t uid quadlet.fileName w tr w' ↔
      (∀ e ∈ tr, ¬ DirectorySyncFailed e) ∨
        w.look uid quadlet.fileName = some (.regular quadlet.contents) := by
  have hclean : (∀ e ∈ tr, ¬ UnlinkFailed e) → w'.Clean t w.nextIno := fun hunlink =>
    (installForUser_error hroot hexec true false (by simp) fun _ => hunlink).2 rfl
  constructor
  · intro h
    by_cases hfailed : ∃ e ∈ tr, DirectorySyncFailed e
    · right
      rw [← h.file]
      exact (replaces_installForUser hroot hexec).look_of_syncFailed hfailed
    · left
      intro e he hsync
      exact hfailed ⟨e, he, hsync⟩
  · rintro (hsync | hheld)
    · have hlook := (installForUser_error hroot hexec false true (fun _ => hsync) (by simp)).1
      exact ⟨hlook.resolve_right (fun h => by cases h.1), hclean⟩
    · have hlook := (installForUser_error hroot hexec true true (by simp) (by simp)).1
      refine ⟨?_, hclean⟩
      rcases hlook with hsame | ⟨-, hnew⟩
      · exact hsame
      · rw [hnew, hheld]

end

/-! ### A directory that is not synced -/

/-- A tree at the place of the defaults, for callers that run as root. -/
def defaultKernel : Kernel where
  adminRoot := "/etc/containers/systemd/users"
  noNul := by decide +kernel
  cred _ := ⟨0, 0, 0o022⟩

/-- The admin root is not there yet. -/
def emptyWorld : World where
  rootLink := none
  root := none
  sub _ := none
  entry _ _ := none
  inode _ := ⟨.regular, 0, 0, 0o644, [], none⟩
  nextIno := 0
  ofd _ := none
  nextFd := 3
  lock _ := none
  loaded _ _ := none
  running _ _ := none
  wellFormed := {
    sub_root := fun h => absurd rfl h
    entry_dir := fun h => absurd rfl h
    entry_lt := fun h => by cases h
    ofd_lt := fun h => absurd rfl h
    target_lt := fun h => by cases h
    lock_ofd := fun h => by cases h
    linked_once := fun h => by cases h
    link_kind := fun h => by cases h }

def webQuadlet : QuadletFile where
  fileName := "web.container"
  contents := "[Container]\nImage=busybox\nLabel=com.example.pod-installer.managed=true\n"

/-- Other contents for the same file. -/
def otherQuadlet : QuadletFile where
  fileName := webQuadlet.fileName
  contents := "[Container]\nImage=alpine\nLabel=com.example.pod-installer.managed=true\n"

/-- The choices up to the `write` of the temporary file. -/
def untilWrite : List Choice := List.replicate 9 .go ++ [.pid 7, .go]

/-- `fsync` of the directory fails after the rename: the file is there, though the function has
returned an error. -/
theorem sync_failure_installs :
    (QuadletInstaller.expectedInstall {} 1000 webQuadlet).toBool = true ∧
    ∃ tr w' e, Exec defaultKernel.machine 0 emptyWorld
        (QuadletInstaller.installForUser {} 1000 webQuadlet).run tr w' (.error e) ∧
      ¬ LeavesOld 0 1000 webQuadlet.fileName emptyWorld tr w' := by
  have hrun : (run defaultKernel.machine 0 (untilWrite ++ [.moved webQuadlet.contents.length,
      .go, .go, .go, .fault 5]) emptyWorld
      (QuadletInstaller.installForUser {} 1000 webQuadlet).run).any (fun out =>
        !out.2.2.toBool && (out.2.1.look 1000 webQuadlet.fileName).isSome) = true := by
    decide +kernel
  obtain ⟨tr, w', r, h, hr⟩ := exists_exec_of_run hrun
  rw [Bool.and_eq_true] at hr
  refine ⟨by decide +kernel, ?_⟩
  cases r with
  | ok installed => cases hr.1
  | error e =>
      refine ⟨tr, w', e, h, fun hold => ?_⟩
      rw [hold.file] at hr
      cases hr.2

/-- A `write` for which there is no space leaves nothing behind. -/
theorem write_failure_leavesOld :
    ∃ tr w' e, Exec defaultKernel.machine 0 emptyWorld
        (QuadletInstaller.installForUser {} 1000 webQuadlet).run tr w' (.error e) ∧
      LeavesOld 0 1000 webQuadlet.fileName emptyWorld tr w' := by
  have hrun : (run defaultKernel.machine 0 (untilWrite ++ [.fault 28, .go]) emptyWorld
      (QuadletInstaller.installForUser {} 1000 webQuadlet).run).any (fun out =>
        !out.2.2.toBool && out.1.all fun e => !e.op.isSync) = true := by
    decide +kernel
  obtain ⟨tr, w', r, h, hr⟩ := exists_exec_of_run hrun
  rw [Bool.and_eq_true, List.all_eq_true] at hr
  cases r with
  | ok installed => cases hr.1
  | error e =>
      refine ⟨tr, w', e, h, (leavesOld_iff rfl h).2 (.inl fun e he => ?_)⟩
      exact not_directorySyncFailed (by simpa using hr.2 e he)

end PodInstaller
