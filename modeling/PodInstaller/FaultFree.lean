/-
**Calls that meet no fault.**

A call of the kernel meets a fault if it fails for a reason of its own: an error number other than
`ENOENT` and `EEXIST`, which tell the truth about the tree, or a transfer that moves nothing.  Where
no call meets one the functions of the installer do what they are there for, provided that the tree
is as they expect it: the directories pass, no temporary file is in the way, and what is read is a
regular file that is not too large.  What they leave behind in that case is said by the
specifications of `PodInstaller.InstallerSpec`, which hold of every run; here it is shown that they
do not fail.

Main definitions:

* `PodInstaller.Faultless` — an event without a fault;
* `PodInstaller.Works` — a function that succeeds where there are none;
* `PodInstaller.OwnedTree` — a tree whose directories pass.

Main results:

* `PodInstaller.works_ensureAdminTree` — the directories are made or pass;
* `PodInstaller.works_atomicWriteFile`, `PodInstaller.works_unlinkQuadletFile`,
  `PodInstaller.works_readRegularFileNoSymlink` — the functions that work on files.
-/

import PodInstaller.SafeDirectories

set_option relaxedAutoImplicit false
set_option autoImplicit false

namespace PodInstaller

open Bytes

/-! ### Events without a fault -/

/-- The choices of the environment that are faults. -/
def Choice.faults : Choice → Bool
  | .fault _ => true
  | .moved n => n == 0
  | _ => false

/-- An event without a fault. -/
def Faultless (e : Event Sys.Resp World Choice) : Prop := e.choice.faults = false

/-- A function that succeeds where no call meets a fault. -/
abbrev Works (K : Kernel) (t : ℕ) {α : Type} (x : Action α) (Q : α → World → Prop) (w : World) :
    Prop := Succeeds K.machine t Faultless x Q w

section

variable {K : Kernel} {t : ℕ} {s s' : System}

theorem System.failOr_faultless {α : Type} {mayFail : Errno → Bool} {c : Choice}
    {go : Option (Except Errno α × System)} {r : Except Errno α} (hc : c.faults = false)
    (h : failOr s mayFail c go = some (r, s')) : go = some (r, s') := by
  rcases System.failOr_eq_some.1 h with ⟨e, rfl, -⟩ | ⟨-, h⟩
  · cases hc
  · exact h

theorem System.failOrFind_faultless {α : Type} {mayFail : Errno → Bool} {c : Choice}
    {found : Option (Except Errno α)} {r : Except Errno α} (hc : c.faults = false)
    (h : failOrFind s mayFail c found = some (r, s')) : s' = s ∧ found = some r := by
  obtain ⟨hs, ⟨e, rfl, -⟩ | ⟨-, h⟩⟩ := System.failOrFind_eq_some.1 h
  · cases hc
  · exact ⟨hs, h⟩

theorem System.step_lstat_faultless {path : PosixPath} (hpath : K.locate path ≠ .outside)
    {c : Choice} {r : Except Errno Stat} (hc : c.faults = false)
    (h : s.step K t (.lstat path) c = some (r, s')) :
    s' = s ∧ s.lstatAt K (K.locate path) = some r := by
  simp only [step] at h
  split at h
  · rw [if_neg hpath] at h
    cases h
  · exact System.failOrFind_faultless hc h

theorem System.step_openPath_faultless {path : PosixPath} {flags : OpenFlags} {c : Choice}
    {r : Except Errno Fd} (hc : c.faults = false)
    (h : s.step K t (.openPath path flags) c = some (r, s')) :
    ∃ found, s.openAt K flags (K.locate path) = some found ∧ s.opened t found = (r, s') := by
  have hgo := System.failOr_faultless hc h
  split at hgo
  · cases hgo
  · exact Option.map_eq_some_iff.1 hgo

theorem System.step_write_faultless {fd : Fd} {data : Bytes} {c : Choice} {r : Except Errno ℕ}
    (hc : c.faults = false) (h : s.step K t (.write fd data) c = some (r, s')) :
    ∃ n, r = .ok n := by
  simp only [step] at h
  split at h
  · unfold writeAt at h
    repeat' split at h
    all_goals first
      | exact ⟨_, (Prod.mk.inj (Option.some.inj h)).1.symm⟩
      | cases h
  · cases System.failOr_faultless hc h

/-- A `read` delivers something. -/
theorem System.step_read_faultless {fd : Fd} {count : ℕ} {c : Choice} {r : Except Errno Bytes}
    (hc : c.faults = false) (h : s.step K t (.read fd count) c = some (r, s')) :
    ∃ bytes, r = .ok bytes ∧ bytes ≠ [] := by
  simp only [step] at h
  split at h
  · rename_i n
    have hn : n ≠ 0 := by simpa [Choice.faults] using hc
    unfold readAt at h
    split at h
    · dsimp only at h
      split at h
      · rename_i hle
        obtain ⟨rfl, -⟩ := Prod.mk.inj (Option.some.inj h)
        refine ⟨_, rfl, fun hnil => ?_⟩
        have hlen := congrArg List.length hnil
        rw [List.length_take, Nat.min_eq_left hle.2, List.length_nil] at hlen
        exact hn hlen
      · cases h
    · cases h
  · cases System.failOr_faultless hc h

end

/-! ### Rules -/

section

variable {K : Kernel} {t : ℕ} {w : World} {α : Type}

theorem delivers_sys {o : Sys} {Q : o.Resp → World → Prop}
    (h : ∀ (c : Choice) (r : o.Resp) (w' : World), c.faults = false →
      w.toSystem.step K t o c = some (r, w'.toSystem) → Q r w') :
    Delivers K.machine t Faultless (sys o) Q w :=
  delivers_perform fun c r w' hstep hfree => h c r w' hfree (Kernel.machine_step.1 hstep)

theorem works_attempt {ε : Type} {p : SysProg (Except ε α)} {error : ε → Error}
    {Q : α → World → Prop}
    (h : Delivers K.machine t Faultless p (fun r w => ∃ a, r = .ok a ∧ Q a w) w) :
    Works K t (attempt p error) Q w := by
  refine Delivers.bind h fun r w hr => ?_
  obtain ⟨a, rfl, hQ⟩ := hr
  exact delivers_ret ⟨a, rfl, hQ⟩

theorem works_call {o : Sys} {Q : o.Resp → World → Prop}
    (h : Delivers K.machine t Faultless (sys o) Q w) : Works K t (call o) Q w :=
  Delivers.bind h fun r _ hQ => delivers_ret ⟨r, rfl, hQ⟩

theorem works_outcome {x : Action α} {Q : Result α → World → Prop}
    (h : Delivers K.machine t Faultless x.run Q w) : Works K t (outcome x) Q w :=
  Delivers.bind h fun r _ hQ => delivers_ret ⟨r, rfl, hQ⟩

theorem works_done {r : Result α} {a : α} (hr : r = .ok a) {Q : α → World → Prop} (h : Q a w) :
    Works K t (done r) Q w := delivers_ret ⟨a, hr, h⟩

theorem works_rejectIf {rejected : Prop} [Decidable rejected] {error : Error}
    (hnot : ¬ rejected) {Q : Unit → World → Prop} (h : Q () w) :
    Works K t (rejectIf rejected error) Q w := works_done (reject_eq_ok.2 hnot) h

/-- A check that does not reject. -/
theorem delivers_rejectIf_bind {β : Type} {rejected : Prop} [Decidable rejected] {error : Error}
    {f : Unit → Action β} {Q : Result β → World → Prop} (hnot : ¬ rejected)
    (h : Delivers K.machine t Faultless (f ()).run Q w) :
    Delivers K.machine t Faultless (rejectIf rejected error >>= f).run Q w :=
  Succeeds.bind (P := fun _ w' => w' = w) (works_rejectIf hnot rfl) fun _ _ hw => hw ▸ h

/-- What a function does in every run it also does where no call meets a fault. -/
theorem Meets.delivers {may : May} {p : SysProg α} {P Q : α → World → Prop}
    (h : Meets K t Eq may p Q w) (h' : Delivers K.machine t Faultless p P w) :
    Delivers K.machine t Faultless p (fun a w => Q a w ∧ P a w) w :=
  fun tr w' a hexec htr => ⟨h.exec (fun _ => rfl) hexec, h' tr w' a hexec htr⟩

end

/-! ### Directories -/

/-- A tree without a link in the place of the admin root, whose directories pass. -/
structure OwnedTree (layout : QuadletInstallLayout) (s : System) : Prop where
  noLink : s.rootLink = none
  root : ∀ {node}, s.root = some node → node.RealDirectory layout
  user : ∀ {uid node}, s.sub (uidString uid) = some node → node.RealDirectory layout

/-- A directory that a caller makes passes. -/
def Cred.Owns (layout : QuadletInstallLayout) (cred : Cred) : Prop :=
  (∀ uid ∈ layout.requiredOwnerUid, cred.uid = uid) ∧
    ∀ gid ∈ layout.requiredOwnerGid, cred.gid = gid

/-- What a caller makes of the directories for a user passes, where one is missing.  The admin root
may get the group of the directory above it.  The directory of the user does not get that of the
admin root, whose mode is set before. -/
structure Kernel.CanPrepare (K : Kernel) (t : ℕ) (layout : QuadletInstallLayout) (uid : UInt32)
    (s : System) : Prop where
  root : s.root = none → (K.newRoot t).RealDirectory layout
  user : s.sub (uidString uid) = none → (K.cred t).Owns layout

section

variable {K : Kernel} {t : ℕ} {w : World} {s s' : System} {layout : QuadletInstallLayout}
variable {uid : UInt32}

theorem Cred.Owns.realDirectory (h : (K.cred t).Owns layout) {parent : Option Node}
    (hparent : parent.bind Node.passesOn = none) (mode : ℕ) :
    (K.newDirectory t parent mode).RealDirectory layout := by
  refine ⟨rfl, h.1, ?_⟩
  rw [Kernel.newDirectory, Kernel.newGroup, hparent]
  exact h.2

/-- What makes `ensure_directory_safe` succeed. -/
theorem works_ensureDirectorySafe {dir : PosixPath} {G G' : System → Prop}
    (hplace : K.locate (cStr dir) ≠ .outside)
    (hmake : ∀ {r s'}, w.createDirectories K t (K.locate (cStr dir)) = some (r, s') →
      r = .ok () ∧ G s')
    (hstat : ∀ {s r}, G s → s.lstatAt K (K.locate (cStr dir)) = some r →
      ∃ st, r = .ok st ∧ st.RealDirectory layout)
    (hmode : ∀ {s r s'}, G s → s.setMode (K.locate (cStr dir)).directory 0o755 = some (r, s') →
      r = .ok () ∧ G' s' ∧
        ∀ {st}, s'.lstatAt K (K.locate (cStr dir)) = some (.ok st) → st.mode = 0o755)
    (hstill : ∀ {s}, G' s → G s) :
    Works K t (ensureDirectorySafe dir layout) (fun _ w => G' w.toSystem) w := by
  rw [ensureDirectorySafe]
  refine Succeeds.bind (P := fun _ w => G w.toSystem) (works_attempt (delivers_sys ?_)) ?_
  · intro c r w' hc hstep
    obtain ⟨rfl, hgood⟩ := hmake (System.failOr_faultless hc hstep)
    exact ⟨_, rfl, hgood⟩
  intro _ w hgood
  -- what is looked at is a directory of the expected owner
  refine Succeeds.bind (P := fun st w => G w.toSystem ∧ st.RealDirectory layout)
    (works_attempt (delivers_sys ?_)) ?_
  · intro c r w' hc hstep
    obtain ⟨hw, hfound⟩ := System.step_lstat_faultless hplace hc hstep
    obtain rfl := World.eq_of_toSystem hw
    obtain ⟨st, rfl, hreal⟩ := hstat hgood hfound
    exact ⟨st, rfl, hgood, hreal⟩
  intro st w h
  obtain ⟨hgood, hkind, huid, hgid⟩ := h
  refine delivers_rejectIf_bind (by simp [hkind]) ?_
  refine delivers_rejectIf_bind (by simpa using huid) ?_
  refine delivers_rejectIf_bind (by simpa using hgid) ?_
  -- the second look sees the mode that is set here
  refine Succeeds.bind (P := fun _ w => G' w.toSystem ∧
    ∀ {st}, w.lstatAt K (K.locate (cStr dir)) = some (.ok st) → st.mode = 0o755)
    (works_attempt (delivers_sys ?_)) ?_
  · intro c r w' hc hstep
    obtain ⟨rfl, hgood', hmode'⟩ := hmode hgood (System.failOr_faultless hc hstep)
    exact ⟨_, rfl, hgood', hmode'⟩
  intro _ w h
  obtain ⟨hgood, hmode⟩ := h
  refine Succeeds.bind (P := fun st w => G' w.toSystem ∧ st.mode = 0o755)
    (works_attempt (delivers_sys ?_)) ?_
  · intro c r w' hc hstep
    obtain ⟨hw, hfound⟩ := System.step_lstat_faultless hplace hc hstep
    obtain rfl := World.eq_of_toSystem hw
    obtain ⟨st, rfl, -⟩ := hstat (hstill hgood) hfound
    exact ⟨st, rfl, hgood, hmode hfound⟩
  intro st w h
  exact works_rejectIf (by simp [h.2, mode_private]) h.1

theorem Node.RealDirectory.setMode {node : Node} (h : node.RealDirectory layout) (mode : ℕ) :
    Node.RealDirectory layout { node with mode := mode } := h

/-- Another directory in the place of the admin root. -/
theorem OwnedTree.setRoot {root : Option Node} (h : OwnedTree layout s)
    (hroot : ∀ {node}, root = some node → node.RealDirectory layout) :
    OwnedTree layout (s.setDirs root s.sub) := ⟨h.noLink, hroot, h.user⟩

/-- Another directory in the place of that of a user. -/
theorem OwnedTree.setUser {dir : Bytes} {sub : Option Node} (h : OwnedTree layout s)
    (hsub : ∀ {node}, sub = some node → node.RealDirectory layout) :
    OwnedTree layout (s.setDirs s.root (Function.update s.sub dir sub)) := by
  refine ⟨h.noLink, h.root, fun {uid node} hnode => ?_⟩
  by_cases hdir : uidString uid = dir
  · exact hsub (by simpa [System.setDirs, hdir] using hnode)
  · exact h.user (by simpa [System.setDirs, Function.update_apply, hdir] using hnode)

/-- The mode of a directory that passes makes no difference. -/
theorem realDirectory_setMode {node : Option Node} {mode : ℕ}
    (h : ∀ {n}, node = some n → n.RealDirectory layout) {n : Node}
    (hn : node.map (fun n => { n with mode := mode }) = some n) : n.RealDirectory layout := by
  obtain ⟨old, hold, rfl⟩ := Option.map_eq_some_iff.1 hn
  exact (h hold).setMode _

/-- The admin root is there, and the caller can go on. -/
structure RootReady (K : Kernel) (t : ℕ) (layout : QuadletInstallLayout) (uid : UInt32)
    (s : System) : Prop where
  owned : OwnedTree layout s
  isDir : s.rootIsDir = true
  canMake : s.sub (uidString uid) = none → (K.cred t).Owns layout

/-- Its mode is set, and it passes no group on. -/
structure RootSet (K : Kernel) (t : ℕ) (layout : QuadletInstallLayout) (uid : UInt32)
    (s : System) : Prop extends RootReady K t layout uid s where
  noGroup : s.root.bind Node.passesOn = none

theorem System.lstatAt_root {K : Kernel} (h : s.rootLink = none) :
    s.lstatAt K .root = some (s.root.elim (.error ENOENT) fun node => .ok node.stat) := by
  simp only [lstatAt, Kernel.seesRoot, h, Option.isNone_none, Bool.true_or, if_true]
  cases s.root <;> rfl

/-- **The admin root** is made, or is there. -/
theorem rootReady_createDirectories (h : OwnedTree layout s)
    (hcan : K.CanPrepare t layout uid s) {r : Except Errno Unit}
    (hmake : s.createDirectories K t .root = some (r, s')) :
    r = .ok () ∧ RootReady K t layout uid s' := by
  simp only [System.createDirectories] at hmake
  split at hmake
  · rename_i hnone
    rw [if_pos (by simp [h.noLink])] at hmake
    obtain ⟨rfl, rfl⟩ := Prod.mk.inj (Option.some.inj hmake)
    refine ⟨rfl, h.setRoot fun {node} hnode => ?_, ?_, hcan.user⟩
    · obtain rfl := Option.some.inj hnode
      exact hcan.root hnone
    · exact System.isDirectory_some.2 (K.newRoot_kind t)
  · rename_i node hnode
    rw [if_pos (h.root hnode).1] at hmake
    obtain ⟨rfl, rfl⟩ := Prod.mk.inj (Option.some.inj hmake)
    refine ⟨rfl, h, ?_, hcan.user⟩
    rw [System.rootIsDir, hnode]
    exact System.isDirectory_some.2 (h.root hnode).1

theorem RootReady.setMode (h : RootReady K t layout uid s) :
    RootSet K t layout uid (s.setDirs (s.root.map fun n => { n with mode := 0o755 }) s.sub) where
  owned := h.owned.setRoot (realDirectory_setMode h.owned.root)
  isDir := by
    rw [System.rootIsDir, System.setDirs, System.isDirectory_setMode]
    exact h.isDir
  canMake := h.canMake
  noGroup := by
    obtain ⟨node, hnode, -⟩ := System.isDirectory_eq_true.1 h.isDir
    simp [System.setDirs, hnode, Node.passesOn]

/-- Making sure of the admin root. -/
theorem works_ensureDirectorySafe_root (hroot : layout.adminUserRoot = K.adminRoot)
    (h : OwnedTree layout w.toSystem) (hcan : K.CanPrepare t layout uid w.toSystem) :
    Works K t (ensureDirectorySafe layout.adminUserRoot layout)
      (fun _ w => RootSet K t layout uid w.toSystem) w := by
  rcases locate_adminUserRoot_or hroot with hplace | hplace
  · -- nothing can be made at an empty path
    refine (works_ensureDirectorySafe (G := fun _ => False) ?_ ?_ ?_ ?_ id).weaken ?_
    · simp [hplace]
    · intro r s' hmake
      simp [hplace, System.createDirectories] at hmake
    · intro s r hbot
      exact hbot.elim
    · intro s r s' hbot
      exact hbot.elim
    · intro a w hw
      obtain ⟨a, -, hbot⟩ := hw
      exact hbot.elim
  refine works_ensureDirectorySafe (G := RootReady K t layout uid) ?_ ?_ ?_ ?_
    RootSet.toRootReady
  · simp [hplace]
  · intro r s' hmake
    rw [hplace] at hmake
    exact rootReady_createDirectories h hcan hmake
  · intro s r hready hfound
    rw [hplace, System.lstatAt_root hready.owned.noLink, Option.some.injEq] at hfound
    obtain ⟨node, hnode, -⟩ := System.isDirectory_eq_true.1 hready.isDir
    rw [hnode] at hfound
    exact ⟨node.stat, hfound.symm, hready.owned.root hnode⟩
  · intro s r s' hready hmode
    rw [hplace] at hmode
    obtain ⟨rfl, rfl⟩ := Prod.mk.inj (Option.some.inj hmode)
    refine ⟨rfl, hready.setMode, fun {st} hfound => ?_⟩
    obtain ⟨node, hnode, -⟩ := System.isDirectory_eq_true.1 hready.isDir
    rw [hplace, System.lstatAt_root (by exact hready.owned.noLink), System.setDirs, hnode] at hfound
    obtain rfl := Except.ok.inj (Option.some.inj hfound)
    rfl

/-- The directory of the user is there. -/
structure UserReady (layout : QuadletInstallLayout) (uid : UInt32) (s : System) : Prop where
  owned : OwnedTree layout s
  isDir : s.subIsDir (uidString uid) = true
  rootIsDir : s.rootIsDir = true

theorem System.lstatAt_sub {K : Kernel} {dir : Bytes} (hroot : s.rootIsDir = true) :
    s.lstatAt K (.sub dir) = some ((s.sub dir).elim (.error ENOENT) fun node => .ok node.stat) := by
  obtain ⟨root, hsome, hkind⟩ := System.isDirectory_eq_true.1 hroot
  simp only [lstatAt, findSub, hsome, hkind, ne_eq, not_true_eq_false, if_false]
  cases s.sub dir <;> rfl

/-- **The directory of a user** is made, or is there. -/
theorem userReady_createDirectories (h : RootSet K t layout uid s) {r : Except Errno Unit}
    (hmake : s.createDirectories K t (.sub (uidString uid)) = some (r, s')) :
    r = .ok () ∧ UserReady layout uid s' := by
  obtain ⟨root, hsome, hkind⟩ := System.isDirectory_eq_true.1 h.isDir
  simp only [System.createDirectories, hsome, hkind, ne_eq, not_true_eq_false, if_false] at hmake
  split at hmake
  · rename_i hnone
    obtain ⟨rfl, rfl⟩ := Prod.mk.inj (Option.some.inj hmake)
    refine ⟨rfl, ?_, ?_, System.isDirectory_some.2 hkind⟩
    · rw [← hsome]
      refine h.owned.setUser fun {node} hnode => ?_
      obtain rfl := Option.some.inj hnode
      exact (h.canMake hnone).realDirectory (hsome ▸ h.noGroup) _
    · simp [System.subIsDir, System.setDirs, Kernel.newDirectory]
  · rename_i node hnode
    have hreal := h.owned.user hnode
    rw [if_pos (.inl hreal.1)] at hmake
    obtain ⟨rfl, rfl⟩ := Prod.mk.inj (Option.some.inj hmake)
    refine ⟨rfl, h.owned, ?_, h.isDir⟩
    rw [System.subIsDir, hnode]
    exact System.isDirectory_some.2 hreal.1

theorem UserReady.setMode (h : UserReady layout uid s) (mode : ℕ) :
    UserReady layout uid (s.setDirs s.root (Function.update s.sub (uidString uid)
      ((s.sub (uidString uid)).map fun n => { n with mode := mode }))) where
  owned := h.owned.setUser (realDirectory_setMode h.owned.user)
  isDir := by
    simp only [System.subIsDir, System.setDirs, Function.update_self, System.isDirectory_setMode]
    exact h.isDir
  rootIsDir := h.rootIsDir

/-- Making sure of the directory of a user. -/
theorem works_ensureDirectorySafe_user (hroot : layout.adminUserRoot = K.adminRoot)
    (h : RootSet K t layout uid w.toSystem) :
    Works K t (ensureDirectorySafe (layout.userDirectory uid) layout)
      (fun _ w => UserReady layout uid w.toSystem) w := by
  have hplace : K.locate (cStr (layout.userDirectory uid)) = .sub (uidString uid) :=
    locate_userDirectory hroot
  refine works_ensureDirectorySafe (G := UserReady layout uid) ?_ ?_ ?_ ?_ id
  · simp [hplace]
  · intro r s' hmake
    rw [hplace] at hmake
    exact userReady_createDirectories h hmake
  · intro s r hready hfound
    rw [hplace, System.lstatAt_sub hready.rootIsDir, Option.some.injEq] at hfound
    obtain ⟨node, hnode, -⟩ := System.isDirectory_eq_true.1 hready.isDir
    rw [hnode] at hfound
    exact ⟨node.stat, hfound.symm, hready.owned.user hnode⟩
  · intro s r s' hready hmode
    rw [hplace] at hmode
    obtain ⟨rfl, rfl⟩ := Prod.mk.inj (Option.some.inj hmode)
    refine ⟨rfl, hready.setMode _, fun {st} hfound => ?_⟩
    obtain ⟨node, hnode, -⟩ := System.isDirectory_eq_true.1 hready.isDir
    rw [hplace, System.lstatAt_sub (by exact hready.rootIsDir), Option.some.injEq] at hfound
    simp only [System.setDirs, Function.update_self, hnode] at hfound
    obtain rfl := Except.ok.inj hfound
    rfl

/-- **The directories** are made, or pass. -/
theorem works_ensureAdminTree (hroot : layout.adminUserRoot = K.adminRoot)
    (h : OwnedTree layout w.toSystem) (hcan : K.CanPrepare t layout uid w.toSystem) :
    Works K t (ensureAdminTree uid layout) (fun _ w => UserReady layout uid w.toSystem) w :=
  Succeeds.bind (works_ensureDirectorySafe_root hroot h hcan) fun _ _ hready =>
    works_ensureDirectorySafe_user hroot hready

end

/-! ### Reading and writing -/

section

variable {K : Kernel} {t N : ℕ} {w : World} {s s' : System} {layout : QuadletInstallLayout}
variable {uid : UInt32} {n : Bytes} {α : Type}

theorem delivers_fsync (fd : Fd) :
    Delivers K.machine t Faultless (sys (.fsync fd)) (fun r w' => r = .ok () ∧ w' = w) w := by
  refine delivers_sys fun c r w' hc hstep => ?_
  obtain ⟨rfl, hw⟩ := Prod.mk.inj (Option.some.inj (System.failOr_faultless hc hstep))
  exact ⟨rfl, World.eq_of_toSystem hw.symm⟩

theorem works_fsyncDirectory (fd : Fd) : Works K t (fsyncDirectory fd) (fun _ w' => w' = w) w :=
  works_attempt ((delivers_fsync fd).weaken fun _ _ h => ⟨(), h.1, h.2⟩)

/-- Writing fails only with a fault. -/
theorem works_writeAll (fd : Fd) (contents : Bytes) (skip : ℕ) :
    Works K t (writeAll fd contents skip) (fun _ _ => True) w := by
  induction contents generalizing skip w with
  | nil => exact succeeds_pure trivial
  | cons c rest ih =>
      cases skip with
      | succ skip => exact ih skip
      | zero =>
          rw [writeAll]
          refine Succeeds.bind (P := fun _ _ => True) (works_attempt ?_) fun written w _ => ih _
          refine delivers_performUntil (fun _ _ _ => write_again)
            fun choice r w' hstep _ hfree => ?_
          obtain ⟨n, rfl⟩ := System.step_write_faultless hfree (Kernel.machine_step.1 hstep)
          exact ⟨n, rfl, trivial⟩

/-- So does reading. -/
theorem works_readBytes (path : PosixPath) (fd : Fd) (left skip : ℕ) :
    Works K t (readBytes path fd left skip) (fun _ _ => True) w := by
  induction left generalizing skip w with
  | zero => exact succeeds_pure trivial
  | succ left ih =>
      cases skip with
      | succ skip => exact ih skip
      | zero =>
          rw [readBytes]
          refine Succeeds.bind (P := fun bytes _ => bytes ≠ []) (works_attempt ?_)
            fun bytes w hne => ?_
          · refine delivers_performUntil (fun _ _ _ => read_again)
              fun choice r w' hstep _ hfree => ?_
            exact System.step_read_faultless hfree (Kernel.machine_step.1 hstep)
          · refine delivers_rejectIf_bind hne ?_
            exact Succeeds.bind (ih _) fun rest w _ => succeeds_pure trivial

/-! ### Replacing and removing a file -/

theorem System.openAt_sub_of_isDir {flags : OpenFlags} {dir : Bytes} (hroot : s.rootIsDir = true)
    (hdir : s.subIsDir dir = true) : s.openAt K flags (.sub dir) = some (.ok (.sub dir)) := by
  obtain ⟨root, hsome, hkind⟩ := System.isDirectory_eq_true.1 hroot
  obtain ⟨sub, hsub, hsubKind⟩ := System.isDirectory_eq_true.1 hdir
  simp [openAt, findSub, hsome, hkind, hsub, hsubKind]

/-- Opening the directory of a user. -/
theorem works_openUserDirectory (hroot : layout.adminUserRoot = K.adminRoot)
    (hready : UserReady layout uid w.toSystem) (hclean : w.Clean t N) {error : Errno → Error} :
    Works K t
      (attempt (sys (.openPath (cStr (layout.userDirectory uid)) { directory := true })) error)
      (fun fd w' => Ready t N uid fd w' ∧ w'.sub = w.sub ∧ w'.entry = w.entry) w := by
  refine works_attempt (((meets_openUserDirectory othersOnly_eq hroot hclean).delivers
    (P := fun r w' => (∃ fd, r = .ok fd) ∧ w'.sub = w.sub ∧ w'.entry = w.entry)
    (delivers_sys fun c r w' hc hstep => ?_)).weaken fun r w' h => ?_)
  · obtain ⟨found, hfound, hw⟩ := System.step_openPath_faultless hc hstep
    rw [locate_userDirectory hroot, System.openAt_sub_of_isDir hready.rootIsDir hready.isDir,
      Option.some.injEq] at hfound
    obtain rfl := hfound
    obtain ⟨rfl, hnew⟩ := Prod.mk.inj hw
    rw [← hnew]
    exact ⟨⟨_, rfl⟩, rfl, rfl⟩
  · obtain ⟨hopened, ⟨fd, rfl⟩, hsame⟩ := h
    exact ⟨fd, rfl, hopened, hsame⟩

/-- The first name that is tried is free. -/
theorem works_openTemporary {dir : PosixPath} {dirFd : Fd} {finalName : Bytes} {mode attempt : ℕ}
    {attempts : List ℕ} (h : Ready t N uid dirFd w) (hdir : w.subIsDir (uidString uid) = true)
    (hfree : ∀ pid, w.entry (uidString uid) (cStr (temporaryName finalName pid attempt)) = none) :
    Works K t (openTemporary dir dirFd finalName mode (attempt :: attempts))
      (fun _ _ => True) w := by
  rw [openTemporary]
  refine Succeeds.bind (P := fun _ w' => w' = w)
    (works_call (delivers_sys fun c r w' _ hstep => ?_)) fun pid w' hw => ?_
  · simp only [System.step] at hstep
    split at hstep
    · exact World.eq_of_toSystem (Prod.mk.inj (Option.some.inj hstep)).2.symm
    · cases hstep
  obtain rfl := hw
  refine Succeeds.bind (P := fun r _ => ∃ fd, r = .ok fd)
    (works_call (delivers_sys fun c r w' hc hstep => ?_)) fun r w' hr => ?_
  · have hgo := System.failOr_faultless hc hstep
    have hsub := h.dirOpen.targetOf
    unfold System.openat System.openatInside at hgo
    rw [hsub] at hgo
    simp only [and_self, if_true] at hgo
    split at hgo
    · cases hgo
    split at hgo
    · cases hgo
    · rw [if_pos ⟨trivial, hdir⟩] at hgo
      exact ⟨_, (Prod.mk.inj (Option.some.inj hgo)).1.symm⟩
    · rename_i i hfind
      -- the name is free
      have hsome := System.findEntry_eq_ok hfind
      rw [hfree] at hsome
      cases hsome
  · obtain ⟨fd, rfl⟩ := hr
    exact succeeds_pure trivial

/-- The change of a file, without anything being said about it. -/
theorem transition_any (c : Option Content) : Transition t Eq (fun _ _ _ _ => True) uid n
    (fun _ => True) (fun _ => True) c :=
  ⟨⟨fun _ _ => trivial, fun _ _ => trivial⟩, ⟨fun _ _ => trivial, fun _ _ => trivial⟩,
    fun _ _ => trivial, fun _ _ _ _ _ => trivial⟩

/-- A single call, with what it does in every run. -/
theorem CallMeets.works {may : May} {o : Sys} {P Q : o.Resp → World → Prop}
    (h : CallMeets K t Eq may o Q w)
    (h' : ∀ (c : Choice) (r : o.Resp) (w' : World), c.faults = false →
      w.toSystem.step K t o c = some (r, w'.toSystem) → P r w') :
    Works K t (call o) (fun r w' => Q r w' ∧ P r w') w :=
  works_call ((meets_sys h).delivers (delivers_sys h'))

/-- **Replacing a file** leaves no temporary file behind. -/
theorem works_replaceFile {contents : Bytes} (hn : QuadletName n) {dirFd fd : Fd} {tmpName : Bytes}
    {i : ℕ} (h : Pending t N uid dirFd (cStr tmpName) i [] w)
    (hfd : w.ofd fd = some ⟨.ino i, 0, t⟩) :
    Works K t (replaceFile (layout.quadletPath uid n) dirFd tmpName fd contents)
      (fun _ w => w.Clean t N) w := by
  rw [replaceFile, filename_quadletPath hn, cStr_eq_self hn.noNul]
  refine Succeeds.bind (works_outcome ((meets_writeAll othersOnly_eq h hfd).delivers
    (works_writeAll fd contents 0))) fun written w h => ?_
  obtain ⟨hwritten, u, rfl, -⟩ := h
  obtain ⟨hpending, offset, hfd⟩ := hwritten
  refine Succeeds.bind ((callMeets_fsyncFile othersOnly_eq stable_any hpending hfd trivial).works
    (P := fun (r : Except Errno Unit) _ => r = .ok ())
    fun c r w' hc hstep => ?_) fun synced w h => ?_
  · exact (Prod.mk.inj (Option.some.inj (System.failOr_faultless hc hstep))).1.symm
  obtain ⟨⟨hpending, hfd, -⟩, rfl⟩ := h
  refine Succeeds.bind ((callMeets_close othersOnly_eq stable_any hpending hfd trivial).works
    (P := fun _ _ => True) fun _ _ _ _ _ => trivial) fun _ w h => ?_
  obtain ⟨⟨hpending, -⟩, -⟩ := h
  refine Succeeds.bind ((callMeets_rename othersOnly_eq (transition_any _) hn hpending
    trivial).works (P := fun (r : Except Errno Unit) _ => r = .ok ())
    fun c r w' hc hstep => ?_) fun renamed w h => ?_
  · -- the temporary file is where it was, so that the rename finds it
    have hgo := System.failOr_faultless hc hstep
    unfold System.renameat at hgo
    rw [hpending.dirOpen.targetOf] at hgo
    simp only [hpending.temporary.entry] at hgo
    repeat' split at hgo
    all_goals first
      | exact (Prod.mk.inj (Option.some.inj hgo)).1.symm
      | cases hgo
  obtain ⟨hrenamed, rfl⟩ := h
  obtain ⟨⟨-, hclean⟩, -⟩ := hrenamed
  exact (works_fsyncDirectory dirFd).weaken fun r w' hr => by
    obtain ⟨u, rfl, rfl⟩ := hr
    exact ⟨u, rfl, hclean⟩

/-- **`atomic_write_file`** succeeds, if no temporary file is in its way. -/
theorem works_atomicWriteFile {contents : Bytes} {mode : ℕ}
    (hroot : layout.adminUserRoot = K.adminRoot) (hn : QuadletName n)
    (hready : UserReady layout uid w.toSystem) (hclean : w.Clean t N)
    (hfree : ∀ pid, w.entry (uidString uid) (cStr (temporaryName n pid 0)) = none) :
    Works K t (atomicWriteFile (layout.quadletPath uid n) contents mode)
      (fun _ w => w.Clean t N) w := by
  rw [atomicWriteFile, parentPath_quadletPath hn, filename_quadletPath hn]
  refine Succeeds.bind (works_openUserDirectory hroot hready hclean) fun dirFd w' h => ?_
  obtain ⟨hopen, hsub, hentry⟩ := h
  have hdir : w'.subIsDir (uidString uid) = true := by
    rw [System.subIsDir, hsub]
    exact hready.isDir
  rw [← hentry] at hfree
  refine Succeeds.bind (P := fun tmp w => Allocated t N uid dirFd (.ok tmp) w)
    (((meets_openTemporary othersOnly_eq hopen).delivers
      (works_openTemporary hopen hdir hfree)).weaken fun r w h => ?_) fun tmp w h => ?_
  · obtain ⟨hallocated, tmp, rfl, -⟩ := h
    exact ⟨tmp, rfl, hallocated⟩
  · obtain ⟨i, hpending, hfd⟩ := h
    exact works_replaceFile hn hpending hfd

/-- **`unlink_quadlet_file`** succeeds, also if there is no file. -/
theorem works_unlinkQuadletFile (hroot : layout.adminUserRoot = K.adminRoot) (hn : QuadletName n)
    (hready : UserReady layout uid w.toSystem) (hclean : w.Clean t N) :
    Works K t (unlinkQuadletFile (layout.quadletPath uid n)) (fun _ w => w.Clean t N) w := by
  have hsync : ∀ {dirFd : Fd} {w : World}, Ready t N uid dirFd w →
      Works K t (fsyncDirectory dirFd) (fun _ w => w.Clean t N) w := by
    intro dirFd w hready
    refine (works_fsyncDirectory dirFd).weaken fun r w' hr => ?_
    obtain ⟨u, rfl, rfl⟩ := hr
    exact ⟨u, rfl, hready.clean⟩
  rw [unlinkQuadletFile, parentPath_quadletPath hn, filename_quadletPath hn, cStr_eq_self hn.noNul]
  refine Succeeds.bind (works_openUserDirectory hroot hready hclean) fun dirFd w h => ?_
  obtain ⟨hopen, -⟩ := h
  refine Succeeds.bind ((callMeets_unlink othersOnly_eq (transition_any none) hn.visible hopen
    trivial).works (P := fun (r : Except Errno Unit) _ => r = .ok () ∨ r = .error ENOENT)
    fun c r w' hc hstep => ?_) fun removed w h => ?_
  · have hgo := System.failOr_faultless hc hstep
    unfold System.unlinkat at hgo
    repeat' split at hgo
    all_goals first
      | exact .inl (Prod.mk.inj (Option.some.inj hgo)).1.symm
      | exact .inr (Prod.mk.inj (Option.some.inj hgo)).1.symm
      | cases hgo
  obtain ⟨⟨hopen, -⟩, rfl | rfl⟩ := h
  · exact hsync hopen
  · exact hsync hopen

/-- **`read_regular_file_no_symlink`** succeeds for a regular file that is not too large. -/
theorem works_readRegularFileNoSymlink (hroot : layout.adminUserRoot = K.adminRoot)
    (hn : QuadletName n) {bytes : Bytes} (hlook : w.look uid n = some (.regular bytes))
    {maxSize : ℕ} (hsize : bytes.length ≤ maxSize) :
    Works K t (readRegularFileNoSymlink (layout.quadletPath uid n) maxSize)
      (fun _ _ => True) w := by
  obtain ⟨i, hi, hcontent⟩ := Option.map_eq_some_iff.1 hlook
  have hkind : (w.inode i).kind = .regular ∧ (w.inode i).bytes = bytes := by
    split at hcontent
    · exact ⟨‹_›, Content.regular.inj hcontent⟩
    · cases hcontent
  rw [readRegularFileNoSymlink]
  -- the descriptor leads to the file that the entry names
  refine Succeeds.bind (P := fun fd w' => w'.targetOf fd = some (.ino i) ∧ w'.inode = w.inode)
    (works_attempt (delivers_sys fun c r w' hc hstep => ?_)) fun fd w' h => ?_
  · obtain ⟨found, hfound, hw⟩ := System.step_openPath_faultless hc hstep
    rw [locate_quadletPath hroot hn] at hfound
    simp only [System.openAt] at hfound
    split at hfound
    · cases hfound
    · rename_i e hfind
      rw [(System.findEntry_eq_error w.wellFormed hfind).1] at hi
      cases hi
    · rename_i j hfind
      obtain rfl : j = i := Option.some.inj ((System.findEntry_eq_ok hfind).symm.trans hi)
      rw [if_pos (by simp [System.canOpen, hkind.1])] at hfound
      obtain rfl := Option.some.inj hfound
      obtain ⟨rfl, hnew⟩ := Prod.mk.inj hw
      rw [← hnew]
      exact ⟨_, rfl, by simp [System.targetOf, System.openFd], rfl⟩
  obtain ⟨hfd, hinode⟩ := h
  refine Succeeds.bind (P := fun st _ => st = (w.inode i).stat)
    (works_attempt (delivers_sys fun c r w₂ hc hstep => ?_)) fun st w₂ hst => ?_
  · simp only [System.step] at hstep
    split at hstep
    · simp [hfd] at hstep
    · have hfound := (System.failOrFind_faultless hc hstep).2
      rw [System.fstat, hfd] at hfound
      exact ⟨_, (Option.some.inj hfound).symm, by rw [hinode]⟩
  subst hst
  refine delivers_rejectIf_bind (by simp [Inode.stat, hkind.1]) ?_
  refine delivers_rejectIf_bind (by simp [Inode.stat, hkind.2]; omega) ?_
  exact works_readBytes _ _ _ _

end

end PodInstaller
