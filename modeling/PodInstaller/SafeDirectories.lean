/-
**No write through an unsafe directory.**

The installer works in two directories, the admin root and the directory of a user in it.  Before
any of the four operations touches a Quadlet file it creates what is missing of them and looks at
both with `lstat`: a directory that is a symbolic link, is no directory or belongs to somebody else
ends the operation.  The admin root is looked at before the directory of the user is created, so
that nothing is created in an unsafe root either.

`lstat` does not follow a link at the end of its path, but a path that goes on behind the link with
a slash or `.` is resolved through it.  An admin root that is given so and is a link to a suitable
directory is taken for that directory.

Main definitions:

* `PodInstaller.Operation`, `PodInstaller.QuadletInstaller.perform` — the four operations;
* `PodInstaller.Node.RealDirectory` — a directory with the required owner;
* `PodInstaller.RootUnsafe`, `PodInstaller.UserUnsafe` — where nothing must be written;
* `PodInstaller.SafelyDone` — what is asked of a run, and `PodInstaller.FollowedLink`.

Main results:

* `PodInstaller.exec_ensureDirectorySafe_ok` — the runs of `ensure_directory_safe` that succeed;
* `PodInstaller.exec_perform` — an operation fails, or has made sure of both directories first;
* `PodInstaller.safelyDone_iff` — **when the operations write through no unsafe directory**.
-/

import PodInstaller.Calls
import PodInstaller.InstallerSpec

set_option relaxedAutoImplicit false
set_option autoImplicit false

namespace PodInstaller

open Bytes

/-! ### The operations -/

/-- An operation of the installer for a user. -/
inductive Operation
  | install (quadlet : QuadletFile)
  | remove (fileName : Bytes)
  | snapshot (fileName : Bytes)
  | restore (snapshot : QuadletSnapshot)

/-- What an operation returns when it succeeds. -/
inductive Outcome
  | installed (quadlet : InstalledQuadlet)
  | removed
  | taken (snapshot : QuadletSnapshot)
  | restored

/-- An operation. -/
def QuadletInstaller.perform (installer : QuadletInstaller) (uid : UInt32) :
    Operation → Action Outcome
  | .install quadlet => do return .installed (← installer.installForUser uid quadlet)
  | .remove fileName => do
    installer.removeForUser uid fileName
    return .removed
  | .snapshot fileName => do return .taken (← installer.snapshotForUser uid fileName)
  | .restore snapshot => do
    installer.restoreForUser uid snapshot
    return .restored

/-! ### What is asked of them -/

/-- A directory with the required owner. -/
def Node.RealDirectory (layout : QuadletInstallLayout) (node : Node) : Prop :=
  node.kind = .directory ∧ (∀ uid ∈ layout.requiredOwnerUid, node.uid = uid) ∧
    ∀ gid ∈ layout.requiredOwnerGid, node.gid = gid

/-- The admin root is a symbolic link, is no directory or belongs to somebody else. -/
def RootUnsafe (layout : QuadletInstallLayout) (s : System) : Prop :=
  s.rootLink ≠ none ∨ ∃ node, s.root = some node ∧ ¬ node.RealDirectory layout

/-- The same of what stands in the place of the directory of a user. -/
def UserUnsafe (layout : QuadletInstallLayout) (uid : UInt32) (s : System) : Prop :=
  ∃ node, s.sub (uidString uid) = some node ∧ ¬ node.RealDirectory layout

/-- A directory with the required owner that is not writable by others. -/
def Node.Private (layout : QuadletInstallLayout) (node : Node) : Prop :=
  node.RealDirectory layout ∧ node.mode &&& 0o022 = 0

/-- Both directories are real directories, and private. -/
structure SafeTree (layout : QuadletInstallLayout) (uid : UInt32) (s : System) : Prop where
  noLink : s.rootLink = none
  root : ∃ node, s.root = some node ∧ node.Private layout
  user : ∃ node, s.sub (uidString uid) = some node ∧ node.Private layout

/-- The calls that create, rename or remove an entry of an open directory. -/
def Sys.changesEntry : Sys → Bool
  | .openat _ _ flags => flags.creat
  | .mkdirat _ _ _ => true
  | .renameat _ _ _ _ => true
  | .unlinkat _ _ => true
  | _ => false

/-- A path to an entry of a user directory. -/
def Place.isEntry : Place → Bool
  | .entry _ _ => true
  | _ => false

/-- The calls that touch a Quadlet file, or the temporary file beside it. -/
def Sys.touchesFile (K : Kernel) : Sys → Bool
  | .lstat path => (K.locate path).isEntry
  | .openPath path _ => (K.locate path).isEntry
  | .fstat _ => true
  | .read _ _ => true
  | .write _ _ => true
  | o => o.changesEntry

/-- What is asked of a run: with an unsafe directory it fails and changes nothing in it, and when a
Quadlet file is touched both directories are safe. -/
structure SafelyDone (K : Kernel) (layout : QuadletInstallLayout) (uid : UInt32) (w : World)
    (tr : Trace Sys.Resp World Choice) (r : Result Outcome) : Prop where
  root : RootUnsafe layout w.toSystem → (∃ e, r = .error e) ∧ ∀ e ∈ tr,
    e.op.changesEntry = false ∧ e.after.sub = e.before.sub ∧ e.after.entry = e.before.entry
  user : UserUnsafe layout uid w.toSystem → (∃ e, r = .error e) ∧ ∀ e ∈ tr,
    e.op.changesEntry = false ∧ e.after.entry = e.before.entry
  file : ∀ e ∈ tr, e.op.touchesFile K = true → SafeTree layout uid e.before.toSystem

/-- The admin root is a link that its path leads through, since it goes on behind the link, to a
directory that passes for it; what stands at the name of the user in it, if anything does, passes as
well. -/
structure FollowedLink (K : Kernel) (layout : QuadletInstallLayout) (uid : UInt32) (s : System) :
    Prop where
  follows : PosixPath.followsLast K.adminRoot = true
  link : s.rootLink ≠ none
  root : ∃ node, s.root = some node ∧ node.RealDirectory layout
  user : ¬ UserUnsafe layout uid s

/-! ### The calls about directories -/

section

variable {K : Kernel} {t : ℕ} {s s' : System}

theorem System.step_createDirectories {path : PosixPath} {c : Choice} {r : Except Errno Unit}
    (h : s.step K t (.createDirectories path) c = some (r, s')) :
    (∃ e, r = .error e ∧ s' = s) ∨ s.createDirectories K t (K.locate path) = some (r, s') := by
  rcases failOr_eq_some.1 h with ⟨e, -, -, rfl, rfl⟩ | ⟨-, h⟩
  · exact .inl ⟨e, rfl, rfl⟩
  · exact .inr h

theorem System.step_chmod {path : PosixPath} {mode : ℕ} {c : Choice} {r : Except Errno Unit}
    (h : s.step K t (.chmod path mode) c = some (r, s')) :
    (∃ e, r = .error e ∧ s' = s) ∨ s.setMode (K.locate path).directory mode = some (r, s') := by
  rcases failOr_eq_some.1 h with ⟨e, -, -, rfl, rfl⟩ | ⟨-, h⟩
  · exact .inl ⟨e, rfl, rfl⟩
  · exact .inr h

/-- `lstat` of a place in the tree finds what stands there. -/
theorem System.step_lstat {path : PosixPath} (hpath : K.locate path ≠ .outside) {c : Choice}
    {r : Except Errno Stat} (h : s.step K t (.lstat path) c = some (r, s')) :
    s' = s ∧ ((∃ e, r = .error e) ∨ s.lstatAt K (K.locate path) = some r) := by
  simp only [step] at h
  split at h
  · rw [if_neg hpath] at h
    simp at h
  · obtain ⟨rfl, ⟨e, -, -, rfl⟩ | ⟨-, h⟩⟩ := failOrFind_eq_some.1 h
    · exact ⟨rfl, .inl ⟨e, rfl⟩⟩
    · exact ⟨rfl, .inr h⟩

/-- What `lstat` tells of a directory that passes. -/
def Stat.RealDirectory (layout : QuadletInstallLayout) (st : Stat) : Prop :=
  st.kind = .directory ∧ (∀ uid ∈ layout.requiredOwnerUid, st.uid = uid) ∧
    ∀ gid ∈ layout.requiredOwnerGid, st.gid = gid

/-- The three checks behind `lstat`. -/
theorem realDirectory_of_checks {layout : QuadletInstallLayout} {st : Stat}
    (hkind : ¬ (st.kind = .symlink ∨ st.kind ≠ .directory))
    (huid : ¬ ∃ uid ∈ layout.requiredOwnerUid, st.uid ≠ uid)
    (hgid : ¬ ∃ gid ∈ layout.requiredOwnerGid, st.gid ≠ gid) : st.RealDirectory layout := by
  refine ⟨?_, ?_, ?_⟩
  · by_contra hne
    exact hkind (.inr hne)
  · intro uid hmem
    by_contra hne
    exact huid ⟨uid, hmem, hne⟩
  · intro gid hmem
    by_contra hne
    exact hgid ⟨gid, hmem, hne⟩

/-- The calls that `ensure_directory_safe` makes. -/
def DirectoryCall (path : PosixPath) : Sys → Prop
  | .createDirectories p => p = path
  | .lstat p => p = path
  | .chmod p _ => p = path
  | _ => False

theorem ensureDirectorySafe_calls (dir : PosixPath) (layout : QuadletInstallLayout) :
    (ensureDirectorySafe dir layout).run.Calls fun o _ => DirectoryCall (cStr dir) o := by
  refine calls_exceptT_bind (calls_attempt (calls_sys rfl)) fun _ => ?_
  refine calls_exceptT_bind (calls_attempt (calls_sys rfl)) fun st => ?_
  refine calls_exceptT_bind trivial fun _ => calls_exceptT_bind trivial fun _ => ?_
  refine calls_exceptT_bind trivial fun _ => ?_
  refine calls_exceptT_bind (calls_attempt (calls_sys rfl)) fun _ => ?_
  exact calls_exceptT_bind (calls_attempt (calls_sys rfl)) fun st => trivial

theorem DirectoryCall.changesEntry {path : PosixPath} {o : Sys} (h : DirectoryCall path o) :
    o.changesEntry = false := by
  cases o <;> first | rfl | exact h.elim

theorem DirectoryCall.touchesFile {path : PosixPath} {o : Sys} (h : DirectoryCall path o)
    (hpath : (K.locate path).isEntry = false) : o.touchesFile K = false := by
  cases o with
  | lstat p =>
      obtain rfl : p = path := h
      exact hpath
  | createDirectories p => rfl
  | chmod p mode => rfl
  | _ => exact h.elim

theorem System.Minor.entry_eq (h : System.Minor t s s') : s'.entry = s.entry := by
  cases h <;> rfl

/-- What the calls about a directory leave alone. -/
structure DirectoryFrame (place : Place) (s s' : System) : Prop where
  rootLink : s'.rootLink = s.rootLink
  entry : s'.entry = s.entry
  sub : (∀ dir, place ≠ .sub dir) → s'.sub = s.sub
  root : ∀ dir, place = .sub dir → ∀ node, s.root = some node → s'.root = some node

theorem DirectoryFrame.refl (place : Place) (s : System) : DirectoryFrame place s s :=
  ⟨rfl, rfl, fun _ => rfl, fun _ _ _ h => h⟩

theorem System.createDirectories_frame {place : Place} {r : Except Errno Unit}
    (h : s.createDirectories K t place = some (r, s')) : DirectoryFrame place s s' := by
  cases place with
  | root =>
      simp only [createDirectories] at h
      repeat' split at h
      all_goals simp only [Option.some.injEq, Prod.mk.injEq, reduceCtorEq] at h
      all_goals obtain ⟨-, rfl⟩ := h
      · exact ⟨rfl, rfl, fun _ => rfl, fun _ hdir => by cases hdir⟩
      · exact .refl _ _
  | sub dir =>
      simp only [createDirectories] at h
      split at h
      · rename_i hroot
        split at h
        · obtain ⟨-, rfl⟩ := Prod.mk.inj (Option.some.inj h)
          refine ⟨rfl, rfl, (fun hdir => absurd rfl (hdir _)), fun _ _ node hnode => ?_⟩
          simp [hroot] at hnode
        · cases h
      · repeat' split at h
        all_goals simp only [Option.some.injEq, Prod.mk.injEq, reduceCtorEq] at h
        all_goals obtain ⟨-, rfl⟩ := h
        · exact ⟨rfl, rfl, (fun hdir => absurd rfl (hdir _)), fun _ _ _ hnode => hnode⟩
        · exact .refl _ _
  | outside =>
      obtain ⟨-, rfl⟩ := Prod.mk.inj (Option.some.inj h)
      exact .refl _ _
  | nowhere => cases h
  | entry dir name => cases h

theorem System.setMode_frame {place : Place} {mode : ℕ} {r : Except Errno Unit}
    (h : s.setMode place.directory mode = some (r, s')) : DirectoryFrame place s s' := by
  cases place with
  | root =>
      obtain ⟨-, rfl⟩ := Prod.mk.inj (Option.some.inj h)
      exact ⟨rfl, rfl, fun _ => rfl, fun _ hdir => by cases hdir⟩
  | sub dir =>
      obtain ⟨-, rfl⟩ := Prod.mk.inj (Option.some.inj h)
      exact ⟨rfl, rfl, (fun hdir => absurd rfl (hdir _)), fun _ _ _ hnode => hnode⟩
  | outside =>
      obtain ⟨-, rfl⟩ := Prod.mk.inj (Option.some.inj h)
      exact .refl _ _
  | nowhere => cases h
  | entry dir name => cases h

/-- **A call about a directory** leaves the entries and the rest of the tree alone. -/
theorem DirectoryCall.frame {path : PosixPath} (hpath : K.locate path ≠ .outside) {o : Sys}
    {c : Choice} {r : o.Resp} (ho : DirectoryCall path o)
    (h : s.step K t o c = some (r, s')) : DirectoryFrame (K.locate path) s s' := by
  cases o with
  | createDirectories p =>
      obtain rfl : p = path := ho
      rcases System.step_createDirectories h with ⟨e, -, rfl⟩ | h
      · exact .refl _ _
      · exact System.createDirectories_frame h
  | lstat p =>
      obtain rfl : p = path := ho
      obtain ⟨rfl, -⟩ := System.step_lstat hpath h
      exact .refl _ _
  | chmod p mode =>
      obtain rfl : p = path := ho
      rcases System.step_chmod h with ⟨e, -, rfl⟩ | h
      · exact .refl _ _
      · exact System.setMode_frame h
  | _ => exact ho.elim

end

/-! ### Making sure of a directory -/

section

variable {K : Kernel} {t : ℕ} {w w' : World} {tr : Trace Sys.Resp World Choice}
variable {layout : QuadletInstallLayout} {dir : PosixPath} {uid : UInt32}

/-- The events of a run of `ensure_directory_safe`, with what they leave alone. -/
theorem exec_ensureDirectorySafe_frame {r : Result Unit} (hdir : K.locate (cStr dir) ≠ .outside)
    (h : Exec K.machine t w (ensureDirectorySafe dir layout).run tr w' r) :
    (∀ e ∈ tr, DirectoryCall (cStr dir) e.op ∧
      DirectoryFrame (K.locate (cStr dir)) e.before.toSystem e.after.toSystem) := by
  intro e he
  have hcall := exec_calls h (ensureDirectorySafe_calls dir layout) e he
  have hstep := Kernel.machine_step.1 (exec_steps h e he)
  exact ⟨hcall, hcall.frame hdir hstep⟩

/-- **The runs that succeed**: the directory is created if need be, `lstat` finds a real one, and
its mode is set. -/
theorem exec_ensureDirectorySafe_ok (hdir : K.locate (cStr dir) ≠ .outside)
    (h : Exec K.machine t w (ensureDirectorySafe dir layout).run tr w' (.ok ())) :
    ∃ (w₁ : World) (st : Stat),
      w.createDirectories K t (K.locate (cStr dir)) = some (.ok (), w₁.toSystem) ∧
      w₁.lstatAt K (K.locate (cStr dir)) = some (.ok st) ∧ st.RealDirectory layout ∧
      w₁.setMode (K.locate (cStr dir)).directory 0o755 = some (.ok (), w'.toSystem) := by
  simp only [ensureDirectorySafe, exec_bind_ok, exec_attempt_ok, exec_rejectIf_ok] at h
  obtain ⟨_, w₁, _, _, hmake, ⟨_, w₂, st, _, hstat, ⟨_, _, _, _, ⟨-, rfl, hkind⟩,
    ⟨_, _, _, _, ⟨-, rfl, huid⟩, ⟨_, _, _, _, ⟨-, rfl, hgid⟩, ⟨_, w₃, _, _, hmode,
    ⟨_, w₄, st', _, hstat', ⟨-, rfl, -⟩, -⟩, -⟩, -⟩, -⟩, -⟩, -⟩, -⟩ := h
  obtain ⟨c₁, hmake, -⟩ := exec_sys.1 hmake
  rcases System.step_createDirectories (Kernel.machine_step.1 hmake) with ⟨e, he, -⟩ | hmake
  · cases he
  obtain ⟨c₂, hstat, -⟩ := exec_sys.1 hstat
  obtain ⟨hw₂, ⟨e, he⟩ | hstat⟩ := System.step_lstat hdir (Kernel.machine_step.1 hstat)
  · cases he
  obtain rfl := World.eq_of_toSystem hw₂
  obtain ⟨c₃, hmode, -⟩ := exec_sys.1 hmode
  rcases System.step_chmod (Kernel.machine_step.1 hmode) with ⟨e, he, -⟩ | hmode
  · cases he
  obtain ⟨c₄, hstat', -⟩ := exec_sys.1 hstat'
  obtain ⟨hw₄, -⟩ := System.step_lstat hdir (Kernel.machine_step.1 hstat')
  obtain rfl := World.eq_of_toSystem hw₄
  exact ⟨_, st, hmake, hstat, realDirectory_of_checks hkind huid hgid, hmode⟩

/-- `lstat` finds nothing in a place that would pass, and making the directory changes nothing. -/
structure Refused (K : Kernel) (t : ℕ) (layout : QuadletInstallLayout) (place : Place)
    (s : System) : Prop where
  found : ∀ st, s.lstatAt K place = some (.ok st) → ¬ st.RealDirectory layout
  made : ∀ r s', s.createDirectories K t place = some (r, s') → s' = s

/-- **The runs that are refused**: they fail, and have changed nothing. -/
theorem exec_ensureDirectorySafe_refused {r : Result Unit} (hdir : K.locate (cStr dir) ≠ .outside)
    (hrefused : Refused K t layout (K.locate (cStr dir)) w.toSystem)
    (h : Exec K.machine t w (ensureDirectorySafe dir layout).run tr w' r) :
    (∃ e, r = .error e) ∧ ∀ e ∈ tr, DirectoryCall (cStr dir) e.op ∧ e.after = e.before := by
  have hmade : ∀ {c : Choice} {r : Except Errno Unit} {w₁ : World},
      K.machine.step t w (.createDirectories (cStr dir)) c = some (r, w₁) → w₁ = w := by
    intro c r w₁ hstep
    rcases System.step_createDirectories (Kernel.machine_step.1 hstep) with ⟨e, -, hw⟩ | hmake
    · exact World.eq_of_toSystem hw
    · exact World.eq_of_toSystem (hrefused.made _ _ hmake)
  rw [ensureDirectorySafe, exec_exceptT_bind] at h
  rcases h with ⟨e, rfl, h⟩ | ⟨tr₁, w₁, u, tr₂, hmake, h, rfl⟩
  · obtain ⟨n, -, h⟩ := exec_attempt_error.1 h
    obtain ⟨c, hstep, rfl⟩ := exec_sys.1 h
    refine ⟨⟨e, rfl⟩, ?_⟩
    rw [List.forall_mem_singleton]
    exact ⟨rfl, hmade hstep⟩
  obtain ⟨c, hstep, rfl⟩ := exec_sys.1 (exec_attempt_ok.1 hmake)
  obtain rfl := hmade hstep
  rw [exec_exceptT_bind] at h
  -- the call of `lstat` fails, or one of the three checks behind it does
  suffices hrest : (∃ e, r = .error e) ∧ ∀ e ∈ tr₂, DirectoryCall (cStr dir) e.op ∧
      e.after = e.before by
    refine ⟨hrest.1, ?_⟩
    rw [List.forall_mem_append, List.forall_mem_singleton]
    exact ⟨⟨rfl, rfl⟩, hrest.2⟩
  rcases h with ⟨e, rfl, h⟩ | ⟨tr₁, w₂, st, tr₃, hstat, h, rfl⟩
  · obtain ⟨n, -, h⟩ := exec_attempt_error.1 h
    obtain ⟨c, hstep, rfl⟩ := exec_sys.1 h
    refine ⟨⟨e, rfl⟩, ?_⟩
    rw [List.forall_mem_singleton]
    exact ⟨rfl, World.eq_of_toSystem (System.step_lstat hdir (Kernel.machine_step.1 hstep)).1⟩
  obtain ⟨c, hstep, rfl⟩ := exec_sys.1 (exec_attempt_ok.1 hstat)
  obtain ⟨hw, ⟨e, he⟩ | hfound⟩ := System.step_lstat hdir (Kernel.machine_step.1 hstep)
  · cases he
  obtain rfl := World.eq_of_toSystem hw
  have hreal := hrefused.found st hfound
  suffices hrest : (∃ e, r = .error e) ∧ tr₃ = [] by
    refine ⟨hrest.1, ?_⟩
    rw [hrest.2, List.append_nil, List.forall_mem_singleton]
    exact ⟨rfl, rfl⟩
  simp only [exec_rejectIf_bind] at h
  rcases h with ⟨-, htr, -, hr⟩ | ⟨hkind, ⟨-, htr, -, hr⟩ | ⟨huid, ⟨-, htr, -, hr⟩ | ⟨hgid, -⟩⟩⟩
  · exact ⟨⟨_, hr⟩, htr⟩
  · exact ⟨⟨_, hr⟩, htr⟩
  · exact ⟨⟨_, hr⟩, htr⟩
  · exact absurd (realDirectory_of_checks hkind huid hgid) hreal

/-! ### The two directories -/

theorem locate_adminUserRoot (hroot : layout.adminUserRoot = K.adminRoot)
    (hne : K.adminRoot ≠ []) : K.locate (cStr layout.adminUserRoot) = .root := by
  rw [hroot, cStr_eq_self K.noNul, Kernel.locate, if_neg hne, if_pos rfl]

/-- An unsafe admin root is refused, unless its path leads through a link. -/
theorem refused_root (hroot : layout.adminUserRoot = K.adminRoot)
    (hbad₀ : RootUnsafe layout w.toSystem)
    (hlink : PosixPath.followsLast K.adminRoot = true → w.rootLink ≠ none →
      ¬ ∃ node, w.root = some node ∧ node.RealDirectory layout) :
    Refused K t layout (K.locate (cStr layout.adminUserRoot)) w.toSystem := by
  by_cases hne : K.adminRoot = []
  · rw [hroot, cStr_eq_self K.noNul, Kernel.locate, if_pos hne]
    refine ⟨fun st hst => ?_, fun r s' h => ?_⟩
    · simp [System.lstatAt] at hst
    · simp [System.createDirectories] at h
  rw [locate_adminUserRoot hroot hne]
  refine ⟨fun st hst hreal => ?_, fun r s' h => ?_⟩
  · -- a look at the root finds something else than the directory
    simp only [System.lstatAt] at hst
    split at hst
    · rename_i hsees
      split at hst
      · simp at hst
      · rename_i node hnode
        obtain rfl : node.stat = st := by simpa using hst
        rcases hbad₀ with hl | ⟨node', hnode', hbad⟩
        · rw [Kernel.seesRoot, Bool.or_eq_true, Option.isNone_iff_eq_none,
            or_iff_right hl] at hsees
          exact hlink hsees hl ⟨node, hnode, hreal⟩
        · obtain rfl : node = node' := Option.some.inj (hnode.symm.trans hnode')
          exact hbad hreal
    · obtain ⟨node, hnode, hstat⟩ := Option.map_eq_some_iff.1 hst
      obtain rfl : node.stat = st := by simpa using hstat
      have hkind : node.kind = .directory := hreal.1
      rw [w.wellFormed.link_kind hnode] at hkind
      cases hkind
  · -- and making it changes nothing, since there is something in its place
    simp only [System.createDirectories] at h
    split at h
    · rename_i hnone
      split at h
      · rename_i hl
        rcases hbad₀ with hl' | ⟨node, hnode, -⟩
        · exact absurd (Option.isNone_iff_eq_none.1 hl) hl'
        · simp [hnone] at hnode
      · cases h
    · split at h
      · exact (Prod.mk.inj (Option.some.inj h)).2.symm
      · cases h

/-- What stands unsafely in the place of a user directory is refused. -/
theorem refused_user (hroot : layout.adminUserRoot = K.adminRoot)
    (hbad₀ : UserUnsafe layout uid w.toSystem) :
    Refused K t layout (K.locate (cStr (layout.userDirectory uid))) w.toSystem := by
  obtain ⟨node, hnode, hbad⟩ := hbad₀
  have hsome : w.sub (uidString uid) ≠ none := by simp [hnode]
  have hdir : w.rootIsDir = true := w.wellFormed.sub_root hsome
  obtain ⟨root, hroot', hkind⟩ := System.isDirectory_eq_true.1 hdir
  rw [locate_userDirectory hroot]
  refine ⟨fun st hst hreal => ?_, fun r s' h => ?_⟩
  · have hfind : w.findSub (uidString uid) = some (.ok node) := by
      simp [System.findSub, hroot', hkind, hnode]
    obtain rfl : node.stat = st := by simpa [System.lstatAt, hfind, Except.map] using hst
    exact hbad hreal
  · simp only [System.createDirectories, hroot', hnode, hkind, ne_eq, not_true_eq_false,
      if_false] at h
    split at h
    · exact (Prod.mk.inj (Option.some.inj h)).2.symm
    · cases h

/-- The path of the admin root leads nowhere else. -/
theorem locate_adminUserRoot_or (hroot : layout.adminUserRoot = K.adminRoot) :
    K.locate (cStr layout.adminUserRoot) = .nowhere ∨
      K.locate (cStr layout.adminUserRoot) = .root := by
  by_cases hne : K.adminRoot = []
  · left
    rw [hroot, cStr_eq_self K.noNul, Kernel.locate, if_pos hne]
  · exact .inr (locate_adminUserRoot hroot hne)

theorem mode_private : (0o755 : ℕ) &&& 0o022 = 0 := by decide

theorem Node.private_of_realDirectory {node : Node} (h : node.RealDirectory layout) :
    Node.Private layout { node with mode := 0o755 } := ⟨h, mode_private⟩

/-- **The admin root after a success** is a private directory. -/
theorem exec_ensureDirectorySafe_root (hroot : layout.adminUserRoot = K.adminRoot)
    (h : Exec K.machine t w (ensureDirectorySafe layout.adminUserRoot layout).run tr w' (.ok ())) :
    ∃ node, w'.root = some node ∧ node.Private layout := by
  rcases locate_adminUserRoot_or hroot with hplace | hplace
  · obtain ⟨w₁, st, hmake, -⟩ := exec_ensureDirectorySafe_ok (by simp [hplace]) h
    simp [hplace, System.createDirectories] at hmake
  · obtain ⟨w₁, st, -, hstat, hreal, hmode⟩ := exec_ensureDirectorySafe_ok (by simp [hplace]) h
    rw [hplace] at hstat hmode
    simp only [System.lstatAt] at hstat
    split at hstat
    · split at hstat
      · simp at hstat
      · rename_i node hnode
        obtain rfl : node.stat = st := by simpa using hstat
        have hw : w₁.setDirs _ _ = w'.toSystem := (Prod.mk.inj (Option.some.inj hmode)).2
        refine ⟨{ node with mode := 0o755 }, ?_, Node.private_of_realDirectory hreal⟩
        rw [← hw, System.setDirs, hnode]
        rfl
    · obtain ⟨node, hnode, hstat⟩ := Option.map_eq_some_iff.1 hstat
      obtain rfl : node.stat = st := by simpa using hstat
      have hkind : node.kind = .directory := hreal.1
      rw [w₁.wellFormed.link_kind hnode] at hkind
      cases hkind

/-- **The directory of the user after a success**. -/
theorem exec_ensureDirectorySafe_user (hroot : layout.adminUserRoot = K.adminRoot)
    (h : Exec K.machine t w (ensureDirectorySafe (layout.userDirectory uid) layout).run tr w'
      (.ok ())) :
    ∃ node, w'.sub (uidString uid) = some node ∧ node.Private layout := by
  have hplace : K.locate (cStr (layout.userDirectory uid)) = .sub (uidString uid) :=
    locate_userDirectory hroot
  obtain ⟨w₁, st, -, hstat, hreal, hmode⟩ := exec_ensureDirectorySafe_ok (by simp [hplace]) h
  rw [hplace] at hstat hmode
  obtain ⟨found, hfound, hst⟩ := Option.map_eq_some_iff.1 hstat
  cases found with
  | error e => cases hst
  | ok node =>
      obtain rfl : node.stat = st := by simpa [Except.map] using hst
      have hnode : w₁.sub (uidString uid) = some node := by
        unfold System.findSub at hfound
        repeat' split at hfound
        all_goals simp_all
      have hw : w₁.setDirs _ _ = w'.toSystem := (Prod.mk.inj (Option.some.inj hmode)).2
      refine ⟨{ node with mode := 0o755 }, ?_, Node.private_of_realDirectory hreal⟩
      rw [← hw, System.setDirs, hnode]
      simp

/-! ### The admin tree -/

/-- The events of `ensure_admin_tree` make no entry, touch no file and keep the entries. -/
theorem exec_ensureAdminTree_events (hroot : layout.adminUserRoot = K.adminRoot) {r : Result Unit}
    (h : Exec K.machine t w (ensureAdminTree uid layout).run tr w' r) :
    ∀ e ∈ tr, e.op.changesEntry = false ∧ e.op.touchesFile K = false ∧
      e.after.entry = e.before.entry := by
  have hevents : ∀ {dir : PosixPath} {tr : Trace Sys.Resp World Choice} {w w' : World}
      {r : Result Unit}, K.locate (cStr dir) ≠ .outside → (K.locate (cStr dir)).isEntry = false →
      Exec K.machine t w (ensureDirectorySafe dir layout).run tr w' r →
      ∀ e ∈ tr, e.op.changesEntry = false ∧ e.op.touchesFile K = false ∧
        e.after.entry = e.before.entry := by
    intro dir tr w w' r hout hentry h e he
    obtain ⟨hcall, hframe⟩ := exec_ensureDirectorySafe_frame hout h e he
    exact ⟨hcall.changesEntry, hcall.touchesFile hentry, hframe.entry⟩
  have hrootPlace : K.locate (cStr layout.adminUserRoot) ≠ .outside ∧
      (K.locate (cStr layout.adminUserRoot)).isEntry = false := by
    rcases locate_adminUserRoot_or hroot with hplace | hplace <;> simp [hplace, Place.isEntry]
  have huserPlace : K.locate (cStr (layout.userDirectory uid)) = .sub (uidString uid) :=
    locate_userDirectory hroot
  rcases exec_exceptT_bind.1 h with ⟨e, rfl, h⟩ | ⟨tr₁, w₁, u, tr₂, h₁, h₂, rfl⟩
  · exact hevents hrootPlace.1 hrootPlace.2 ‹_›
  · rw [List.forall_mem_append]
    exact ⟨hevents hrootPlace.1 hrootPlace.2 h₁,
      hevents (by simp [huserPlace]) (by simp [huserPlace, Place.isEntry]) h₂⟩

/-- What making sure of the admin root leaves as it is. -/
theorem exec_ensureDirectorySafe_root_keeps (hroot : layout.adminUserRoot = K.adminRoot)
    {r : Result Unit}
    (h : Exec K.machine t w (ensureDirectorySafe layout.adminUserRoot layout).run tr w' r) :
    (∀ e ∈ tr, e.after.sub = e.before.sub) ∧ w'.sub = w.sub ∧ w'.rootLink = w.rootLink := by
  have hplace : K.locate (cStr layout.adminUserRoot) ≠ .outside ∧
      ∀ dir, K.locate (cStr layout.adminUserRoot) ≠ .sub dir := by
    rcases locate_adminUserRoot_or hroot with hplace | hplace <;> simp [hplace]
  refine ⟨fun e he => ?_, ?_⟩
  · exact (exec_ensureDirectorySafe_frame hplace.1 h e he).2.sub hplace.2
  · refine (exec_invariant (P := fun w' => w'.sub = w.sub ∧ w'.rootLink = w.rootLink) ?_
      (ensureDirectorySafe_calls _ _) h ⟨rfl, rfl⟩).2
    intro w₁ w₂ o c r ho hstep hw
    have hframe := ho.frame hplace.1 (Kernel.machine_step.1 hstep)
    exact ⟨(hframe.sub hplace.2).trans hw.1, hframe.rootLink.trans hw.2⟩

/-- What making sure of the directory of a user leaves as it is. -/
theorem exec_ensureDirectorySafe_user_keeps (hroot : layout.adminUserRoot = K.adminRoot)
    {r : Result Unit} {node : Node} (hnode : w.root = some node)
    (h : Exec K.machine t w (ensureDirectorySafe (layout.userDirectory uid) layout).run tr w' r) :
    w'.root = some node ∧ w'.rootLink = w.rootLink := by
  have hplace : K.locate (cStr (layout.userDirectory uid)) = .sub (uidString uid) :=
    locate_userDirectory hroot
  refine (exec_invariant (P := fun w' => w'.root = some node ∧ w'.rootLink = w.rootLink) ?_
    (ensureDirectorySafe_calls _ _) h ⟨hnode, rfl⟩).2
  intro w₁ w₂ o c r ho hstep hw
  have hframe := ho.frame (by simp [hplace]) (Kernel.machine_step.1 hstep)
  exact ⟨hframe.root _ hplace _ hw.1, hframe.rootLink.trans hw.2⟩

/-- **An unsafe admin root** ends `ensure_admin_tree` before anything is made in it. -/
theorem exec_ensureAdminTree_rootUnsafe (hroot : layout.adminUserRoot = K.adminRoot)
    (hlink : ¬ FollowedLink K layout uid w.toSystem) (hbad₀ : RootUnsafe layout w.toSystem)
    {r : Result Unit} (h : Exec K.machine t w (ensureAdminTree uid layout).run tr w' r) :
    (∃ e, r = .error e) ∧ ∀ e ∈ tr, e.after.sub = e.before.sub := by
  rw [ensureAdminTree, exec_exceptT_bind] at h
  have hrootPlace : K.locate (cStr layout.adminUserRoot) ≠ .outside := by
    rcases locate_adminUserRoot_or hroot with hplace | hplace <;> simp [hplace]
  rcases h with ⟨e, rfl, h⟩ | ⟨tr₁, w₁, u, tr₂, h₁, h₂, rfl⟩
  · exact ⟨⟨e, rfl⟩, (exec_ensureDirectorySafe_root_keeps hroot h).1⟩
  obtain ⟨hevents, hsub, -⟩ := exec_ensureDirectorySafe_root_keeps hroot h₁
  by_cases hfollowed : PosixPath.followsLast K.adminRoot = true ∧ w.rootLink ≠ none ∧
      ∃ node, w.root = some node ∧ node.RealDirectory layout
  · -- the root has passed for what its link leads to, but the directory of the user does not pass
    obtain ⟨hfollows, hl, hreal⟩ := hfollowed
    have huser : UserUnsafe layout uid w.toSystem := by
      by_contra huser
      exact hlink ⟨hfollows, hl, hreal, huser⟩
    have huser₁ : UserUnsafe layout uid w₁.toSystem := by
      rw [UserUnsafe, hsub]
      exact huser
    have huserPlace : K.locate (cStr (layout.userDirectory uid)) = .sub (uidString uid) :=
      locate_userDirectory hroot
    obtain ⟨herror, hsame⟩ := exec_ensureDirectorySafe_refused (by simp [huserPlace])
      (refused_user hroot huser₁) h₂
    refine ⟨herror, ?_⟩
    rw [List.forall_mem_append]
    exact ⟨hevents, fun e he => by rw [(hsame e he).2]⟩
  · have hrefused := refused_root (t := t) hroot hbad₀ fun hfollows hl hreal =>
      hfollowed ⟨hfollows, hl, hreal⟩
    obtain ⟨⟨e, he⟩, -⟩ := exec_ensureDirectorySafe_refused hrootPlace hrefused h₁
    cases he

/-- **What stands unsafely in the place of the directory of the user** ends it as well. -/
theorem exec_ensureAdminTree_userUnsafe (hroot : layout.adminUserRoot = K.adminRoot)
    (hbad₀ : UserUnsafe layout uid w.toSystem) {r : Result Unit}
    (h : Exec K.machine t w (ensureAdminTree uid layout).run tr w' r) : ∃ e, r = .error e := by
  rw [ensureAdminTree, exec_exceptT_bind] at h
  rcases h with ⟨e, rfl, h⟩ | ⟨tr₁, w₁, u, tr₂, h₁, h₂, rfl⟩
  · exact ⟨e, rfl⟩
  obtain ⟨-, hsub, -⟩ := exec_ensureDirectorySafe_root_keeps hroot h₁
  have hbad₁ : UserUnsafe layout uid w₁.toSystem := by
    rw [UserUnsafe, hsub]
    exact hbad₀
  have huserPlace : K.locate (cStr (layout.userDirectory uid)) = .sub (uidString uid) :=
    locate_userDirectory hroot
  exact (exec_ensureDirectorySafe_refused (by simp [huserPlace]) (refused_user hroot hbad₁)
    h₂).1

/-- **After a success** both directories are safe. -/
theorem exec_ensureAdminTree_ok (hroot : layout.adminUserRoot = K.adminRoot)
    (hlink : ¬ FollowedLink K layout uid w.toSystem)
    (h : Exec K.machine t w (ensureAdminTree uid layout).run tr w' (.ok ())) :
    SafeTree layout uid w'.toSystem := by
  have hnoLink : w.rootLink = none := by
    by_contra hl
    obtain ⟨⟨e, he⟩, -⟩ := exec_ensureAdminTree_rootUnsafe hroot hlink (.inl hl) h
    cases he
  obtain ⟨tr₁, w₁, u, tr₂, h₁, h₂, rfl⟩ := exec_bind_ok.1 h
  obtain ⟨node, hnode, hprivate⟩ := exec_ensureDirectorySafe_root hroot h₁
  obtain ⟨-, -, hlink₁⟩ := exec_ensureDirectorySafe_root_keeps hroot h₁
  obtain ⟨hnode', hlink₂⟩ := exec_ensureDirectorySafe_user_keeps hroot hnode h₂
  exact ⟨by rw [hlink₂, hlink₁, hnoLink], ⟨node, hnode', hprivate⟩,
    exec_ensureDirectorySafe_user hroot h₂⟩

end

/-! ### What comes after it -/

/-- The calls that can make a directory or set its mode. -/
def Sys.changesDirectory : Sys → Bool
  | .createDirectories _ => true
  | .chmod _ _ => true
  | .fchmod _ _ => true
  | .mkdirat _ _ _ => true
  | _ => false

theorem Sys.changesDirectory_of_isFileCall {o : Sys} (h : o.isFileCall = true) :
    o.changesDirectory = false := by
  cases o <;> first | rfl | cases h

section

variable {K : Kernel} {t : ℕ} {s s' : System}

/-- The same directories, and the same link. -/
structure SameDirectories (s s' : System) : Prop where
  rootLink : s'.rootLink = s.rootLink
  root : s'.root = s.root
  sub : s'.sub = s.sub

theorem SameDirectories.refl (s : System) : SameDirectories s s := ⟨rfl, rfl, rfl⟩

theorem sameDirectories_opened {found : Except Errno OfdTarget} {r : Except Errno Fd}
    (h : s.opened t found = (r, s')) : SameDirectories s s' := by
  cases found with
  | ok target =>
      obtain ⟨-, rfl⟩ := Prod.mk.inj h
      exact ⟨rfl, rfl, rfl⟩
  | error e =>
      obtain ⟨-, rfl⟩ := Prod.mk.inj h
      exact .refl _

theorem sameDirectories_openat (hs : s.WellFormed) {dir : Fd} {name : Bytes} {flags : OpenFlags}
    {c : Choice} {r : Except Errno Fd}
    (h : s.step K t (.openat dir name flags) c = some (r, s')) : SameDirectories s s' := by
  cases hcreat : flags.creat with
  | true =>
      rcases System.step_openat_creat hs hcreat h with
        ⟨e, -, rfl⟩ | ⟨sub, -, -, ⟨-, -, rfl⟩ | ⟨i, -, -, rfl⟩⟩
      · exact .refl _
      · exact ⟨rfl, rfl, rfl⟩
      · exact ⟨rfl, rfl, rfl⟩
  | false =>
      rcases System.failOr_eq_some.1 h with ⟨e, -, -, -, rfl⟩ | ⟨-, h⟩
      · exact .refl _
      unfold System.openat System.openatInside at h
      rw [hcreat] at h
      repeat' split at h
      all_goals simp only [Bool.false_eq_true, false_and, reduceCtorEq] at *
      · exact sameDirectories_opened (Option.some.inj h)
      · obtain ⟨found, -, h⟩ := Option.map_eq_some_iff.1 h
        exact sameDirectories_opened h
      · obtain ⟨-, rfl⟩ := Prod.mk.inj (Option.some.inj h)
        exact .refl _
      · exact sameDirectories_opened (Option.some.inj h)

/-- **All other calls** leave the directories as they are. -/
theorem sameDirectories_step (hs : s.WellFormed) {o : Sys} (ho : o.changesDirectory = false)
    {c : Choice} {r : o.Resp} (h : s.step K t o c = some (r, s')) : SameDirectories s s' := by
  by_cases hasks : o.asks = true
  · obtain rfl := System.step_asks hasks h
    exact .refl _
  cases o with
  | openPath path flags =>
      rcases System.step_openPath h with ⟨e, -, rfl⟩ | ⟨target, -, -, rfl⟩
      · exact .refl _
      · exact ⟨rfl, rfl, rfl⟩
  | openat dir name flags => exact sameDirectories_openat hs h
  | write fd data =>
      rcases System.step_write h with ⟨e, -, rfl⟩ | ⟨i, offset, owner, n, -, -, -, -, rfl⟩
      · exact .refl _
      · exact ⟨rfl, rfl, rfl⟩
  | read fd count =>
      rcases System.step_read h with ⟨e, -, rfl⟩ | ⟨i, offset, owner, n, -, -, -, -, rfl⟩
      · exact .refl _
      · exact ⟨rfl, rfl, rfl⟩
  | close fd =>
      obtain rfl := System.step_close h
      exact ⟨rfl, rfl, rfl⟩
  | renameat oldDir old newDir new =>
      rcases System.step_renameat h with
        ⟨e, -, rfl⟩ | ⟨dir, i, -, -, -, -, ⟨-, rfl⟩ | ⟨-, rfl⟩⟩
      · exact .refl _
      · exact .refl _
      · exact ⟨rfl, rfl, rfl⟩
  | unlinkat dir name =>
      rcases System.step_unlinkat h with ⟨e, -, rfl, -⟩ | ⟨sub, i, -, -, -, rfl⟩
      · exact .refl _
      · exact ⟨rfl, rfl, rfl⟩
  | flock fd =>
      rcases System.step_flock h with ⟨e, -, rfl⟩ | ⟨i, -, -, ⟨-, rfl⟩ | ⟨-, rfl⟩⟩
      · exact .refl _
      · exact ⟨rfl, rfl, rfl⟩
      · exact .refl _
  | daemonReload target =>
      rcases System.step_daemonReload h with ⟨e, -, rfl⟩ | ⟨-, rfl⟩
      · exact .refl _
      · exact ⟨rfl, rfl, rfl⟩
  | restartUnit target unit =>
      obtain ⟨leavesRunning, -, rfl⟩ := System.step_restartUnit h
      exact ⟨rfl, rfl, rfl⟩
  | _ => first | exact absurd rfl hasks | cases ho

/-- Safe directories stay safe. -/
theorem SafeTree.of_same {layout : QuadletInstallLayout} {uid : UInt32}
    (h : SafeTree layout uid s) (hsame : SameDirectories s s') : SafeTree layout uid s' := by
  obtain ⟨hlink, hroot, hsub⟩ := hsame
  exact ⟨hlink.trans h.noLink, hroot ▸ h.root, hsub ▸ h.user⟩

end

/-! ### The runs of the operations -/

section

variable {K : Kernel} {t : ℕ} {w w' : World} {tr : Trace Sys.Resp World Choice}
variable {layout : QuadletInstallLayout} {installer : QuadletInstaller} {uid : UInt32} {α β : Type}

/-- A run of a function that starts with checks on its arguments and `ensure_admin_tree`: it fails
in one of them, or has made sure of the directories before it goes on. -/
inductive Guarded (K : Kernel) (t : ℕ) (layout : QuadletInstallLayout) (uid : UInt32)
    (w w' : World) :
    Trace Sys.Resp World Choice → Result α → Prop
  | rejected (e : Error) : Guarded K t layout uid w w' [] (.error e)
  | refusedTree {tr : Trace Sys.Resp World Choice} (e : Error)
      (h : Exec K.machine t w (ensureAdminTree uid layout).run tr w' (.error e)) :
      Guarded K t layout uid w w' tr (.error e)
  | safeTree {tr₁ tr₂ : Trace Sys.Resp World Choice} {w₁ : World} {γ : Type} {p : SysProg γ} {c : γ}
      (r : Result α) (h : Exec K.machine t w (ensureAdminTree uid layout).run tr₁ w₁ (.ok ()))
      (hp : FileCalls p) (hrest : Exec K.machine t w₁ p tr₂ w' c) :
      Guarded K t layout uid w w' (tr₁ ++ tr₂) r

theorem guarded_of_exec {check : Result α} {rest : α → Action β} {r : Result β}
    (hrest : ∀ a, FileCalls (rest a).run)
    (h : Exec K.machine t w
      (do let a ← done check; ensureAdminTree uid layout; rest a : Action β).run tr w' r) :
    Guarded K t layout uid w w' tr r := by
  rw [exec_exceptT_bind] at h
  rcases h with ⟨e, rfl, h⟩ | ⟨tr₁, w₁, a, tr₂, hcheck, h, rfl⟩
  · obtain ⟨rfl, -, -⟩ := exec_done.1 h
    exact .rejected e
  obtain ⟨rfl, rfl, -⟩ := exec_done.1 hcheck
  rw [exec_exceptT_bind] at h
  rcases h with ⟨e, rfl, h⟩ | ⟨tr₁, w₁, u, tr₃, htree, h, rfl⟩
  · exact .refusedTree e h
  · rw [List.nil_append]
    exact .safeTree r htree (hrest a) h

/-- The same of a function that only wraps up what another one returns. -/
theorem guarded_map {x : Action α} {f : α → β} {r : Result β}
    (hx : ∀ {tr w' r}, Exec K.machine t w x.run tr w' r → Guarded K t layout uid w w' tr r)
    (h : Exec K.machine t w (do let a ← x; return f a : Action β).run tr w' r) :
    Guarded K t layout uid w w' tr r := by
  rw [exec_exceptT_bind] at h
  rcases h with ⟨e, rfl, h⟩ | ⟨tr₁, w₁, a, tr₂, hok, hret, rfl⟩
  · cases hx h with
    | rejected => exact .rejected e
    | refusedTree _ htree => exact .refusedTree e htree
    | safeTree _ htree hp hrest => exact .safeTree _ htree hp hrest
  · obtain ⟨rfl, rfl, -⟩ := exec_pure.1 hret
    rw [List.append_nil]
    cases hx hok with
    | safeTree _ htree hp hrest => exact .safeTree _ htree hp hrest

/-- **Every operation** makes sure of the directories before it touches a file. -/
theorem exec_perform {operation : Operation} {r : Result Outcome}
    (h : Exec K.machine t w (installer.perform uid operation).run tr w' r) :
    Guarded K t installer.layout uid w w' tr r := by
  cases operation with
  | install quadlet =>
      refine guarded_map (fun h => guarded_of_exec (fun expected => ?_) h) h
      exact calls_exceptT_bind (fileCalls_atomicWriteFile _ _ _) fun _ => trivial
  | remove fileName =>
      refine guarded_map (fun h => guarded_of_exec (fun _ => ?_) h) h
      exact fileCalls_unlinkQuadletFile _
  | snapshot fileName =>
      refine guarded_map (fun h => guarded_of_exec (fun _ => ?_) h) h
      refine calls_exceptT_bind (calls_call rfl) fun found => ?_
      cases found with
      | error e =>
          dsimp only
          split <;> exact trivial
      | ok st => exact calls_exceptT_bind (fileCalls_readRegularFileNoSymlink _ _) fun _ => trivial
  | restore snapshot =>
      refine guarded_map (fun h => guarded_of_exec (fun _ => ?_) h) h
      refine calls_exceptT_bind trivial fun _ => ?_
      split
      · exact fileCalls_atomicWriteFile _ _ _
      · exact fileCalls_unlinkQuadletFile _

/-- **Without a followed link** every run does what is asked of it. -/
theorem safelyDone_of_exec (hroot : installer.layout.adminUserRoot = K.adminRoot)
    (hlink : ¬ FollowedLink K installer.layout uid w.toSystem) {operation : Operation}
    {r : Result Outcome}
    (h : Exec K.machine t w (installer.perform uid operation).run tr w' r) :
    SafelyDone K installer.layout uid w tr r := by
  cases exec_perform h with
  | rejected e =>
      exact ⟨fun _ => ⟨⟨e, rfl⟩, by simp⟩, fun _ => ⟨⟨e, rfl⟩, by simp⟩, by simp⟩
  | refusedTree e htree =>
      have hevents := exec_ensureAdminTree_events hroot htree
      refine ⟨fun hbad₀ => ⟨⟨e, rfl⟩, fun ev hev => ?_⟩,
        fun hbad₀ => ⟨⟨e, rfl⟩, fun ev hev => ?_⟩, fun ev hev htouch => ?_⟩
      · exact ⟨(hevents ev hev).1,
          (exec_ensureAdminTree_rootUnsafe hroot hlink hbad₀ htree).2 ev hev,
          (hevents ev hev).2.2⟩
      · exact ⟨(hevents ev hev).1, (hevents ev hev).2.2⟩
      · rw [(hevents ev hev).2.1] at htouch
        cases htouch
  | @safeTree tr₁ tr₂ w₁ γ p c _ htree hp hrest =>
      have hsafe := exec_ensureAdminTree_ok hroot hlink htree
      -- an unsafe directory would have ended `ensure_admin_tree`
      refine ⟨fun hbad₀ => ?_, fun hbad₀ => ?_, fun ev hev htouch => ?_⟩
      · obtain ⟨⟨e, he⟩, -⟩ := exec_ensureAdminTree_rootUnsafe hroot hlink hbad₀ htree
        cases he
      · obtain ⟨e, he⟩ := exec_ensureAdminTree_userUnsafe hroot hbad₀ htree
        cases he
      · rcases List.mem_append.1 hev with hev | hev
        · rw [(exec_ensureAdminTree_events hroot htree ev hev).2.1] at htouch
          cases htouch
        · have hinv := exec_invariant (P := fun w => SafeTree installer.layout uid w.toSystem)
            (fun {w₂ w₃ o c r} ho hstep hw => hw.of_same
              (sameDirectories_step w₂.wellFormed (Sys.changesDirectory_of_isFileCall ho)
                (Kernel.machine_step.1 hstep))) hp hrest hsafe
          exact (hinv.1 ev hev).1

/-- A run of `ensure_directory_safe` that goes through, from what its calls do. -/
theorem exec_ensureDirectorySafe_intro {dir : PosixPath} {w₁ w₂ : World} {st : Stat}
    (hmake : w.createDirectories K t (K.locate (cStr dir)) = some (.ok (), w₁.toSystem))
    (hstat : w₁.lstatAt K (K.locate (cStr dir)) = some (.ok st)) (hreal : st.RealDirectory layout)
    (hmode : w₁.setMode (K.locate (cStr dir)).directory 0o755 = some (.ok (), w₂.toSystem))
    {st' : Stat} (hstat' : w₂.lstatAt K (K.locate (cStr dir)) = some (.ok st'))
    (hprivate : st'.mode &&& 0o022 = 0) :
    ∃ tr, Exec K.machine t w (ensureDirectorySafe dir layout).run tr w₂ (.ok ()) := by
  have hlstat : ∀ {w : World} {st : Stat},
      w.lstatAt K (K.locate (cStr dir)) = some (.ok st) →
      K.machine.step t w (.lstat (cStr dir)) .go = some (.ok st, w) := by
    intro w st hst
    rw [Kernel.machine_step]
    exact System.failOrFind_eq_some.2 ⟨rfl, .inr ⟨rfl, hst⟩⟩
  have hcalls : ∀ {o : Sys} {w w' : World} {r : o.Resp} {c : Choice},
      K.machine.step t w o c = some (r, w') → ∃ tr, Exec K.machine t w (sys o) tr w' r :=
    fun hstep => ⟨_, exec_sys.2 ⟨_, hstep, rfl⟩⟩
  have hmake' : K.machine.step t w (.createDirectories (cStr dir)) .go = some (.ok (), w₁) :=
    Kernel.machine_step.2 hmake
  have hmode' : K.machine.step t w₁ (.chmod (cStr dir) 0o755) .go = some (.ok (), w₂) :=
    Kernel.machine_step.2 hmode
  obtain ⟨tr₁, h₁⟩ := hcalls hmake'
  obtain ⟨tr₂, h₂⟩ := hcalls (hlstat hstat)
  obtain ⟨tr₃, h₃⟩ := hcalls hmode'
  obtain ⟨tr₄, h₄⟩ := hcalls (hlstat hstat')
  obtain ⟨hkind, huid, hgid⟩ := hreal
  refine ⟨tr₁ ++ (tr₂ ++ (tr₃ ++ (tr₄ ++ []))), ?_⟩
  refine exec_bind_ok.2 ⟨_, _, (), _, exec_attempt_ok.2 h₁, ?_, rfl⟩
  refine exec_bind_ok.2 ⟨_, _, st, _, exec_attempt_ok.2 h₂, ?_, rfl⟩
  refine exec_rejectIf_bind.2 (.inr ⟨by simp [hkind], ?_⟩)
  refine exec_rejectIf_bind.2 (.inr ⟨by simpa using huid, ?_⟩)
  refine exec_rejectIf_bind.2 (.inr ⟨by simpa using hgid, ?_⟩)
  refine exec_bind_ok.2 ⟨_, _, (), _, exec_attempt_ok.2 h₃, ?_, rfl⟩
  refine exec_bind_ok.2 ⟨_, _, st', _, exec_attempt_ok.2 h₄, ?_, rfl⟩
  exact exec_rejectIf_ok.2 ⟨rfl, rfl, by simp [hprivate]⟩

/-- `lstat` can fail for a reason of its own. -/
theorem machine_lstat_fails (path : PosixPath) :
    K.machine.step t w (.lstat path) (.fault EINTR) = some (.error EINTR, w) := by
  rw [Kernel.machine_step]
  have hfault : isFault EINTR = true := by decide
  exact System.failOrFind_eq_some.2 ⟨rfl, .inl ⟨EINTR, rfl, by rw [hfault, Bool.true_or], rfl⟩⟩

/-- Setting the mode of a directory of the tree. -/
theorem exists_setMode {place : Place} (h : place = .root ∨ ∃ dir, place = .sub dir) (mode : ℕ) :
    ∃ w' : World, w.setMode place.directory mode = some (.ok (), w'.toSystem) := by
  rcases h with rfl | ⟨dir, rfl⟩
  · have hset : w.setMode (some .root) mode =
        some (.ok (), w.setDirs (w.root.map fun n => { n with mode := mode }) w.sub) := rfl
    exact ⟨⟨_, (System.setMode_minor (t := 0) w.wellFormed hset).wellFormed w.wellFormed⟩, rfl⟩
  · have hset : w.setMode (some (.sub dir)) mode = some (.ok (), w.setDirs w.root
        (Function.update w.sub dir ((w.sub dir).map fun n => { n with mode := mode }))) := rfl
    exact ⟨⟨_, (System.setMode_minor (t := 0) w.wellFormed hset).wellFormed w.wellFormed⟩, rfl⟩

/-- **Through a followed link** the admin root passes for what the link leads to. -/
theorem exists_exec_root_followedLink (hroot : installer.layout.adminUserRoot = K.adminRoot) (t : ℕ)
    (h : FollowedLink K installer.layout uid w.toSystem) :
    ∃ tr w₁, Exec K.machine t w
        (ensureDirectorySafe installer.layout.adminUserRoot installer.layout).run tr w₁ (.ok ()) ∧
      w₁.rootLink ≠ none ∧ w₁.sub = w.sub ∧ w₁.rootIsDir = true := by
  obtain ⟨hfollows, hl, ⟨node, hnode, hreal⟩, -⟩ := h
  have hplace : K.locate (cStr installer.layout.adminUserRoot) = .root := by
    refine locate_adminUserRoot hroot fun hnil => ?_
    rw [hnil] at hfollows
    exact absurd hfollows (by decide)
  have hsees : K.seesRoot w.toSystem = true := by simp [Kernel.seesRoot, hfollows]
  have hkind : node.kind = .directory := hreal.1
  obtain ⟨w₁, hmode⟩ : ∃ w₁ : World, w.setMode Place.root.directory 0o755 =
      some (.ok (), w₁.toSystem) := exists_setMode (.inl rfl) 0o755
  have hw₁ : w.setDirs (w.root.map fun n => { n with mode := 0o755 }) w.sub = w₁.toSystem :=
    (Prod.mk.inj (Option.some.inj hmode)).2
  have hsees₁ : K.seesRoot w₁.toSystem = true := by simp [Kernel.seesRoot, hfollows]
  have hnode₁ : w₁.root = some { node with mode := 0o755 } := by
    rw [← hw₁, System.setDirs, hnode]
    rfl
  have hmake : w.createDirectories K t .root = some (.ok (), w.toSystem) := by
    simp [System.createDirectories, hnode, hkind]
  have hstat : w.lstatAt K .root = some (.ok node.stat) := by simp [System.lstatAt, hsees, hnode]
  have hstat₁ : w₁.lstatAt K .root = some (.ok { node.stat with mode := 0o755 }) := by
    simp [System.lstatAt, hsees₁, hnode₁, Node.stat]
  rw [← hplace] at hmake hstat hmode hstat₁
  obtain ⟨tr, hexec⟩ := exec_ensureDirectorySafe_intro hmake hstat hreal hmode hstat₁ mode_private
  refine ⟨tr, w₁, hexec, ?_, ?_, ?_⟩
  · rw [← hw₁]
    exact hl
  · rw [← hw₁]
    rfl
  · simp [System.rootIsDir, hnode₁, hkind]

/-- A missing directory of a user is made in whatever the path of the admin root leads to. -/
theorem exists_exec_userMade (hroot : layout.adminUserRoot = K.adminRoot) (t : ℕ)
    (hdir : w.rootIsDir = true) (hnone : w.sub (uidString uid) = none) :
    ∃ ev tr w' e, Exec K.machine t w
        (ensureDirectorySafe (layout.userDirectory uid) layout).run (ev :: tr) w' (.error e) ∧
      ev.after.sub ≠ ev.before.sub := by
  have hplace : K.locate (cStr (layout.userDirectory uid)) = .sub (uidString uid) :=
    locate_userDirectory hroot
  obtain ⟨root, hsome, hkind⟩ := System.isDirectory_eq_true.1 hdir
  have hmake : w.step K t (.createDirectories (cStr (layout.userDirectory uid))) .go =
      some (.ok (), w.setDirs w.root (Function.update w.sub (uidString uid)
        (some (K.newDirectory t w.root 0o777)))) := by
    change w.createDirectories K t (K.locate _) = _
    rw [hplace]
    simp [System.createDirectories, hsome, hkind, hnone]
  let w₁ : World := ⟨_, System.step_wellFormed w.wellFormed hmake⟩
  have hstep : K.machine.step t w (.createDirectories (cStr (layout.userDirectory uid))) .go =
      some (.ok (), w₁) := Kernel.machine_step.2 hmake
  refine ⟨⟨w, .createDirectories (cStr (layout.userDirectory uid)), .go, .ok (), w₁⟩,
    [⟨w₁, .lstat (cStr (layout.userDirectory uid)), .fault EINTR, .error EINTR, w₁⟩], w₁,
    sysError (ofString "failed to stat Quadlet directory '" ++ layout.userDirectory uid ++
      ofString "'") EINTR, ?_, fun heq => ?_⟩
  · refine exec_exceptT_bind.2 (.inr ⟨[_], w₁, (), [_], ?_, ?_, rfl⟩)
    · exact exec_attempt_ok.2 (exec_sys.2 ⟨.go, hstep, rfl⟩)
    · refine exec_exceptT_bind.2 (.inl ⟨_, rfl, exec_attempt_error.2 ⟨EINTR, rfl, ?_⟩⟩)
      exact exec_sys.2 ⟨.fault EINTR, machine_lstat_fails _, rfl⟩
  · have hsame := congrFun heq (uidString uid)
    rw [hnone] at hsame
    simp [w₁, System.setDirs] at hsame

/-- A directory of a user that passes. -/
theorem exists_exec_userPasses (hroot : layout.adminUserRoot = K.adminRoot) (t : ℕ)
    (hdir : w.rootIsDir = true) {node : Node} (huser : w.sub (uidString uid) = some node)
    (hreal : node.RealDirectory layout) :
    ∃ tr w', Exec K.machine t w
        (ensureDirectorySafe (layout.userDirectory uid) layout).run tr w' (.ok ()) := by
  have hplace : K.locate (cStr (layout.userDirectory uid)) = .sub (uidString uid) :=
    locate_userDirectory hroot
  obtain ⟨root, hsome, hkind⟩ := System.isDirectory_eq_true.1 hdir
  have hnodeKind : node.kind = .directory := hreal.1
  have hfound : ∀ {s : System} {node : Node}, s.root = some root →
      s.sub (uidString uid) = some node →
      s.lstatAt K (.sub (uidString uid)) = some (.ok node.stat) := by
    intro s node hs hnode
    simp [System.lstatAt, System.findSub, hs, hkind, hnode, Except.map]
  obtain ⟨w₂, hmode⟩ : ∃ w₂ : World, w.setMode (Place.sub (uidString uid)).directory 0o755 =
      some (.ok (), w₂.toSystem) := exists_setMode (.inr ⟨_, rfl⟩) 0o755
  have hw₂ : w.setDirs w.root (Function.update w.sub (uidString uid)
      ((w.sub (uidString uid)).map fun n => { n with mode := 0o755 })) = w₂.toSystem :=
    (Prod.mk.inj (Option.some.inj hmode)).2
  have hroot₂ : w₂.root = some root := by
    rw [← hw₂]
    exact hsome
  have huser₂ : w₂.sub (uidString uid) = some { node with mode := 0o755 } := by
    rw [← hw₂, System.setDirs, huser]
    simp
  have hmake : w.createDirectories K t (.sub (uidString uid)) = some (.ok (), w.toSystem) := by
    simp [System.createDirectories, hsome, hkind, huser, hnodeKind]
  have hstat := hfound hsome huser
  have hstat₂ := hfound hroot₂ huser₂
  rw [← hplace] at hmake hstat hmode hstat₂
  obtain ⟨tr, hexec⟩ := exec_ensureDirectorySafe_intro hmake hstat hreal hmode hstat₂ mode_private
  exact ⟨tr, w₂, hexec⟩

/-- The part of `snapshot_for_user` behind its check. -/
theorem exec_snapshot_of_tree {fileName : Bytes}
    (hvalid : validateQuadletFileName fileName = .ok ()) {r : Result Unit}
    (h : Exec K.machine t w (ensureAdminTree uid installer.layout).run tr w' r) :
    ∃ tr' e, Exec K.machine t w (installer.perform uid (.snapshot fileName)).run tr' w' (.error e) ∧
      (∀ ev ∈ tr, ev ∈ tr') ∧ (r = .ok () → ∃ ev ∈ tr', ev.before = w' ∧
        ev.op = .lstat (cStr (installer.layout.quadletPath uid fileName))) := by
  have hcheck : Exec K.machine t w (done (validateQuadletFileName fileName)).run [] w (.ok ()) :=
    exec_done.2 ⟨rfl, rfl, hvalid.symm⟩
  cases r with
  | error e =>
      refine ⟨tr, e, ?_, fun ev hev => hev, fun hr => by cases hr⟩
      refine exec_exceptT_bind.2 (.inl ⟨_, rfl, ?_⟩)
      refine exec_exceptT_bind.2 (.inr ⟨[], w, (), tr, hcheck, ?_, rfl⟩)
      exact exec_exceptT_bind.2 (.inl ⟨_, rfl, h⟩)
  | ok u =>
      let path := cStr (installer.layout.quadletPath uid fileName)
      refine ⟨tr ++ [⟨w', .lstat path, .fault EINTR, .error EINTR, w'⟩],
        sysError (ofString "failed to stat Quadlet snapshot path '" ++
          installer.layout.quadletPath uid fileName ++ ofString "'") EINTR, ?_,
        fun ev hev => List.mem_append_left _ hev,
        fun _ => ⟨_, List.mem_append_right _ (List.mem_singleton_self _), rfl, rfl⟩⟩
      refine exec_exceptT_bind.2 (.inl ⟨_, rfl, ?_⟩)
      refine exec_exceptT_bind.2 (.inr ⟨[], w, (), _, hcheck, ?_, rfl⟩)
      refine exec_exceptT_bind.2 (.inr ⟨tr, w', (), _, h, ?_, rfl⟩)
      refine exec_exceptT_bind.2 (.inr ⟨[_], w', .error EINTR, [], ?_, ?_, rfl⟩)
      · exact exec_bind.2 ⟨[_], w', .error EINTR, [],
          exec_sys.2 ⟨_, machine_lstat_fails path, rfl⟩, .ret _ _, rfl⟩
      · exact exec_throw.2 ⟨rfl, rfl, rfl⟩

/-- **Through a followed link** a run makes the directory of the user in the target of the link, or
goes on to the Quadlet file. -/
theorem exists_exec_followedLink (hroot : installer.layout.adminUserRoot = K.adminRoot) (t : ℕ)
    (h : FollowedLink K installer.layout uid w.toSystem) :
    ∃ operation tr w' r, Exec K.machine t w (installer.perform uid operation).run tr w' r ∧
      ¬ SafelyDone K installer.layout uid w tr r := by
  have hvalid : validateQuadletFileName "a.container" = .ok () := by decide +kernel
  obtain ⟨tr₁, w₁, hfirst, hl₁, hsub, hdir⟩ := exists_exec_root_followedLink hroot t h
  cases huser : w₁.sub (uidString uid) with
  | none =>
      -- the directory of the user is made behind the link
      obtain ⟨ev, tr₂, w₂, e, hsecond, hmade⟩ := exists_exec_userMade hroot t hdir huser
      have htree : Exec K.machine t w (ensureAdminTree uid installer.layout).run
          (tr₁ ++ ev :: tr₂) w₂ (.error e) :=
        exec_exceptT_bind.2 (.inr ⟨tr₁, w₁, (), ev :: tr₂, hfirst, hsecond, rfl⟩)
      obtain ⟨tr, e', hexec, hevents, -⟩ := exec_snapshot_of_tree hvalid htree
      refine ⟨_, tr, w₂, _, hexec, fun hdone => hmade ?_⟩
      exact ((hdone.root (.inl h.link)).2 ev (hevents ev (by simp))).2.1
  | some node =>
      -- it is there already, and its entry is looked up behind the link
      have hreal : node.RealDirectory installer.layout := by
        by_contra hbad
        exact h.user ⟨node, hsub ▸ huser, hbad⟩
      obtain ⟨tr₂, w₂, hsecond⟩ := exists_exec_userPasses hroot t hdir huser hreal
      have htree : Exec K.machine t w (ensureAdminTree uid installer.layout).run
          (tr₁ ++ tr₂) w₂ (.ok ()) :=
        exec_exceptT_bind.2 (.inr ⟨tr₁, w₁, (), tr₂, hfirst, hsecond, rfl⟩)
      obtain ⟨tr, e', hexec, -, hlstat⟩ := exec_snapshot_of_tree hvalid htree
      obtain ⟨ev, hev, hbefore, hop⟩ := hlstat rfl
      refine ⟨_, tr, w₂, _, hexec, fun hdone => hl₁ ?_⟩
      have hlocate : K.locate (cStr (installer.layout.quadletPath uid "a.container")) =
          .entry (uidString uid) "a.container" :=
        locate_quadletPath hroot (quadletName_of_valid hvalid)
      have hsafe := hdone.file ev hev (by simp [hop, Sys.touchesFile, hlocate, Place.isEntry])
      obtain ⟨root, hsome, -⟩ := System.isDirectory_eq_true.1 hdir
      rw [← (exec_ensureDirectorySafe_user_keeps hroot hsome hsecond).2, ← hbefore]
      exact hsafe.noLink

/-- **The operations write through no unsafe directory**, whatever stands below the parent of the
admin root, exactly if the admin root is no link that its path leads through. -/
theorem safelyDone_iff (hroot : installer.layout.adminUserRoot = K.adminRoot) :
    (∀ t operation tr w' r, Exec K.machine t w (installer.perform uid operation).run tr w' r →
      SafelyDone K installer.layout uid w tr r) ↔
      ¬ FollowedLink K installer.layout uid w.toSystem := by
  constructor
  · intro hall hlink
    obtain ⟨operation, tr, w', r, h, hnot⟩ := exists_exec_followedLink hroot 0 hlink
    exact hnot (hall _ _ _ _ _ h)
  · intro hlink t operation tr w' r h
    exact safelyDone_of_exec hroot hlink h

end

/-! ### A link in the place of the admin root -/

/-- A tree below a path that ends with a slash. -/
def slashKernel : Kernel where
  adminRoot := "/srv/users/"
  noNul := by decide +kernel
  cred _ := ⟨0, 0, 0o022⟩

def slashInstaller : QuadletInstaller where
  layout := { adminUserRoot := slashKernel.adminRoot }

/-- The admin root is a link to a directory that belongs to root. -/
def linkedWorld : World where
  rootLink := some ⟨.symlink, 1000, 1000, 0o777⟩
  root := some ⟨.directory, 0, 0, 0o755⟩
  sub _ := none
  entry _ _ := none
  inode _ := ⟨.regular, 0, 0, 0o644, [], none⟩
  nextIno := 0
  ofd _ := none
  nextFd := 3
  lock _ := none
  loaded _ _ := none
  running _ _ := none
  wellFormed := {
    sub_root := fun h => absurd rfl h
    entry_dir := fun h => absurd rfl h
    entry_lt := fun h => by cases h
    ofd_lt := fun h => absurd rfl h
    target_lt := fun h => by cases h
    lock_ofd := fun h => by cases h
    linked_once := fun h => by cases h
    link_kind := fun h => by rw [← Option.some.inj h] }

/-- Removing a file succeeds, and makes the directory of the user in the target of the link. -/
theorem linked_root_passes :
    ∃ t operation tr w' r, Exec slashKernel.machine t linkedWorld
        (slashInstaller.perform 1000 operation).run tr w' r ∧
      ¬ SafelyDone slashKernel slashInstaller.layout 1000 linkedWorld tr r := by
  have hrun : (run slashKernel.machine 0 (List.replicate 11 .go) linkedWorld
      (slashInstaller.perform 1000 (.remove "a.container")).run).any
        (fun out => out.2.2.toBool) = true := by decide +kernel
  obtain ⟨tr, w', r, h, hr⟩ := exists_exec_of_run hrun
  refine ⟨0, _, tr, w', r, h, fun hdone => ?_⟩
  obtain ⟨e, rfl⟩ := (hdone.root (.inl (by decide))).1
  cases hr

/-- The same tree without the link. -/
def plainWorld : World where
  toSystem := { linkedWorld.toSystem with rootLink := none }
  wellFormed := { linkedWorld.wellFormed with link_kind := fun h => by cases h }

/-- There, removing a file succeeds and does what is asked of it. -/
theorem plainWorld_safelyDone :
    ∃ tr w' r, Exec slashKernel.machine 0 plainWorld
        (slashInstaller.perform 1000 (.remove "a.container")).run tr w' r ∧
      SafelyDone slashKernel slashInstaller.layout 1000 plainWorld tr r := by
  have hrun : (run slashKernel.machine 0 (List.replicate 11 .go) plainWorld
      (slashInstaller.perform 1000 (.remove "a.container")).run).any
        (fun out => out.2.2.toBool) = true := by decide +kernel
  obtain ⟨tr, w', r, h, -⟩ := exists_exec_of_run hrun
  exact ⟨tr, w', r, h, (safelyDone_iff rfl).2 (fun h => h.link rfl) 0 _ tr w' r h⟩

end PodInstaller
