/-
**What the calls change.**

`PodInstaller.System.step` says what every call does.  This module reads it the other way round:
from an answer and the state after a call it says what happened.  Most calls change no more than a
descriptor or a directory; each of the others has a law of its own.  From the laws a call keeps the
state well formed, so that the kernel is a machine on well-formed states.

Main definitions:

* `PodInstaller.System.Minor`, `PodInstaller.Sys.isMinor` — the small changes and the calls that
  make no others;
* `PodInstaller.Kernel.machine` — the kernel as a machine.

Main results:

* `PodInstaller.System.step_minor` — what most calls change;
* `PodInstaller.System.step_openat_creat`, `PodInstaller.System.step_write`,
  `PodInstaller.System.step_renameat`, `PodInstaller.System.step_unlinkat`, … — what the others do;
* `PodInstaller.System.step_wellFormed` — a call keeps the state well formed;
* `PodInstaller.Kernel.locate_sub`, `PodInstaller.Kernel.locate_entry` — where the paths of the
  installer lead.
-/

import PodInstaller.Kernel

set_option relaxedAutoImplicit false
set_option autoImplicit false

namespace PodInstaller

open Bytes

/-! ### Calls that can fail -/

namespace System

theorem failOr_eq_some {α : Type} {s s' : System} {mayFail : Errno → Bool} {c : Choice}
    {go : Option (Except Errno α × System)} {r : Except Errno α} :
    failOr s mayFail c go = some (r, s') ↔
      (∃ e, c = .fault e ∧ mayFail e = true ∧ r = .error e ∧ s' = s) ∨
      c = .go ∧ go = some (r, s') := by
  cases c with
  | fault e =>
      simp only [failOr, Choice.fault.injEq, reduceCtorEq, false_and, or_false]
      constructor
      · intro h
        split at h
        · rename_i he
          obtain ⟨rfl, rfl⟩ := Prod.mk.inj (Option.some.inj h)
          exact ⟨e, rfl, he, rfl, rfl⟩
        · simp at h
      · rintro ⟨e', rfl, he, rfl, rfl⟩
        rw [if_pos he]
  | go => simp [failOr]
  | _ => simp [failOr]

theorem failOrFind_eq_some {α : Type} {s s' : System} {mayFail : Errno → Bool} {c : Choice}
    {found : Option (Except Errno α)} {r : Except Errno α} :
    failOrFind s mayFail c found = some (r, s') ↔
      s' = s ∧ ((∃ e, c = .fault e ∧ mayFail e = true ∧ r = .error e) ∨
        c = .go ∧ found = some r) := by
  rw [failOrFind, failOr_eq_some]
  constructor
  · rintro (⟨e, hc, he, hr, hs⟩ | ⟨hc, h⟩)
    · exact ⟨hs, .inl ⟨e, hc, he, hr⟩⟩
    · obtain ⟨r', hr', heq⟩ := Option.map_eq_some_iff.1 h
      obtain ⟨rfl, rfl⟩ := Prod.mk.inj heq
      exact ⟨rfl, .inr ⟨hc, hr'⟩⟩
  · rintro ⟨rfl, ⟨e, hc, he, hr⟩ | ⟨hc, h⟩⟩
    · exact .inl ⟨e, hc, he, hr, rfl⟩
    · exact .inr ⟨hc, by rw [h]; rfl⟩

/-! ### Small changes -/

/-- What most calls change: nothing, or there is a new descriptor, or a directory is made or gets
another mode. -/
inductive Minor (t : ℕ) (s : System) : System → Prop
  | same : Minor t s s
  | opens (target : OfdTarget) (hlt : ∀ i, target = .ino i → i < s.nextIno) :
      Minor t s (s.openFd target t)
  | dirs (root : Option Node) (sub : Bytes → Option Node)
      (hroot : ∀ dir, sub dir ≠ none → isDirectory root = true)
      (hsub : ∀ dir, s.subIsDir dir = true → isDirectory (sub dir) = true) :
      Minor t s (s.setDirs root sub)

end System

/-- The calls that change no more than that. -/
def Sys.isMinor : Sys → Bool
  | .openat _ _ flags => !flags.creat
  | .write _ _ => false
  | .read _ _ => false
  | .close _ => false
  | .renameat _ _ _ _ => false
  | .unlinkat _ _ => false
  | .flock _ => false
  | .daemonReload _ => false
  | .restartUnit _ _ => false
  | _ => true

/-- The calls that change nothing at all. -/
def Sys.asks : Sys → Bool
  | .getpid => true
  | .getpwuid _ => true
  | .lstat _ => true
  | .fstatat _ _ => true
  | .fstat _ => true
  | .fsync _ => true
  | .curl _ => true
  | .status _ _ => true
  | _ => false

namespace System

variable {K : Kernel} {t : ℕ} {s s' : System}

@[simp] theorem isDirectory_some {node : Node} :
    isDirectory (some node) = true ↔ node.kind = .directory := by simp [isDirectory]

/-- The nodes that are directories. -/
theorem isDirectory_eq_true {node : Option Node} :
    isDirectory node = true ↔ ∃ n, node = some n ∧ n.kind = .directory := by
  simp [isDirectory, Option.any_eq_true]

theorem isDirectory_setMode {node : Option Node} {mode : ℕ} :
    isDirectory (node.map fun n => { n with mode := mode }) = isDirectory node := by
  cases node <;> rfl

/-- One more directory, or another one in the place of one. -/
theorem isDirectory_update {dir dir' : Bytes} {node : Option Node}
    (hnode : s.subIsDir dir = true → isDirectory node = true) (h : s.subIsDir dir' = true) :
    isDirectory (Function.update s.sub dir node dir') = true := by
  rw [Function.update_apply]
  split
  · rename_i heq
    exact hnode (heq ▸ h)
  · exact h

theorem createDirectories_minor (hs : s.WellFormed) {place : Place} {r : Except Errno Unit}
    (h : s.createDirectories K t place = some (r, s')) : Minor t s s' := by
  -- a directory stands below the root only where the root is a directory itself
  have hnone : s.root = none → ∀ dir, s.subIsDir dir = false := by
    intro hroot dir
    cases hsub : s.sub dir with
    | none => simp [subIsDir, hsub, isDirectory]
    | some node =>
        have := hs.sub_root (show s.sub dir ≠ none by simp [hsub])
        simp [rootIsDir, hroot, isDirectory] at this
  cases place with
  | root =>
      simp only [createDirectories] at h
      split at h
      · split at h
        · obtain ⟨-, rfl⟩ : .ok () = r ∧ _ = s' := by simpa using h
          exact .dirs _ _ (fun _ _ => isDirectory_some.2 (K.newRoot_kind t)) fun _ h => h
        · simp at h
      · split at h
        · obtain ⟨-, rfl⟩ : .ok () = r ∧ s = s' := by simpa using h
          exact .same
        · simp at h
  | sub dir =>
      simp only [createDirectories] at h
      split at h
      · rename_i hroot
        split at h
        · obtain ⟨-, rfl⟩ : .ok () = r ∧ _ = s' := by simpa using h
          exact .dirs _ _ (fun _ _ => isDirectory_some.2 (K.newRoot_kind t)) fun dir' h => by
            simp [hnone hroot dir'] at h
        · simp at h
      · rename_i node hroot
        split at h
        · simp at h
        · rename_i hkind
          split at h
          · obtain ⟨-, rfl⟩ : .ok () = r ∧ _ = s' := by simpa using h
            refine .dirs _ _ (fun _ _ => ?_) fun dir' h => isDirectory_update (fun _ => rfl) h
            rw [hroot, isDirectory_some]
            exact not_not.1 hkind
          · split at h
            · obtain ⟨-, rfl⟩ : .ok () = r ∧ s = s' := by simpa using h
              exact .same
            · simp at h
  | outside =>
      obtain ⟨-, rfl⟩ : .ok () = r ∧ s = s' := by simpa [createDirectories] using h
      exact .same
  | nowhere => simp [createDirectories] at h
  | entry dir name => simp [createDirectories] at h

theorem setMode_minor (hs : s.WellFormed) {target : Option OfdTarget} {mode : ℕ}
    {r : Except Errno Unit} (h : s.setMode target mode = some (r, s')) : Minor t s s' := by
  unfold setMode at h
  split at h
  · obtain ⟨-, rfl⟩ : .ok () = r ∧ _ = s' := by simpa using h
    refine .dirs _ _ (fun dir hdir => ?_) fun _ h => h
    rw [isDirectory_setMode]
    exact hs.sub_root hdir
  · rename_i dir
    obtain ⟨-, rfl⟩ : .ok () = r ∧ _ = s' := by simpa using h
    refine .dirs _ _ (fun dir' hdir' => ?_) fun dir' h => isDirectory_update (fun h => ?_) h
    · have hne : s.sub dir' ≠ none := ?_
      · exact hs.sub_root hne
      intro hnone
      refine hdir' ?_
      rw [Function.update_apply]
      split
      · rename_i heq
        rw [← heq, hnone, Option.map_none]
      · exact hnone
    · rw [isDirectory_setMode]
      exact h
  · obtain ⟨-, rfl⟩ : .ok () = r ∧ s = s' := by simpa using h
    exact .same
  · simp at h

theorem mkdirat_minor {dir : Fd} {name : Bytes} {mode : ℕ} {r : Except Errno Unit}
    (h : s.mkdirat K t dir name mode = some (r, s')) : Minor t s s' := by
  unfold mkdirat at h
  split at h
  · split at h
    · simp at h
    · obtain ⟨-, rfl⟩ : .error EEXIST = r ∧ s = s' := by simpa using h
      exact .same
    · split at h
      · rename_i hroot
        obtain ⟨-, rfl⟩ : .ok () = r ∧ _ = s' := by simpa using h
        exact .dirs _ _ (fun _ _ => hroot) fun dir' h => isDirectory_update (fun _ => rfl) h
      · obtain ⟨-, rfl⟩ : _ = r ∧ s = s' := by simpa using h
        exact .same
  · obtain ⟨-, rfl⟩ : .ok () = r ∧ s = s' := by simpa using h
    exact .same
  · simp at h

/-- The entries that are found are there. -/
theorem findEntry_eq_ok {dir name : Bytes} {i : ℕ} (h : s.findEntry dir name = some (.ok i)) :
    s.entry dir name = some i := by
  unfold findEntry at h
  repeat' split at h
  all_goals simp_all

/-- The entries that are there are found, unless the name is too long. -/
theorem findEntry_of_entry (hs : s.WellFormed) {dir name : Bytes} {i : ℕ}
    (hentry : s.entry dir name = some i) (hlen : name.length ≤ NAME_MAX) :
    s.findEntry dir name = some (.ok i) := by
  have hdir : s.subIsDir dir = true := hs.entry_dir (show s.entry dir name ≠ none by simp [hentry])
  obtain ⟨node, hnode, hkind⟩ := isDirectory_eq_true.1 hdir
  have hroot : s.rootIsDir = true := hs.sub_root (show s.sub dir ≠ none by simp [hnode])
  obtain ⟨root, hroot, hrootKind⟩ := isDirectory_eq_true.1 hroot
  simp [findEntry, findSub, hnode, hkind, hroot, hrootKind, hentry, Nat.not_lt.2 hlen]

/-- The entries that are missing are not there. -/
theorem findEntry_eq_error (hs : s.WellFormed) {dir name : Bytes} {e : Errno}
    (h : s.findEntry dir name = some (.error e)) : s.entry dir name = none ∧ e = ENOENT := by
  -- what is not a directory has no entries
  have hsub : s.subIsDir dir = false → s.entry dir name = none := by
    intro hdir
    by_contra hne
    simp [hs.entry_dir hne] at hdir
  unfold findEntry at h
  split at h
  · simp at h
  split at h
  · simp at h
  · rename_i e' hfind
    obtain rfl : e' = e := by simpa using h
    unfold findSub at hfind
    split at hfind
    · rename_i hroot
      refine ⟨hsub ?_, by simpa [eq_comm] using hfind⟩
      by_contra hdir
      have : s.sub dir ≠ none := by
        intro hnone
        simp [subIsDir, hnone, isDirectory] at hdir
      have := hs.sub_root this
      simp [rootIsDir, hroot, isDirectory] at this
    · split at hfind
      · simp at hfind
      · split at hfind
        · rename_i hnone
          exact ⟨hsub (by simp [subIsDir, hnone, isDirectory]), by simpa [eq_comm] using hfind⟩
        · simp at hfind
  · split at h
    · simp at h
    · split at h
      · rename_i hnone
        exact ⟨hnone, by simpa [eq_comm] using h⟩
      · simp at h

theorem openAt_lt (hs : s.WellFormed) {flags : OpenFlags} {place : Place} {target : OfdTarget}
    (h : s.openAt K flags place = some (.ok target)) :
    ∀ i, target = .ino i → i < s.nextIno := by
  rintro i rfl
  unfold openAt at h
  repeat' split at h
  all_goals try simp at h
  rename_i j hfind hopen
  obtain rfl : j = i := by simpa using h
  exact hs.entry_lt (findEntry_eq_ok hfind)

theorem opened_minor {found : Except Errno OfdTarget}
    (hlt : ∀ target, found = .ok target → ∀ i, target = .ino i → i < s.nextIno) :
    Minor t s (s.opened t found).2 := by
  cases found with
  | error e => exact .same
  | ok target => exact .opens target (hlt target rfl)

theorem openat_minor (hs : s.WellFormed) {dir : Fd} {name : Bytes} {flags : OpenFlags}
    (hcreat : flags.creat = false) {r : Except Errno Fd}
    (h : s.openat K t dir name flags = some (r, s')) : Minor t s s' := by
  unfold openat at h
  rw [hcreat] at h
  split at h
  · obtain rfl : _ = s' := congrArg Prod.snd (Option.some.inj h)
    exact opened_minor (by simp)
  unfold openatInside at h
  rw [hcreat] at h
  split at h
  · obtain ⟨found, hfound, heq⟩ := Option.map_eq_some_iff.1 (by simpa using h)
    obtain rfl : _ = s' := congrArg Prod.snd heq
    exact opened_minor fun target htarget => openAt_lt hs (htarget ▸ hfound)
  · split at h
    · simp at h
    · obtain ⟨-, rfl⟩ : _ = r ∧ s = s' := by simpa using h
      exact .same
    · rename_i i hfind
      split at h
      · simp_all
      · split at h
        · obtain rfl : _ = s' := congrArg Prod.snd (Option.some.inj h)
          refine opened_minor fun target htarget j hj => ?_
          obtain rfl : i = j := by simp_all
          exact hs.entry_lt (findEntry_eq_ok hfind)
        · simp at h
  · simp at h

/-- **Calls that ask** change nothing. -/
theorem step_asks {o : Sys} {c : Choice} {r : o.Resp} (ho : o.asks = true)
    (h : s.step K t o c = some (r, s')) : s' = s := by
  have hanswer : ∀ {α : Type} {a r : α}, some (a, s) = some (r, s') → s' = s :=
    fun h => (Prod.mk.inj (Option.some.inj h)).2.symm
  have hif : ∀ {α : Type} {b : Prop} [Decidable b] {a r : α},
      (if b then some (a, s) else none) = some (r, s') → s' = s := by
    intro α b _ a r h
    split at h
    · exact hanswer h
    · cases h
  cases o with
  | getpwuid uid =>
      simp only [step] at h
      split at h
      · exact hif h
      · exact hanswer h
      · cases h
  | lstat path =>
      simp only [step] at h
      split at h
      · exact hif h
      · exact (failOrFind_eq_some.1 h).1
  | fstatat dir name =>
      simp only [step] at h
      split at h
      · exact hif h
      · exact (failOrFind_eq_some.1 h).1
  | fstat fd =>
      simp only [step] at h
      split at h
      · exact hif h
      · exact (failOrFind_eq_some.1 h).1
  | fsync fd =>
      rcases failOr_eq_some.1 h with ⟨e, -, -, -, rfl⟩ | ⟨-, h⟩
      · rfl
      · exact hanswer h
  | getpid =>
      simp only [step] at h
      split at h
      · exact hanswer h
      · cases h
  | curl transfer =>
      simp only [step] at h
      split at h
      · exact hanswer h
      · cases h
  | status target unit =>
      simp only [step] at h
      split at h
      · exact hanswer h
      · cases h
  | _ => cases ho

/-- **Most calls** change no more than a descriptor or a directory. -/
theorem step_minor (hs : s.WellFormed) {o : Sys} {c : Choice} {r : o.Resp} (ho : o.isMinor = true)
    (h : s.step K t o c = some (r, s')) : Minor t s s' := by
  have hfail : ∀ {α : Type} {mayFail : Errno → Bool} {c : Choice}
      {go : Option (Except Errno α × System)} {r : Except Errno α},
      failOr s mayFail c go = some (r, s') →
      (∀ s', go = some (r, s') → Minor t s s') → Minor t s s' := by
    intro α mayFail c go r h hgo
    rcases failOr_eq_some.1 h with ⟨e, -, -, -, rfl⟩ | ⟨-, h⟩
    · exact .same
    · exact hgo _ h
  by_cases hasks : o.asks = true
  · obtain rfl := step_asks hasks h
    exact .same
  cases o with
  | createDirectories path => exact hfail h fun s' h => createDirectories_minor hs h
  | openPath path flags =>
      refine hfail h fun s' h => ?_
      split at h
      · simp at h
      · obtain ⟨found, hfound, heq⟩ := Option.map_eq_some_iff.1 h
        obtain rfl : _ = s' := congrArg Prod.snd heq
        exact opened_minor fun target htarget => openAt_lt hs (htarget ▸ hfound)
  | openat dir name flags =>
      exact hfail h fun s' h => openat_minor hs (by simpa [Sys.isMinor] using ho) h
  | chmod path mode => exact hfail h fun s' h => setMode_minor hs h
  | fchmod fd mode => exact hfail h fun s' h => setMode_minor hs h
  | mkdirat dir name mode => exact hfail h fun s' h => mkdirat_minor h
  | _ => first | exact absurd rfl hasks | cases ho

/-! ### Calls that look something up -/

/-- **Opening a path** leads to what stands there. -/
theorem step_openPath {path : PosixPath} {flags : OpenFlags} {c : Choice} {r : Except Errno Fd}
    (h : s.step K t (.openPath path flags) c = some (r, s')) :
    (∃ e, r = .error e ∧ s' = s) ∨
    ∃ target, s.openAt K flags (K.locate path) = some (.ok target) ∧ r = .ok s.nextFd ∧
      s' = s.openFd target t := by
  rcases failOr_eq_some.1 h with ⟨e, -, -, rfl, rfl⟩ | ⟨-, h⟩
  · exact .inl ⟨e, rfl, rfl⟩
  split at h
  · simp at h
  · obtain ⟨found, hfound, heq⟩ := Option.map_eq_some_iff.1 h
    cases found with
    | error e =>
        obtain ⟨rfl, rfl⟩ := Prod.mk.inj heq
        exact .inl ⟨e, rfl, rfl⟩
    | ok target =>
        obtain ⟨rfl, rfl⟩ := Prod.mk.inj heq
        exact .inr ⟨target, hfound, rfl, rfl⟩

theorem openAt_root {flags : OpenFlags} {target : OfdTarget}
    (h : s.openAt K flags (K.locate K.adminRoot) = some (.ok target)) : target = .root := by
  unfold Kernel.locate at h
  split at h
  · simp [openAt] at h
  · simp only [if_true, openAt] at h
    split at h
    · split at h
      · simp at h
      · split at h
        · simpa [eq_comm] using h
        · simp at h
    · simp at h

theorem openAt_sub {flags : OpenFlags} {dir : Bytes} {target : OfdTarget}
    (h : s.openAt K flags (.sub dir) = some (.ok target)) : target = .sub dir := by
  simp only [openAt] at h
  split at h
  · simp at h
  · simp at h
  · split at h
    · simpa [eq_comm] using h
    · simp at h

theorem openAt_entry {flags : OpenFlags} {dir name : Bytes} {target : OfdTarget}
    (h : s.openAt K flags (.entry dir name) = some (.ok target)) :
    ∃ i, s.entry dir name = some i ∧ target = .ino i := by
  simp only [openAt] at h
  split at h
  · simp at h
  · simp at h
  · rename_i i hfind
    split at h
    · exact ⟨i, findEntry_eq_ok hfind, by simpa [eq_comm] using h⟩
    · simp at h

/-- **Opening a directory of the admin root** through a descriptor. -/
theorem step_openat_root {dir : Fd} {name : Bytes} (hdir : s.targetOf dir = some .root)
    (hname : PosixPath.IsEntryName name) {flags : OpenFlags} (hcreat : flags.creat = false)
    {c : Choice}
    {r : Except Errno Fd} (h : s.step K t (.openat dir name flags) c = some (r, s')) :
    (∃ e, r = .error e ∧ s' = s) ∨ r = .ok s.nextFd ∧ s' = s.openFd (.sub name) t := by
  rcases failOr_eq_some.1 h with ⟨e, -, -, rfl, rfl⟩ | ⟨-, h⟩
  · exact .inl ⟨e, rfl, rfl⟩
  have hinside : s.leavesTree dir name = false := by simp [leavesTree, hdir, hname]
  rw [openat, hinside, if_neg Bool.false_ne_true, openatInside, hdir] at h
  simp only [hcreat, Bool.false_eq_true, if_false] at h
  obtain ⟨found, hfound, heq⟩ := Option.map_eq_some_iff.1 h
  cases found with
  | error e =>
      obtain ⟨rfl, rfl⟩ := Prod.mk.inj heq
      exact .inl ⟨e, rfl, rfl⟩
  | ok target =>
      obtain rfl := openAt_sub hfound
      obtain ⟨rfl, rfl⟩ := Prod.mk.inj heq
      exact .inr ⟨rfl, rfl⟩

/-- **`lstat` of an entry** fails with `ENOENT` only if the entry is not there. -/
theorem step_lstat_entry (hs : s.WellFormed) {path : PosixPath} {dir name : Bytes}
    (hpath : K.locate path = .entry dir name) {c : Choice} {r : Except Errno Stat}
    (h : s.step K t (.lstat path) c = some (r, s')) :
    s' = s ∧ (r = .error ENOENT → s.entry dir name = none) := by
  simp only [step, hpath] at h
  split at h
  · simp at h
  · obtain ⟨rfl, ⟨e, -, he, rfl⟩ | ⟨-, h⟩⟩ := failOrFind_eq_some.1 h
    · refine ⟨rfl, fun heq => ?_⟩
      obtain rfl : e = ENOENT := by simpa using heq
      simp [isFault] at he
    · refine ⟨rfl, fun heq => ?_⟩
      obtain ⟨found, hfound, hr⟩ := Option.map_eq_some_iff.1 h
      cases found with
      | error e => exact (findEntry_eq_error hs hfound).1
      | ok i =>
          rw [heq] at hr
          cases hr

/-- **`fstat`** of a file tells what it is. -/
theorem step_fstat_ino {fd : Fd} {i : ℕ} (hfd : s.targetOf fd = some (.ino i)) {c : Choice}
    {r : Except Errno Stat} (h : s.step K t (.fstat fd) c = some (r, s')) :
    s' = s ∧ ∀ st, r = .ok st → st = (s.inode i).stat := by
  simp only [step] at h
  split at h
  · simp [hfd] at h
  · obtain ⟨rfl, ⟨e, -, -, rfl⟩ | ⟨-, h⟩⟩ := failOrFind_eq_some.1 h
    · exact ⟨rfl, fun st hst => by cases hst⟩
    · refine ⟨rfl, fun st hst => ?_⟩
      rw [fstat, hfd] at h
      simpa [hst, eq_comm] using h

/-- **`fsync`** changes nothing that can be seen, and for a directory it can be ruled out to
fail. -/
theorem step_fsync {fd : Fd} {c : Choice} {r : Except Errno Unit}
    (h : s.step K t (.fsync fd) c = some (r, s')) :
    s' = s ∧ ∀ e, r = .error e → s.isDirectoryFd fd = true → K.dirFsyncFails = true := by
  rcases failOr_eq_some.1 h with ⟨e, -, he, rfl, rfl⟩ | ⟨-, h⟩
  · refine ⟨rfl, fun _ _ hdir => ?_⟩
    rw [hdir, Bool.and_eq_true] at he
    simpa using he.2
  · obtain ⟨rfl, rfl⟩ := Prod.mk.inj (Option.some.inj h)
    exact ⟨rfl, fun e he => by cases he⟩

/-! ### The other calls -/

/-- **Opening with `O_CREAT`** makes a new file, or opens the one that is there. -/
theorem step_openat_creat (hs : s.WellFormed) {dir : Fd} {name : Bytes} {flags : OpenFlags}
    (hcreat : flags.creat = true) {c : Choice} {r : Except Errno Fd}
    (h : s.step K t (.openat dir name flags) c = some (r, s')) :
    (∃ e, r = .error e ∧ s' = s) ∨
    ∃ sub, s.targetOf dir = some (.sub sub) ∧ r = .ok s.nextFd ∧
      (s.entry sub name = none ∧ s.subIsDir sub = true ∧
        s' = (s.create sub name (K.newFile t (s.sub sub) flags.mode)).openFd (.ino s.nextIno) t ∨
      ∃ i, s.entry sub name = some i ∧ flags.excl = false ∧ s' = s.openFd (.ino i) t) := by
  rcases failOr_eq_some.1 h with ⟨e, -, -, rfl, rfl⟩ | ⟨-, h⟩
  · exact .inl ⟨e, rfl, rfl⟩
  unfold openat openatInside at h
  rw [hcreat] at h
  split at h
  · simp at h
  split at h
  · simp at h
  · rename_i sub hsub
    split at h
    · simp at h
    · rename_i e hfind
      split at h
      · rename_i hdir
        obtain ⟨rfl, rfl⟩ := Prod.mk.inj (Option.some.inj h)
        exact .inr ⟨sub, hsub, rfl, .inl ⟨(findEntry_eq_error hs hfind).1, hdir.2, rfl⟩⟩
      · obtain ⟨rfl, rfl⟩ := Prod.mk.inj (Option.some.inj h)
        exact .inl ⟨_, rfl, rfl⟩
    · rename_i i hfind
      split at h
      · obtain ⟨rfl, rfl⟩ := Prod.mk.inj (Option.some.inj h)
        exact .inl ⟨_, rfl, rfl⟩
      · rename_i hexcl
        split at h
        · obtain ⟨rfl, rfl⟩ := Prod.mk.inj (Option.some.inj h)
          exact .inr ⟨sub, hsub, rfl, .inr ⟨i, findEntry_eq_ok hfind, by simpa using hexcl, rfl⟩⟩
        · simp at h
  · simp at h

/-- A file that is created has a name that is not too long. -/
theorem step_openat_length {dir : Fd} {sub name : Bytes} {flags : OpenFlags}
    (hdir : s.targetOf dir = some (.sub sub)) (hcreat : flags.creat = true) {c : Choice} {fd : Fd}
    (h : s.step K t (.openat dir name flags) c = some (.ok fd, s')) : name.length ≤ NAME_MAX := by
  by_contra hlen
  have hfind : s.findEntry sub name = none := by rw [findEntry, if_pos (not_le.1 hlen)]
  rcases failOr_eq_some.1 h with ⟨e, -, -, he, -⟩ | ⟨-, h⟩
  · cases he
  unfold openat openatInside at h
  rw [hcreat, hdir] at h
  simp [hfind] at h

/-- **Writing** puts some of the bytes at the offset. -/
theorem step_write {fd : Fd} {data : Bytes} {c : Choice} {r : Except Errno ℕ}
    (h : s.step K t (.write fd data) c = some (r, s')) :
    (∃ e, r = .error e ∧ s' = s) ∨
    ∃ i offset owner n, s.ofd fd = some ⟨.ino i, offset, owner⟩ ∧ 0 < n ∧ n ≤ data.length ∧
      r = .ok n ∧ s' = (s.setBytes i ((s.inode i).bytes.take offset ++ data.take n ++
        (s.inode i).bytes.drop (offset + n))).seek fd (offset + n) := by
  simp only [step] at h
  split at h
  · rename_i n
    unfold writeAt at h
    split at h
    · rename_i i offset owner hofd
      split at h
      · rename_i hn
        obtain ⟨rfl, rfl⟩ := Prod.mk.inj (Option.some.inj h)
        exact .inr ⟨i, offset, owner, n, hofd, hn.1, hn.2, rfl, rfl⟩
      · simp at h
    · simp at h
  · rcases failOr_eq_some.1 h with ⟨e, -, -, rfl, rfl⟩ | ⟨-, h⟩
    · exact .inl ⟨e, rfl, rfl⟩
    · simp at h

/-- **Reading** delivers some of the bytes at the offset. -/
theorem step_read {fd : Fd} {count : ℕ} {c : Choice} {r : Except Errno Bytes}
    (h : s.step K t (.read fd count) c = some (r, s')) :
    (∃ e, r = .error e ∧ s' = s) ∨
    ∃ i offset owner n, s.ofd fd = some ⟨.ino i, offset, owner⟩ ∧ n ≤ count ∧
      n ≤ ((s.inode i).bytes.drop offset).length ∧
      r = .ok (((s.inode i).bytes.drop offset).take n) ∧ s' = s.seek fd (offset + n) := by
  simp only [step] at h
  split at h
  · rename_i n
    unfold readAt at h
    split at h
    · rename_i i offset owner hofd
      dsimp only at h
      split at h
      · rename_i hn
        obtain ⟨rfl, rfl⟩ := Prod.mk.inj (Option.some.inj h)
        exact .inr ⟨i, offset, owner, n, hofd, hn.1, hn.2, rfl, rfl⟩
      · simp at h
    · simp at h
  · rcases failOr_eq_some.1 h with ⟨e, -, -, rfl, rfl⟩ | ⟨-, h⟩
    · exact .inl ⟨e, rfl, rfl⟩
    · simp at h

/-- A user that is found is the one that was asked for. -/
theorem step_getpwuid_some {uid : UInt32} {c : Choice} {pw : Passwd}
    (h : s.step K t (.getpwuid uid) c = some (.ok (some pw), s')) : pw.uid = uid := by
  simp only [step] at h
  split at h
  · split at h
    · rename_i heq
      obtain ⟨hpw, -⟩ := Prod.mk.inj (Option.some.inj h)
      rw [← heq, Option.some.inj (Except.ok.inj hpw)]
    · cases h
  · rename_i hnot
    obtain ⟨hpw, -⟩ := Prod.mk.inj (Option.some.inj h)
    exact absurd hpw (hnot pw)
  · cases h

/-- **Closing** a descriptor. -/
theorem step_close {fd : Fd} {c : Choice} {u : Unit}
    (h : s.step K t (.close fd) c = some (u, s')) : s' = s.closeFd fd := by
  simp only [step] at h
  split at h
  · exact (Prod.mk.inj (Option.some.inj h)).2.symm
  · simp at h

/-- **Renaming** puts an inode in the place of what the new name referred to. -/
theorem step_renameat {oldDir newDir : Fd} {old new : Bytes} {c : Choice} {r : Except Errno Unit}
    (h : s.step K t (.renameat oldDir old newDir new) c = some (r, s')) :
    (∃ e, r = .error e ∧ s' = s) ∨
    ∃ dir i, s.targetOf oldDir = some (.sub dir) ∧ s.targetOf newDir = some (.sub dir) ∧
      s.entry dir old = some i ∧ r = .ok () ∧
      (s.entry dir new = some i ∧ s' = s ∨
        s.entry dir new ≠ some i ∧ s' = s.renameEntry dir old new i) := by
  rcases failOr_eq_some.1 h with ⟨e, -, -, rfl, rfl⟩ | ⟨-, h⟩
  · exact .inl ⟨e, rfl, rfl⟩
  unfold renameat at h
  split at h
  · rename_i dir dir' holdDir hnewDir
    split at h
    · simp at h
    · rename_i hname
      obtain ⟨rfl, -⟩ : dir = dir' ∧ _ := by simpa [not_or] using hname
      split at h
      · obtain ⟨rfl, rfl⟩ := Prod.mk.inj (Option.some.inj h)
        exact .inl ⟨_, rfl, rfl⟩
      · rename_i i hold
        split at h
        · rename_i hnew
          obtain ⟨rfl, rfl⟩ := Prod.mk.inj (Option.some.inj h)
          exact .inr ⟨dir, i, holdDir, hnewDir, hold, rfl, .inr ⟨by simp [hnew], rfl⟩⟩
        · rename_i j hnew
          split at h
          · -- both names lead to one file, and the kernel does nothing
            rename_i hji
            obtain ⟨rfl, rfl⟩ := Prod.mk.inj (Option.some.inj h)
            exact .inr ⟨dir, i, holdDir, hnewDir, hold, rfl, .inl ⟨hji ▸ hnew, rfl⟩⟩
          · rename_i hji
            split at h
            · simp at h
            · obtain ⟨rfl, rfl⟩ := Prod.mk.inj (Option.some.inj h)
              refine .inr ⟨dir, i, holdDir, hnewDir, hold, rfl, .inr ⟨?_, rfl⟩⟩
              simpa [hnew] using hji
  · simp at h

/-- **Removing** an entry.  It fails for a missing one, and can be ruled out to fail for the entry
of a file. -/
theorem step_unlinkat {dir : Fd} {name : Bytes} {c : Choice} {r : Except Errno Unit}
    (h : s.step K t (.unlinkat dir name) c = some (r, s')) :
    (∃ e, r = .error e ∧ s' = s ∧ (e = ENOENT → s.entryOf dir name = none) ∧
      (K.unlinkFails = false → ∀ i, s.entryOf dir name = some i →
        (s.inode i).kind = .directory)) ∨
    ∃ sub i, s.targetOf dir = some (.sub sub) ∧ s.entry sub name = some i ∧ r = .ok () ∧
      s' = s.removeEntry sub name := by
  rcases failOr_eq_some.1 h with ⟨e, -, he, rfl, rfl⟩ | ⟨-, h⟩
  · rw [Bool.and_eq_true, Bool.or_eq_true] at he
    refine .inl ⟨e, rfl, rfl, fun heq => ?_, fun hfails i hi => ?_⟩
    · rw [heq] at he
      exact absurd he.1 (by decide)
    · rw [hfails, hi] at he
      simpa using he.2
  · unfold unlinkat at h
    split at h
    · rename_i sub hsub
      split at h
      · rename_i hnone
        obtain ⟨rfl, rfl⟩ := Prod.mk.inj (Option.some.inj h)
        exact .inl ⟨_, rfl, rfl, fun _ => by simp [entryOf, hsub, hnone],
          fun _ i hi => by simp [entryOf, hsub, hnone] at hi⟩
      · rename_i i hi
        split at h
        · simp at h
        · obtain ⟨rfl, rfl⟩ := Prod.mk.inj (Option.some.inj h)
          exact .inr ⟨sub, i, hsub, hi, rfl, rfl⟩
    · simp at h

/-- **Locking** succeeds where nobody else has the lock. -/
theorem step_flock {fd : Fd} {c : Choice} {r : Except Errno Unit}
    (h : s.step K t (.flock fd) c = some (r, s')) :
    (∃ e, r = .error e ∧ s' = s) ∨
    ∃ i, s.targetOf fd = some (.ino i) ∧ r = .ok () ∧
      (s.lock i = none ∧ s' = s.setLock i fd ∨ s.lock i = some fd ∧ s' = s) := by
  rcases failOr_eq_some.1 h with ⟨e, -, -, rfl, rfl⟩ | ⟨-, h⟩
  · exact .inl ⟨e, rfl, rfl⟩
  unfold flock at h
  split at h
  · rename_i i hi
    split at h
    · rename_i hlock
      obtain ⟨rfl, rfl⟩ := Prod.mk.inj (Option.some.inj h)
      exact .inr ⟨i, hi, rfl, .inl ⟨hlock, rfl⟩⟩
    · rename_i fd' hlock
      split at h
      · rename_i heq
        obtain ⟨rfl, rfl⟩ := Prod.mk.inj (Option.some.inj h)
        exact .inr ⟨i, hi, rfl, .inr ⟨heq ▸ hlock, rfl⟩⟩
      · simp at h
  · simp at h

/-- **Reloading** reads the files of the user. -/
theorem step_daemonReload {target : PodmanTarget} {c : Choice} {r : Result Unit}
    (h : s.step K t (.daemonReload target) c = some (r, s')) :
    (∃ e, r = .error e ∧ s' = s) ∨ r = .ok () ∧ s' = s.reload target.uid := by
  simp only [step] at h
  split at h
  · obtain ⟨rfl, rfl⟩ := Prod.mk.inj (Option.some.inj h)
    exact .inr ⟨rfl, rfl⟩
  · obtain ⟨rfl, rfl⟩ := Prod.mk.inj (Option.some.inj h)
    exact .inl ⟨_, rfl, rfl⟩
  · simp at h

/-- **Restarting** a unit: afterwards it runs the loaded definition, unless the restart failed. -/
theorem step_restartUnit {target : PodmanTarget} {unit : Bytes} {c : Choice}
    {r : Result UnitOperationResult}
    (h : s.step K t (.restartUnit target unit) c = some (r, s')) :
    ∃ leavesRunning, c = .restart r leavesRunning ∧
      s' = s.restart target.uid unit (r.toBool || leavesRunning) := by
  simp only [step] at h
  split at h
  · rename_i r' leavesRunning
    obtain ⟨rfl, rfl⟩ := Prod.mk.inj (Option.some.inj h)
    exact ⟨leavesRunning, rfl, rfl⟩
  · simp at h

/-! ### Well-formed states -/

theorem WellFormed.dir_of_entry (hs : s.WellFormed) {dir name : Bytes} {i : ℕ}
    (h : s.entry dir name = some i) : s.subIsDir dir = true :=
  hs.entry_dir (show s.entry dir name ≠ none by simp [h])

theorem wellFormed_openFd (hs : s.WellFormed) {target : OfdTarget}
    (hlt : ∀ i, target = .ino i → i < s.nextIno) : (s.openFd target t).WellFormed where
  sub_root := hs.sub_root
  entry_dir := hs.entry_dir
  entry_lt := hs.entry_lt
  ofd_lt {fd} h := by
    change fd < s.nextFd + 1
    by_cases hfd : fd = s.nextFd
    · exact hfd ▸ Nat.lt_succ_self _
    · have hopen : s.ofd fd ≠ none := by simpa [openFd, Function.update_apply, hfd] using h
      exact Nat.lt_succ_of_lt (hs.ofd_lt hopen)
  target_lt {fd o i} h ho := by
    by_cases hfd : fd = s.nextFd
    · obtain rfl : _ = o := by simpa [openFd, hfd] using h
      exact hlt i ho
    · exact hs.target_lt (by simpa [openFd, Function.update_apply, hfd] using h) ho
  lock_ofd {i fd} h := by
    obtain ⟨o, ho, hi⟩ := hs.lock_ofd h
    have hlt : fd < s.nextFd := hs.ofd_lt (by simp [ho])
    exact ⟨o, by simpa [openFd, Function.update_apply, hlt.ne] using ho, hi⟩
  link_kind := hs.link_kind
  linked_once := hs.linked_once

theorem wellFormed_setDirs (hs : s.WellFormed) {root : Option Node} {sub : Bytes → Option Node}
    (hroot : ∀ dir, sub dir ≠ none → isDirectory root = true)
    (hsub : ∀ dir, s.subIsDir dir = true → isDirectory (sub dir) = true) :
    (s.setDirs root sub).WellFormed where
  sub_root h := hroot _ h
  entry_dir h := hsub _ (hs.entry_dir h)
  entry_lt := hs.entry_lt
  ofd_lt := hs.ofd_lt
  target_lt := hs.target_lt
  lock_ofd := hs.lock_ofd
  link_kind := hs.link_kind
  linked_once := hs.linked_once

theorem Minor.wellFormed (hs : s.WellFormed) (h : Minor t s s') : s'.WellFormed := by
  cases h with
  | same => exact hs
  | opens target hlt => exact wellFormed_openFd hs hlt
  | dirs root sub hroot hsub => exact wellFormed_setDirs hs hroot hsub

theorem wellFormed_create (hs : s.WellFormed) {dir name : Bytes} {node : Inode}
    (hnone : s.entry dir name = none) (hdir : s.subIsDir dir = true) :
    (s.create dir name node).WellFormed where
  sub_root := hs.sub_root
  entry_dir {dir' name'} h := by
    by_cases heq : dir' = dir ∧ name' = name
    · exact heq.1 ▸ hdir
    · have hold : s.entry dir' name' ≠ none := by simpa [create, heq] using h
      exact hs.entry_dir hold
  entry_lt {dir' name' i} h := by
    change i < s.nextIno + 1
    by_cases heq : dir' = dir ∧ name' = name
    · have hnew : s.nextIno = i := by simpa [create, heq] using h
      exact hnew ▸ Nat.lt_succ_self _
    · have hold : s.entry dir' name' = some i := by simpa [create, heq] using h
      exact Nat.lt_succ_of_lt (hs.entry_lt hold)
  ofd_lt := hs.ofd_lt
  target_lt h ho := Nat.lt_succ_of_lt (hs.target_lt h ho)
  lock_ofd := hs.lock_ofd
  link_kind := hs.link_kind
  linked_once {d n d' n' i} h h' hi := by
    -- the new inode has the new entry only
    have hold : ∀ d n, s.entry d n ≠ some s.nextIno := by
      intro d n hlt
      exact absurd (hs.entry_lt hlt) (lt_irrefl _)
    by_cases heq : d = dir ∧ n = name
    · obtain ⟨rfl, rfl⟩ := heq
      have hnew : s.nextIno = i := by simpa [create] using h
      by_contra hne
      exact hold d' n' (by simpa [create, hne, hnew] using h')
    · have h₁ : s.entry d n = some i := by simpa [create, heq] using h
      have hlt : i < s.nextIno := hs.entry_lt h₁
      by_cases heq' : d' = dir ∧ n' = name
      · have hnew : s.nextIno = i := by simpa [create, heq'] using h'
        omega
      · refine hs.linked_once h₁ (by simpa [create, heq'] using h') ?_
        simpa [create, Function.update_apply, hlt.ne] using hi

theorem wellFormed_closeFd (hs : s.WellFormed) {fd : Fd} : (s.closeFd fd).WellFormed where
  sub_root := hs.sub_root
  entry_dir := hs.entry_dir
  entry_lt := hs.entry_lt
  ofd_lt {fd'} h := by
    by_cases hfd : fd' = fd
    · simp [closeFd, hfd] at h
    · exact hs.ofd_lt (by simpa [closeFd, Function.update_apply, hfd] using h)
  target_lt {fd' o i} h ho := by
    by_cases hfd : fd' = fd
    · simp [closeFd, hfd] at h
    · exact hs.target_lt (by simpa [closeFd, Function.update_apply, hfd] using h) ho
  lock_ofd {i fd'} h := by
    simp only [closeFd] at h
    split at h
    · simp at h
    · rename_i hne
      obtain ⟨o, ho, hi⟩ := hs.lock_ofd h
      have hfd : fd' ≠ fd := fun heq => hne (heq ▸ h)
      exact ⟨o, by simpa [closeFd, Function.update_apply, hfd] using ho, hi⟩
  link_kind := hs.link_kind
  linked_once := hs.linked_once

theorem wellFormed_seek (hs : s.WellFormed) {fd : Fd} {offset : ℕ} :
    (s.seek fd offset).WellFormed where
  sub_root := hs.sub_root
  entry_dir := hs.entry_dir
  entry_lt := hs.entry_lt
  ofd_lt {fd'} h := by
    have hopen : s.ofd fd' ≠ none := by
      intro hnone
      refine h ?_
      by_cases hfd : fd' = fd
      · simp [seek, ← hfd, hnone]
      · simpa [seek, hfd] using hnone
    exact hs.ofd_lt hopen
  target_lt {fd' o i} h ho := by
    by_cases hfd : fd' = fd
    · obtain ⟨o', ho', rfl⟩ := Option.map_eq_some_iff.1 (by simpa [seek, hfd] using h)
      exact hs.target_lt ho' ho
    · exact hs.target_lt (by simpa [seek, hfd] using h) ho
  lock_ofd {i fd'} h := by
    obtain ⟨o, ho, hi⟩ := hs.lock_ofd h
    by_cases hfd : fd' = fd
    · exact ⟨{ o with offset := offset }, by simp [seek, ← hfd, ho], hi⟩
    · exact ⟨o, by simpa [seek, hfd] using ho, hi⟩
  link_kind := hs.link_kind
  linked_once := hs.linked_once

theorem wellFormed_setBytes (hs : s.WellFormed) {i : ℕ} {bytes : Bytes} :
    (s.setBytes i bytes).WellFormed where
  sub_root := hs.sub_root
  entry_dir := hs.entry_dir
  entry_lt := hs.entry_lt
  ofd_lt := hs.ofd_lt
  target_lt := hs.target_lt
  lock_ofd := hs.lock_ofd
  link_kind := hs.link_kind
  linked_once {d n d' n' j} h h' hj := by
    refine hs.linked_once h h' ?_
    by_cases hij : j = i
    · simpa [setBytes, hij] using hj
    · simpa [setBytes, Function.update_apply, hij] using hj

theorem wellFormed_removeEntry (hs : s.WellFormed) {dir name : Bytes} :
    (s.removeEntry dir name).WellFormed := by
  have hsub : ∀ {d n i}, (s.removeEntry dir name).entry d n = some i → s.entry d n = some i := by
    intro d n i h
    simp only [removeEntry] at h
    split at h
    · simp at h
    · exact h
  exact {
    sub_root := hs.sub_root
    entry_dir := fun h => by
      obtain ⟨i, hi⟩ := Option.ne_none_iff_exists'.1 h
      exact hs.dir_of_entry (hsub hi)
    entry_lt := fun h => hs.entry_lt (hsub h)
    ofd_lt := hs.ofd_lt
    target_lt := hs.target_lt
    lock_ofd := hs.lock_ofd
    link_kind := hs.link_kind
    linked_once := fun h h' hi => hs.linked_once (hsub h) (hsub h') hi }

theorem wellFormed_renameEntry (hs : s.WellFormed) {dir old new : Bytes} {i : ℕ}
    (hold : s.entry dir old = some i) (hne : s.entry dir new ≠ some i) :
    (s.renameEntry dir old new i).WellFormed := by
  -- an entry of the new tree is an old one, or the new name
  have hsub : ∀ {d n j}, (s.renameEntry dir old new i).entry d n = some j →
      d = dir ∧ n = new ∧ j = i ∨
      ¬ (d = dir ∧ n = new) ∧ ¬ (d = dir ∧ n = old) ∧ s.entry d n = some j := by
    intro d n j h
    simp only [renameEntry] at h
    split at h
    · rename_i heq
      exact .inl ⟨heq.1, heq.2, by simpa [eq_comm] using h⟩
    · split at h
      · simp at h
      · exact .inr ⟨‹_›, ‹_›, h⟩
  exact {
    sub_root := hs.sub_root
    entry_dir := fun h => by
      obtain ⟨j, hj⟩ := Option.ne_none_iff_exists'.1 h
      rcases hsub hj with ⟨rfl, -, -⟩ | ⟨-, -, hj⟩
      · exact hs.dir_of_entry hold
      · exact hs.dir_of_entry hj
    entry_lt := fun h => by
      rcases hsub h with ⟨-, -, rfl⟩ | ⟨-, -, h⟩
      · exact hs.entry_lt hold
      · exact hs.entry_lt h
    ofd_lt := hs.ofd_lt
    target_lt := hs.target_lt
    lock_ofd := hs.lock_ofd
    link_kind := hs.link_kind
    linked_once := fun {d n d' n' j} h h' hj => by
      rcases hsub h with ⟨rfl, rfl, rfl⟩ | ⟨-, hold₁, h₁⟩
      · rcases hsub h' with ⟨rfl, rfl, -⟩ | ⟨-, hold₂, h₂⟩
        · exact ⟨rfl, rfl⟩
        · exact absurd (hs.linked_once hold h₂ hj) hold₂
      · rcases hsub h' with ⟨rfl, rfl, rfl⟩ | ⟨-, -, h₂⟩
        · exact absurd (hs.linked_once hold h₁ hj) hold₁
        · exact hs.linked_once h₁ h₂ hj }

theorem wellFormed_setLock (hs : s.WellFormed) {i : ℕ} {fd : Fd}
    (hfd : s.targetOf fd = some (.ino i)) : (s.setLock i fd).WellFormed where
  sub_root := hs.sub_root
  entry_dir := hs.entry_dir
  entry_lt := hs.entry_lt
  ofd_lt := hs.ofd_lt
  target_lt := hs.target_lt
  lock_ofd {j fd'} h := by
    by_cases hij : j = i
    · obtain rfl : fd = fd' := by simpa [setLock, hij] using h
      obtain ⟨o, ho, htarget⟩ := Option.map_eq_some_iff.1 hfd
      exact ⟨o, ho, by rw [htarget, hij]⟩
    · exact hs.lock_ofd (by simpa [setLock, Function.update_apply, hij] using h)
  link_kind := hs.link_kind
  linked_once := hs.linked_once

theorem wellFormed_reload (hs : s.WellFormed) {uid : UInt32} : (s.reload uid).WellFormed :=
  ⟨hs.sub_root, hs.entry_dir, hs.entry_lt, hs.ofd_lt, hs.target_lt, hs.lock_ofd, hs.linked_once,
    hs.link_kind⟩

theorem wellFormed_restart (hs : s.WellFormed) {uid : UInt32} {unit : Bytes} {runs : Bool} :
    (s.restart uid unit runs).WellFormed :=
  ⟨hs.sub_root, hs.entry_dir, hs.entry_lt, hs.ofd_lt, hs.target_lt, hs.lock_ofd, hs.linked_once,
    hs.link_kind⟩

/-- **A call keeps the state well formed.** -/
theorem step_wellFormed (hs : s.WellFormed) {o : Sys} {c : Choice} {r : o.Resp}
    (h : s.step K t o c = some (r, s')) : s'.WellFormed := by
  by_cases hminor : o.isMinor = true
  · exact (step_minor hs hminor h).wellFormed hs
  cases o with
  | openat dir name flags =>
      rcases step_openat_creat hs (by simpa [Sys.isMinor] using hminor) h with
        ⟨e, -, rfl⟩ | ⟨sub, -, -, ⟨hnone, hdir, rfl⟩ | ⟨i, hi, -, rfl⟩⟩
      · exact hs
      · refine wellFormed_openFd (wellFormed_create hs hnone hdir) fun i hi => ?_
        obtain rfl : s.nextIno = i := by simpa using hi
        exact Nat.lt_succ_self _
      · refine wellFormed_openFd hs fun j hj => ?_
        obtain rfl : i = j := by simpa using hj
        exact hs.entry_lt hi
  | write fd data =>
      rcases step_write h with ⟨e, -, rfl⟩ | ⟨i, offset, owner, n, -, -, -, -, rfl⟩
      · exact hs
      · exact wellFormed_seek (wellFormed_setBytes hs)
  | read fd count =>
      rcases step_read h with ⟨e, -, rfl⟩ | ⟨i, offset, owner, n, -, -, -, -, rfl⟩
      · exact hs
      · exact wellFormed_seek hs
  | close fd =>
      obtain rfl := step_close h
      exact wellFormed_closeFd hs
  | renameat oldDir old newDir new =>
      rcases step_renameat h with ⟨e, -, rfl⟩ | ⟨dir, i, -, -, hold, -, ⟨-, rfl⟩ | ⟨hne, rfl⟩⟩
      · exact hs
      · exact hs
      · exact wellFormed_renameEntry hs hold hne
  | unlinkat dir name =>
      rcases step_unlinkat h with ⟨e, -, rfl, -⟩ | ⟨sub, i, -, -, -, rfl⟩
      · exact hs
      · exact wellFormed_removeEntry hs
  | flock fd =>
      rcases step_flock h with ⟨e, -, rfl⟩ | ⟨i, hi, -, ⟨-, rfl⟩ | ⟨-, rfl⟩⟩
      · exact hs
      · exact wellFormed_setLock hs hi
      · exact hs
  | daemonReload target =>
      rcases step_daemonReload h with ⟨e, -, rfl⟩ | ⟨-, rfl⟩
      · exact hs
      · exact wellFormed_reload hs
  | restartUnit target unit =>
      obtain ⟨leavesRunning, -, rfl⟩ := step_restartUnit h
      exact wellFormed_restart hs
  | _ => exact absurd rfl hminor

end System

/-! ### Where the paths of the installer lead -/

namespace Kernel

variable {K : Kernel}

theorem directory_append_ne (root : PosixPath) {n : Bytes} (h : n ≠ []) :
    PosixPath.directory root ++ n ≠ root := by
  intro heq
  have hlen := congrArg List.length heq
  have hpos := List.length_pos_iff.2 h
  unfold PosixPath.directory at hlen
  split at hlen
  · simp at hlen
    exact h hlen
  · simp at hlen

/-- The path of a directory in the admin root. -/
theorem locate_sub {n : Bytes} (h : PosixPath.IsEntryName n) :
    K.locate (PosixPath.append K.adminRoot n) = .sub n := by
  have hpre : (PosixPath.directory K.adminRoot).isPrefixOf
      (PosixPath.directory K.adminRoot ++ n) = true := by
    rw [List.isPrefixOf_iff_prefix]
    exact List.prefix_append _ _
  rw [PosixPath.append_of_isName _ h.1, locate, if_neg (by simp [h.1.1]),
    if_neg (directory_append_ne _ h.1.1), if_pos hpre]
  simp only [List.drop_left, h, if_true]

/-- The path of an entry of such a directory. -/
theorem locate_entry {dir n : Bytes} (hdir : PosixPath.IsEntryName dir)
    (h : PosixPath.IsEntryName n) :
    K.locate (PosixPath.append (PosixPath.append K.adminRoot dir) n) = .entry dir n := by
  have hpath : PosixPath.append (PosixPath.append K.adminRoot dir) n =
      PosixPath.directory K.adminRoot ++ (dir ++ ch '/' :: n) := by
    have hlast : dir.getLast? ≠ some (ch '/') := fun h => hdir.1.2 (List.mem_of_getLast? h)
    rw [PosixPath.append_of_isName _ h.1, PosixPath.append_of_isName _ hdir.1]
    conv_lhs => rw [PosixPath.directory, if_neg (by simp [hdir.1.1, hlast])]
    simp
  have hpre : (PosixPath.directory K.adminRoot).isPrefixOf
      (PosixPath.directory K.adminRoot ++ (dir ++ ch '/' :: n)) = true := by
    rw [List.isPrefixOf_iff_prefix]
    exact List.prefix_append _ _
  have hslash : ¬ PosixPath.IsEntryName (dir ++ ch '/' :: n) := fun h => h.1.2 (by simp)
  rw [hpath, locate, if_neg (by simp), if_neg (directory_append_ne _ (by simp)), if_pos hpre]
  simp only [List.drop_left, hslash, if_false, before_append_cons hdir.1.2,
    after_append_cons hdir.1.2, hdir, h, and_self, if_true]

end Kernel

/-! ### The machine -/

theorem World.eq_of_toSystem {w w' : World} (h : w.toSystem = w'.toSystem) : w = w' := by
  obtain ⟨s, hs⟩ := w
  obtain ⟨s', hs'⟩ := w'
  obtain rfl : s = s' := h
  rfl

/-- The kernel as a machine on well-formed states. -/
def Kernel.machine (K : Kernel) : Machine Sys.Resp World Choice where
  step t w o c :=
    match h : w.toSystem.step K t o c with
    | none => none
    | some (r, s) => some (r, ⟨s, System.step_wellFormed w.wellFormed h⟩)

@[simp] theorem Kernel.machine_step {K : Kernel} {t : ℕ} {w w' : World} {o : Sys} {c : Choice}
    {r : o.Resp} : K.machine.step t w o c = some (r, w') ↔
      w.toSystem.step K t o c = some (r, w'.toSystem) := by
  rw [Kernel.machine]
  dsimp only
  split
  · rename_i hstep
    simp [hstep]
  · rename_i r₁ s hstep
    constructor
    · intro h
      obtain ⟨rfl, rfl⟩ := Prod.mk.inj (Option.some.inj h)
      exact hstep
    · intro h
      obtain ⟨rfl, rfl⟩ := Prod.mk.inj (Option.some.inj (hstep.symm.trans h))
      rfl

/-- What a call leads to is a world again. -/
theorem World.exists_step {K : Kernel} {t : ℕ} {w : World} {o : Sys} {c : Choice} {r : o.Resp}
    {s : System} (h : w.toSystem.step K t o c = some (r, s)) :
    ∃ w' : World, K.machine.step t w o c = some (r, w') ∧ w'.toSystem = s :=
  ⟨⟨s, System.step_wellFormed w.wellFormed h⟩, Kernel.machine_step.2 h, rfl⟩

end PodInstaller
