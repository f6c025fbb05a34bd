/-
**The path of the Podman socket.**

Before anything is sent to a user's Podman service, the path of its socket is compared with the path
that the layout gives, and then looked at.  What is compared are the normal forms, in which a name
and a `..` behind it are gone; what is looked at, and connected to, is the path as it is.  The two
lead to the same socket in every file system only if they take the same route.

Main definitions:

* `PodInstaller.FileSystem.machine`, `PodInstaller.Accepts` — the check in a file system;
* `PodInstaller.ReachesExpected` — whatever file system accepts the path, it leads to the expected
  socket.

Main results:

* `PodInstaller.accepts_iff` — what the check looks at;
* `PosixPath.isAbsolute_lexicallyNormal` — normal forms start where their paths do;
* `PodInstaller.reachesExpected_iff` — **the paths that lead to the expected socket**.
-/

import PodInstaller.Target
import PodInstaller.RouteTree

set_option relaxedAutoImplicit false
set_option autoImplicit false

namespace PodInstaller

open Bytes PosixPath

/-! ### The check in a file system -/

section

variable {ι : Type}

/-- A file system answers `lstat`. -/
def FileSystem.machine (fs : FileSystem ι) : Machine Sys.Resp Unit Unit where
  step _ w o _ :=
    match o with
    | .lstat path => some (fs.lstat path, w)
    | _ => none

/-- `validate_podman_socket` accepts the target in a file system. -/
def Accepts (fs : FileSystem ι) (target : PodmanTarget)
    (options : SocketValidationOptions) : Prop :=
  ∃ tr, Exec fs.machine 0 () (validatePodmanSocket target options).run tr () (.ok ())

/-- The normal forms of the two paths are the same. -/
def LooksExpected (target : PodmanTarget) (layout : RuntimeDirectoryLayout) : Prop :=
  same (lexicallyNormal target.socketPath)
    (lexicallyNormal (layout.podmanSocketFor target.uid)) = true

variable {fs : FileSystem ι} {target : PodmanTarget} {layout : RuntimeDirectoryLayout}

theorem exec_lstat {path : PosixPath} {tr : List (Event Sys.Resp Unit Unit)} {w' : Unit}
    {r : Except Errno Stat} :
    Exec fs.machine 0 () (sys (.lstat path)) tr w' r ↔
      tr = [⟨(), .lstat path, (), r, ()⟩] ∧ fs.lstat path = r := by
  rw [exec_sys]
  constructor
  · rintro ⟨c, hstep, rfl⟩
    exact ⟨rfl, (Prod.mk.inj (Option.some.inj hstep)).1⟩
  · rintro ⟨rfl, rfl⟩
    exact ⟨(), rfl, rfl⟩

/-- **What the check looks at**, with the default flags. -/
theorem accepts_iff : Accepts fs target { layout := layout } ↔
    target.socketPath ≠ [] ∧ LooksExpected target layout ∧
      ∃ st, fs.lstat (cStr target.socketPath) = .ok st ∧ st.kind = .socket ∧
        st.uid = target.uid := by
  unfold Accepts validatePodmanSocket LooksExpected
  simp only [exec_rejectIf_bind_ok, exec_bind_ok (x := attempt _ _), exec_rejectIf_ok,
    exec_attempt_ok, true_and, not_not, Bool.not_eq_false, ne_eq]
  constructor
  · rintro ⟨tr, hne, hsame, tr₁, w₁, st, tr₂, hstat, ⟨-, hkind, -, huid⟩, -⟩
    exact ⟨hne, hsame, st, (exec_lstat.1 hstat).2, hkind, huid⟩
  · rintro ⟨hne, hsame, st, hstat, hkind, huid⟩
    have hlink : st.kind ≠ .symlink := by
      rw [hkind]
      intro h
      cases h
    exact ⟨_, hne, hsame, _, (), st, [], exec_lstat.2 ⟨rfl, hstat⟩,
      ⟨hlink, hkind, rfl, huid⟩, rfl⟩

end

/-! ### Where paths start -/

theorem isAbsolute_cStr (p : PosixPath) : isAbsolute (cStr p) = isAbsolute p := by
  cases p with
  | nil => rfl
  | cons c p =>
      by_cases hc : c = 0
      · subst hc
        rfl
      · rw [cStr, List.takeWhile_cons_of_pos (by simpa using hc)]
        rfl

/-- Paths with the same normal form start in the same directory. -/
theorem LooksExpected.isAbsolute_eq {target : PodmanTarget} {layout : RuntimeDirectoryLayout}
    (h : LooksExpected target layout) :
    isAbsolute (cStr target.socketPath) =
      isAbsolute (cStr (layout.podmanSocketFor target.uid)) := by
  have hsame := isAbsolute_of_same h
  rwa [isAbsolute_lexicallyNormal, isAbsolute_lexicallyNormal, ← isAbsolute_cStr,
    ← isAbsolute_cStr (layout.podmanSocketFor target.uid)] at hsame

/-! ### The expected socket -/

/-- In every file system in which the target is accepted, with the default flags, its path leads to
the place that the path of the layout leads to, and that is a socket of the user. -/
def ReachesExpected (target : PodmanTarget) (layout : RuntimeDirectoryLayout) : Prop :=
  ∀ (ι : Type) (fs : FileSystem ι), Accepts fs target { layout := layout } →
    ∃ i, fs.resolve false (cStr target.socketPath) = .ok i ∧
      fs.resolve false (cStr (layout.podmanSocketFor target.uid)) = .ok i ∧
      (fs.stat i).kind = .socket ∧ (fs.stat i).uid = target.uid

section

variable {ι : Type} {fs : FileSystem ι} {target : PodmanTarget} {layout : RuntimeDirectoryLayout}

/-- The path of an accepted target leads to a socket of the user. -/
theorem Accepts.resolve (h : Accepts fs target { layout := layout }) :
    ∃ i, fs.resolve false (cStr target.socketPath) = .ok i ∧
      fs.resolve true (cStr target.socketPath) = .ok i ∧
      (fs.stat i).kind = .socket ∧ (fs.stat i).uid = target.uid := by
  obtain ⟨-, -, st, hstat, hkind, huid⟩ := accepts_iff.1 h
  rw [FileSystem.lstat] at hstat
  cases hresolve : fs.resolve true (cStr target.socketPath) with
  | error e =>
      rw [hresolve] at hstat
      cases hstat
  | ok i =>
      rw [hresolve] at hstat
      obtain rfl : fs.stat i = st := Except.ok.inj hstat
      refine ⟨i, FileSystem.resolve_of_nofollow hresolve ?_, rfl, hkind, huid⟩
      rw [hkind]
      intro hlink
      cases hlink

/-- **The paths that lead to the expected socket.** -/
theorem reachesExpected_iff (target : PodmanTarget) (layout : RuntimeDirectoryLayout) :
    ReachesExpected target layout ↔
      ¬ LooksExpected target layout ∨ ¬ EndsInName (cStr target.socketPath) ∨
        EndsInName (cStr (layout.podmanSocketFor target.uid)) ∧
          route (cStr target.socketPath) = route (cStr (layout.podmanSocketFor target.uid)) := by
  constructor
  · intro h
    by_contra hnot
    rw [not_or, not_or, not_not, not_not] at hnot
    obtain ⟨hlooks, hname, hroute⟩ := hnot
    -- a tree in which only the route of the target leads to the socket
    obtain ⟨fs, hp, hq, hstat⟩ :=
      RouteTree.exists_fileSystem hname hlooks.isAbsolute_eq hroute target.uid
    have hne : target.socketPath ≠ [] := by
      intro hnil
      rw [hnil] at hname
      obtain ⟨c, hc, -⟩ := hname
      cases hc
    have haccepts : Accepts fs target { layout := layout } := by
      refine accepts_iff.2 ⟨hne, hlooks, fs.stat .socket, ?_, by rw [hstat], by rw [hstat]⟩
      rw [FileSystem.lstat, hp]
      rfl
    obtain ⟨i, hi, hi', -⟩ := h _ fs haccepts
    have hsocket := FileSystem.resolve_of_nofollow hp (by
      rw [hstat]
      intro hlink
      cases hlink)
    rw [hsocket] at hi
    exact hq (hi'.trans hi.symm)
  · intro h ι fs haccepts
    obtain ⟨i, hi, hi', hkind, huid⟩ := haccepts.resolve
    have hlooks := (accepts_iff.1 haccepts).2.1
    have hname : EndsInName (cStr target.socketPath) := by
      by_contra hname
      have hdirectory := FileSystem.resolve_directory hname hi
      rw [hkind] at hdirectory
      cases hdirectory
    obtain ⟨hexpected, hroute⟩ :=
      (h.resolve_left (not_not.2 hlooks)).resolve_left (not_not.2 hname)
    refine ⟨i, hi, ?_, hkind, huid⟩
    rw [FileSystem.resolve_eq_walk_route hexpected, FileSystem.start, ← hlooks.isAbsolute_eq,
      ← hroute, ← hi, FileSystem.resolve_eq_walk_route hname, FileSystem.start]

/-! ### A path with a link before `..` -/

/-- The directories of a small file system.  The user has put a link into the directory
`/run/user/1000`, which leads to `/tmp/d/e`. -/
def linkedEntries : Fin 12 → List (Bytes × Fin 12)
  | 0 => [("run", 1), ("tmp", 4)]
  | 1 => [("user", 2)]
  | 2 => [("1000", 3)]
  | 3 => [("x", 7), ("podman", 8)]
  | 4 => [("d", 5)]
  | 5 => [("e", 6), ("podman", 10)]
  | 8 => [("podman.sock", 9)]
  | 10 => [("podman.sock", 11)]
  | _ => []

/-- What `lstat` delivers there: a link and two sockets of the user among directories. -/
def linkedStat : Fin 12 → Stat
  | 7 => ⟨.symlink, 1000, 1000, 0o777, 0⟩
  | 9 => ⟨.socket, 1000, 1000, 0o600, 0⟩
  | 11 => ⟨.socket, 1000, 1000, 0o600, 0⟩
  | _ => ⟨.directory, 1000, 1000, 0o755, 0⟩

/-- The parents of the directories. -/
def linkedParent : Fin 12 → Fin 12
  | 2 => 1
  | 3 => 2
  | 5 => 4
  | 6 => 5
  | 8 => 3
  | 10 => 5
  | _ => 0

theorem mem_linkedEntries {d i : Fin 12} {x : Bytes} (h : (linkedEntries d).lookup x = some i) :
    (x, i) ∈ linkedEntries d := by
  obtain ⟨l₁, l₂, hentries, -⟩ := List.lookup_eq_some_iff.1 h
  rw [hentries]
  simp

theorem linkedEntries_sound : ∀ d, ∀ e ∈ linkedEntries d, IsEntryName e.1 ∧
    ((linkedStat e.2).kind = .directory → linkedParent e.2 = d) := by
  decide +kernel

/-- The small file system. -/
def linkedTree : FileSystem (Fin 12) where
  stat := linkedStat
  entry d x := (linkedEntries d).lookup x
  link _ := "/tmp/d/e"
  parent := linkedParent
  root := 0
  cwd := 0
  maxLinks := 40
  entry_name d _ _ h := (linkedEntries_sound d _ (mem_linkedEntries h)).1
  root_directory := rfl
  cwd_directory := rfl
  parent_directory := by decide
  parent_root := rfl
  parent_entry d _ _ h := (linkedEntries_sound d _ (mem_linkedEntries h)).2

/-- A target whose path goes through the link and back. -/
def linkedTarget : PodmanTarget where
  uid := 1000
  userName := "web"
  runtimeDir := "/run/user/1000"
  socketPath := "/run/user/1000/x/../podman/podman.sock"

theorem linked_path_reaches_another : ¬ ReachesExpected linkedTarget {} := by
  intro h
  have hsocket : linkedTree.resolve true (cStr linkedTarget.socketPath) = .ok 11 := by
    decide +kernel
  have haccepts : Accepts linkedTree linkedTarget { layout := {} } := by
    have hlooks : LooksExpected linkedTarget {} := by
      unfold LooksExpected
      decide +kernel
    refine accepts_iff.2 ⟨by decide, hlooks, linkedStat 11, ?_, rfl, rfl⟩
    rw [FileSystem.lstat, hsocket]
    rfl
  obtain ⟨i, hi, hi', -⟩ := h _ linkedTree haccepts
  have hreached : linkedTree.resolve false (cStr linkedTarget.socketPath) = .ok 11 := by
    decide +kernel
  have hexpected : linkedTree.resolve false
      (cStr (RuntimeDirectoryLayout.podmanSocketFor {} linkedTarget.uid)) = .ok 9 := by
    decide +kernel
  rw [hreached] at hi
  rw [hexpected] at hi'
  rw [← Except.ok.inj hi] at hi'
  cases Except.ok.inj hi'

end

end PodInstaller
