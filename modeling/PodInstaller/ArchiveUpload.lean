/-
**From the staging tree to the upload.**

A deployment that loads an image opens the archive in a directory tree that others may change at any
time, and hands the descriptor to curl.  No name on the way may lead through a symbolic link, which
is what `O_NOFOLLOW` is for; and what is looked at with `fstat`, and measured, is the file that the
descriptor stands for, whatever happens to the tree afterwards.

`O_NOFOLLOW` speaks of the last component of a path.  When the path goes on behind its last name,
with a slash or `.`, the kernel follows a link in that place all the same.  The names below the
staging root contain no slash, but the root is passed to `open` as it is configured.

Main definitions:

* `PodInstaller.Found`, `PodInstaller.changingTree` — a tree that others change;
* `PodInstaller.OpenedBelow`, `PodInstaller.SafelyOpened`, `PodInstaller.SafeUpload` — what is asked
  of an upload;
* `PodInstaller.UploadsThroughLink` — the deployments that can upload from below a link.

Main results:

* `PodInstaller.exec_deploy_uploads` — where in a deployment an upload starts;
* `PodInstaller.uploadsSafely_iff` — **when every upload is a bounded beginning of one file**.
-/

import PodInstaller.Calls
import PodInstaller.DryRun
import PodInstaller.Upload

set_option relaxedAutoImplicit false
set_option autoImplicit false

namespace PodInstaller

open Bytes

/-! ### A tree that others change -/

/-- What a call finds: the answers of the environment, and whether a symbolic link stands at the
last name of the path. -/
structure Found where
  answer : (o : Sys) → o.Resp
  link : Bool

/-- The answers that a tree can give.  The empty path names nothing; an `open` that may not follow
the link at the last name fails, unless the path goes on behind the name; `.` and `..` are
directories. -/
def Sys.admits : (o : Sys) → Bool → o.Resp → Bool
  | .openPath path _, link, .ok _ => path != [] && (!link || PosixPath.followsLast path)
  | .openat _ name _, link, .ok _ => name != [] && (!link || PosixPath.followsLast name)
  | .lstat path, _, .ok _ => path != []
  | .fstatat _ name, _, .ok st =>
    name != [] && (st.kind != .regular || (name != "." && name != ".."))
  | _, _, _ => true

/-- A machine that answers in any of these ways, and in another one at the next call. -/
def changingTree : Machine Sys.Resp Unit Found where
  step _ _ o found :=
    if o.admits found.link (found.answer o) then some (found.answer o, ()) else none

/-- An event of a run in such a tree. -/
abbrev TreeEvent := Event Sys.Resp Unit Found

theorem changingTree_step {t : ℕ} {o : Sys} {found : Found} {r : o.Resp}
    (h : changingTree.step t () o found = some (r, ())) : o.admits found.link r = true := by
  simp only [changingTree] at h
  split at h
  · rename_i hadmits
    obtain ⟨rfl, -⟩ := Prod.mk.inj (Option.some.inj h)
    exact hadmits
  · cases h

/-! ### What is asked of an upload -/

/-- The file that a call uploads, with the size it is announced with. -/
def Sys.uploads : Sys → Option (Fd × ℕ)
  | .curl transfer => transfer.upload
  | _ => none

/-- Directories are opened one in the other, and none of the names is a link when it is opened. -/
inductive OpenedBelow : Fd → List TreeEvent → Fd → Prop
  | here (fd : Fd) : OpenedBelow fd [] fd
  | stat {fd fd' : Fd} {name : Bytes} {found : Found} {r : Except Errno Stat}
      {tr : List TreeEvent} (hrest : OpenedBelow fd tr fd') :
      OpenedBelow fd (⟨(), .fstatat fd name, found, r, ()⟩ :: tr) fd'
  | down {fd next fd' : Fd} {name : Bytes} {flags : OpenFlags} {found : Found}
      {tr : List TreeEvent} (hname : PosixPath.IsName name) (hlink : found.link = false)
      (hrest : OpenedBelow next tr fd') :
      OpenedBelow fd (⟨(), .openat fd name flags, found, .ok next, ()⟩ :: tr) fd'

/-- Before an event of the run, a descriptor has been opened below the staging root, without
following a link there or further down, and `fstat` has found a regular file of the given size. -/
def SafelyOpened (options : DeploymentOptions) (tr : List TreeEvent) (e : TreeEvent) (fd : Fd)
    (size : ℕ) : Prop :=
  ∃ root before flags found top below found' st after,
    options.imageArchiveRoot = some root ∧
    tr = before ++ ⟨(), .openPath (cStr root) flags, found, .ok top, ()⟩ :: below ++
      ⟨(), .fstat fd, found', .ok st, ()⟩ :: after ∧
    e ∈ after ∧ found.link = false ∧ OpenedBelow top below fd ∧
    st.kind = .regular ∧ 0 ≤ st.size ∧ st.size ≤ (options.maxImageArchiveBytes.toNat : ℤ) ∧
    size = st.size.toNat

/-- **What is asked of an upload**: the descriptor has been opened safely, and every sequence of
callbacks sends the beginning of its file. -/
structure SafeUpload (options : DeploymentOptions) (tr : List TreeEvent) (e : TreeEvent) (fd : Fd)
    (size : ℕ) : Prop where
  opened : SafelyOpened options tr e fd size
  sends : ∀ rounds upload, Uploads { fd := fd, size := UInt64.ofNat size } rounds upload →
    SendsFile size rounds upload

/-- The components below the root name a file: none is empty as the kernel sees it, and the last one
is not `.` or `..`. -/
def NamesFile (parts : List Bytes) : Prop :=
  (∀ c ∈ parts, cStr c ≠ []) ∧ ∀ c ∈ parts.getLast?, cStr c ≠ "." ∧ cStr c ≠ ".."

theorem namesFile_cons {name : Bytes} {rest : List Bytes} :
    NamesFile (name :: rest) ↔ cStr name ≠ [] ∧
      (rest = [] → cStr name ≠ "." ∧ cStr name ≠ "..") ∧ NamesFile rest := by
  unfold NamesFile
  cases rest with
  | nil => simp
  | cons c rest =>
      rw [List.forall_mem_cons, List.getLast?_cons_cons]
      simp [and_assoc]

/-- The staging root is given by a path that goes on behind its last name, and nothing in the
arguments keeps the deployment from an upload. -/
structure UploadsThroughLink (orchestrator : DeploymentOrchestrator) (bundle : DeploymentBundle) :
    Prop where
  notDry : orchestrator.options.dryRun = false
  systemd : orchestrator.hasSystemd = true
  valid : validateDeploymentBundle bundle = .ok ()
  expected : ∃ expected,
    orchestrator.installer.expectedInstall bundle.targetUid bundle.quadlet = .ok expected
  loads : orchestrator.options.loadImageArchive = true
  archive : ∃ archive root below, bundle.imageArchive = some archive ∧
    archive.expectedSha256 = [] ∧ orchestrator.options.imageArchiveRoot = some root ∧
    PosixPath.followsLast (cStr root) = true ∧ LeadsBelow root archive.path below ∧ NamesFile below
  lock : cStr orchestrator.installer.layout.adminUserRoot ≠ []
  socket : orchestrator.options.validateSocket = true →
    orchestrator.options.runtimeLayout.root.head? ≠ some 0

/-! ### Where an upload starts -/

section

variable {World Choice α : Type} {M : Machine Sys.Resp World Choice} {t : ℕ} {w w' : World}
variable {tr : Trace Sys.Resp World Choice} {e : Event Sys.Resp World Choice}
variable {orchestrator : DeploymentOrchestrator} {bundle : DeploymentBundle}

/-- A program that uploads nothing. -/
abbrev NoUpload {α : Type} (p : SysProg α) : Prop := p.Calls fun o _ => o.uploads = none

theorem LookupOnce.uploads {o : Sys} {again : o.Resp → Bool} (h : LookupOnce o again) :
    o.uploads = none := by
  have hlooks := h.1
  cases o <;> first | rfl | cases hlooks

theorem Sys.uploads_of_isLockCall {o : Sys} (h : o.isLockCall = true) : o.uploads = none := by
  cases o <;> first | rfl | cases h

theorem Sys.uploads_of_isUnitCall {o : Sys} (h : o.isUnitCall = true) : o.uploads = none := by
  cases o <;> first | rfl | cases h

theorem UnitCalls.noUpload {p : SysProg α} (h : UnitCalls p) : NoUpload p :=
  h.mono fun _ _ ho => Sys.uploads_of_isUnitCall ho

theorem noUpload_lockDeployment (layout : QuadletInstallLayout) (uid : UInt32) (unit : Bytes) :
    NoUpload (lockDeployment layout uid unit).run := by
  refine calls_exceptT_bind ?_ fun lockFd => ?_
  · exact (lockCalls_openLock layout uid unit).mono fun _ _ h => Sys.uploads_of_isLockCall h.1
  · exact calls_exceptT_bind (calls_attempt ⟨rfl, fun _ => trivial⟩) fun _ => trivial

/-- An event that uploads is not one of a program that uploads nothing. -/
theorem notMem_of_uploads {p : SysProg α} {a : α} (hp : NoUpload p) (h : Exec M t w p tr w' a)
    {file : Fd × ℕ} (he : e.op.uploads = some file) : e ∉ tr := by
  intro hmem
  rw [exec_calls h hp e hmem] at he
  cases he

/-- Under the lock, the socket is looked at and the image is loaded before anything else. -/
theorem exec_deployLocked_uploads {prepared : DeploymentOrchestrator.Prepared}
    {r : Except Failure DeploymentResult}
    (h : Exec M t w (orchestrator.deployLocked bundle prepared).run tr w' r) {file : Fd × ℕ}
    (he : e.op.uploads = some file) (hmem : e ∈ tr) :
    ∃ tr₁ w₁ tr₂ w₂ loaded after,
      Exec M t w (DeploymentOrchestrator.validateSocket orchestrator.options bundle
        prepared.target).run tr₁ w₁ (.ok ()) ∧
      Exec M t w₁ (DeploymentOrchestrator.loadImage prepared.target prepared.archive).run
        tr₂ w₂ loaded ∧
      e ∈ tr₂ ∧ tr = tr₁ ++ (tr₂ ++ after) := by
  have hsocket := (DeploymentOrchestrator.validateSocket_looksUp orchestrator.options bundle
    prepared.target).mono fun _ _ h => h.uploads
  rw [DeploymentOrchestrator.deployLocked, exec_noRollback_bind] at h
  rcases h with ⟨_, -, h⟩ | ⟨tr₁, w₁, _, tr', hvalid, h, rfl⟩
  · exact absurd hmem (notMem_of_uploads hsocket h he)
  replace hmem := (List.mem_append.1 hmem).resolve_left (notMem_of_uploads hsocket hvalid he)
  rw [exec_noRollback_bind] at h
  rcases h with ⟨_, -, h⟩ | ⟨tr₂, w₂, _, tr₃, hload, h, rfl⟩
  · exact ⟨tr₁, w₁, tr', w', _, [], hvalid, h, hmem, by rw [List.append_nil]⟩
  -- what comes after the image is loaded uploads nothing
  have hrest : NoUpload (do
      let snapshot ← noRollback (orchestrator.installer.snapshotForUser bundle.targetUid
        bundle.quadlet.fileName)
      let installed ← noRollback (orchestrator.installer.installForUser bundle.targetUid
        bundle.quadlet)
      orchestrator.activate bundle prepared.target snapshot
        { installedQuadletPath := installed.path
          systemdUnit := installed.systemdUnit } : Deploy DeploymentResult).run := by
    refine calls_exceptT_bind (calls_noRollback ?_) fun snapshot => ?_
    · exact (treeCalls_snapshotForUser _ _ _).unitCalls.noUpload
    refine calls_exceptT_bind (calls_noRollback ?_) fun installed => ?_
    · exact (treeCalls_installForUser _ _ _).unitCalls.noUpload
    · exact (DeploymentOrchestrator.unitCalls_activate _ _ _ _ _).noUpload
  exact ⟨tr₁, w₁, tr₂, w₂, _, tr₃, hvalid, hload,
    (List.mem_append.1 hmem).resolve_right (notMem_of_uploads hrest h he), rfl⟩

/-- **An upload starts under the lock**, once the socket has been looked at, with the archive that
was opened before the lock. -/
theorem exec_deploy_uploads {r : Except Failure DeploymentResult}
    (h : Exec M t w (orchestrator.deploy bundle).run tr w' r) {file : Fd × ℕ}
    (he : e.op.uploads = some file) (hmem : e ∈ tr) :
    ∃ prepared lockFd tr₁ w₁ tr₂ w₂ tr₃ w₃ tr₄ w₄ loaded after,
      orchestrator.options.dryRun = false ∧
      Exec M t w (orchestrator.prepare bundle).run tr₁ w₁ (.ok prepared) ∧
      Exec M t w₁ (lockDeployment orchestrator.installer.layout bundle.targetUid
        prepared.expected.systemdUnit).run tr₂ w₂ (.ok lockFd) ∧
      Exec M t w₂ (DeploymentOrchestrator.validateSocket orchestrator.options bundle
        prepared.target).run tr₃ w₃ (.ok ()) ∧
      Exec M t w₃ (DeploymentOrchestrator.loadImage prepared.target prepared.archive).run
        tr₄ w₄ loaded ∧
      e ∈ tr₄ ∧ tr = tr₁ ++ (tr₂ ++ (tr₃ ++ (tr₄ ++ after))) := by
  rw [DeploymentOrchestrator.run_deploy] at h
  obtain ⟨tr₁, w₁, prepared, tr', hprepare, hrest, rfl⟩ := exec_bind.1 h
  -- neither the preparation nor the lock uploads anything
  have hnot := notMem_of_uploads ((orchestrator.prepare_looksUp bundle).mono
    fun _ _ h => h.uploads) hprepare he
  replace hmem := (List.mem_append.1 hmem).resolve_left hnot
  cases prepared with
  | error e' =>
      obtain ⟨rfl, -, -⟩ := exec_ret.1 hrest
      simp at hmem
  | ok prepared =>
      rw [DeploymentOrchestrator.afterPrepare] at hrest
      cases hdry : orchestrator.options.dryRun with
      | true =>
          rw [hdry] at hrest
          obtain ⟨rfl, -, -⟩ := exec_ret.1 hrest
          simp at hmem
      | false =>
          rw [hdry, if_neg Bool.false_ne_true, DeploymentOrchestrator.deployFromLock,
            exec_noRollback_bind] at hrest
          have hlock := noUpload_lockDeployment orchestrator.installer.layout bundle.targetUid
            prepared.expected.systemdUnit
          rcases hrest with ⟨_, -, hfail⟩ | ⟨tr₂, w₂, lockFd, tr'', hlocked, hgo, rfl⟩
          · exact absurd hmem (notMem_of_uploads hlock hfail he)
          replace hmem := (List.mem_append.1 hmem).resolve_left
            (notMem_of_uploads hlock hlocked he)
          obtain ⟨tr₃, w₃, result, tr₄, hdeploy, hend, rfl⟩ := exec_observe_bind.1 hgo
          -- and letting the lock go does not either
          have hclose : NoUpload (observe (sys (.close lockFd)) >>= fun _ =>
              (ExceptT.mk (pure result) : Deploy DeploymentResult)).run :=
            calls_exceptT_bind (calls_observe (calls_sys rfl)) fun _ => trivial
          replace hmem := (List.mem_append.1 hmem).resolve_right (notMem_of_uploads hclose hend he)
          obtain ⟨tr₅, w₅, tr₆, w₆, loaded, after, hvalid, hload, hmem', rfl⟩ :=
            exec_deployLocked_uploads hdeploy he hmem
          exact ⟨prepared, lockFd, tr₁, w₁, tr₂, w₂, tr₅, w₅, tr₆, w₆, loaded, after ++ tr₄, rfl,
            hprepare, hlocked, hvalid, hload, hmem', by simp only [List.append_assoc]⟩

/-- The archive is uploaded whole, and its size is one that curl can hold. -/
theorem exec_loadImage_uploads {target : PodmanTarget} {archive : Option OpenArchive}
    {r : Result Unit}
    (h : Exec M t w (DeploymentOrchestrator.loadImage target archive).run tr w' r) {file : Fd × ℕ}
    (he : e.op.uploads = some file) (hmem : e ∈ tr) :
    ∃ a, archive = some a ∧ file = (a.fd, a.size) ∧ a.size ≤ 9223372036854775807 := by
  have hnone : NoUpload (ping target).run :=
    calls_exceptT_bind (calls_attempt (calls_sys rfl)) fun _ => trivial
  cases archive with
  | none =>
      obtain ⟨rfl, -, -⟩ := exec_pure.1 h
      cases hmem
  | some a =>
      rw [DeploymentOrchestrator.loadImage, exec_exceptT_bind] at h
      rcases h with ⟨_, -, hfail⟩ | ⟨tr₁, w₁, _, tr₂, hping, hload, rfl⟩
      · exact absurd hmem (notMem_of_uploads hnone hfail he)
      replace hmem := (List.mem_append.1 hmem).resolve_left (notMem_of_uploads hnone hping he)
      -- nothing is done with the answer to the upload
      obtain ⟨tr₃, w₃, r', hsent, hmem⟩ : ∃ tr₃ w₃ r', Exec M t w₁
          (loadImageArchiveFd target a.fd a.size).run tr₃ w₃ r' ∧ e ∈ tr₃ := by
        rw [exec_exceptT_bind] at hload
        rcases hload with ⟨_, -, hfail⟩ | ⟨tr₃, w₃, _, tr₄, hsent, hend, rfl⟩
        · exact ⟨tr₂, w', _, hfail, hmem⟩
        · obtain ⟨rfl, -, -⟩ := exec_pure.1 hend
          exact ⟨tr₃, w₃, _, hsent, by simpa using hmem⟩
      have hstat : NoUpload (attempt (sys (.fstat a.fd))
          (sysError "failed to stat image archive fd")).run := calls_attempt (calls_sys rfl)
      rw [loadImageArchiveFd_natCast, loadFromFd, exec_exceptT_bind] at hsent
      rcases hsent with ⟨_, -, hfail⟩ | ⟨tr₄, w₄, st, tr₅, hseen, hsent, rfl⟩
      · exact absurd hmem (notMem_of_uploads hstat hfail he)
      replace hmem := (List.mem_append.1 hmem).resolve_left (notMem_of_uploads hstat hseen he)
      rcases exec_rejectIf_bind.1 hsent with ⟨-, rfl, -⟩ | ⟨-, hsent⟩
      · cases hmem
      rcases exec_rejectIf_bind.1 hsent with ⟨-, rfl, -⟩ | ⟨-, hsent⟩
      · cases hmem
      rcases exec_rejectIf_bind.1 hsent with ⟨-, rfl, -⟩ | ⟨hsize, hsent⟩
      · cases hmem
      refine ⟨a, rfl, ?_, not_lt.1 hsize⟩
      have hop := exec_calls hsent (P := fun o => o.uploads = some (a.fd, a.size))
        (calls_exceptT_bind (calls_attempt (calls_sys rfl)) fun _ => trivial) e hmem
      rw [he] at hop
      exact Option.some.inj hop

/-- What a deployment has made sure of once it is prepared with an archive. -/
theorem exec_prepare_archive {prepared : DeploymentOrchestrator.Prepared} {a : OpenArchive}
    (h : Exec M t w (orchestrator.prepare bundle).run tr w' (.ok prepared))
    (ha : prepared.archive = some a) :
    orchestrator.hasSystemd = true ∧ validateDeploymentBundle bundle = .ok () ∧
      orchestrator.installer.expectedInstall bundle.targetUid bundle.quadlet =
        .ok prepared.expected ∧
      orchestrator.options.loadImageArchive = true ∧
      (∃ pw : Passwd, prepared.target = makeTarget pw.uid pw.name
        orchestrator.options.runtimeLayout orchestrator.options.apiVersion) ∧
      ∃ archive tr₁ w₁ tr₂, bundle.imageArchive = some archive ∧
        Exec M t w₁ (openStagedImageArchive archive orchestrator.options).run tr₂ w' (.ok a) ∧
        tr = tr₁ ++ tr₂ := by
  simp only [DeploymentOrchestrator.prepare, exec_bind_ok, exec_rejectIf_ok, exec_done,
    exec_pure] at h
  obtain ⟨_, _, _, _, ⟨rfl, rfl, hsystemd⟩, ⟨_, _, _, _, ⟨rfl, rfl, hvalid⟩, ⟨tr₁, w₁, target, _,
    huser, ⟨_, _, expected, _, ⟨rfl, rfl, hexpected⟩, ⟨tr₂, w₂, found, _, hopen,
    ⟨rfl, rfl, hprepared⟩, rfl⟩, rfl⟩, rfl⟩, rfl⟩, rfl⟩ := h
  obtain rfl := Except.ok.inj hprepared
  obtain rfl : found = some a := ha
  have htarget : ∃ pw : Passwd, target = makeTarget pw.uid pw.name
      orchestrator.options.runtimeLayout orchestrator.options.apiVersion := by
    rw [resolveUid] at huser
    obtain ⟨_, _, pw, _, -, huser, -⟩ := exec_bind_ok.1 huser
    cases pw with
    | none =>
        obtain ⟨-, -, hr⟩ := exec_throw.1 huser
        cases hr
    | some pw =>
        obtain ⟨-, -, hr⟩ := exec_pure.1 huser
        exact ⟨pw, Except.ok.inj hr⟩
  refine ⟨by simpa using hsystemd, hvalid.symm, hexpected.symm, ?_⟩
  unfold DeploymentOrchestrator.openArchive at hopen
  split at hopen
  · rename_i archive hloads harchive
    obtain ⟨tr₃, w₃, opened, tr₄, hopen, hend, rfl⟩ := exec_bind_ok.1 hopen
    obtain ⟨rfl, rfl, ha⟩ := exec_pure.1 hend
    obtain rfl : a = opened := by simpa using ha
    exact ⟨hloads, htarget, archive, tr₁, _, tr₃, harchive, hopen, by simp⟩
  · obtain ⟨-, -, ha⟩ := exec_pure.1 hopen
    cases ha

end

/-! ### The way down -/

section

variable {t : ℕ} {tr : List TreeEvent} {w w' : Unit}

/-- A check that goes through has made no call. -/
theorem exec_checkArchiveStat {World Choice : Type} {M : Machine Sys.Resp World Choice}
    {w w' : World} {tr : Trace Sys.Resp World Choice} {st : Stat} {options : DeploymentOptions}
    {u : Unit} (h : Exec M t w (checkArchiveStat st options).run tr w' (.ok u)) :
    tr = [] ∧ w' = w ∧ st.kind = .regular ∧ 0 ≤ st.size ∧
      st.size ≤ (options.maxImageArchiveBytes.toNat : ℤ) := by
  simp only [checkArchiveStat, exec_bind_ok, exec_rejectIf_ok] at h
  obtain ⟨_, _, _, _, ⟨rfl, rfl, hkind⟩, ⟨rfl, rfl, hsize⟩, rfl⟩ := h
  rw [not_or, not_lt, not_lt] at hsize
  exact ⟨rfl, rfl, not_not.1 hkind, hsize⟩

/-- **Below the root** the loop opens one directory in the other and follows no link. -/
theorem exec_openComponents {options : DeploymentOptions} {current fd : Fd} {parts : List Bytes}
    (hparts : ∀ c ∈ parts, ch '/' ∉ c)
    (h : Exec changingTree t w (openComponents options current parts).run tr w' (.ok fd)) :
    OpenedBelow current tr fd ∧ NamesFile parts := by
  induction parts generalizing current tr w with
  | nil =>
      obtain ⟨rfl, -, hfd⟩ := exec_pure.1 h
      obtain rfl := Except.ok.inj hfd
      exact ⟨.here _, by simp [NamesFile]⟩
  | cons name rest ih =>
      rw [openComponents] at h
      obtain ⟨tr₁, w₁, _, tr₂, hcheck, h₁, rfl⟩ := exec_bind_ok.1 h
      obtain ⟨tr₃, w₂, next, tr₄, hopen, h₂, rfl⟩ := exec_bind_ok.1 h₁
      obtain ⟨hbelow, hrest⟩ := ih (fun c hc => hparts c (List.mem_cons_of_mem _ hc)) h₂
      obtain ⟨found, hstep, rfl⟩ := exec_sys.1 (exec_attempt_ok.1 hopen)
      have hslash := slash_notMem_cStr (hparts name List.mem_cons_self)
      have hadmits := changingTree_step hstep
      simp only [Sys.admits, PosixPath.followsLast_of_slash_notMem hslash, Bool.or_false,
        Bool.and_eq_true, bne_iff_ne, ne_eq, Bool.not_eq_true'] at hadmits
      obtain ⟨hne, hlink⟩ := hadmits
      split at hcheck
      · -- the last component is looked at before it is opened
        rename_i hnil
        subst hnil
        rw [checkFinalComponent] at hcheck
        obtain ⟨tr₅, w₃, st, tr₆, hstat, hfound, rfl⟩ := exec_bind_ok.1 hcheck
        obtain ⟨rfl, rfl, hkind, -⟩ := exec_checkArchiveStat hfound
        obtain ⟨found', hseen, rfl⟩ := exec_sys.1 (exec_attempt_ok.1 hstat)
        have hfile := changingTree_step hseen
        simp only [Sys.admits, hkind, bne_self_eq_false, Bool.false_or, Bool.and_eq_true,
          bne_iff_ne, ne_eq] at hfile
        exact ⟨.stat (.down ⟨hne, hslash⟩ hlink hbelow),
          namesFile_cons.2 ⟨hne, fun _ => hfile.2, hrest⟩⟩
      · rename_i hnil
        obtain ⟨rfl, -, -⟩ := exec_pure.1 hcheck
        exact ⟨.down ⟨hne, hslash⟩ hlink hbelow,
          namesFile_cons.2 ⟨hne, fun h => absurd h hnil, hrest⟩⟩

/-- **The descriptor of an archive** that has been opened. -/
theorem exec_openStagedImageArchive {archive : ImageArchive} {options : DeploymentOptions}
    {a : OpenArchive}
    (h : Exec changingTree t w (openStagedImageArchive archive options).run tr w' (.ok a)) :
    archive.expectedSha256 = [] ∧ ∃ root names flags found top below found' st,
      options.imageArchiveRoot = some root ∧ LeadsBelow root archive.path names ∧
      NamesFile names ∧
      tr = ⟨(), .openPath (cStr root) flags, found, .ok top, ()⟩ :: below ++
        [⟨(), .fstat a.fd, found', .ok st, ()⟩] ∧
      (found.link = true → PosixPath.followsLast (cStr root) = true) ∧
      OpenedBelow top below a.fd ∧ st.kind = .regular ∧ 0 ≤ st.size ∧
      st.size ≤ (options.maxImageArchiveBytes.toNat : ℤ) ∧ a.size = st.size.toNat := by
  rw [openStagedImageArchive] at h
  obtain ⟨_, _, _, _, hcheck, hopen, rfl⟩ := exec_bind_ok.1 h
  obtain ⟨rfl, -, hsha⟩ := exec_rejectIf_ok.1 hcheck
  refine ⟨not_not.1 hsha, ?_⟩
  cases hroot : options.imageArchiveRoot with
  | none =>
      rw [hroot] at hopen
      obtain ⟨-, -, hr⟩ := exec_throw.1 hopen
      cases hr
  | some root =>
      rw [hroot] at hopen
      simp only [exec_bind_ok, exec_done, exec_pure] at hopen
      obtain ⟨_, _, relative, _, ⟨rfl, -, hrelative⟩, ⟨_, w₁, top, _, htop, ⟨tr₁, w₂, fd, _, hdown,
        ⟨_, w₃, st, _, hstat, ⟨_, _, _, _, hcheck, ⟨rfl, -, ha⟩, rfl⟩, rfl⟩, rfl⟩, rfl⟩, rfl⟩ :=
          hopen
      obtain rfl := Except.ok.inj ha
      obtain ⟨rfl, rfl, hkind, hnonneg, hmax⟩ := exec_checkArchiveStat hcheck
      obtain ⟨found, hopened, rfl⟩ := exec_sys.1 (exec_attempt_ok.1 htop)
      obtain ⟨found', -, rfl⟩ := exec_sys.1 (exec_attempt_ok.1 hstat)
      -- what the tree lets the root of the archives be
      have hadmits := changingTree_step hopened
      simp only [Sys.admits, Bool.and_eq_true, bne_iff_ne, ne_eq, Bool.or_eq_true,
        Bool.not_eq_true'] at hadmits
      have hne : root ≠ [] := fun hnil => hadmits.1 (by rw [hnil]; rfl)
      obtain ⟨names, hleads, rfl⟩ := (relativeStagedPath_eq_ok hne).1 hrelative.symm
      rw [hleads.components_join hne] at hdown
      obtain ⟨hbelow, hfile⟩ :=
        exec_openComponents (fun c hc => (hleads.isEntryName hne c hc).1.2) hdown
      refine ⟨root, names, { directory := true }, found, top, tr₁, found', st, rfl,
        hleads, hfile, by simp, fun hlink => ?_, hbelow, hkind, hnonneg, hmax, rfl⟩
      rcases hadmits.2 with hno | hfollows
      · rw [hno] at hlink
        cases hlink
      · exact hfollows

end

/-! ### Every upload -/

section

variable {t : ℕ} {tr : List TreeEvent} {w w' : Unit}
variable {orchestrator : DeploymentOrchestrator} {bundle : DeploymentBundle}

/-- A lock file has been opened, so the admin root has a name. -/
theorem adminUserRoot_ne_nil {layout : QuadletInstallLayout} {uid : UInt32} {unit : Bytes}
    {lockFd : Fd}
    (h : Exec changingTree t w (lockDeployment layout uid unit).run tr w' (.ok lockFd)) :
    cStr layout.adminUserRoot ≠ [] := by
  obtain ⟨tr₁, w₁, fd, tr₂, hlock, -, rfl⟩ := exec_bind_ok.1 h
  obtain ⟨tr₃, w₂, _, tr₄, -, hroot, rfl⟩ := exec_bind_ok.1 hlock
  obtain ⟨tr₅, w₃, rootFd, tr₆, hopen, -, rfl⟩ := exec_bind_ok.1 hroot
  obtain ⟨found, hstep, rfl⟩ := exec_sys.1 (exec_attempt_ok.1 hopen)
  have hadmits := changingTree_step hstep
  simp only [Sys.admits, Bool.and_eq_true, bne_iff_ne, ne_eq] at hadmits
  exact hadmits.1

/-- A path begins with a NUL byte if it did before a name was appended. -/
theorem head?_append_eq_nul (p : PosixPath) {n : Bytes} (hn : PosixPath.IsName n) (hnul : 0 ∉ n) :
    (PosixPath.append p n).head? = some 0 ↔ p.head? = some 0 := by
  rw [PosixPath.append_of_isName p hn]
  cases p with
  | nil =>
      have hhead : n.head? ≠ some 0 := fun h => hnul (List.mem_of_head? h)
      simpa [PosixPath.directory] using hhead
  | cons c p =>
      unfold PosixPath.directory
      split <;> simp

theorem cStr_eq_nil {p : Bytes} : cStr p = [] ↔ p = [] ∨ p.head? = some 0 := by
  cases p with
  | nil => simp [cStr]
  | cons c p => simp [cStr, List.takeWhile_cons]

/-- The path of the socket has a name as the kernel sees it, unless the runtime root begins with a
NUL byte. -/
theorem cStr_podmanSocketFor {layout : RuntimeDirectoryLayout} {uid : UInt32} :
    cStr (layout.podmanSocketFor uid) = [] ↔ layout.root.head? = some 0 := by
  have hpodman : PosixPath.IsName "podman" ∧ 0 ∉ ofString "podman" := by decide +kernel
  have hsock : PosixPath.IsName "podman.sock" ∧ 0 ∉ ofString "podman.sock" := by decide +kernel
  have hne : layout.podmanSocketFor uid ≠ [] := by
    rw [RuntimeDirectoryLayout.podmanSocketFor, PosixPath.append_of_isName _ hsock.1]
    exact List.append_ne_nil_of_right_ne_nil _ hsock.1.1
  rw [cStr_eq_nil, or_iff_right hne, RuntimeDirectoryLayout.podmanSocketFor,
    head?_append_eq_nul _ hsock.1 hsock.2, head?_append_eq_nul _ hpodman.1 hpodman.2,
    RuntimeDirectoryLayout.runtimeDirFor,
    head?_append_eq_nul _ (isEntryName_uidString uid).1 (nul_notMem_uidString uid)]

/-- The socket has been looked at, so its path has a name. -/
theorem socket_ne_nil {target : PodmanTarget} {options : SocketValidationOptions} {u : Unit}
    (h : Exec changingTree t w (validatePodmanSocket target options).run tr w' (.ok u)) :
    cStr target.socketPath ≠ [] := by
  obtain ⟨_, _, _, _, -, hpath, rfl⟩ := exec_bind_ok.1 h
  obtain ⟨_, _, _, _, -, hlook, rfl⟩ := exec_bind_ok.1 hpath
  obtain ⟨_, _, st, _, hstat, -, rfl⟩ := exec_bind_ok.1 hlook
  obtain ⟨found, hstep, rfl⟩ := exec_sys.1 (exec_attempt_ok.1 hstat)
  have hadmits := changingTree_step hstep
  simpa only [Sys.admits, bne_iff_ne, ne_eq] using hadmits

/-- **An upload from below a link** is only possible where the arguments let it be. -/
theorem safeUpload_of_exec (hnot : ¬ UploadsThroughLink orchestrator bundle)
    {r : Except Failure DeploymentResult}
    (h : Exec changingTree t w (orchestrator.deploy bundle).run tr w' r) {e : TreeEvent}
    (hmem : e ∈ tr) {fd : Fd} {size : ℕ} (he : e.op.uploads = some (fd, size)) :
    SafeUpload orchestrator.options tr e fd size := by
  obtain ⟨prepared, lockFd, tr₁, w₁, tr₂, w₂, tr₃, w₃, tr₄, w₄, loaded, after, hdry, hprepare,
    hlock, hsocket, hload, hmem', rfl⟩ := exec_deploy_uploads h he hmem
  obtain ⟨a, ha, hfile, hsize⟩ := exec_loadImage_uploads hload he hmem'
  obtain ⟨rfl, rfl⟩ := Prod.mk.inj hfile
  obtain ⟨hsystemd, hvalid, hexpected, hloads, ⟨pw, htarget⟩, archive, tr₅, w₅, tr₆, harchive,
    hopen, rfl⟩ := exec_prepare_archive hprepare ha
  obtain ⟨hsha, root, names, flags, found, top, below, found', st, hroot, hleads, hnames, rfl,
    hlink, hbelow, hkind, hnonneg, hmax, hst⟩ := exec_openStagedImageArchive hopen
  refine ⟨⟨root, tr₅, flags, found, top, below, found', st, tr₂ ++ (tr₃ ++ (tr₄ ++ after)), hroot,
    by simp, by simp [hmem'], ?_, hbelow, hkind, hnonneg, hmax, hst⟩,
    fun rounds upload hrounds => ?_⟩
  · -- a link at the root needs the end of the path, and everything else has been passed
    by_contra hfollowed
    refine hnot ⟨hdry, hsystemd, hvalid, ⟨_, hexpected⟩, hloads, ⟨archive, root, names, harchive,
      hsha, hroot, hlink (by simpa using hfollowed), hleads, hnames⟩, adminUserRoot_ne_nil hlock,
      fun hvalidate hnul => ?_⟩
    rw [DeploymentOrchestrator.validateSocket, if_pos ⟨hvalidate, hloads, by simp [harchive]⟩,
      htarget] at hsocket
    exact socket_ne_nil hsocket (cStr_podmanSocketFor.2 hnul)
  · have hbounded : FdUpload.Bounded { fd := a.fd, size := UInt64.ofNat a.size } a.size := by
      refine ⟨UInt64.toNat_ofNat_of_lt' ?_, by omega, Nat.zero_le _⟩
      simp only [UInt64.size]
      omega
    exact hrounds.sendsFile hbounded rfl

end

/-! ### A tree that leads through a link -/

section

variable {t : ℕ}
variable {orchestrator : DeploymentOrchestrator} {bundle : DeploymentBundle}

/-- The answers of an environment in which everything that is looked up is there and belongs to the
owner that is asked for, and in which Podman answers, but the upload itself fails. -/
def obliging (uid : UInt32) (layout : QuadletInstallLayout) : (o : Sys) → o.Resp
  | .getpwuid user => .ok (some ⟨user, []⟩)
  | .createDirectories _ => .ok ()
  | .openPath path _ => if path = [] then .error ENOENT else .ok 3
  | .openat _ name _ => if name = [] then .error ENOENT else .ok 4
  | .lstat path => if path = [] then .error ENOENT else .ok ⟨.socket, uid, 0, 0o600, 0⟩
  | .fstatat _ name =>
    if name = [] ∨ name = "." ∨ name = ".." then .error ENOENT else .ok ⟨.regular, 0, 0, 0o644, 0⟩
  | .fstat _ =>
    .ok ⟨.regular, layout.requiredOwnerUid.getD 0, layout.requiredOwnerGid.getD 0, 0o755, 0⟩
  | .fchmod _ _ => .ok ()
  | .mkdirat _ _ _ => .ok ()
  | .flock _ => .ok ()
  | .curl transfer => if transfer.upload.isSome then .error .noHandle else .ok { status := 200 }
  | o => refused o

/-- A link stands wherever a path goes on behind its last name. -/
def linkedAnswer (uid : UInt32) (layout : QuadletInstallLayout) : Sys → Found
  | .openPath path _ => ⟨obliging uid layout, PosixPath.followsLast path⟩
  | _ => ⟨obliging uid layout, false⟩

theorem changingTree_obliging (uid : UInt32) (layout : QuadletInstallLayout) (o : Sys) :
    changingTree.step t () o (linkedAnswer uid layout o) =
      some (obliging uid layout o, ()) := by
  have hadmits : o.admits (linkedAnswer uid layout o).link
      ((linkedAnswer uid layout o).answer o) = true := by
    cases o with
    | openPath path flags =>
        by_cases hnil : path = [] <;> simp [linkedAnswer, obliging, Sys.admits, hnil]
    | openat dir name flags =>
        by_cases hnil : name = [] <;> simp [linkedAnswer, obliging, Sys.admits, hnil]
    | lstat path =>
        by_cases hnil : path = [] <;> simp [linkedAnswer, obliging, Sys.admits, hnil]
    | fstatat dir name =>
        by_cases hdots : name = [] ∨ name = "." ∨ name = ".."
        · simp [linkedAnswer, obliging, Sys.admits, hdots]
        · simp only [linkedAnswer, obliging, hdots, if_false]
          rw [not_or, not_or] at hdots
          simp [Sys.admits, hdots]
    | _ => rfl
  simp only [changingTree, hadmits, if_true]
  cases o <;> rfl

section

variable (uid : UInt32) (layout : QuadletInstallLayout)

/-- What is found at a descriptor is a regular file of the owner that is asked for. -/
theorem result_fstat (fd : Fd) : (sys (.fstat fd)).result (obliging uid layout) =
    .ok ⟨.regular, layout.requiredOwnerUid.getD 0, layout.requiredOwnerGid.getD 0, 0o755, 0⟩ := rfl

theorem result_openPath {path : PosixPath} (h : path ≠ []) (flags : OpenFlags) :
    (sys (.openPath path flags)).result (obliging uid layout) = .ok 3 := if_neg h

theorem result_openat (dir : Fd) {name : Bytes} (h : name ≠ []) (flags : OpenFlags) :
    (sys (.openat dir name flags)).result (obliging uid layout) = .ok 4 := if_neg h

theorem result_checkArchiveStat {options : DeploymentOptions} {st : Stat}
    (hkind : st.kind = .regular) (hsize : st.size = 0) :
    (checkArchiveStat st options).run.result (obliging uid layout) = .ok () := by
  rw [checkArchiveStat, result_exceptT_bind (result_rejectIf _ (by simp [hkind]) _)]
  exact result_rejectIf _ (by simp [hsize]) _

/-- The loop comes to its end where the names name a file. -/
theorem result_openComponents (options : DeploymentOptions) {parts : List Bytes} (current : Fd)
    (hparts : NamesFile parts) :
    ∃ fd, (openComponents options current parts).run.result (obliging uid layout) = .ok fd := by
  induction parts generalizing current with
  | nil => exact ⟨current, rfl⟩
  | cons name rest ih =>
      obtain ⟨hname, hlast, hrest⟩ := namesFile_cons.1 hparts
      obtain ⟨fd, hfd⟩ := ih 4 hrest
      refine ⟨fd, ?_⟩
      have hcheck : (if rest = [] then checkFinalComponent options current name
          else pure ()).run.result (obliging uid layout) = .ok () := by
        split
        · rename_i hnil
          have hstat : (sys (.fstatat current (cStr name))).result (obliging uid layout) =
              .ok ⟨.regular, 0, 0, 0o644, 0⟩ := by
            refine if_neg ?_
            simp [hname, hlast hnil]
          rw [checkFinalComponent, result_exceptT_bind (result_attempt _ hstat _)]
          exact result_checkArchiveStat uid layout rfl rfl
        · rfl
      rw [openComponents, result_exceptT_bind hcheck,
        result_exceptT_bind (result_attempt _ (result_openat uid layout current hname _) _)]
      exact hfd

theorem result_openStagedImageArchive {archive : ImageArchive} {options : DeploymentOptions}
    {root relative : PosixPath} (hsha : archive.expectedSha256 = [])
    (hroot : options.imageArchiveRoot = some root) (hne : cStr root ≠ [])
    (hrelative : relativeStagedPath root archive.path = .ok relative)
    (hnames : NamesFile (PosixPath.components relative)) :
    ∃ fd, (openStagedImageArchive archive options).run.result (obliging uid layout) =
      .ok ⟨fd, 0⟩ := by
  obtain ⟨fd, hfd⟩ := result_openComponents uid layout options 3 hnames
  have hdone : (done (relativeStagedPath root archive.path)).run.result (obliging uid layout) =
      .ok relative := hrelative
  refine ⟨fd, ?_⟩
  rw [openStagedImageArchive, result_exceptT_bind (result_rejectIf _ (by simp [hsha]) _), hroot]
  dsimp only
  rw [result_exceptT_bind hdone,
    result_exceptT_bind (result_attempt _ (result_openPath uid layout hne _) _),
    result_exceptT_bind hfd, result_exceptT_bind (result_attempt _ (result_fstat uid layout fd) _),
    result_exceptT_bind (result_checkArchiveStat uid layout rfl rfl)]
  rfl

/-- The owner that is asked for is the one that is found. -/
theorem result_validateOwner (fd : Fd) (description : Bytes) :
    (validateOwnerIfRequired fd layout description).run.result (obliging uid layout) = .ok () := by
  rw [validateOwnerIfRequired,
    result_exceptT_bind (result_attempt _ (result_fstat uid layout fd) _),
    result_exceptT_bind (result_rejectIf _ ?_ _), result_rejectIf _ ?_ _]
  · rintro ⟨gid, hgid, hne⟩
    exact hne (by simp [Option.mem_def.1 hgid])
  · rintro ⟨user, huser, hne⟩
    exact hne (by simp [Option.mem_def.1 huser])

/-- The lock is taken. -/
theorem result_lockDeployment (user : UInt32) (unit : Bytes)
    (hroot : cStr layout.adminUserRoot ≠ []) :
    (lockDeployment layout user unit).run.result (obliging uid layout) = .ok 4 := by
  have hmake : (sys (.createDirectories (cStr layout.adminUserRoot))).result
      (obliging uid layout) = .ok () := rfl
  have hlocks : cStr locksName ≠ [] := by decide
  have hmade : (makeLocks 3).run.result (obliging uid layout) = .ok () := rfl
  have hmode : (sys (.fchmod 4 0o755)).result (obliging uid layout) = .ok () := rfl
  have hname : cStr (lockName user unit) ≠ [] := by
    obtain ⟨c, digits, hdigits⟩ := List.exists_cons_of_ne_nil (isEntryName_uidString user).1.1
    have hnul : c ≠ 0 := by
      intro h
      refine nul_notMem_uidString user ?_
      simp [hdigits, h]
    simp [cStr_eq_nil, lockName, hdigits, hnul]
  have hheld : (sysUntil (.flock 4) interrupted).result (obliging uid layout) = .ok () := rfl
  have hopened : (openLock layout user unit).run.result (obliging uid layout) = .ok 4 := by
    rw [openLock, result_exceptT_bind (result_attempt _ hmake _),
      result_exceptT_bind (result_attempt _ (result_openPath uid layout hroot _) _),
      result_exceptT_bind (result_validateOwner uid layout 3 _), result_exceptT_bind hmade,
      result_exceptT_bind (result_attempt _ (result_openat uid layout 3 hlocks _) _),
      result_exceptT_bind (result_validateOwner uid layout 4 _),
      result_exceptT_bind (result_attempt _ hmode _)]
    exact result_attempt _ (result_openat uid layout 4 hname _) _
  rw [lockDeployment, result_exceptT_bind hopened,
    result_exceptT_bind (result_attempt _ hheld _)]
  rfl

/-- The user's socket is there. -/
theorem result_validatePodmanSocket (target : PodmanTarget) (options : SocketValidationOptions)
    (hpath : cStr target.socketPath ≠ [])
    (hsame : target.socketPath = options.layout.podmanSocketFor target.uid) :
    (validatePodmanSocket target options).run.result (obliging target.uid layout) = .ok () := by
  have hne : target.socketPath ≠ [] := fun hnil => hpath (by rw [hnil]; rfl)
  have hstat : (sys (.lstat (cStr target.socketPath))).result (obliging target.uid layout) =
      .ok ⟨.socket, target.uid, 0, 0o600, 0⟩ := if_neg hpath
  rw [validatePodmanSocket, result_exceptT_bind (result_rejectIf _ hne _)]
  dsimp only
  rw [result_exceptT_bind (result_rejectIf _ (by simp [hsame, PosixPath.same]) _),
    result_exceptT_bind (result_attempt _ hstat _),
    result_exceptT_bind (result_rejectIf _ (by simp) _),
    result_exceptT_bind (result_rejectIf _ (by simp) _)]
  exact result_rejectIf _ (by simp) _

/-- The socket passes, if it is looked at. -/
theorem result_validateSocket {target : PodmanTarget}
    (hlinked : UploadsThroughLink orchestrator bundle)
    (htarget : target = makeTarget bundle.targetUid [] orchestrator.options.runtimeLayout
      orchestrator.options.apiVersion) :
    (DeploymentOrchestrator.validateSocket orchestrator.options bundle target).run.result
      (obliging bundle.targetUid layout) = .ok () := by
  subst htarget
  unfold DeploymentOrchestrator.validateSocket
  split
  · rename_i hvalidate
    have hpath : cStr (orchestrator.options.runtimeLayout.podmanSocketFor bundle.targetUid) ≠ [] :=
      fun hnil => hlinked.socket hvalidate.1 (cStr_podmanSocketFor.1 hnil)
    exact result_validatePodmanSocket layout (makeTarget bundle.targetUid [] _ _)
      { layout := orchestrator.options.runtimeLayout } hpath rfl
  · rfl

/-- The deployment is prepared. -/
theorem result_prepare (hnot : UploadsThroughLink orchestrator bundle) :
    ∃ prepared fd, (orchestrator.prepare bundle).run.result (obliging uid layout) = .ok prepared ∧
      prepared.target = makeTarget bundle.targetUid [] orchestrator.options.runtimeLayout
        orchestrator.options.apiVersion ∧ prepared.archive = some ⟨fd, 0⟩ := by
  obtain ⟨archive, root, below, harchive, hsha, hroot, hfollows, hleads, hnames⟩ := hnot.archive
  obtain ⟨expected, hexpected⟩ := hnot.expected
  have hne : cStr root ≠ [] := by
    intro hnil
    rw [hnil] at hfollows
    exact absurd hfollows (by decide +kernel)
  have hrelative := (relativeStagedPath_eq_ok (ne_nil_of_cStr hne)).2 ⟨below, hleads, rfl⟩
  rw [← hleads.components_join (ne_nil_of_cStr hne)] at hnames
  obtain ⟨fd, hfd⟩ := result_openStagedImageArchive uid layout hsha hroot hne hrelative hnames
  have hvalid : (done (validateDeploymentBundle bundle)).run.result (obliging uid layout) =
      .ok () := hnot.valid
  have hjudged : (done (orchestrator.installer.expectedInstall bundle.targetUid
      bundle.quadlet)).run.result (obliging uid layout) = .ok expected := hexpected
  have huser : (resolveUid bundle.targetUid orchestrator.options.runtimeLayout
      orchestrator.options.apiVersion).run.result (obliging uid layout) =
        .ok (makeTarget bundle.targetUid [] orchestrator.options.runtimeLayout
          orchestrator.options.apiVersion) := rfl
  have hopened : (DeploymentOrchestrator.openArchive orchestrator.options bundle).run.result
      (obliging uid layout) = .ok (some ⟨fd, 0⟩) := by
    rw [DeploymentOrchestrator.openArchive, hnot.loads, harchive]
    dsimp only
    rw [result_exceptT_bind hfd]
    rfl
  refine ⟨⟨_, expected, some ⟨fd, 0⟩⟩, fd, ?_, rfl, rfl⟩
  rw [DeploymentOrchestrator.prepare,
    result_exceptT_bind (result_rejectIf _ (by simp [hnot.systemd]) _),
    result_exceptT_bind hvalid, result_exceptT_bind huser, result_exceptT_bind hjudged,
    result_exceptT_bind hopened]
  rfl

end

/-- A run that is answered from the table finds a link at the staging root. -/
def FindsLinks (uid : UInt32) (layout : QuadletInstallLayout) (tr : List TreeEvent) : Prop :=
  ∀ e ∈ tr, e.choice = linkedAnswer uid layout e.op

theorem FindsLinks.nil (uid : UInt32) (layout : QuadletInstallLayout) :
    FindsLinks uid layout [] := by
  simp [FindsLinks]

theorem FindsLinks.append {uid : UInt32} {layout : QuadletInstallLayout} {tr tr' : List TreeEvent}
    (h : FindsLinks uid layout tr) (h' : FindsLinks uid layout tr') :
    FindsLinks uid layout (tr ++ tr') :=
  fun e he => (List.mem_append.1 he).elim (h e) (h' e)

/-- Programs that make each call once have such a run. -/
theorem exists_linkedRun {α : Type} {uid : UInt32} {layout : QuadletInstallLayout} {p : SysProg α}
    {a : α} (hresult : p.result (obliging uid layout) = a)
    (hp : p.Calls fun o again => again (obliging uid layout o) = false) :
    ∃ tr, Exec changingTree t () p tr () a ∧ FindsLinks uid layout tr := by
  obtain ⟨tr, h, htr⟩ := exists_exec_result (changingTree_obliging uid layout) hp
  exact ⟨tr, hresult ▸ h, htr⟩

/-- The event of a call that is answered from the table. -/
def linkedEvent (uid : UInt32) (layout : QuadletInstallLayout) (o : Sys) : TreeEvent :=
  ⟨(), o, linkedAnswer uid layout o, obliging uid layout o, ()⟩

theorem exec_linkedEvent (uid : UInt32) (layout : QuadletInstallLayout) (o : Sys) :
    Exec changingTree t () (sys o) [linkedEvent uid layout o] () (obliging uid layout o) :=
  exec_sys.2 ⟨_, changingTree_obliging uid layout o, rfl⟩

theorem findsLinks_event (uid : UInt32) (layout : QuadletInstallLayout) (o : Sys) :
    FindsLinks uid layout [linkedEvent uid layout o] := by
  intro e he
  obtain rfl := List.mem_singleton.1 he
  rfl

/-- The upload is started. -/
theorem exists_loadImage (uid : UInt32) (layout : QuadletInstallLayout) (target : PodmanTarget)
    (fd : Fd) : ∃ tr e r, Exec changingTree t ()
        (DeploymentOrchestrator.loadImage target (some ⟨fd, 0⟩)).run tr () (.error r) ∧
      FindsLinks uid layout tr ∧ e ∈ tr ∧ e.op.uploads = some (fd, 0) := by
  have hcalls : (ping target).run.Calls fun o again => again (obliging uid layout o) = false :=
    calls_exceptT_bind (calls_attempt (calls_sys rfl)) fun _ => trivial
  have hresult : (ping target).run.result (obliging uid layout) = .ok { status := 200 } := rfl
  obtain ⟨tr₁, hping, htr₁⟩ := exists_linkedRun (t := t) hresult hcalls
  have hstat := exec_linkedEvent (t := t) uid layout (.fstat fd)
  obtain ⟨tr₃, hsend, htr₃, e, hmem, he⟩ : ∃ tr₃, Exec changingTree t () (sys (.curl
      { socketPath := cStr target.socketPath
        url := cStr (baseUrl ++ versionedPath target "/libpod/images/load")
        method := "POST"
        headers := ["Content-Type: application/x-tar"]
        upload := some (fd, 0) })) tr₃ () (.error .noHandle) ∧
      FindsLinks uid layout tr₃ ∧ ∃ e ∈ tr₃, e.op.uploads = some (fd, 0) :=
    ⟨_, exec_linkedEvent uid layout (.curl _), findsLinks_event uid layout (.curl _), _,
      List.mem_singleton_self _, rfl⟩
  have hload : Exec changingTree t () (loadImageArchiveFd target fd 0).run
      ([linkedEvent uid layout (.fstat fd)] ++ tr₃) () (.error (curlError .noHandle)) := by
    rw [loadImageArchiveFd_natCast, loadFromFd]
    refine exec_exceptT_bind.2 (.inr ⟨_, (), _, _, exec_attempt_ok.2 hstat, ?_, rfl⟩)
    refine exec_rejectIf_bind.2 (.inr ⟨by simp, ?_⟩)
    refine exec_rejectIf_bind.2 (.inr ⟨by simp, ?_⟩)
    refine exec_rejectIf_bind.2 (.inr ⟨by simp, ?_⟩)
    exact exec_exceptT_bind.2 (.inl ⟨_, rfl, exec_attempt_error.2 ⟨_, rfl, hsend⟩⟩)
  have htr₂ := (findsLinks_event uid layout (.fstat fd)).append htr₃
  refine ⟨tr₁ ++ _, e, _, exec_exceptT_bind.2 (.inr ⟨tr₁, (), _, _, hping,
    exec_exceptT_bind.2 (.inl ⟨_, rfl, hload⟩), rfl⟩), htr₁.append htr₂, ?_, he⟩
  exact List.mem_append_right _ (List.mem_append_right _ hmem)

/-- **A deployment that can upload from below a link** does so in a tree that has one. -/
theorem exists_upload (hlinked : UploadsThroughLink orchestrator bundle) :
    ∃ tr r e fd, Exec changingTree t () (orchestrator.deploy bundle).run tr () r ∧
      FindsLinks bundle.targetUid orchestrator.installer.layout tr ∧ e ∈ tr ∧
      e.op.uploads = some (fd, 0) := by
  generalize hlayout : orchestrator.installer.layout = layout
  obtain ⟨prepared, fd, hprepared, htarget, harchive⟩ :=
    result_prepare bundle.targetUid layout hlinked
  obtain ⟨tr₁, hprepare, htr₁⟩ := exists_linkedRun (t := t) hprepared
    ((orchestrator.prepare_looksUp bundle).mono fun _ _ h => h.2 _)
  obtain ⟨tr₂, hlock, htr₂⟩ := exists_linkedRun (t := t)
    (result_lockDeployment bundle.targetUid layout bundle.targetUid prepared.expected.systemdUnit
      (hlayout ▸ hlinked.lock))
    (calls_exceptT_bind ((lockCalls_openLock _ _ _).mono fun _ _ h => h.2 _) fun _ =>
      calls_exceptT_bind (calls_attempt ⟨rfl, fun _ => trivial⟩) fun _ => trivial)
  obtain ⟨tr₃, hsocket, htr₃⟩ := exists_linkedRun (t := t)
    (result_validateSocket layout hlinked htarget)
    ((DeploymentOrchestrator.validateSocket_looksUp _ _ _).mono fun _ _ h => h.2 _)
  obtain ⟨tr₄, e, r, hload, htr₄, hmem, he⟩ :=
    exists_loadImage (t := t) bundle.targetUid layout prepared.target fd
  have hlocked : Exec changingTree t () (orchestrator.deployLocked bundle prepared).run
      (tr₃ ++ tr₄) () (.error ⟨r, none⟩) := by
    refine exec_noRollback_bind.2 (.inr ⟨tr₃, (), (), tr₄, hsocket, ?_, rfl⟩)
    rw [harchive]
    exact exec_noRollback_bind.2 (.inl ⟨r, rfl, hload⟩)
  have hclose := exec_linkedEvent (t := t) bundle.targetUid layout (.close 4)
  have hfromLock : Exec changingTree t () (orchestrator.deployFromLock bundle prepared).run
      (tr₂ ++ ((tr₃ ++ tr₄) ++ ([linkedEvent bundle.targetUid layout (.close 4)] ++ []))) ()
        (.error ⟨r, none⟩) := by
    refine exec_noRollback_bind.2 (.inr ⟨tr₂, (), 4, _, hlayout ▸ hlock, ?_, rfl⟩)
    refine exec_observe_bind.2 ⟨_, (), _, _, hlocked, ?_, rfl⟩
    exact exec_observe_bind.2 ⟨_, (), (), [], hclose, .ret _ _, rfl⟩
  have hend := (findsLinks_event bundle.targetUid layout (.close 4)).append (.nil _ _)
  refine ⟨_, .error ⟨r, none⟩, e, fd, ?_,
    htr₁.append (htr₂.append ((htr₃.append htr₄).append hend)), ?_, he⟩
  · rw [DeploymentOrchestrator.run_deploy]
    refine exec_bind.2 ⟨tr₁, (), _, _, hprepare, ?_, rfl⟩
    rw [DeploymentOrchestrator.afterPrepare, hlinked.notDry]
    exact hfromLock
  · simp [hmem]

/-- What the table answers is not what is asked for. -/
theorem not_safelyOpened {uid : UInt32} {layout : QuadletInstallLayout}
    {options : DeploymentOptions}
    (hroot : ∀ root ∈ options.imageArchiveRoot, PosixPath.followsLast (cStr root) = true)
    {tr : List TreeEvent} (htr : FindsLinks uid layout tr) {e : TreeEvent} {fd : Fd} {size : ℕ} :
    ¬ SafelyOpened options tr e fd size := by
  rintro ⟨root, before, flags, found, top, below, found', st, after, hsome, rfl, -, hlink, -⟩
  have hfound : found = linkedAnswer uid layout (.openPath (cStr root) flags) :=
    htr ⟨(), .openPath (cStr root) flags, found, .ok top, ()⟩ (by simp)
  rw [hfound, linkedAnswer, hroot root hsome] at hlink
  cases hlink

/-- Every upload of a deployment does what is asked of it. -/
def UploadsSafely (orchestrator : DeploymentOrchestrator) (bundle : DeploymentBundle) : Prop :=
  ∀ (t : ℕ) (tr : List TreeEvent) (r : Except Failure DeploymentResult),
    Exec changingTree t () (orchestrator.deploy bundle).run tr () r →
    ∀ e ∈ tr, ∀ fd size, e.op.uploads = some (fd, size) →
      SafeUpload orchestrator.options tr e fd size

theorem not_uploadsSafely (hlinked : UploadsThroughLink orchestrator bundle) :
    ¬ UploadsSafely orchestrator bundle := by
  intro hall
  obtain ⟨archive, root, below, -, -, hroot, hfollows, -, -⟩ := hlinked.archive
  obtain ⟨tr, r, e, fd, h, htr, hmem, he⟩ := exists_upload (t := 0) hlinked
  refine not_safelyOpened (fun p hp => ?_) htr (hall 0 tr r h e hmem fd 0 he).opened
  rw [hroot, Option.mem_some_iff] at hp
  exact hp ▸ hfollows

/-- **Every upload is a bounded beginning of one regular file**, opened below the staging root
without following a link, exactly for the deployments that cannot upload from below a root whose
path goes on behind its last name. -/
theorem uploadsSafely_iff (orchestrator : DeploymentOrchestrator) (bundle : DeploymentBundle) :
    UploadsSafely orchestrator bundle ↔ ¬ UploadsThroughLink orchestrator bundle := by
  constructor
  · intro hall hlinked
    exact not_uploadsSafely hlinked hall
  · intro hnot t tr r h e hmem fd size he
    exact safeUpload_of_exec hnot h hmem he

end

/-- A staging root with a slash at its end. -/
def slashRootOrchestrator : DeploymentOrchestrator where
  installer := {}
  options := { imageArchiveRoot := some "/srv/staging/" }

/-- A bundle with an image archive. -/
def archiveBundle : DeploymentBundle :=
  { plainBundle with imageArchive := some { path := "web.tar" } }

/-- The archive that is uploaded lies in the directory that the staging root is a link to. -/
theorem linked_staging_root_uploads : ¬ UploadsSafely slashRootOrchestrator archiveBundle := by
  have hexpected : (slashRootOrchestrator.installer.expectedInstall archiveBundle.targetUid
      archiveBundle.quadlet).toBool = true := by decide +kernel
  have hlinked : UploadsThroughLink slashRootOrchestrator archiveBundle := by
    refine ⟨rfl, rfl, by decide +kernel, ?_, rfl,
      ⟨{ path := "web.tar" }, "/srv/staging/", [ofString "web.tar"], rfl, rfl, rfl,
        by decide +kernel, ⟨by decide +kernel, by simp, by decide +kernel⟩, ?_⟩,
      by decide +kernel, fun _ => by decide +kernel⟩
    · cases h : slashRootOrchestrator.installer.expectedInstall archiveBundle.targetUid
          archiveBundle.quadlet with
      | ok expected => exact ⟨expected, rfl⟩
      | error e =>
          rw [h] at hexpected
          cases hexpected
    · rw [namesFile_cons]
      refine ⟨by decide, fun _ => ⟨by decide, by decide⟩, ?_⟩
      simp [NamesFile]
  exact not_uploadsSafely hlinked

end PodInstaller
