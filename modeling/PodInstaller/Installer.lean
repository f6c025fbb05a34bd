/-
**Installing Quadlets.**

`QuadletInstaller` keeps one directory of Quadlet files for each user below the admin root.  It
checks and creates the directories, replaces a file by writing a temporary one beside it and
renaming that, reads a file back for a snapshot, and restores a snapshot or removes a file.

Each function makes the calls of the source in their order.  Descriptors that go out of scope at
the end of a function are closed by their destructors, which has no effect on the tree, and these
calls of `close` are left out; the one of the temporary file, which is closed before the rename, is
there.  `std::filesystem::create_directories` is one call.

Main definitions:

* `PodInstaller.QuadletInstallLayout`, `PodInstaller.InstalledQuadlet`,
  `PodInstaller.QuadletSnapshot`, `PodInstaller.QuadletInstaller` — the data;
* `PodInstaller.ensureAdminTree`, `PodInstaller.atomicWriteFile`,
  `PodInstaller.readRegularFileNoSymlink`, `PodInstaller.unlinkQuadletFile` — work on files;
* `PodInstaller.QuadletInstaller.snapshotForUser`, `PodInstaller.QuadletInstaller.restoreForUser`,
  `PodInstaller.QuadletInstaller.removeForUser`, `PodInstaller.QuadletInstaller.installForUser` —
  the operations.

Main results:

* `PodInstaller.QuadletInstaller.expectedInstall_eq_ok` — the Quadlets that may be installed.
-/

import PodInstaller.Target
import PodInstaller.QuadletPolicy

set_option relaxedAutoImplicit false
set_option autoImplicit false

namespace PodInstaller

open Bytes

/-! ### The data -/

/-- `InstalledQuadlet`. -/
structure InstalledQuadlet where
  path : PosixPath
  systemdUnit : Bytes

/-- `QuadletSnapshot`. -/
structure QuadletSnapshot where
  path : PosixPath
  fileName : Bytes
  existed : Bool
  contents : Bytes

/-- `QuadletInstallLayout` with its defaults. -/
structure QuadletInstallLayout where
  adminUserRoot : PosixPath := "/etc/containers/systemd/users"
  requiredOwnerUid : Option UInt32 := some 0
  requiredOwnerGid : Option UInt32 := none
  maxQuadletBytes : UInt64 := 1024 * 1024

/-- `QuadletInstallLayout::user_directory`. -/
def QuadletInstallLayout.userDirectory (layout : QuadletInstallLayout) (uid : UInt32) : PosixPath :=
  PosixPath.append layout.adminUserRoot (uidString uid)

/-- `QuadletInstallLayout::quadlet_path`. -/
def QuadletInstallLayout.quadletPath (layout : QuadletInstallLayout) (uid : UInt32)
    (fileName : Bytes) : PosixPath :=
  PosixPath.append (layout.userDirectory uid) fileName

/-- `QuadletInstaller`. -/
structure QuadletInstaller where
  layout : QuadletInstallLayout := {}
  policy : QuadletPolicy := {}

/-! ### Directories -/

/-- `ensure_directory_safe`. -/
def ensureDirectorySafe (dir : PosixPath) (layout : QuadletInstallLayout) : Action Unit := do
  attempt (sys (.createDirectories (cStr dir))) fun e =>
    makeError .filesystem
      (ofString "failed to create Quadlet directory '" ++ dir ++ ofString "': " ++ strerror e)
  let st ← attempt (sys (.lstat (cStr dir)))
    (sysError (ofString "failed to stat Quadlet directory '" ++ dir ++ ofString "'"))
  rejectIf (st.kind = .symlink ∨ st.kind ≠ .directory)
    (makeError .filesystem (ofString "Quadlet directory is not a real directory: " ++ dir))
  rejectIf (∃ uid ∈ layout.requiredOwnerUid, st.uid ≠ uid)
    (makeError .filesystem (ofString "Quadlet directory owner uid " ++ uidString st.uid ++
      ofString " does not match required uid " ++ uidString (layout.requiredOwnerUid.getD 0)))
  rejectIf (∃ gid ∈ layout.requiredOwnerGid, st.gid ≠ gid)
    (makeError .filesystem (ofString "Quadlet directory owner gid " ++ uidString st.gid ++
      ofString " does not match required gid " ++ uidString (layout.requiredOwnerGid.getD 0)))
  attempt (sys (.chmod (cStr dir) 0o755))
    (sysError (ofString "failed to chmod Quadlet directory '" ++ dir ++ ofString "'"))
  let st ← attempt (sys (.lstat (cStr dir)))
    (sysError (ofString "failed to restat Quadlet directory '" ++ dir ++ ofString "'"))
  rejectIf (st.mode &&& 0o022 ≠ 0)
    (makeError .filesystem
      (ofString "Quadlet directory must not be group/other writable: " ++ dir))

/-- `ensure_admin_tree`. -/
def ensureAdminTree (uid : UInt32) (layout : QuadletInstallLayout) : Action Unit := do
  ensureDirectorySafe layout.adminUserRoot layout
  ensureDirectorySafe (layout.userDirectory uid) layout

/-- `fsync_directory`. -/
def fsyncDirectory (dirFd : Fd) : Action Unit :=
  attempt (sys (.fsync dirFd)) (sysError "failed to fsync Quadlet directory")

/-! ### Writing a file -/

/-- A `write` that has to be made again: it was interrupted, or wrote nothing. -/
def writeAgain : Except Errno ℕ → Bool
  | .error e => e == EINTR
  | .ok n => n == 0

/-- `write_all`: of the contents, the first `skip` bytes are written already. -/
def writeAll (fd : Fd) : Bytes → ℕ → Action Unit
  | [], _ => return ()
  | _ :: rest, skip + 1 => writeAll fd rest skip
  | c :: rest, 0 => do
    let written ← attempt (sysUntil (.write fd (c :: rest)) writeAgain)
      (sysError "failed to write Quadlet file")
    writeAll fd rest (written - 1)

/-- The name of a temporary file. -/
def temporaryName (finalName : Bytes) (pid attempt : ℕ) : Bytes :=
  ofString "." ++ finalName ++ ofString ".tmp." ++ decimal pid ++ ofString "." ++ decimal attempt

/-- The first loop of `atomic_write_file`, over the attempts that are left: a temporary file that
did not exist before. -/
def openTemporary (dir : PosixPath) (dirFd : Fd) (finalName : Bytes) (mode : ℕ) :
    List ℕ → Action (Bytes × Fd)
  | [] => throw (makeError .filesystem "failed to allocate unique temporary Quadlet file name")
  | attempt :: attempts => do
    let pid ← call .getpid
    let candidate := temporaryName finalName pid attempt
    let opened ← call (.openat dirFd (cStr candidate)
      { access := .wronly, creat := true, excl := true, mode := mode })
    match opened with
    | .ok fd => return (candidate, fd)
    | .error e =>
      if e ≠ EEXIST then
        throw (sysError (ofString "failed to open temporary Quadlet file in '" ++ dir ++
          ofString "'") e)
      -- the name is taken, perhaps by another thread of this process
      else openTemporary dir dirFd finalName mode attempts

/-- `errno` after a failed call and the `unlinkat` that cleans up after it. -/
def errnoAfter (e : Errno) : Except Errno Unit → Errno
  | .ok () => e
  | .error e' => e'

/-- `atomic_write_file` once the temporary file is open. -/
def replaceFile (finalPath : PosixPath) (dirFd : Fd) (tmpName : Bytes) (fd : Fd)
    (contents : Bytes) :
    Action Unit := do
  let written ← outcome (writeAll fd contents 0)
  match written with
  | .error e =>
    -- the message was made before `unlinkat` could change `errno`
    let _ ← call (.unlinkat dirFd (cStr tmpName))
    throw e
  | .ok () =>
    let synced ← call (.fsync fd)
    match synced with
    | .error e =>
      let removed ← call (.unlinkat dirFd (cStr tmpName))
      -- here it is made afterwards
      throw (sysError "failed to fsync temporary Quadlet file" (errnoAfter e removed))
    | .ok () =>
      let _ ← call (.close fd)
      let renamed ← call
        (.renameat dirFd (cStr tmpName) dirFd (cStr (PosixPath.filename finalPath)))
      match renamed with
      | .error e =>
        let removed ← call (.unlinkat dirFd (cStr tmpName))
        throw (sysError (ofString "failed to install Quadlet file '" ++ finalPath ++ ofString "'")
          (errnoAfter e removed))
      | .ok () => fsyncDirectory dirFd

/-- `atomic_write_file`. -/
def atomicWriteFile (finalPath : PosixPath) (contents : Bytes) (mode : ℕ) : Action Unit := do
  let dir := PosixPath.parentPath finalPath
  let dirFd ← attempt (sys (.openPath (cStr dir) { directory := true }))
    (sysError (ofString "failed to open Quadlet directory '" ++ dir ++ ofString "'"))
  let tmp ← openTemporary dir dirFd (PosixPath.filename finalPath) mode (List.range 100)
  replaceFile finalPath dirFd tmp.1 tmp.2 contents

/-! ### Reading and removing a file -/

/-- The loop of `read_regular_file_no_symlink`: of the bytes that are left, the first `skip` are
read already. -/
def readBytes (path : PosixPath) (fd : Fd) : (left skip : ℕ) → Action Bytes
  | 0, _ => return []
  | left + 1, skip + 1 => readBytes path fd left skip
  | left + 1, 0 => do
    let bytes ← attempt (sysUntil (.read fd (left + 1)) interrupted)
      (sysError (ofString "failed to read Quadlet file '" ++ path ++ ofString "'"))
    -- the file has become shorter since `fstat`
    rejectIf (bytes = [])
      (makeError .filesystem (ofString "Quadlet file changed while reading: " ++ path))
    let rest ← readBytes path fd left (bytes.length - 1)
    return bytes ++ rest

/-- `read_regular_file_no_symlink`. -/
def readRegularFileNoSymlink (path : PosixPath) (maxSize : ℕ) : Action Bytes := do
  let fd ← attempt (sys (.openPath (cStr path) {}))
    (sysError (ofString "failed to open Quadlet file '" ++ path ++ ofString "'"))
  let st ← attempt (sys (.fstat fd))
    (sysError (ofString "failed to stat Quadlet file '" ++ path ++ ofString "'"))
  rejectIf (st.kind ≠ .regular)
    (makeError .filesystem (ofString "Quadlet path is not a regular file: " ++ path))
  rejectIf (st.size < 0 ∨ (maxSize : ℤ) < st.size)
    (makeError .filesystem (ofString "Quadlet file is too large: " ++ path))
  readBytes path fd st.size.toNat 0

/-- `unlink_quadlet_file`. -/
def unlinkQuadletFile (path : PosixPath) : Action Unit := do
  let dirFd ← attempt (sys (.openPath (cStr (PosixPath.parentPath path)) { directory := true }))
    (sysError "failed to open Quadlet directory for remove")
  let removed ← call (.unlinkat dirFd (cStr (PosixPath.filename path)))
  match removed with
  | .ok () => fsyncDirectory dirFd
  | .error e =>
    if e ≠ ENOENT then
      throw (sysError (ofString "failed to remove Quadlet file '" ++ path ++ ofString "'") e)
    else fsyncDirectory dirFd

/-! ### The operations -/

namespace QuadletInstaller

/-- `QuadletInstaller::expected_install`. -/
def expectedInstall (installer : QuadletInstaller) (uid : UInt32) (quadlet : QuadletFile) :
    Result InstalledQuadlet := do
  reject (installer.layout.maxQuadletBytes.toNat < quadlet.contents.length)
    (makeError .policy "Quadlet contents exceed max_quadlet_bytes")
  validateQuadletPolicy quadlet installer.policy
  let unit ← serviceUnitNameFromQuadlet quadlet.fileName
  return ⟨installer.layout.quadletPath uid quadlet.fileName, unit⟩

/-- `QuadletInstaller::snapshot_for_user`. -/
def snapshotForUser (installer : QuadletInstaller) (uid : UInt32) (fileName : Bytes) :
    Action QuadletSnapshot := do
  done (validateQuadletFileName fileName)
  ensureAdminTree uid installer.layout
  let path := installer.layout.quadletPath uid fileName
  let found ← call (.lstat (cStr path))
  match found with
  | .error e =>
    if e = ENOENT then return ⟨path, fileName, false, []⟩
    else throw (sysError (ofString "failed to stat Quadlet snapshot path '" ++ path ++
      ofString "'") e)
  | .ok _ =>
    let contents ← readRegularFileNoSymlink path installer.layout.maxQuadletBytes.toNat
    return ⟨path, fileName, true, contents⟩

/-- `QuadletInstaller::restore_for_user`. -/
def restoreForUser (installer : QuadletInstaller) (uid : UInt32) (snapshot : QuadletSnapshot) :
    Action Unit := do
  done (validateQuadletFileName snapshot.fileName)
  ensureAdminTree uid installer.layout
  let path := installer.layout.quadletPath uid snapshot.fileName
  rejectIf (PosixPath.same path snapshot.path = false)
    (makeError .filesystem "Quadlet snapshot path does not match installer layout")
  if snapshot.existed then atomicWriteFile path snapshot.contents 0o644
  else unlinkQuadletFile path

/-- `QuadletInstaller::remove_for_user`. -/
def removeForUser (installer : QuadletInstaller) (uid : UInt32) (fileName : Bytes) :
    Action Unit := do
  done (validateQuadletFileName fileName)
  ensureAdminTree uid installer.layout
  unlinkQuadletFile (installer.layout.quadletPath uid fileName)

/-- `QuadletInstaller::install_for_user`. -/
def installForUser (installer : QuadletInstaller) (uid : UInt32) (quadlet : QuadletFile) :
    Action InstalledQuadlet := do
  let expected ← done (installer.expectedInstall uid quadlet)
  ensureAdminTree uid installer.layout
  atomicWriteFile expected.path quadlet.contents 0o644
  return expected

/-- The Quadlets that may be installed. -/
theorem expectedInstall_eq_ok {installer : QuadletInstaller} {uid : UInt32} {quadlet : QuadletFile}
    {expected : InstalledQuadlet} :
    installer.expectedInstall uid quadlet = .ok expected ↔
      quadlet.contents.length ≤ installer.layout.maxQuadletBytes.toNat ∧
      validateQuadletPolicy quadlet installer.policy = .ok () ∧
      serviceUnitNameFromQuadlet quadlet.fileName = .ok expected.systemdUnit ∧
      expected.path = installer.layout.quadletPath uid quadlet.fileName := by
  simp only [expectedInstall, bind_eq_ok, reject_eq_ok, exists_const, not_lt, pure, Except.pure,
    Except.ok.injEq]
  constructor
  · rintro ⟨hlen, u, hpolicy, unit, hunit, rfl⟩
    exact ⟨hlen, hpolicy, hunit, rfl⟩
  · rintro ⟨hlen, hpolicy, hunit, hpath⟩
    exact ⟨hlen, (), hpolicy, _, hunit, by rw [← hpath]⟩

end QuadletInstaller

end PodInstaller
