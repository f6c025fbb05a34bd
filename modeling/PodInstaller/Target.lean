/-
**The target user, the Podman socket and the Podman service.**

A deployment runs for one user.  `PodInstaller.resolveUid` looks the user up,
`PodInstaller.validatePodmanSocket` checks the socket of the user's Podman service before anything
is sent to it, and `PodInstaller.ping` and `PodInstaller.loadImageArchiveFd` are the two requests
a deployment makes.

Main definitions:

* `PodInstaller.RuntimeDirectoryLayout`, `PodInstaller.makeTarget`, `PodInstaller.resolveUid`;
* `PodInstaller.SocketValidationOptions`, `PodInstaller.validatePodmanSocket`;
* `PodInstaller.requireSuccess`, `PodInstaller.ping`, `PodInstaller.loadImageArchiveFd`.

Main results:

* `PodInstaller.requireSuccess_eq_ok` — the answers of the service that count as success.
-/

import PodInstaller.Syscalls

set_option relaxedAutoImplicit false
set_option autoImplicit false

namespace PodInstaller

open Bytes

/-! ### The target user -/

/-- `std::to_string(uid)`. -/
def uidString (uid : UInt32) : Bytes := decimal uid.toNat

/-- The digits of a user id are a name. -/
theorem isEntryName_uidString (uid : UInt32) : PosixPath.IsEntryName (uidString uid) := by
  have hne : ∀ d : UInt8, d.toNat < 48 → d ∉ uidString uid := by
    intro d hd hmem
    have := digit_of_mem_decimal hmem
    omega
  refine ⟨⟨decimal_ne_nil _, hne _ (by decide)⟩, ?_, ?_⟩
  · intro h
    exact hne (ch '.') (by decide) (h ▸ by decide)
  · intro h
    exact hne (ch '.') (by decide) (h ▸ by decide)

theorem nul_notMem_uidString (uid : UInt32) : 0 ∉ uidString uid := by
  intro hmem
  have := digit_of_mem_decimal hmem
  simp at this

theorem uidString_ne_locks (uid : UInt32) : uidString uid ≠ ".locks" := by
  intro h
  have hmem : ch '.' ∈ uidString uid := h ▸ by decide
  have := digit_of_mem_decimal hmem
  simp [ch] at this

theorem uidString_injective : Function.Injective uidString := by
  intro u v h
  exact UInt32.toNat_inj.1 (decimal_injective h)

/-- `RuntimeDirectoryLayout`. -/
structure RuntimeDirectoryLayout where
  root : PosixPath := "/run/user"

/-- `RuntimeDirectoryLayout::runtime_dir_for`. -/
def RuntimeDirectoryLayout.runtimeDirFor (layout : RuntimeDirectoryLayout) (uid : UInt32) :
    PosixPath :=
  PosixPath.append layout.root (uidString uid)

/-- `RuntimeDirectoryLayout::podman_socket_for`. -/
def RuntimeDirectoryLayout.podmanSocketFor (layout : RuntimeDirectoryLayout) (uid : UInt32) :
    PosixPath :=
  PosixPath.append (PosixPath.append (layout.runtimeDirFor uid) "podman") "podman.sock"

/-- `make_target`. -/
def makeTarget (uid : UInt32) (userName : Bytes) (layout : RuntimeDirectoryLayout)
    (apiVersion : Bytes) : PodmanTarget where
  uid := uid
  userName := userName
  runtimeDir := layout.runtimeDirFor uid
  socketPath := layout.podmanSocketFor uid
  apiVersion := apiVersion

/-- `resolve_uid`. -/
def resolveUid (uid : UInt32) (layout : RuntimeDirectoryLayout) (apiVersion : Bytes) :
    Action PodmanTarget := do
  let pw ← attempt (sys (.getpwuid uid)) fun e =>
    sysError (ofString "getpwuid_r failed for uid " ++ uidString uid) e
  match pw with
  | none =>
    throw (makeError .invalidArgument
      (ofString "uid " ++ uidString uid ++ ofString " does not exist"))
  | some pw => return makeTarget pw.uid pw.name layout apiVersion

/-! ### The socket -/

/-- `SocketValidationOptions`. -/
structure SocketValidationOptions where
  requireSocket : Bool := true
  requireOwner : Bool := true
  rejectSymlink : Bool := true
  requireDefaultPath : Bool := true
  layout : RuntimeDirectoryLayout := {}

/-- `validate_podman_socket`. -/
def validatePodmanSocket (target : PodmanTarget) (options : SocketValidationOptions) :
    Action Unit := do
  rejectIf (target.socketPath = [])
    (makeError .socketValidation "target socket path is empty")
  let expected := PosixPath.lexicallyNormal (options.layout.podmanSocketFor target.uid)
  let actual := PosixPath.lexicallyNormal target.socketPath
  -- both paths are compared as they are written, without looking at the file system
  rejectIf (options.requireDefaultPath ∧ PosixPath.same actual expected = false)
    (makeError .socketValidation (ofString "target socket path '" ++ actual ++
      ofString "' does not match expected rootless Podman path '" ++ expected ++ ofString "'"))
  let st ← attempt (sys (.lstat (cStr target.socketPath))) fun e =>
    { sysError (ofString "lstat failed for '" ++ target.socketPath ++ ofString "'") e with
      kind := .socketValidation }
  rejectIf (options.rejectSymlink ∧ st.kind = .symlink)
    (makeError .socketValidation
      (ofString "target socket path is a symlink: " ++ target.socketPath))
  rejectIf (options.requireSocket ∧ st.kind ≠ .socket)
    (makeError .socketValidation
      (ofString "target path is not a Unix socket: " ++ target.socketPath))
  rejectIf (options.requireOwner ∧ st.uid ≠ target.uid)
    (makeError .socketValidation (ofString "target socket owner uid " ++ uidString st.uid ++
      ofString " does not match target uid " ++ uidString target.uid))

/-! ### The Podman service -/

/-- The base URL of `ClientOptions`. -/
def baseUrl : Bytes := "http://d"

/-- `PodmanClient::versioned_path`. -/
def versionedPath (target : PodmanTarget) (libpodPath : Bytes) : Bytes :=
  let version :=
    if target.apiVersion.head? = some (ch 'v') then target.apiVersion.tail else target.apiVersion
  (if version = [] then [] else ofString "/v" ++ version) ++
    (if libpodPath.head? = some (ch '/') then [] else [ch '/']) ++ libpodPath

/-- `require_success`, for an answer of the service. -/
def requireSuccess (response : HttpResponse) (operation : Bytes) : Result HttpResponse := do
  reject (response.status < 200 ∨ 300 ≤ response.status)
    (makeError .http (operation ++ ofString " failed with HTTP " ++ decimalInt response.status ++
      ofString ": " ++ response.body) response.status)
  return response

/-- The error of a request for which curl delivers no response: `finish_perform`, and the check of
`curl_easy_init` before it. -/
def curlError : CurlFailure → Error
  | .noHandle => makeError .transport "curl_easy_init failed"
  | .failed code text =>
    makeError .transport (ofString "curl request failed: " ++ text) 0 0 code

/-- `PodmanClient::ping`. -/
def ping (target : PodmanTarget) : Action HttpResponse := do
  let response ← attempt (sys (.curl
    { socketPath := cStr target.socketPath, url := baseUrl ++ ofString "/_ping", method := "GET" }))
    curlError
  done (requireSuccess response "podman ping")

/-- `PodmanClient::load_image_archive_fd`, from the call to `fstat` on. -/
def loadFromFd (target : PodmanTarget) (archiveFd : Fd) (archiveSize : ℕ) :
    Action HttpResponse := do
  let st ← attempt (sys (.fstat archiveFd)) (sysError "failed to stat image archive fd")
  rejectIf (st.kind ≠ .regular)
    (makeError .filesystem "image archive fd is not a regular file")
  rejectIf (st.size < 0 ∨ st.size < archiveSize)
    (makeError .invalidArgument "image archive fd size is invalid")
  rejectIf (9223372036854775807 < archiveSize)
    (makeError .invalidArgument "image archive is too large for curl")
  let response ← attempt (sys (.curl
    { socketPath := cStr target.socketPath
      url := cStr (baseUrl ++ versionedPath target "/libpod/images/load")
      method := "POST"
      headers := ["Content-Type: application/x-tar"]
      upload := some (archiveFd, archiveSize) })) curlError
  done (requireSuccess response "load image archive")

/-- `PodmanClient::load_image_archive_fd`. -/
def loadImageArchiveFd (target : PodmanTarget) (archiveFd : ℤ) (archiveSize : ℕ) :
    Action HttpResponse := do
  rejectIf (archiveFd < 0) (makeError .invalidArgument "image archive fd is invalid")
  loadFromFd target archiveFd.toNat archiveSize

theorem loadImageArchiveFd_natCast (target : PodmanTarget) (fd : Fd) (archiveSize : ℕ) :
    loadImageArchiveFd target fd archiveSize = loadFromFd target fd archiveSize := by
  rw [loadImageArchiveFd, rejectIf, reject, if_neg (by omega), Int.toNat_natCast]
  rfl

/-- An answer counts as success when its status is one of the 200s. -/
theorem requireSuccess_eq_ok {response response' : HttpResponse} {operation : Bytes} :
    requireSuccess response operation = .ok response' ↔
      (200 ≤ response.status ∧ response.status < 300) ∧ response' = response := by
  rw [requireSuccess, bind_eq_ok]
  simp only [reject_eq_ok, exists_const, pure, Except.pure, Except.ok.injEq]
  constructor
  · rintro ⟨h, rfl⟩
    exact ⟨by omega, rfl⟩
  · rintro ⟨h, rfl⟩
    exact ⟨by omega, rfl⟩

end PodInstaller
