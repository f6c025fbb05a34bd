/-
**The calls of the installer on its environment.**

Installing and deploying are programs that call on three parties: the kernel, for everything about
files, the Podman service, through curl, and the systemd manager of the target user, through the
controller that the caller supplies.  This module lists the calls with their answers.  What the
calls do to the state of the world is said by the machines of other modules.

Paths and names are passed to the kernel as C strings, so a call carries what the kernel sees: the
text up to its first NUL byte.  Every `open` and `openat` of the library sets `O_CLOEXEC` and
`O_NOFOLLOW`; the flags of a call are the remaining ones.

Main definitions:

* `PodInstaller.Stat`, `PodInstaller.OpenFlags`, `PodInstaller.PodmanTarget`,
  `PodInstaller.UnitStatus`, `PodInstaller.HttpResponse` — what calls take and deliver;
* `PodInstaller.Sys`, `PodInstaller.Sys.Resp` — the calls and their answers;
* `PodInstaller.Action`, `PodInstaller.call`, `PodInstaller.attempt`, `PodInstaller.rejectIf` —
  programs that return a `Result`.
-/

import PodInstaller.ErrorModel
import PodInstaller.StdPath
import PodInstaller.Interaction

set_option relaxedAutoImplicit false
set_option autoImplicit false

namespace PodInstaller

open Bytes

/-! ### What calls take and deliver -/

/-- A file descriptor. -/
abbrev Fd := ℕ

/-- The type of a file, from its `st_mode`. -/
inductive FileKind
  | regular
  | directory
  | symlink
  | socket
  | fifo
  | other
  deriving DecidableEq

/-- `struct stat`, as far as the library reads it; `mode` holds the permission bits. -/
structure Stat where
  kind : FileKind
  uid : UInt32
  gid : UInt32
  mode : ℕ
  size : ℤ
  deriving DecidableEq

/-- The access mode of `open`. -/
inductive Access
  | rdonly
  | wronly
  | rdwr
  deriving DecidableEq

/-- The flags of `open` and `openat` besides `O_CLOEXEC | O_NOFOLLOW`, with the mode of a created
file. -/
structure OpenFlags where
  access : Access := .rdonly
  creat : Bool := false
  excl : Bool := false
  directory : Bool := false
  nonblock : Bool := false
  mode : ℕ := 0
  deriving DecidableEq

/-- The fields of `struct passwd` that the library reads. -/
structure Passwd where
  uid : UInt32
  name : Bytes

/-- `PodmanTarget`. -/
structure PodmanTarget where
  uid : UInt32
  userName : Bytes
  runtimeDir : PosixPath
  socketPath : PosixPath
  apiVersion : Bytes := "5.0.0"

/-- `HttpResponse`. -/
structure HttpResponse where
  status : ℤ := 0
  body : Bytes := []
  headers : List (Bytes × Bytes) := []

/-- Why curl delivers no response: there is no handle, or the transfer ends with a code other than
`CURLE_OK`, which has a text of its own. -/
inductive CurlFailure
  | noHandle
  | failed (code : ℕ) (text : Bytes)

/-- What the library sets on a curl handle before it performs the request. -/
structure Transfer where
  socketPath : PosixPath
  url : Bytes
  method : Bytes
  headers : List Bytes := []
  body : Option Bytes := none
  upload : Option (Fd × ℕ) := none

/-- `UnitStatus`. -/
structure UnitStatus where
  unit : Bytes := []
  loadState : Bytes := []
  activeState : Bytes := []
  subState : Bytes := []
  deriving DecidableEq

/-- `UnitOperationResult`. -/
structure UnitOperationResult where
  jobPath : Option Bytes := none
  finalStatus : UnitStatus
  deriving DecidableEq

/-! ### The calls -/

/-- The calls of the library. -/
inductive Sys
  | getpid
  | getpwuid (uid : UInt32)
  | createDirectories (path : PosixPath)
  | openPath (path : PosixPath) (flags : OpenFlags)
  | openat (dir : Fd) (name : Bytes) (flags : OpenFlags)
  | lstat (path : PosixPath)
  | fstatat (dir : Fd) (name : Bytes)
  | fstat (fd : Fd)
  | chmod (path : PosixPath) (mode : ℕ)
  | fchmod (fd : Fd) (mode : ℕ)
  | mkdirat (dir : Fd) (name : Bytes) (mode : ℕ)
  | write (fd : Fd) (data : Bytes)
  | read (fd : Fd) (count : ℕ)
  | fsync (fd : Fd)
  | close (fd : Fd)
  | renameat (oldDir : Fd) (oldName : Bytes) (newDir : Fd) (newName : Bytes)
  | unlinkat (dir : Fd) (name : Bytes)
  | flock (fd : Fd)
  | curl (transfer : Transfer)
  | daemonReload (target : PodmanTarget)
  | restartUnit (target : PodmanTarget) (unit : Bytes)
  | status (target : PodmanTarget) (unit : Bytes)

/-- The answers: a value or an error number for the kernel, a response or a failure for curl, and a
`Result` for the systemd manager. -/
abbrev Sys.Resp : Sys → Type
  | .getpid => ℕ
  | .getpwuid _ => Except Errno (Option Passwd)
  | .createDirectories _ => Except Errno Unit
  | .openPath _ _ => Except Errno Fd
  | .openat _ _ _ => Except Errno Fd
  | .lstat _ => Except Errno Stat
  | .fstatat _ _ => Except Errno Stat
  | .fstat _ => Except Errno Stat
  | .chmod _ _ => Except Errno Unit
  | .fchmod _ _ => Except Errno Unit
  | .mkdirat _ _ _ => Except Errno Unit
  | .write _ _ => Except Errno ℕ
  | .read _ _ => Except Errno Bytes
  | .fsync _ => Except Errno Unit
  | .close _ => Unit
  | .renameat _ _ _ _ => Except Errno Unit
  | .unlinkat _ _ => Except Errno Unit
  | .flock _ => Except Errno Unit
  | .curl _ => Except CurlFailure HttpResponse
  | .daemonReload _ => Result Unit
  | .restartUnit _ _ => Result UnitOperationResult
  | .status _ _ => Result UnitStatus

/-! ### Programs that return a result -/

/-- A program that returns a `Result`. -/
abbrev Action (α : Type) := ExceptT Error (Prog Sys.Resp) α

/-- A program of this library. -/
abbrev SysProg (α : Type) := Prog Sys.Resp α

/-- A single call. -/
def sys (o : Sys) : SysProg o.Resp := Prog.perform o

/-- A single call, made again as long as its answer says so. -/
def sysUntil (o : Sys) (again : o.Resp → Bool) : SysProg o.Resp := Prog.performUntil o again

/-- A call that was interrupted. -/
def interrupted {α : Type} : Except Errno α → Bool
  | .error e => e == EINTR
  | .ok _ => false

/-- A call whose answer the function looks at itself. -/
def call (o : Sys) : Action o.Resp := ExceptT.mk (sys o >>= fun r => pure (.ok r))

/-- A function whose result the caller looks at itself. -/
def outcome {α : Type} (x : Action α) : Action (Result α) :=
  ExceptT.mk (x.run >>= fun r => pure (.ok r))

/-- A call whose failure ends the function with an error made from what went wrong: the error number
of a call to the kernel, the failure of curl. -/
def attempt {ε α : Type} (call : SysProg (Except ε α)) (error : ε → Error) : Action α :=
  ExceptT.mk (call >>= fun r => pure (r.mapError error))

/-- The result of a function that makes no calls. -/
def done {α : Type} (r : Result α) : Action α := ExceptT.mk (pure r)

/-- `if (rejected) return std::unexpected(error);`. -/
def rejectIf (rejected : Prop) [Decidable rejected] (error : Error) : Action Unit :=
  done (reject rejected error)

/-- The error of a failed call to the kernel. -/
def sysError (what : Bytes) (e : Errno) : Error :=
  makeError .filesystem (what ++ ofString ": " ++ strerror e) 0 e

/-! ### How these programs run -/

section Runs

variable {World Choice α : Type} {M : Machine Sys.Resp World Choice} {t : ℕ} {w w' : World}
variable {tr : List (Event Sys.Resp World Choice)}

theorem exec_attempt_ok {ε : Type} {call : SysProg (Except ε α)} {error : ε → Error} {a : α} :
    Exec M t w (attempt call error).run tr w' (.ok a) ↔ Exec M t w call tr w' (.ok a) := by
  rw [attempt, ExceptT.run_mk, exec_bind]
  constructor
  · rintro ⟨tr₁, w₁, r, tr₂, h₁, h₂, rfl⟩
    obtain ⟨rfl, rfl, hr⟩ := exec_ret.1 h₂
    cases r with
    | ok b =>
        obtain rfl : a = b := by simpa [Except.mapError] using hr
        rwa [List.append_nil]
    | error e => simp [Except.mapError] at hr
  · intro h
    exact ⟨tr, w', .ok a, [], h, .ret _ _, by simp⟩

theorem exec_attempt_error {ε : Type} {call : SysProg (Except ε α)} {error : ε → Error}
    {e : Error} :
    Exec M t w (attempt call error).run tr w' (.error e) ↔
      ∃ n, e = error n ∧ Exec M t w call tr w' (.error n) := by
  rw [attempt, ExceptT.run_mk, exec_bind]
  constructor
  · rintro ⟨tr₁, w₁, r, tr₂, h₁, h₂, rfl⟩
    obtain ⟨rfl, rfl, hr⟩ := exec_ret.1 h₂
    cases r with
    | ok b => simp [Except.mapError] at hr
    | error n =>
        refine ⟨n, by simpa [Except.mapError] using hr, ?_⟩
        rwa [List.append_nil]
  · rintro ⟨n, rfl, h⟩
    exact ⟨tr, w', .error n, [], h, .ret _ _, by simp⟩

theorem exec_done {r r' : Result α} :
    Exec M t w (done r).run tr w' r' ↔ tr = [] ∧ w' = w ∧ r' = r := exec_ret

theorem exec_sys {o : Sys} {r : o.Resp} :
    Exec M t w (sys o) tr w' r ↔ ∃ c, M.step t w o c = some (r, w') ∧ tr = [⟨w, o, c, r, w'⟩] :=
  exec_perform

/-- A call that changes nothing as long as it is made in vain. -/
theorem exec_sysUntil {o : Sys} {again : o.Resp → Bool} {r : o.Resp}
    (hagain : ∀ {c r w'}, M.step t w o c = some (r, w') → again r = true → w' = w)
    (h : Exec M t w (sysUntil o again) tr w' r) :
    ∃ c, M.step t w o c = some (r, w') ∧ again r = false ∧ tr = [⟨w, o, c, r, w'⟩] := by
  generalize hp : sysUntil o again = p at h
  induction h with
  | ret w a => cases hp
  | again hstep hr _ ih =>
      cases hp
      obtain rfl := hagain hstep hr
      exact ih hagain rfl
  | step hstep hr hrest _ =>
      cases hp
      obtain ⟨rfl, rfl, rfl⟩ := exec_ret.1 hrest
      exact ⟨_, hstep, hr, rfl⟩

/-- A check that passes makes no difference to what follows. -/
theorem run_rejectIf_bind {β : Type} {rejected : Prop} [Decidable rejected] {error : Error}
    {f : Unit → Action β} (hpass : ¬ rejected) :
    (rejectIf rejected error >>= f).run = (f ()).run := by
  rw [run_exceptT_bind, rejectIf, reject, if_neg hpass]
  rfl

/-- A check that rejects makes no call and changes nothing. -/
theorem exec_rejectIf {rejected : Prop} [Decidable rejected] {error : Error} {r : Result Unit} :
    Exec M t w (rejectIf rejected error).run tr w' r ↔
      tr = [] ∧ w' = w ∧ r = if rejected then .error error else .ok () := exec_done

theorem exec_rejectIf_ok {rejected : Prop} [Decidable rejected] {error : Error} {u : Unit} :
    Exec M t w (rejectIf rejected error).run tr w' (.ok u) ↔ tr = [] ∧ w' = w ∧ ¬ rejected := by
  rw [exec_rejectIf]
  split <;> simp_all

/-- A check, and what comes after it. -/
theorem exec_rejectIf_bind {β : Type} {rejected : Prop} [Decidable rejected] {error : Error}
    {f : Unit → Action β} {r : Result β} :
    Exec M t w (rejectIf rejected error >>= f).run tr w' r ↔
      (rejected ∧ tr = [] ∧ w' = w ∧ r = .error error) ∨
      ¬ rejected ∧ Exec M t w (f ()).run tr w' r := by
  rw [exec_exceptT_bind]
  constructor
  · rintro (⟨e, rfl, h⟩ | ⟨tr₁, w₁, u, tr₂, h, hrest, rfl⟩)
    · obtain ⟨rfl, rfl, hr⟩ := exec_rejectIf.1 h
      split at hr
      · rw [Except.error.inj hr]
        exact .inl ⟨‹_›, rfl, rfl, rfl⟩
      · cases hr
    · obtain ⟨rfl, rfl, hnot⟩ := exec_rejectIf_ok.1 h
      exact .inr ⟨hnot, hrest⟩
  · rintro (⟨hrejected, rfl, rfl, rfl⟩ | ⟨hnot, hrest⟩)
    · exact .inl ⟨_, rfl, exec_rejectIf.2 ⟨rfl, rfl, by rw [if_pos hrejected]⟩⟩
    · exact .inr ⟨[], w, (), tr, exec_rejectIf_ok.2 ⟨rfl, rfl, hnot⟩, hrest, rfl⟩

/-- A check that passes, and what comes after it. -/
theorem exec_rejectIf_bind_ok {β : Type} {rejected : Prop} [Decidable rejected] {error : Error}
    {f : Unit → Action β} {b : β} :
    Exec M t w (rejectIf rejected error >>= f).run tr w' (.ok b) ↔
      ¬ rejected ∧ Exec M t w (f ()).run tr w' (.ok b) := by
  rw [exec_rejectIf_bind, or_iff_right]
  rintro ⟨-, -, -, h⟩
  cases h

/-- A call, and what is done with its answer. -/
theorem exec_call_bind {β : Type} {o : Sys} {f : o.Resp → Action β} {r : Result β} :
    Exec M t w (call o >>= f).run tr w' r ↔
      ∃ c a w₁ tr₁, M.step t w o c = some (a, w₁) ∧ Exec M t w₁ (f a).run tr₁ w' r ∧
        tr = ⟨w, o, c, a, w₁⟩ :: tr₁ := by
  rw [run_exceptT_bind, call, ExceptT.run_mk, Prog.bind_assoc, exec_bind]
  constructor
  · rintro ⟨tr₁, w₁, a, tr₂, h₁, h₂, rfl⟩
    obtain ⟨c, hstep, rfl⟩ := exec_sys.1 h₁
    exact ⟨c, a, w₁, tr₂, hstep, h₂, rfl⟩
  · rintro ⟨c, a, w₁, tr₂, hstep, h₂, rfl⟩
    exact ⟨_, w₁, a, tr₂, exec_sys.2 ⟨c, hstep, rfl⟩, h₂, rfl⟩

/-- A function, and what is done with its result. -/
theorem exec_outcome_bind {β : Type} {x : Action α} {f : Result α → Action β} {r : Result β} :
    Exec M t w (outcome x >>= f).run tr w' r ↔
      ∃ tr₁ w₁ a tr₂, Exec M t w x.run tr₁ w₁ a ∧ Exec M t w₁ (f a).run tr₂ w' r ∧
        tr = tr₁ ++ tr₂ := by
  rw [run_exceptT_bind, outcome, ExceptT.run_mk, Prog.bind_assoc, exec_bind]
  rfl

theorem exec_throw {e : Error} {r : Result α} :
    Exec M t w (throw e : Action α).run tr w' r ↔ tr = [] ∧ w' = w ∧ r = .error e := exec_ret

theorem exec_pure {a : α} {r : Result α} :
    Exec M t w (pure a : Action α).run tr w' r ↔ tr = [] ∧ w' = w ∧ r = .ok a := exec_ret

end Runs

/-! ### Answers from a table -/

section Results

variable {α : Type} (answer : (o : Sys) → o.Resp)

theorem result_attempt {ε : Type} {call : SysProg (Except ε α)} {a : α}
    (h : call.result answer = .ok a) (error : ε → Error) :
    (attempt call error).run.result answer = .ok a := by
  rw [attempt, ExceptT.run_mk, Prog.result_bind, h]
  rfl

theorem result_rejectIf {rejected : Prop} [Decidable rejected] (h : ¬ rejected) (error : Error) :
    (rejectIf rejected error).run.result answer = .ok () :=
  reject_eq_ok.2 h

end Results

section Calls

variable {P : (o : Sys) → (o.Resp → Bool) → Prop} {α : Type}

theorem calls_attempt {ε : Type} {call : SysProg (Except ε α)} {error : ε → Error}
    (h : call.Calls P) : (attempt call error).run.Calls P := Prog.calls_bind h fun _ => trivial

theorem calls_sys {o : Sys} (h : P o fun _ => false) : (sys o).Calls P := Prog.calls_perform h

theorem calls_call {o : Sys} (h : P o fun _ => false) : (call o).run.Calls P :=
  Prog.calls_bind (calls_sys h) fun _ => trivial

theorem calls_outcome {x : Action α} (h : x.run.Calls P) : (outcome x).run.Calls P :=
  Prog.calls_bind h fun _ => trivial

end Calls

end PodInstaller
