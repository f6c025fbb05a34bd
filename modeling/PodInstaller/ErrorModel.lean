/-
**Errors and results.**

Every fallible function of the library returns `Result<T> = std::expected<T, Error>`, which is
`Except Error` here.  The source leaves a function early through `return std::unexpected(...)`;
the two shapes this takes — a check that rejects, and a callee whose error is passed on — are
`PodInstaller.reject` and the bind of `Except`.

Main definitions:

* `PodInstaller.ErrorKind`, `PodInstaller.Error`, `PodInstaller.makeError`, `PodInstaller.Result`;
* `PodInstaller.strerror` — the texts of the error numbers of Linux;
* `PodInstaller.reject` — an early return of an error.

Main results:

* `PodInstaller.bind_eq_ok`, `PodInstaller.reject_eq_ok`, `PodInstaller.forM_eq_ok` — a block of
  checks succeeds exactly when every check does.
-/

import PodInstaller.ByteString

set_option relaxedAutoImplicit false
set_option autoImplicit false

namespace PodInstaller

open Bytes

/-! ### Errors -/

/-- What an error is about. -/
inductive ErrorKind
  | invalidArgument
  | filesystem
  | socketValidation
  | transport
  | http
  | policy
  | systemd
  deriving DecidableEq, Repr

/-- An error with its message and the numbers of the layer it came from. -/
structure Error where
  kind : ErrorKind := .invalidArgument
  message : Bytes
  httpStatus : ℤ := 0
  osErrno : ℕ := 0
  transportCode : ℕ := 0
  deriving DecidableEq

/-- `make_error`. -/
def makeError (kind : ErrorKind) (message : Bytes) (httpStatus : ℤ := 0) (osErrno : ℕ := 0)
    (transportCode : ℕ := 0) : Error :=
  ⟨kind, message, httpStatus, osErrno, transportCode⟩

/-- `template <typename T> using Result = std::expected<T, Error>`. -/
abbrev Result (α : Type) := Except Error α

/-- The error, where there is one. -/
def errorOf {ε α : Type} : Except ε α → Option ε
  | .ok _ => none
  | .error e => some e

/-! ### Error numbers -/

/-- An error number of the operating system. -/
abbrev Errno := ℕ

/-- No such file or directory. -/
def ENOENT : Errno := 2

/-- Interrupted system call. -/
def EINTR : Errno := 4

/-- File exists. -/
def EEXIST : Errno := 17

/-- Not a directory. -/
def ENOTDIR : Errno := 20

/-- Too many levels of symbolic links. -/
def ELOOP : Errno := 40

/-- `std::strerror` for the error numbers that the system calls of this library document; any
other number has the text the C library gives to a number it does not know. -/
def strerror : Errno → Bytes
  | 1 => "Operation not permitted"
  | 2 => "No such file or directory"
  | 4 => "Interrupted system call"
  | 5 => "Input/output error"
  | 6 => "No such device or address"
  | 9 => "Bad file descriptor"
  | 11 => "Resource temporarily unavailable"
  | 12 => "Cannot allocate memory"
  | 13 => "Permission denied"
  | 14 => "Bad address"
  | 16 => "Device or resource busy"
  | 17 => "File exists"
  | 18 => "Invalid cross-device link"
  | 20 => "Not a directory"
  | 21 => "Is a directory"
  | 22 => "Invalid argument"
  | 23 => "Too many open files in system"
  | 24 => "Too many open files"
  | 26 => "Text file busy"
  | 27 => "File too large"
  | 28 => "No space left on device"
  | 30 => "Read-only file system"
  | 31 => "Too many links"
  | 34 => "Numerical result out of range"
  | 36 => "File name too long"
  | 37 => "No locks available"
  | 39 => "Directory not empty"
  | 40 => "Too many levels of symbolic links"
  | 75 => "Value too large for defined data type"
  | 95 => "Operation not supported"
  | 116 => "Stale file handle"
  | 122 => "Disk quota exceeded"
  | n => ofString "Unknown error " ++ decimal n

/-! ### Early returns -/

/-- `if (rejected) return std::unexpected(error);`. -/
def reject (rejected : Prop) [Decidable rejected] (error : Error) : Result Unit :=
  if rejected then .error error else .ok ()

@[simp] theorem reject_eq_ok {p : Prop} [Decidable p] {e : Error} {u : Unit} :
    reject p e = .ok u ↔ ¬ p := by
  unfold reject
  split <;> simp_all

@[simp] theorem reject_eq_error {p : Prop} [Decidable p] {e e' : Error} :
    reject p e = .error e' ↔ p ∧ e = e' := by
  unfold reject
  split <;> simp_all

/-- A block succeeds exactly when its first step does and the rest does after it. -/
theorem bind_eq_ok {α β : Type} {x : Result α} {f : α → Result β} {b : β} :
    (x >>= f) = .ok b ↔ ∃ a, x = .ok a ∧ f a = .ok b := by
  cases x with
  | error e => simp [bind, Except.bind]
  | ok a => simp [bind, Except.bind]

/-- A loop of checks succeeds exactly when every check does. -/
theorem forM_eq_ok {α : Type} {xs : List α} {f : α → Result Unit} {u : Unit} :
    xs.forM f = .ok u ↔ ∀ x ∈ xs, f x = .ok () := by
  induction xs with
  | nil => simp [pure, Except.pure]
  | cons x xs ih =>
      have hcons : (x :: xs).forM f = (f x >>= fun _ => xs.forM f) := rfl
      rw [hcons, bind_eq_ok, List.forall_mem_cons]
      constructor
      · rintro ⟨⟨⟩, hx, hxs⟩
        exact ⟨hx, ih.1 hxs⟩
      · rintro ⟨hx, hxs⟩
        exact ⟨(), hx, ih.2 hxs⟩

end PodInstaller
