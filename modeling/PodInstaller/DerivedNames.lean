/-
**The names that are derived from a user and a file name.**

One accepted Quadlet file name of one user gives rise to four more names: the path of the Quadlet
file, the unit it defines, the lock file of a deployment of that unit, and the temporary file from
which the Quadlet file is renamed.  Each of them is a concatenation of texts in which the bytes
that separate the parts may also occur inside a part, so that a user and a file name can be read
off the result only from its ends: a user id is a run of digits, and so are the two numbers at the
end of the name of a temporary file.

The limit on the length of a file name is checked on the file name alone, and the names built from
it are longer than it is.

Main definitions:

* `PodInstaller.safeSystemdUnit`, `PodInstaller.validateSystemdUnitName` — the unit names that the
  systemd controllers accept;
* `PodInstaller.ComponentsFit` — every path component made for a file name is a name that a
  directory can hold.

Main results:

* `PodInstaller.lockName_inj`, `PodInstaller.temporaryName_inj` — what the names are built from can
  be read off them;
* `PodInstaller.derivedNames_distinct` — the names derived from different users or file names are
  different;
* `PodInstaller.componentsFit_iff` — how long a file name may be for all the names to fit.
-/

import PodInstaller.InstallerSpec
import PodInstaller.Deployment

set_option relaxedAutoImplicit false
set_option autoImplicit false

namespace PodInstaller

open Bytes

/-! ### Unit names -/

/-- A byte of a unit name in `safe_systemd_unit`. -/
def systemdUnitChar (c : UInt8) : Bool :=
  isalnum c || c == ch '_' || c == ch '-' || c == ch '.' || c == ch '@' || c == ch '\\'

/-- `safe_systemd_unit`. -/
def safeSystemdUnit (unit : Bytes) : Bool :=
  if unit = [] ∨ 255 < unit.length ∨ unit.head? = some (ch '-') then false
  else if unit.all systemdUnitChar = false then false
  else decide ((".service" : Bytes) <:+ unit ∨ (".socket" : Bytes) <:+ unit ∨
    (".timer" : Bytes) <:+ unit ∨ (".target" : Bytes) <:+ unit)

/-- `validate_systemd_unit_name`. -/
def validateSystemdUnitName (unit : Bytes) : Result Unit :=
  reject (safeSystemdUnit unit = false)
    (makeError .invalidArgument (ofString "unsupported systemd unit name: " ++ unit))

/-- The accepted file names and their units, by what the two have in common. -/
theorem exists_stem {f : Bytes} (hf : validateQuadletFileName f = .ok ()) :
    ∃ stem, stem ≠ [] ∧ f = stem ++ ofString ".container" ∧
      serviceUnitNameFromQuadlet f = .ok (stem ++ ofString ".service") := by
  obtain ⟨-, ⟨hdot, -⟩, -, -, stem, hstem⟩ := validateQuadletFileName_eq_ok.1 hf
  refine ⟨stem, ?_, hstem.symm, ?_⟩
  · rintro rfl
    rw [← hstem] at hdot
    exact hdot rfl
  · have hlen : (stem ++ ofString ".container").length - (ofString ".container").length =
        stem.length := by simp
    rw [serviceUnitNameFromQuadlet, hf]
    simp only [bind, Except.bind, pure, Except.pure]
    rw [← hstem, hlen, List.take_left']
    rfl

theorem serviceUnitNameFromQuadlet_inj {f f' unit : Bytes}
    (h : serviceUnitNameFromQuadlet f = .ok unit) (h' : serviceUnitNameFromQuadlet f' = .ok unit) :
    f = f' := by
  have hvalid : ∀ {g : Bytes}, serviceUnitNameFromQuadlet g = .ok unit →
      validateQuadletFileName g = .ok () := by
    intro g hg
    rw [serviceUnitNameFromQuadlet, bind_eq_ok] at hg
    obtain ⟨u, hu, -⟩ := hg
    exact hu
  obtain ⟨stem, -, hf, hunit⟩ := exists_stem (hvalid h)
  obtain ⟨stem', -, hf', hunit'⟩ := exists_stem (hvalid h')
  rw [h] at hunit
  rw [h'] at hunit'
  have hstem : stem ++ ofString ".service" = stem' ++ ofString ".service" :=
    (Except.ok.inj hunit).symm.trans (Except.ok.inj hunit')
  rw [hf, hf', List.append_cancel_right hstem]

/-- The two validators agree: the unit of an accepted file name is an accepted unit name. -/
theorem validateSystemdUnitName_serviceUnit {f unit : Bytes}
    (hf : validateQuadletFileName f = .ok ()) (h : serviceUnitNameFromQuadlet f = .ok unit) :
    validateSystemdUnitName unit = .ok () := by
  obtain ⟨⟨-, hlen⟩, ⟨-, hdash⟩, -, hall, -⟩ := validateQuadletFileName_eq_ok.1 hf
  obtain ⟨stem, hne, rfl, hunit⟩ := exists_stem hf
  obtain rfl : unit = stem ++ ofString ".service" := by
    rw [h] at hunit
    exact Except.ok.inj hunit
  have hhead : ∀ s : Bytes, (stem ++ s).head? = stem.head? := by
    intro s
    obtain ⟨c, rest, rfl⟩ := List.exists_cons_of_ne_nil hne
    rfl
  have hchars : ∀ c ∈ stem, systemdUnitChar c = true := by
    intro c hc
    rw [List.all_append, Bool.and_eq_true, List.all_eq_true] at hall
    have hsafe := hall.1 c hc
    rw [safeUnitFileChar] at hsafe
    rw [systemdUnitChar]
    simp only [Bool.or_eq_true] at hsafe ⊢
    tauto
  have hservice : ∀ c ∈ ofString ".service", systemdUnitChar c = true := by decide +kernel
  rw [validateSystemdUnitName, reject_eq_ok, safeSystemdUnit, if_neg, if_neg]
  · simp
  · rw [List.all_append, List.all_eq_true.2 hchars, List.all_eq_true.2 hservice]
    simp
  · rw [not_or, not_or]
    refine ⟨by simp [hne], ?_, ?_⟩
    · -- `.service` is two bytes shorter than `.container`
      have h₁ : (ofString ".service").length = 8 := rfl
      have h₂ : (ofString ".container").length = 10 := rfl
      rw [List.length_append] at hlen ⊢
      omega
    · rw [hhead] at hdash ⊢
      exact hdash

/-! ### Lock files and temporary files -/

/-- The user id ends at the first dash of the name of a lock file. -/
theorem lockName_inj {uid uid' : UInt32} {unit unit' : Bytes} :
    lockName uid unit = lockName uid' unit' ↔ uid = uid' ∧ unit = unit' := by
  constructor
  · intro h
    have hcons : ∀ (uid : UInt32) (unit : Bytes),
        lockName uid unit = uidString uid ++ ch '-' :: (unit ++ ofString ".lock") := by
      intro uid unit
      rw [lockName]
      simp [ofString, ch]
    rw [hcons, hcons] at h
    obtain ⟨huid, -, hunit⟩ := run_append_inj (p := isdigit) (fun c => isdigit_of_mem_decimal)
      (fun c => isdigit_of_mem_decimal) rfl rfl h
    exact ⟨uidString_injective huid, List.append_cancel_right hunit⟩
  · rintro ⟨rfl, rfl⟩
    rfl

/-- The two numbers of the name of a temporary file are the last two runs of digits. -/
theorem temporaryName_inj {f f' : Bytes} {pid pid' attempt attempt' : ℕ} :
    temporaryName f pid attempt = temporaryName f' pid' attempt' ↔
      f = f' ∧ pid = pid' ∧ attempt = attempt' := by
  constructor
  · intro h
    have hcons : ∀ (f : Bytes) (pid attempt : ℕ), temporaryName f pid attempt =
        (ch '.' :: f ++ ofString ".tmp" ++ ch '.' :: decimal pid) ++ ch '.' :: decimal attempt := by
      intro f pid attempt
      rw [temporaryName]
      simp [ofString, ch]
    rw [hcons, hcons] at h
    obtain ⟨hfront, -, hattempt⟩ := append_run_inj (p := isdigit)
      (fun c => isdigit_of_mem_decimal) (fun c => isdigit_of_mem_decimal) rfl rfl h
    obtain ⟨hname, -, hpid⟩ := append_run_inj (p := isdigit)
      (fun c => isdigit_of_mem_decimal) (fun c => isdigit_of_mem_decimal) rfl rfl hfront
    exact ⟨(List.cons.inj (List.append_cancel_right hname)).2, decimal_injective hpid,
      decimal_injective hattempt⟩
  · rintro ⟨rfl, rfl, rfl⟩
    rfl

/-- A temporary file is hidden, and an accepted file name is not. -/
theorem validateQuadletFileName_temporaryName (f : Bytes) (pid attempt : ℕ) :
    validateQuadletFileName (temporaryName f pid attempt) ≠ .ok () := by
  intro h
  exact (validateQuadletFileName_eq_ok.1 h).2.1.1 rfl

/-! ### No two names collide -/

/-- Accepted file names are direct children of the directory of their user. -/
theorem quadletPath_child {layout : QuadletInstallLayout} {uid : UInt32} {f : Bytes}
    (hf : validateQuadletFileName f = .ok ()) :
    PosixPath.parentPath (layout.quadletPath uid f) = layout.userDirectory uid ∧
      PosixPath.filename (layout.quadletPath uid f) = f :=
  ⟨parentPath_quadletPath (quadletName_of_valid hf), filename_quadletPath (quadletName_of_valid hf)⟩

/-- **The names derived from different users or different file names are different.**  The paths,
the lock files of the units, and the users with their file names determine each other; the unit
determines the file name and is a unit name that the systemd controllers accept; and a temporary
file is neither a Quadlet file nor the temporary file of another Quadlet file. -/
theorem derivedNames_distinct (layout : QuadletInstallLayout) (uid uid' : UInt32) (f f' : Bytes)
    (hf : validateQuadletFileName f = .ok ()) (hf' : validateQuadletFileName f' = .ok ()) :
    (PosixPath.parentPath (layout.quadletPath uid f) = layout.userDirectory uid ∧
      PosixPath.filename (layout.quadletPath uid f) = f) ∧
    (PosixPath.same (layout.quadletPath uid f) (layout.quadletPath uid' f') = true ↔
      (uid, f) = (uid', f')) ∧
    (∃ unit unit', serviceUnitNameFromQuadlet f = .ok unit ∧
      serviceUnitNameFromQuadlet f' = .ok unit' ∧
      ((uid, f) = (uid', f') ↔ lockName uid unit = lockName uid' unit') ∧
      (unit = unit' → f = f') ∧ validateSystemdUnitName unit = .ok ()) ∧
    ∀ pid attempt pid' attempt',
      validateQuadletFileName (temporaryName f pid attempt) ≠ .ok () ∧
      (f ≠ f' → temporaryName f pid attempt ≠ temporaryName f' pid' attempt') := by
  obtain ⟨stem, -, -, hunit⟩ := exists_stem hf
  obtain ⟨stem', -, -, hunit'⟩ := exists_stem hf'
  refine ⟨quadletPath_child hf, ?_, ⟨_, _, hunit, hunit', ?_, ?_, ?_⟩, ?_⟩
  · constructor
    · intro h
      obtain ⟨rfl, rfl⟩ := quadletPath_same (quadletName_of_valid hf) (quadletName_of_valid hf') h
      rfl
    · intro h
      obtain ⟨rfl, rfl⟩ := Prod.mk.inj h
      simp [PosixPath.same]
  · rw [lockName_inj, Prod.mk.injEq]
    constructor
    · rintro ⟨rfl, rfl⟩
      exact ⟨rfl, Except.ok.inj (hunit.symm.trans hunit')⟩
    · rintro ⟨rfl, hstem⟩
      exact ⟨rfl, serviceUnitNameFromQuadlet_inj hunit (hstem ▸ hunit')⟩
  · intro hstem
    exact serviceUnitNameFromQuadlet_inj hunit (hstem ▸ hunit')
  · exact validateSystemdUnitName_serviceUnit hf hunit
  · intro pid attempt pid' attempt'
    refine ⟨validateQuadletFileName_temporaryName f pid attempt, fun hne h => ?_⟩
    exact hne (temporaryName_inj.1 h).1

theorem derivedNames_distinct_web :
    PosixPath.same (({} : QuadletInstallLayout).quadletPath 1000 "web.container")
      (({} : QuadletInstallLayout).quadletPath 100 "0-web.container") = false := by
  have h := (derivedNames_distinct {} 1000 100 "web.container" "0-web.container"
    (by decide +kernel) (by decide +kernel)).2.1
  rw [Bool.eq_false_iff, Ne, h]
  decide

/-! ### How long the names are -/

/-- The largest process id that a `pid_t` holds. -/
def PID_T_MAX : ℕ := 2147483647

/-- Every single path component that is made for a file name fits in a directory: the Quadlet file,
the temporary file of `atomic_write_file` and the lock file of `lock_deployment`. -/
def ComponentsFit (f : Bytes) : Prop :=
  ∀ (uid : UInt32) (pid attempt : ℕ), pid ≤ PID_T_MAX → attempt < 100 →
    f.length ≤ NAME_MAX ∧ (temporaryName f pid attempt).length ≤ NAME_MAX ∧
      ∀ unit, serviceUnitNameFromQuadlet f = .ok unit → (lockName uid unit).length ≤ NAME_MAX

/-- A temporary file takes seven bytes and two numbers more than the Quadlet file. -/
theorem length_temporaryName (f : Bytes) (pid attempt : ℕ) :
    (temporaryName f pid attempt).length =
      f.length + 7 + (decimal pid).length + (decimal attempt).length := by
  have h₁ : (ofString ".").length = 1 := rfl
  have h₂ : (ofString ".tmp.").length = 5 := rfl
  simp only [temporaryName, List.length_append, h₁, h₂]
  omega

/-- A lock file takes four bytes and a number more than the Quadlet file. -/
theorem length_lockName {f unit : Bytes} (hf : validateQuadletFileName f = .ok ())
    (h : serviceUnitNameFromQuadlet f = .ok unit) (uid : UInt32) :
    (lockName uid unit).length = f.length + 4 + (decimal uid.toNat).length := by
  obtain ⟨stem, -, rfl, hunit⟩ := exists_stem hf
  obtain rfl : unit = stem ++ ofString ".service" := Except.ok.inj (h.symm.trans hunit)
  have h₁ : (ofString "-").length = 1 := rfl
  have h₂ : (ofString ".service").length = 8 := rfl
  have h₃ : (ofString ".lock").length = 5 := rfl
  have h₄ : (ofString ".container").length = 10 := rfl
  simp only [lockName, uidString, List.length_append, h₁, h₂, h₃, h₄]
  omega

/-- **The names made for a file name fit exactly when the file name has at most 236 bytes.**  The
longest of them is that of a temporary file with a process id of ten digits. -/
theorem componentsFit_iff {f : Bytes} (hf : validateQuadletFileName f = .ok ()) :
    ComponentsFit f ↔ f.length ≤ 236 := by
  obtain ⟨stem, -, -, hunit⟩ := exists_stem hf
  have hmax : NAME_MAX = 255 := rfl
  have hpid : PID_T_MAX = 2147483647 := rfl
  constructor
  · intro h
    have htmp := (h 0 PID_T_MAX 99 (by omega) (by omega)).2.1
    have h₁ : (decimal PID_T_MAX).length = 10 := by decide +kernel
    have h₂ : (decimal 99).length = 2 := by decide +kernel
    rw [length_temporaryName, h₁, h₂] at htmp
    omega
  · intro hlen uid pid attempt hp ha
    refine ⟨by omega, ?_, fun unit hu => ?_⟩
    · have h₁ := (length_decimal_le_iff (n := pid) (k := 10) (by omega)).2 (by omega)
      have h₂ := (length_decimal_le_iff (n := attempt) (k := 2) (by omega)).2 (by omega)
      rw [length_temporaryName]
      omega
    · have h₁ := (length_decimal_le_iff (n := uid.toNat) (k := 10) (by omega)).2
        (by have := uid.toNat_lt; omega)
      rw [length_lockName hf hu]
      omega

theorem componentsFit_web : ComponentsFit "web.container" :=
  (componentsFit_iff (by decide +kernel)).2 (by decide)

/-- A file name of 255 bytes is accepted, and its temporary files do not fit. -/
theorem longest_name_does_not_fit :
    ¬ ∀ f, validateQuadletFileName f = .ok () → ComponentsFit f := by
  intro h
  let longest : Bytes := List.replicate 245 (ch 'a') ++ ofString ".container"
  have htmp := (h longest (by decide +kernel) 0 1 0 (by decide) (by decide)).2.1
  have hlong : ¬ (temporaryName longest 1 0).length ≤ NAME_MAX := by decide +kernel
  exact hlong htmp

end PodInstaller
