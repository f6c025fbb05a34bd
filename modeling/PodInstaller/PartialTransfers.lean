/-
**Transfers in parts.**

A `write` may take fewer bytes than it is given, a `read` may deliver fewer than it is asked for,
and either may be interrupted.  `write_all` and `read_regular_file_no_symlink` go on until nothing
is left.  Here it is shown that the parts do not matter: however a transfer is cut up, what is
written is what is read, and a call that fails on the way makes the function fail.

A schedule lists the parts of a transfer.  Every part moves something, and together they move all
the bytes, so that a schedule is what the environment can choose when nothing fails; the functions
return for every schedule, since each part leaves less to do.

Main definitions:

* `PodInstaller.Schedule` — the parts of a transfer;
* `PodInstaller.Fails`, `PodInstaller.AllOrError` — calls that fail, and functions that fail with
  them;
* `PodInstaller.LeadsTo` — a path leads to a regular file;
* `PodInstaller.TransfersExactly` — nothing is lost and nothing is added.

Main results:

* `PodInstaller.runOn_writeAll`, `PodInstaller.runOn_readBytes` — the loops return;
* `PodInstaller.transfers_writeAll`, `PodInstaller.transfers_readRegularFileNoSymlink` — what they
  return;
* `PodInstaller.transfersExactly` — **a new file holds what was written to it, and is read so**.
-/

import PodInstaller.InstallFailure

set_option relaxedAutoImplicit false
set_option autoImplicit false

namespace PodInstaller

open Bytes

/-! ### Schedules -/

/-- The choices of the environment for the parts of a transfer: each is interrupted a number of
times before it moves its bytes. -/
def partChoices (parts : List (ℕ × ℕ)) : List Choice :=
  parts.flatMap fun part => List.replicate part.1 (.fault EINTR) ++ [.moved part.2]

/-- How many bytes the parts of a transfer move. -/
def partBytes : List (ℕ × ℕ) → ℕ
  | [] => 0
  | part :: parts => part.2 + partBytes parts

/-- The parts in which so many bytes are transferred, with the interruptions before each. -/
structure Schedule (total : ℕ) where
  parts : List (ℕ × ℕ)
  moves : ∀ part ∈ parts, 0 < part.2
  sum : partBytes parts = total

/-- The choices of the environment in a schedule. -/
def Schedule.choices {total : ℕ} (s : Schedule total) : List Choice := partChoices s.parts

theorem partChoices_cons (k n : ℕ) (parts : List (ℕ × ℕ)) (cs : List Choice) :
    partChoices ((k, n) :: parts) ++ cs =
      List.replicate k (.fault EINTR) ++ .moved n :: (partChoices parts ++ cs) := by
  simp [partChoices]

/-- Where nothing is left to move there are no parts. -/
theorem parts_eq_nil {parts : List (ℕ × ℕ)} (hparts : ∀ part ∈ parts, 0 < part.2)
    (hsum : partBytes parts = 0) : parts = [] := by
  cases parts with
  | nil => rfl
  | cons part parts =>
      have hpos := hparts part List.mem_cons_self
      rw [partBytes] at hsum
      omega

/-! ### Calls that fail -/

/-- A call that fails: it returns an error number, or it is a `read` that comes to an early end. -/
inductive Fails : Event Sys.Resp World Choice → Prop
  | openPath {w w' : World} {path : PosixPath} {flags : OpenFlags} {c : Choice} {e : Errno} :
      Fails ⟨w, .openPath path flags, c, .error e, w'⟩
  | fstat {w w' : World} {fd : Fd} {c : Choice} {e : Errno} :
      Fails ⟨w, .fstat fd, c, .error e, w'⟩
  | write {w w' : World} {fd : Fd} {data : Bytes} {c : Choice} {e : Errno} :
      Fails ⟨w, .write fd data, c, .error e, w'⟩
  | read {w w' : World} {fd : Fd} {count : ℕ} {c : Choice} {e : Errno} :
      Fails ⟨w, .read fd count, c, .error e, w'⟩
  | early {w w' : World} {fd : Fd} {count : ℕ} {c : Choice} :
      Fails ⟨w, .read fd count, c, .ok [], w'⟩

/-- A result that is an error if a call has failed, and what was promised otherwise. -/
def AllOrError {α : Type} (tr : List (Event Sys.Resp World Choice)) (r : Result α)
    (promised : α → Prop) : Prop :=
  (∃ e ∈ tr, Fails e) ∧ (∃ error, r = .error error) ∨
    (∀ e ∈ tr, ¬ Fails e) ∧ ∃ a, r = .ok a ∧ promised a

/-- A function all of whose runs end so. -/
def Transfers (K : Kernel) (t : ℕ) {α : Type} (x : Action α) (Q : α → World → Prop) (w : World) :
    Prop :=
  ∀ tr w' r, Exec K.machine t w x.run tr w' r → AllOrError tr r fun a => Q a w'

section

variable {K : Kernel} {t : ℕ} {w : World} {α β : Type}

theorem transfers_pure {a : α} {Q : α → World → Prop} (h : Q a w) :
    Transfers K t (pure a) Q w := by
  intro tr w' r hexec
  obtain ⟨rfl, rfl, rfl⟩ := exec_pure.1 hexec
  exact .inr ⟨by simp, a, rfl, h⟩

theorem Transfers.weaken {x : Action α} {Q Q' : α → World → Prop} (h : Transfers K t x Q w)
    (hQ : ∀ a w, Q a w → Q' a w) : Transfers K t x Q' w := by
  intro tr w' r hexec
  rcases h tr w' r hexec with hfails | ⟨hnone, a, hr, hpost⟩
  · exact .inl hfails
  · exact .inr ⟨hnone, a, hr, hQ a w' hpost⟩

/-- **A sequence**: a call that fails in one part makes the whole fail. -/
theorem Transfers.bind {x : Action α} {f : α → Action β} {P : α → World → Prop}
    {Q : β → World → Prop} (hx : Transfers K t x P w)
    (hf : ∀ a w, P a w → Transfers K t (f a) Q w) : Transfers K t (x >>= f) Q w := by
  intro tr w' r hexec
  rcases exec_exceptT_bind.1 hexec with ⟨e, rfl, h⟩ | ⟨tr₁, w₁, a, tr₂, h₁, h₂, rfl⟩
  · rcases hx _ _ _ h with ⟨hfails, -⟩ | ⟨-, a, ha, -⟩
    · exact .inl ⟨hfails, e, rfl⟩
    · cases ha
  · obtain ⟨hnone, hpost⟩ : (∀ e ∈ tr₁, ¬ Fails e) ∧ P a w₁ := by
      rcases hx _ _ _ h₁ with ⟨-, e, he⟩ | ⟨hnone, b, hb, hpost⟩
      · cases he
      · exact ⟨hnone, Except.ok.inj hb ▸ hpost⟩
    rcases hf a w₁ hpost _ _ _ h₂ with ⟨⟨e, he, hfails⟩, herror⟩ | ⟨hnone', hok⟩
    · exact .inl ⟨⟨e, List.mem_append_right _ he, hfails⟩, herror⟩
    · exact .inr ⟨List.forall_mem_append.2 ⟨hnone, hnone'⟩, hok⟩

/-- A check that passes makes no difference. -/
theorem transfers_rejectIf_bind {rejected : Prop} [Decidable rejected] {error : Error}
    {f : Unit → Action β} {Q : β → World → Prop} (hpass : ¬ rejected)
    (hf : Transfers K t (f ()) Q w) : Transfers K t (rejectIf rejected error >>= f) Q w := by
  intro tr w' r hexec
  rw [run_rejectIf_bind hpass] at hexec
  exact hf tr w' r hexec

end

/-! ### Open files -/

/-- An open file that holds `bytes`, with its offset. -/
structure Positioned (t : ℕ) (fd : Fd) (i offset : ℕ) (bytes : Bytes) (w : World) : Prop where
  descriptor : w.ofd fd = some ⟨.ino i, offset, t⟩
  bytes : (w.inode i).bytes = bytes

/-- The same, with the offset at its end. -/
abbrev AtEnd (t : ℕ) (fd : Fd) (i : ℕ) (bytes : Bytes) (w : World) : Prop :=
  Positioned t fd i bytes.length bytes w

/-- A path leads to a regular file that holds `bytes`. -/
structure LeadsTo (K : Kernel) (path : PosixPath) (i : ℕ) (bytes : Bytes) (w : World) : Prop where
  found : ∃ dir name, K.locate (cStr path) = .entry dir name ∧ name.length ≤ NAME_MAX ∧
    w.entry dir name = some i
  kind : (w.inode i).kind = .regular
  bytes : (w.inode i).bytes = bytes

/-! ### Writing -/

section

variable {K : Kernel} {t : ℕ} {w w' : World} {fd : Fd} {i : ℕ} {bytes data : Bytes}

/-- The bytes that are written follow on the others. -/
theorem Positioned.write (h : AtEnd t fd i bytes w) {c : Choice} {n : ℕ}
    (hstep : K.machine.step t w (.write fd data) c = some (.ok n, w')) :
    0 < n ∧ n ≤ data.length ∧ AtEnd t fd i (bytes ++ data.take n) w' ∧
      ∀ {path bytes'}, LeadsTo K path i bytes' w → LeadsTo K path i (bytes ++ data.take n) w' := by
  rcases System.step_write (Kernel.machine_step.1 hstep) with
    ⟨e, he, -⟩ | ⟨j, offset, owner, m, hofd, hpos, hle, hn, hw⟩
  · cases he
  obtain rfl : n = m := Except.ok.inj hn
  obtain ⟨rfl, rfl, rfl⟩ : i = j ∧ bytes.length = offset ∧ t = owner := by
    simpa [h.descriptor] using hofd
  have hbytes : (w.inode i).bytes.take bytes.length ++ data.take n ++
      (w.inode i).bytes.drop (bytes.length + n) = bytes ++ data.take n := by
    rw [h.bytes, List.take_length, List.drop_eq_nil_of_le (by omega), List.append_nil]
  rw [hbytes] at hw
  have hnew : (w'.inode i).bytes = bytes ++ data.take n := by
    rw [hw]
    simp [System.seek, System.setBytes]
  refine ⟨hpos, hle, ⟨?_, hnew⟩, ?_⟩
  · rw [hw, List.length_append, List.length_take, Nat.min_eq_left hle]
    simp [System.seek, System.setBytes, h.descriptor]
  · rintro path bytes' ⟨⟨dir, name, hpath, hlen, hentry⟩, hkind, -⟩
    refine ⟨⟨dir, name, hpath, hlen, ?_⟩, ?_, hnew⟩
    · rw [hw]
      exact hentry
    · rw [hw]
      simpa [System.seek, System.setBytes] using hkind

/-- **Writing** writes all, or fails. -/
theorem transfers_writeAll {path : PosixPath} (h : AtEnd t fd i bytes w)
    (hpath : LeadsTo K path i bytes w) (contents : Bytes) (skip : ℕ) :
    Transfers K t (writeAll fd contents skip)
      (fun _ => LeadsTo K path i (bytes ++ contents.drop skip)) w := by
  induction contents generalizing skip bytes w with
  | nil =>
      rw [List.drop_nil, List.append_nil]
      exact transfers_pure hpath
  | cons c rest ih =>
      cases skip with
      | succ skip => exact ih h hpath skip
      | zero =>
          rw [writeAll]
          refine Transfers.bind (P := fun n w => 0 < n ∧
            AtEnd t fd i (bytes ++ (c :: rest).take n) w ∧
            LeadsTo K path i (bytes ++ (c :: rest).take n) w) ?_ fun n w h => ?_
          · intro tr w' r hexec
            cases r with
            | error error =>
                obtain ⟨e, rfl, hwrite⟩ := exec_attempt_error.1 hexec
                obtain ⟨choice, -, -, rfl⟩ := exec_sysUntil write_again hwrite
                exact .inl ⟨⟨_, List.mem_singleton_self _, .write⟩, _, rfl⟩
            | ok n =>
                obtain ⟨choice, hstep, -, rfl⟩ :=
                  exec_sysUntil write_again (exec_attempt_ok.1 hexec)
                obtain ⟨hpos, -, hend, hleads⟩ := h.write hstep
                refine .inr ⟨?_, n, rfl, hpos, hend, hleads hpath⟩
                rw [List.forall_mem_singleton]
                rintro ⟨⟩
          · -- the rest follows on what was written
            obtain ⟨hpos, hend, hleads⟩ := h
            obtain ⟨m, rfl⟩ := Nat.exists_eq_add_of_lt hpos
            have hrest := ih hend hleads (0 + m + 1 - 1)
            simpa using hrest

/-- A `write` that is interrupted. -/
theorem step_write_interrupted : K.machine.step t w (.write fd data) (.fault EINTR) =
    some (.error EINTR, w) := Kernel.machine_step.2 rfl

/-- A `write` that takes some of the bytes. -/
theorem Positioned.exists_write (h : AtEnd t fd i bytes w) {n : ℕ} (hpos : 0 < n)
    (hle : n ≤ data.length) :
    ∃ w', K.machine.step t w (.write fd data) (.moved n) = some (.ok n, w') := by
  have hstep : ∃ s, w.toSystem.step K t (.write fd data) (.moved n) = some (.ok n, s) := by
    simp [System.step, System.writeAt, h.descriptor, hpos, hle]
  obtain ⟨s, hs⟩ := hstep
  obtain ⟨w', hw', -⟩ := World.exists_step hs
  exact ⟨w', hw'⟩

/-- **Writing returns** for every schedule. -/
theorem runOn_writeAll (h : AtEnd t fd i bytes w) (contents : Bytes) (skip : ℕ)
    {parts : List (ℕ × ℕ)} (hparts : ∀ part ∈ parts, 0 < part.2)
    (hsum : partBytes parts = (contents.drop skip).length) (cs : List Choice) :
    ∃ tr w', runOn K.machine t (partChoices parts ++ cs) w (writeAll fd contents skip).run =
      some (tr, w', .ok (), cs) := by
  induction contents generalizing skip bytes w parts with
  | nil =>
      obtain rfl := parts_eq_nil hparts (by simpa using hsum)
      exact ⟨[], w, runOn_ret _ _ _⟩
  | cons c rest ih =>
      cases skip with
      | succ skip => exact ih h skip hparts hsum
      | zero =>
          cases parts with
          | nil => simp [partBytes] at hsum
          | cons part parts =>
              obtain ⟨k, n⟩ := part
              rw [List.forall_mem_cons] at hparts
              rw [partBytes, List.drop_zero] at hsum
              obtain ⟨hpos, hparts⟩ := hparts
              have hle : n ≤ (c :: rest).length := by
                rw [← hsum]
                exact Nat.le_add_right _ _
              obtain ⟨w₁, hstep⟩ := h.exists_write (K := K) hpos hle
              obtain ⟨-, -, hend, -⟩ := h.write hstep
              have hrest : partBytes parts = (rest.drop (n - 1)).length := by
                rw [List.length_cons] at hsum
                rw [List.length_drop]
                omega
              obtain ⟨tr, w', hrun⟩ := ih hend (n - 1) hparts hrest
              refine ⟨⟨w, .write fd (c :: rest), .moved n, .ok n, w₁⟩ :: tr, w', ?_⟩
              have hagain : writeAgain (.ok n) = false := by
                simpa [writeAgain] using Nat.ne_of_gt hpos
              rw [partChoices_cons]
              change runOn K.machine t _ w (Prog.call (Sys.write fd (c :: rest)) writeAgain _) = _
              -- the attempts that are interrupted leave the world as it is
              rw [runOn_replicate_again step_write_interrupted rfl, runOn_step hstep hagain]
              change (runOn K.machine t _ w₁ (writeAll fd rest (n - 1)).run).map _ = _
              rw [hrun]
              rfl

end

/-! ### Reading -/

section

variable {K : Kernel} {t : ℕ} {w w' : World} {fd : Fd} {i offset count : ℕ} {bytes : Bytes}

/-- The bytes that are read are those at the offset. -/
theorem Positioned.read (h : Positioned t fd i offset bytes w) {c : Choice} {out : Bytes}
    (hstep : K.machine.step t w (.read fd count) c = some (.ok out, w')) :
    ∃ n, n ≤ count ∧ n ≤ (bytes.drop offset).length ∧ out = (bytes.drop offset).take n ∧
      Positioned t fd i (offset + n) bytes w' := by
  rcases System.step_read (Kernel.machine_step.1 hstep) with
    ⟨e, he, -⟩ | ⟨j, offset', owner, n, hofd, hle, hle', hout, hw⟩
  · cases he
  obtain ⟨rfl, rfl, rfl⟩ : i = j ∧ offset = offset' ∧ t = owner := by
    simpa [h.descriptor] using hofd
  rw [h.bytes] at hle' hout
  refine ⟨n, hle, hle', Except.ok.inj hout, ?_, ?_⟩
  · rw [hw]
    simp [System.seek, h.descriptor]
  · rw [hw]
    exact h.bytes

theorem AllOrError.cons {α : Type} {tr : List (Event Sys.Resp World Choice)} {r : Result α}
    {promised : α → Prop} {e : Event Sys.Resp World Choice} (he : ¬ Fails e)
    (h : AllOrError tr r promised) : AllOrError (e :: tr) r promised := by
  rcases h with ⟨⟨e', he', hfails⟩, herror⟩ | ⟨hnone, hok⟩
  · exact .inl ⟨⟨e', List.mem_cons_of_mem _ he', hfails⟩, herror⟩
  · exact .inr ⟨List.forall_mem_cons.2 ⟨he, hnone⟩, hok⟩

/-- **Reading** delivers all the bytes that are left, or fails. -/
theorem transfers_readBytes (h : Positioned t fd i offset bytes w) (path : PosixPath)
    (left skip : ℕ) :
    Transfers K t (readBytes path fd left skip)
      (fun out _ => out = (bytes.drop offset).take (left - skip)) w := by
  induction left generalizing skip offset w with
  | zero => exact transfers_pure (by simp)
  | succ left ih =>
      cases skip with
      | succ skip =>
          rw [Nat.add_sub_add_right]
          exact ih h skip
      | zero =>
          intro tr w' r hexec
          rw [readBytes] at hexec
          rcases exec_exceptT_bind.1 hexec with ⟨e, rfl, hread⟩ |
            ⟨_, w₁, out, tr₁, hread, hrest, rfl⟩
          · obtain ⟨n, rfl, hcall⟩ := exec_attempt_error.1 hread
            obtain ⟨c, -, -, rfl⟩ := exec_sysUntil read_again hcall
            exact .inl ⟨⟨_, List.mem_singleton_self _, .read⟩, _, rfl⟩
          obtain ⟨c, hstep, -, rfl⟩ := exec_sysUntil read_again (exec_attempt_ok.1 hread)
          rcases exec_rejectIf_bind.1 hrest with ⟨rfl, rfl, rfl, rfl⟩ | ⟨hne, hrest⟩
          · -- the file ends too early
            exact .inl ⟨⟨_, List.mem_singleton_self _, .early⟩, _, rfl⟩
          obtain ⟨n, hle, hle', rfl, hnext⟩ := h.read hstep
          have hlen : ((bytes.drop offset).take n).length = n := by
            rw [List.length_take, Nat.min_eq_left hle']
          have hpos : 0 < n := by
            rw [← hlen]
            exact List.length_pos_iff.2 hne
          rw [List.singleton_append]
          refine AllOrError.cons (fun hfails => ?_) ?_
          · generalize hout : (bytes.drop offset).take n = out at hfails hne
            cases hfails
            exact hne rfl
          · -- the rest follows at the next offset
            have hall : Transfers K t (do
                let rest ← readBytes path fd left (((bytes.drop offset).take n).length - 1)
                return (bytes.drop offset).take n ++ rest)
                (fun out _ => out = (bytes.drop offset).take (left + 1)) w₁ := by
              refine Transfers.bind (ih hnext _) fun rest w hrest => transfers_pure ?_
              rw [hrest, hlen, ← List.drop_drop, ← List.take_add]
              congr 1
              omega
            exact hall _ _ _ hrest

/-- A `read` that is interrupted. -/
theorem step_read_interrupted : K.machine.step t w (.read fd count) (.fault EINTR) =
    some (.error EINTR, w) := Kernel.machine_step.2 rfl

/-- A `read` that delivers some of the bytes. -/
theorem Positioned.exists_read (h : Positioned t fd i offset bytes w) {n : ℕ} (hle : n ≤ count)
    (hle' : n ≤ (bytes.drop offset).length) :
    ∃ w', K.machine.step t w (.read fd count) (.moved n) =
      some (.ok ((bytes.drop offset).take n), w') := by
  have hstep : w.toSystem.step K t (.read fd count) (.moved n) =
      some (.ok ((bytes.drop offset).take n), w.seek fd (offset + n)) := by
    simp only [System.step, System.readAt, h.descriptor, h.bytes]
    rw [if_pos ⟨hle, hle'⟩]
  obtain ⟨w', hw', -⟩ := World.exists_step hstep
  exact ⟨w', hw'⟩

/-- **Reading returns** for every schedule. -/
theorem runOn_readBytes (h : Positioned t fd i offset bytes w) (path : PosixPath)
    (left skip : ℕ) (hfile : left - skip ≤ (bytes.drop offset).length)
    {parts : List (ℕ × ℕ)} (hparts : ∀ part ∈ parts, 0 < part.2)
    (hsum : partBytes parts = left - skip) (cs : List Choice) :
    ∃ tr w' out, runOn K.machine t (partChoices parts ++ cs) w (readBytes path fd left skip).run =
      some (tr, w', .ok out, cs) := by
  induction left generalizing skip offset w parts with
  | zero =>
      obtain rfl := parts_eq_nil hparts (by simpa using hsum)
      exact ⟨[], w, [], runOn_ret _ _ _⟩
  | succ left ih =>
      cases skip with
      | succ skip =>
          -- this byte came with an earlier part
          rw [Nat.add_sub_add_right] at hfile hsum
          exact ih h skip hfile hparts hsum
      | zero =>
          cases parts with
          | nil => simp [partBytes] at hsum
          | cons part parts =>
              obtain ⟨k, n⟩ := part
              rw [List.forall_mem_cons] at hparts
              rw [partBytes] at hsum
              obtain ⟨hpos, hparts⟩ := hparts
              change 0 < n at hpos
              change n + partBytes parts = left + 1 at hsum
              have hle : n ≤ (bytes.drop offset).length := by omega
              obtain ⟨w₁, hstep⟩ : ∃ w₁, K.machine.step t w (.read fd (left + 1)) (.moved n) =
                some (.ok ((bytes.drop offset).take n), w₁) := h.exists_read (by omega) hle
              obtain ⟨n', hn', hle'', hout, hnext⟩ := h.read hstep
              have hlen : ((bytes.drop offset).take n).length = n := by
                rw [List.length_take, Nat.min_eq_left hle]
              obtain rfl : n = n' := by
                rw [← hlen, hout, List.length_take, Nat.min_eq_left hle'']
              have hrest : left - (n - 1) ≤ (bytes.drop (offset + n)).length := by
                rw [List.length_drop] at hfile hle ⊢
                omega
              obtain ⟨tr, w', out, hrun⟩ := ih hnext (n - 1) hrest hparts (by omega)
              refine ⟨⟨w, .read fd (left + 1), .moved n, .ok ((bytes.drop offset).take n), w₁⟩ ::
                tr, w', (bytes.drop offset).take n ++ out, ?_⟩
              rw [partChoices_cons]
              change runOn K.machine t _ w (Prog.call (Sys.read fd (left + 1)) interrupted _) = _
              -- the attempts that are interrupted leave the world as it is
              rw [runOn_replicate_again step_read_interrupted rfl, runOn_step hstep rfl]
              change (runOn K.machine t _ w₁ (rejectIf ((bytes.drop offset).take n = []) _ >>=
                fun _ => (do
                  let rest ← readBytes path fd left (((bytes.drop offset).take n).length - 1)
                  return (bytes.drop offset).take n ++ rest : Action Bytes)).run).map _ = _
              have hne : (bytes.drop offset).take n ≠ [] := by
                rw [← List.length_pos_iff, hlen]
                exact hpos
              rw [run_rejectIf_bind hne, run_exceptT_bind, runOn_bind, hlen, hrun]
              simp

end

/-! ### Reading a file -/

section

variable {K : Kernel} {t : ℕ} {w w' : World} {path : PosixPath} {i : ℕ} {bytes : Bytes}

/-- Opening the path of a regular file. -/
theorem LeadsTo.openPath (h : LeadsTo K path i bytes w) {flags : OpenFlags} {c : Choice} {fd : Fd}
    (hstep : K.machine.step t w (.openPath (cStr path) flags) c = some (.ok fd, w')) :
    Positioned t fd i 0 bytes w' ∧ (w'.inode i).kind = .regular := by
  obtain ⟨dir, name, hpath, -, hentry⟩ := h.found
  rcases System.step_openPath (Kernel.machine_step.1 hstep) with
    ⟨e, he, -⟩ | ⟨target, hopen, hfd, hw⟩
  · cases he
  rw [hpath] at hopen
  obtain ⟨j, hj, rfl⟩ := System.openAt_entry hopen
  obtain rfl : i = j := Option.some.inj (hentry.symm.trans hj)
  obtain rfl := Except.ok.inj hfd
  refine ⟨⟨?_, ?_⟩, ?_⟩
  · rw [hw]
    simp [System.openFd]
  · rw [hw]
    exact h.bytes
  · rw [hw]
    exact h.kind

theorem Positioned.targetOf {fd : Fd} {offset : ℕ} (h : Positioned t fd i offset bytes w) :
    w.targetOf fd = some (.ino i) := by
  rw [System.targetOf, h.descriptor]
  rfl

/-- `fstat` of an open file tells its size. -/
theorem Positioned.fstat {fd : Fd} {offset : ℕ} (h : Positioned t fd i offset bytes w)
    (hkind : (w.inode i).kind = .regular) {c : Choice} {st : Stat}
    (hstep : K.machine.step t w (.fstat fd) c = some (.ok st, w')) :
    w' = w ∧ st.kind = .regular ∧ st.size = bytes.length := by
  obtain ⟨hw, hst⟩ := System.step_fstat_ino h.targetOf (Kernel.machine_step.1 hstep)
  obtain rfl := hst st rfl
  exact ⟨World.eq_of_toSystem hw, hkind, by rw [Inode.stat, h.bytes]⟩

/-- **Reading a file** delivers what it holds, or fails. -/
theorem transfers_readRegularFileNoSymlink (h : LeadsTo K path i bytes w) {maxSize : ℕ}
    (hsize : bytes.length ≤ maxSize) :
    Transfers K t (readRegularFileNoSymlink path maxSize) (fun out _ => out = bytes) w := by
  rw [readRegularFileNoSymlink]
  refine Transfers.bind (P := fun fd w => Positioned t fd i 0 bytes w ∧
    (w.inode i).kind = .regular) ?_ fun fd w h => ?_
  · intro tr w' r hexec
    cases r with
    | error error =>
        obtain ⟨e, rfl, hopen⟩ := exec_attempt_error.1 hexec
        obtain ⟨c, -, rfl⟩ := exec_sys.1 hopen
        exact .inl ⟨⟨_, List.mem_singleton_self _, .openPath⟩, _, rfl⟩
    | ok fd =>
        obtain ⟨c, hstep, rfl⟩ := exec_sys.1 (exec_attempt_ok.1 hexec)
        refine .inr ⟨?_, fd, rfl, h.openPath hstep⟩
        rw [List.forall_mem_singleton]
        rintro ⟨⟩
  obtain ⟨hopen, hkind⟩ := h
  refine Transfers.bind (P := fun (st : Stat) w => Positioned t fd i 0 bytes w ∧
    st.kind = .regular ∧ st.size = bytes.length) ?_ fun st w h => ?_
  · intro tr w' r hexec
    cases r with
    | error error =>
        obtain ⟨e, rfl, hstat⟩ := exec_attempt_error.1 hexec
        obtain ⟨c, -, rfl⟩ := exec_sys.1 hstat
        exact .inl ⟨⟨_, List.mem_singleton_self _, .fstat⟩, _, rfl⟩
    | ok st =>
        obtain ⟨c, hstep, rfl⟩ := exec_sys.1 (exec_attempt_ok.1 hexec)
        obtain ⟨rfl, hst⟩ := hopen.fstat hkind hstep
        refine .inr ⟨?_, st, rfl, hopen, hst⟩
        rw [List.forall_mem_singleton]
        rintro ⟨⟩
  obtain ⟨hopen, hregular, hlen⟩ := h
  refine transfers_rejectIf_bind (by simp [hregular]) ?_
  refine transfers_rejectIf_bind (by omega) ?_
  refine (transfers_readBytes hopen path st.size.toNat 0).weaken fun out w hout => ?_
  rw [hout, hlen]
  simp

/-- **Reading a file returns** for every schedule. -/
theorem run_readRegularFileNoSymlink (h : LeadsTo K path i bytes w) {maxSize : ℕ}
    (hsize : bytes.length ≤ maxSize) (s : Schedule bytes.length) :
    ∃ tr w' out, run K.machine t (.go :: .go :: s.choices) w
      (readRegularFileNoSymlink path maxSize).run = some (tr, w', .ok out) := by
  obtain ⟨dir, name, hpath, hlen, hentry⟩ := h.found
  obtain ⟨w₁, hopen⟩ : ∃ w₁, K.machine.step t w (.openPath (cStr path) {}) .go =
      some (.ok w.nextFd, w₁) := by
    have hfind : w.openAt K {} (.entry dir name) = some (.ok (.ino i)) := by
      simp only [System.openAt, System.findEntry_of_entry w.wellFormed hentry hlen]
      simp [System.canOpen, h.kind]
    have hstep : w.toSystem.step K t (.openPath (cStr path) {}) .go =
        some (.ok w.nextFd, w.openFd (.ino i) t) := by
      simp [System.step, failOr, hpath, hfind, System.opened]
    obtain ⟨w', hw', -⟩ := World.exists_step hstep
    exact ⟨w', hw'⟩
  obtain ⟨hfd, hkind⟩ := h.openPath hopen
  obtain ⟨w₂, st, hstat⟩ : ∃ w₂ st, K.machine.step t w₁ (.fstat w.nextFd) .go =
      some (.ok st, w₂) := by
    have hstep : w₁.toSystem.step K t (.fstat w.nextFd) .go =
        some (.ok (w₁.inode i).stat, w₁.toSystem) := by
      simp [System.step, failOrFind, failOr, System.fstat, hfd.targetOf]
    exact ⟨w₁, _, Kernel.machine_step.2 hstep⟩
  obtain ⟨rfl, hregular, hst⟩ := hfd.fstat hkind hstat
  obtain ⟨tr, w', out, hrun⟩ := runOn_readBytes (K := K) hfd path st.size.toNat 0
    (by simp [hst]) s.moves
    (by simp [hst, s.sum]) []
  rw [List.append_nil] at hrun
  refine ⟨⟨w, .openPath (cStr path) {}, .go, .ok w.nextFd, w₂⟩ ::
    ⟨w₂, .fstat w.nextFd, .go, .ok st, w₂⟩ :: tr, w', out, ?_⟩
  -- the run of the three steps, one after the other
  rw [run_eq_map_runOn]
  change Option.map _ (runOn K.machine t _ w
    (Prog.call (Sys.openPath (cStr path) {}) (fun _ => false) _)) = _
  rw [runOn_step hopen rfl]
  change Option.map _ (Option.map _ (runOn K.machine t _ w₂
    (Prog.call (Sys.fstat w.nextFd) (fun _ => false) _))) = _
  rw [runOn_step hstat rfl]
  change Option.map _ (Option.map _ (Option.map _ (runOn K.machine t _ w₂
    (rejectIf (st.kind ≠ .regular) _ >>= fun _ =>
      rejectIf (st.size < 0 ∨ (maxSize : ℤ) < st.size) _ >>= fun _ =>
        readBytes path w.nextFd st.size.toNat 0).run))) = _
  rw [run_rejectIf_bind (by simp [hregular]), run_rejectIf_bind (by omega), Schedule.choices, hrun]
  rfl

/-- A file that was not there before is empty. -/
theorem leadsTo_of_creat {dirFd fd : Fd} {dir name : Bytes} {flags : OpenFlags} {c : Choice}
    (hcreat : flags.creat = true) (hexcl : flags.excl = true)
    (hdir : w.targetOf dirFd = some (.sub dir)) (hpath : K.locate (cStr path) = .entry dir name)
    (hstep : K.machine.step t w (.openat dirFd name flags) c = some (.ok fd, w')) :
    AtEnd t fd w.nextIno [] w' ∧ LeadsTo K path w.nextIno [] w' := by
  rw [Kernel.machine_step] at hstep
  have hlen := System.step_openat_length hdir hcreat hstep
  rcases System.step_openat_creat w.wellFormed hcreat hstep with
    ⟨e, he, -⟩ | ⟨sub, hsub, hfd, ⟨-, -, hw⟩ | ⟨i, -, hno, -⟩⟩
  · cases he
  · rw [hdir] at hsub
    obtain rfl : dir = sub := by simpa using hsub
    obtain rfl := Except.ok.inj hfd
    have hinode : w'.inode w.nextIno = K.newFile t (w.sub dir) flags.mode := by
      rw [hw]
      simp [System.openFd, System.create]
    refine ⟨⟨?_, by rw [hinode, Kernel.newFile]⟩, ⟨⟨dir, name, hpath, hlen, ?_⟩, ?_, ?_⟩⟩
    · rw [hw]
      simp [System.openFd, System.create]
    · rw [hw]
      simp [System.openFd, System.create]
    · rw [hinode, Kernel.newFile]
    · rw [hinode, Kernel.newFile]
  · rw [hexcl] at hno
    cases hno

/-- **Nothing is lost and nothing is added**, however the transfers are cut up: in every schedule
the contents are written, and then read; whatever happens, writing puts all of them in the file or
fails, and reading delivers all of them or fails. -/
structure TransfersExactly (K : Kernel) (t : ℕ) (path : PosixPath) (fd : Fd) (contents : Bytes)
    (maxSize : ℕ) (w : World) : Prop where
  schedules : ∀ s s' : Schedule contents.length, ∃ tr w₁ tr' w₂,
    run K.machine t s.choices w (writeAll fd contents 0).run = some (tr, w₁, .ok ()) ∧
    run K.machine t (.go :: .go :: s'.choices) w₁ (readRegularFileNoSymlink path maxSize).run =
      some (tr', w₂, .ok contents)
  writes : ∀ tr w₁ r, Exec K.machine t w (writeAll fd contents 0).run tr w₁ r →
    AllOrError tr r fun _ => ∃ i, LeadsTo K path i contents w₁
  reads : ∀ i w₁ tr w₂ r, LeadsTo K path i contents w₁ →
    Exec K.machine t w₁ (readRegularFileNoSymlink path maxSize).run tr w₂ r →
      AllOrError tr r fun out => out = contents

/-- **A new file holds what was written to it, and is read so.** -/
theorem transfersExactly {dirFd fd : Fd} {dir name contents : Bytes} {flags : OpenFlags}
    {c : Choice} {maxSize : ℕ} (hcreat : flags.creat = true) (hexcl : flags.excl = true)
    (hdir : w.targetOf dirFd = some (.sub dir)) (hpath : K.locate (cStr path) = .entry dir name)
    (hnew : K.machine.step t w (.openat dirFd name flags) c = some (.ok fd, w'))
    (hsize : contents.length ≤ maxSize) : TransfersExactly K t path fd contents maxSize w' := by
  obtain ⟨hend, hleads⟩ := leadsTo_of_creat hcreat hexcl hdir hpath hnew
  have hwrites := transfers_writeAll (K := K) hend hleads contents 0
  refine ⟨fun s s' => ?_, fun tr w₁ r hexec => ?_, fun i w₁ tr w₂ r h hexec => ?_⟩
  · obtain ⟨tr, w₁, hwrite⟩ := runOn_writeAll (K := K) hend contents 0 s.moves s.sum []
    rw [List.append_nil] at hwrite
    -- the file holds the contents, since nothing was answered with an error
    rcases hwrites _ _ _ (exec_of_runOn hwrite) with ⟨-, e, he⟩ | ⟨-, _, -, hheld⟩
    · cases he
    rw [List.nil_append, List.drop_zero] at hheld
    obtain ⟨tr', w₂, out, hread⟩ := run_readRegularFileNoSymlink (t := t) hheld hsize s'
    rcases transfers_readRegularFileNoSymlink hheld hsize _ _ _ (exec_of_run hread) with
      ⟨-, e, he⟩ | ⟨-, _, hout, rfl⟩
    · cases he
    obtain rfl := Except.ok.inj hout
    refine ⟨tr, w₁, tr', w₂, ?_, hread⟩
    rw [run_eq_map_runOn, Schedule.choices, hwrite]
    rfl
  · rcases hwrites tr w₁ r hexec with hfails | ⟨hnone, u, hr, hheld⟩
    · exact .inl hfails
    · exact .inr ⟨hnone, u, hr, _, hheld⟩
  · exact transfers_readRegularFileNoSymlink h hsize tr w₂ r hexec

end

/-- The directory of a user is there, empty and open. -/
def openedWorld : World where
  rootLink := none
  root := some ⟨.directory, 0, 0, 0o755⟩
  sub dir := if dir = uidString 1000 then some ⟨.directory, 0, 0, 0o755⟩ else none
  entry _ _ := none
  inode _ := ⟨.regular, 0, 0, 0o644, [], none⟩
  nextIno := 0
  ofd fd := if fd = 3 then some ⟨.sub (uidString 1000), 0, 0⟩ else none
  nextFd := 4
  lock _ := none
  loaded _ _ := none
  running _ _ := none
  wellFormed := {
    sub_root := fun _ => rfl
    entry_dir := fun h => absurd rfl h
    entry_lt := fun h => by cases h
    ofd_lt := fun {fd} h => by
      by_cases hfd : fd = 3
      · rw [hfd]
        exact Nat.lt_succ_self 3
      · exact absurd (if_neg hfd) h
    target_lt := fun {fd o i} h htarget => by
      by_cases hfd : fd = 3
      · rw [← Option.some.inj ((if_pos hfd).symm.trans h)] at htarget
        cases htarget
      · cases (if_neg hfd).symm.trans h
    lock_ofd := fun h => by cases h
    linked_once := fun h => by cases h
    link_kind := fun h => by cases h }

/-- A temporary file, as `atomic_write_file` creates it. -/
theorem temporary_transfersExactly : ∃ w,
    TransfersExactly defaultKernel 0 "/etc/containers/systemd/users/1000/.web.container.tmp.7.0" 4
      webQuadlet.contents 1048576 w := by
  obtain ⟨w, hnew, -⟩ : ∃ w' : World, defaultKernel.machine.step 0 openedWorld
      (.openat 3 (cStr (temporaryName webQuadlet.fileName 7 0))
        { access := .wronly, creat := true, excl := true, mode := 0o644 }) .go =
      some (.ok 4, w') ∧ _ := World.exists_step rfl
  exact ⟨w, transfersExactly rfl rfl rfl (by decide +kernel) hnew (by decide +kernel)⟩

end PodInstaller
