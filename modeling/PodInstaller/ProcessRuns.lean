/-
**Running a process.**

`run_process` spawns a process and waits for it; `run_process_capture` also reads what the process
prints.  The output comes through a pipe, in pieces of any size and with any number of interruptions
in between, while the process goes on.  What is read is what was printed: the pipe ends only when
the process and its descendants are gone.

This rests on the descriptors.  The standard output of the process has to be the writing end of the
pipe, and the two ends themselves are closed in it.  If the program has no standard output when the
pipe is made, one of the ends gets its number, and closing that end leaves the process without a
standard output: then nothing is read, whatever the process prints.

The number of reads of a run has no bound in the source.  Here there is one, and a program whose
bound is used up does not return; what is proved holds for every bound.

Main definitions:

* `PodInstaller.waitForChild`, `PodInstaller.runProcess`, `PodInstaller.runProcessCapture` — the
  functions;
* `PodInstaller.Moved` — what happens between two calls;
* `PodInstaller.Piped` — what was printed is what was read and what is in the pipe;
* `PodInstaller.Ran`, `PodInstaller.CapturedOutput` — how the functions end.

Main results:

* `PodInstaller.ensures_readOutput` — the output is read to its end;
* `PodInstaller.ensures_runProcess`, `PodInstaller.ensures_runProcessCapture`,
  `PodInstaller.runProcessCapture_ran` — **how a process is run**, in every run.
-/

import PodInstaller.Processes
import PodInstaller.FallibleCalls

set_option relaxedAutoImplicit false
set_option autoImplicit false

namespace PodInstaller

open Bytes

/-! ### The functions -/

/-- A program that makes calls about processes and returns a `Result`. -/
abbrev ProcAction (α : Type) := ExceptT Error (Prog Proc.Resp) α

/-- A single call. -/
def proc (o : Proc) : Prog Proc.Resp o.Resp := Prog.perform o

/-- A single call, made again as long as it is interrupted. -/
def procUntil (o : Proc) (again : o.Resp → Bool) : Prog Proc.Resp o.Resp :=
  Prog.performUntil o again

/-- `WIFEXITED(status) && WEXITSTATUS(status) == 0`. -/
def exitedWell (status : ℕ) : Bool := status &&& 0x7f == 0 && (status &&& 0xff00) >>> 8 == 0

/-- The error of a call that failed. -/
def procError (what : Bytes) (e : Errno) : Error :=
  makeError .systemd (what ++ strerror e) 0 e

/-- The error of `posix_spawnp`. -/
def spawnError (file : Bytes) (e : Errno) : Error :=
  procError (ofString "posix_spawnp failed for '" ++ file ++ ofString "': ") e

/-- `wait_for_child`. -/
def waitForChild (pid : ℕ) : ProcAction ℕ :=
  orFail (procUntil (.waitpid pid) interrupted)
    (procError "waitpid failed for systemctl: ")

/-- `posix_spawnp` with the words of a command line. -/
def spawnWords (file : Bytes) (args : List Bytes) (actions : List FileAction) :
    Prog Proc.Resp (Except Errno ℕ) :=
  proc (.spawn (cStr file) (args.map cStr) actions)

/-- `run_process`. -/
def runProcess : List Bytes → ProcAction Unit
  | [] => throw (makeError .systemd "no process arguments supplied")
  | file :: args => do
    let pid ← orFail (spawnWords file (file :: args) []) (spawnError file)
    let status ← waitForChild pid
    if exitedWell status then return ()
    else throw (makeError .systemd (ofString "systemctl exited with status " ++ decimal status))

/-- Reading the output to its end, with at most so many reads. -/
def readOutput (fd : Fd) : ℕ → Bytes → Prog Proc.Resp (Except Errno Bytes)
  | 0, _ => .call (.read fd 4096) (fun _ => true) .ret
  | reads + 1, output => do
    let r ← procUntil (.read fd 4096) interrupted
    match r with
    | .error e => return .error e
    | .ok bytes => if bytes = [] then return .ok output else readOutput fd reads (output ++ bytes)

/-- `run_process_capture`. -/
def runProcessCapture (reads : ℕ) : List Bytes → ProcAction Bytes
  | [] => throw (makeError .systemd "no process arguments supplied")
  | file :: args => do
    let ends ← orFail (proc .pipe2) (procError "pipe2 failed: ")
    let spawned ← ExceptT.lift (spawnWords file (file :: args)
      [.dup2 ends.2 STDOUT_FILENO, .close ends.1, .close ends.2])
    ExceptT.lift (proc (.close ends.2))
    match spawned with
    | .error e => do
      ExceptT.lift (proc (.close ends.1))
      throw (spawnError file e)
    | .ok pid => do
      let captured ← ExceptT.lift (readOutput ends.1 reads [])
      ExceptT.lift (proc (.close ends.1))
      match captured with
      | .error e => throw (procError "read failed for systemctl output: " e)
      | .ok output => do
        let status ← waitForChild pid
        if exitedWell status then return output
        else throw (makeError .systemd (ofString "systemctl exited with status " ++
          decimal status ++ ofString " output: " ++ output))

/-! ### Between two calls -/

/-- What the processes can do between two calls. -/
def Moved (s s' : ProcessState) : Prop := ∃ moves, s' = s.moveAll moves

section

variable {s s' s₁ s₂ : ProcessState} {t : ℕ} {w w' : Processes}

theorem Moved.refl (s : ProcessState) : Moved s s := ⟨[], rfl⟩

theorem Moved.induction {P : ProcessState → Prop} (h : Moved s s')
    (hP : ∀ s m, P s → P (s.move m)) (hs : P s) : P s' := by
  obtain ⟨moves, rfl⟩ := h
  exact ProcessState.moveAll_induction (P := P) hP hs moves

theorem log_modifyChild {i : ℕ} {f : Child → Child}
    (hf : ∀ c, (f c).argv = c.argv ∧ (f c).reaped = c.reaped) :
    (s.modifyChild i f).log = s.log := by
  refine List.ext_getElem? fun j => ?_
  rw [ProcessState.log, ProcessState.log, List.getElem?_map, List.getElem?_map,
    ProcessState.getElem?_modifyChild, Option.map_map]
  cases s.children[j]? with
  | none => rfl
  | some c =>
      simp only [Option.map_some, Function.comp_apply]
      split <;> simp [hf]

/-- What the processes do leaves the program and its pipes alone, and the log. -/
structure Kept (s s' : ProcessState) : Prop where
  table : s'.table = s.table
  limit : s'.limit = s.limit
  nextPipe : s'.nextPipe = s.nextPipe
  log : s'.log = s.log

theorem Kept.trans (h : Kept s s₁) (h' : Kept s₁ s₂) : Kept s s₂ :=
  ⟨h'.table.trans h.table, h'.limit.trans h.limit, h'.nextPipe.trans h.nextPipe,
    h'.log.trans h.log⟩

theorem kept_modifyChild {i : ℕ} {f : Child → Child}
    (hf : ∀ c, (f c).argv = c.argv ∧ (f c).reaped = c.reaped) : Kept s (s.modifyChild i f) :=
  ⟨rfl, rfl, rfl, log_modifyChild hf⟩

theorem kept_move (s : ProcessState) (m : ChildMove) : Kept s (s.move m) := by
  cases m with
  | print i data =>
      have hprinted : Kept s (s.modifyChild i fun c => { c with printed := c.printed ++ data }) :=
        kept_modifyChild fun _ => ⟨rfl, rfl⟩
      simp only [ProcessState.move, ProcessState.print]
      split
      · exact ⟨rfl, rfl, rfl, rfl⟩
      split
      · exact ⟨rfl, rfl, rfl, rfl⟩
      split
      · exact hprinted.trans ⟨rfl, rfl, rfl, rfl⟩
      · exact hprinted
  | exit i status => exact kept_modifyChild fun _ => ⟨rfl, rfl⟩
  | finish i => exact kept_modifyChild fun _ => ⟨rfl, rfl⟩

theorem Moved.kept (h : Moved s s') : Kept s s' :=
  h.induction (P := Kept s) (fun _ _ hk => hk.trans (kept_move _ _)) ⟨rfl, rfl, rfl, rfl⟩

theorem Moved.evolves (h : Moved s s') : Evolves s s' := by
  obtain ⟨moves, rfl⟩ := h
  exact evolves_moveAll s moves

theorem Moved.wellFormed (h : Moved s s') (hs : s.WellFormed) : s'.WellFormed :=
  h.induction (P := ProcessState.WellFormed) (fun _ m h => h.move m) hs

theorem length_children_eq (h : s'.log = s.log) : s'.children.length = s.children.length := by
  have hlen := congrArg List.length h
  simpa [ProcessState.log] using hlen

/-! ### What the calls do -/

/-- A single call, whatever the environment chooses. -/
theorem ensures_perform {o : Proc} {Q : o.Resp → Processes → Prop}
    (h : ∀ s₁ a r (w' : Processes), Moved w.toProcessState s₁ →
      s₁.answer o a = some (r, w'.toProcessState) →
      Evolves w.toProcessState w'.toProcessState → Q r w') :
    Ensures processMachine t (proc o) Q w :=
  delivers_perform fun c _ _ hstep _ => h _ c.answer _ _ ⟨c.moves, rfl⟩
    (processMachine_step.1 hstep) (evolves_step (processMachine_step.1 hstep))

theorem answer_spawn {file : Bytes} {argv : List Bytes} {actions : List FileAction} {a : ProcAnswer}
    {r : Except Errno ℕ} (h : s.answer (.spawn file argv actions) a = some (r, s')) :
    (∃ e, e ≠ 0 ∧ r = .error e ∧ s' = s) ∨
      ∃ table, DescriptorTable.actAll s.limit actions s.table = some table ∧
        r = .ok s.children.length ∧
        s' = { s with children := s.children ++ [{ argv := argv, table := table.exec }] } := by
  rcases ProcessState.orFault_eq_some.1 h with ⟨e, he, -, hr, hs⟩ | ⟨-, pid, rfl, hspawn⟩
  · exact .inl ⟨e, he, hr, hs⟩
  · obtain ⟨table, hact, heq⟩ := Option.map_eq_some_iff.1 hspawn
    obtain ⟨rfl, rfl⟩ := Prod.mk.inj heq
    exact .inr ⟨table, hact, rfl, rfl⟩

theorem answer_close {fd : Fd} {a : ProcAnswer} {u : Unit}
    (h : s.answer (.close fd) a = some (u, s')) : s' = s.setDescriptor fd none := by
  cases a with
  | go => exact (Prod.mk.inj (Option.some.inj h)).2.symm
  | moved n => cases h
  | fault e => cases h

theorem answer_waitpid {pid : ℕ} {a : ProcAnswer} {r : Except Errno ℕ}
    (h : s.answer (.waitpid pid) a = some (r, s')) :
    (∃ e, e ≠ 0 ∧ r = .error e ∧ s' = s) ∨
      ∃ c status, s.children[pid]? = some c ∧ c.status = some status ∧ c.reaped = false ∧
        r = .ok status ∧ s' = s.modifyChild pid fun c => { c with reaped := true } := by
  rcases ProcessState.orFault_eq_some.1 h with ⟨e, he, -, hr, hs⟩ | ⟨-, status, rfl, hwait⟩
  · exact .inl ⟨e, he, hr, hs⟩
  · simp only [ProcessState.waitpid, Option.bind_eq_bind, Option.bind_eq_some_iff] at hwait
    obtain ⟨c, hc, st, hst, hrest⟩ := hwait
    split at hrest
    · cases hrest
    · rename_i hreaped
      obtain ⟨rfl, rfl⟩ := Prod.mk.inj (Option.some.inj hrest)
      exact .inr ⟨c, st, hc, hst, by simpa using hreaped, rfl, rfl⟩

theorem answer_read {fd : Fd} {count p : ℕ} {flag : Bool} {a : ProcAnswer} {r : Except Errno Bytes}
    (hfd : s.table fd = some ⟨.readEnd p, flag⟩)
    (h : s.answer (.read fd count) a = some (r, s')) :
    (∃ e, e ≠ 0 ∧ r = .error e ∧ s' = s) ∨
      (r = .ok [] ∧ s' = s ∧ s.pipe p = [] ∧ s.hasWriter p = false) ∨
      ∃ n, 0 < n ∧ n ≤ (s.pipe p).length ∧ r = .ok ((s.pipe p).take n) ∧
        s' = s.setPipe p ((s.pipe p).drop n) := by
  have hend : ∀ {a}, s.orFault a (if s.atEnd fd then some ([], s) else none) = some (r, s') →
      (∃ e, e ≠ 0 ∧ r = .error e ∧ s' = s) ∨
        (r = .ok [] ∧ s' = s ∧ s.pipe p = [] ∧ s.hasWriter p = false) := by
    intro a h
    rcases ProcessState.orFault_eq_some.1 h with ⟨e, he, -, hr, hs⟩ | ⟨-, bytes, rfl, hgo⟩
    · exact .inl ⟨e, he, hr, hs⟩
    · split at hgo
      · rename_i hat
        obtain ⟨rfl, rfl⟩ := Prod.mk.inj (Option.some.inj hgo)
        rw [ProcessState.atEnd, hfd] at hat
        simpa using hat
      · cases hgo
  simp only [ProcessState.answer] at h
  split at h
  · rename_i n
    obtain ⟨⟨bytes, s₂⟩, hread, heq⟩ := Option.map_eq_some_iff.1 h
    obtain ⟨rfl, rfl⟩ := Prod.mk.inj heq
    simp only [ProcessState.read, hfd] at hread
    split at hread
    · rename_i hn
      obtain ⟨rfl, rfl⟩ := Prod.mk.inj (Option.some.inj hread)
      exact .inr (.inr ⟨n, hn.1, hn.2.2, rfl, rfl⟩)
    · cases hread
  · rcases hend h with h | h
    · exact .inl h
    · exact .inr (.inl h)

/-! ### The output -/

/-- The only process that can write to a pipe is the one at the place `n`, and it prints into it, as
long as it is there: what it has printed is what was read and what is in the pipe.  Where the
process has no standard output nobody can write to the pipe, and nothing is in it. -/
structure Piped (connected : Bool) (n p : ℕ) (got : Bytes) (s : ProcessState) : Prop where
  others : ∀ (j : ℕ) (c : Child), s.children[j]? = some c → (connected = true → j ≠ n) →
    ∀ fd d, c.table fd = some d → d.ref ≠ .writeEnd p
  mine : connected = true → ∃ c, s.children[n]? = some c ∧
    (c.ended = true ∨ ∃ flag, c.table STDOUT_FILENO = some ⟨.writeEnd p, flag⟩) ∧
    c.printed = got ++ s.pipe p
  silent : connected = false → got = [] ∧ s.pipe p = []

section

variable {connected : Bool} {n p : ℕ} {got : Bytes} {i : ℕ} {f : Child → Child}

/-- A process may end, and nothing else that matters for the pipe changes. -/
theorem Piped.modifyChild (h : Piped connected n p got s)
    (hf : ∀ c, (f c).printed = c.printed ∧
      ((f c).table = c.table ∧ (f c).ended = c.ended ∨
        (f c).table = (fun _ => none) ∧ (f c).ended = true)) :
    Piped connected n p got (s.modifyChild i f) := by
  refine ⟨fun j c hc hne fd d hd => ?_, fun hconnected => ?_, fun hsilent => h.silent hsilent⟩
  · rw [ProcessState.getElem?_modifyChild] at hc
    obtain ⟨c₀, hc₀, rfl⟩ := Option.map_eq_some_iff.1 hc
    split at hd
    · rcases (hf c₀).2 with ⟨htable, -⟩ | ⟨htable, -⟩
      · rw [htable] at hd
        exact h.others j c₀ hc₀ hne fd d hd
      · rw [htable] at hd
        cases hd
    · exact h.others j c₀ hc₀ hne fd d hd
  · obtain ⟨c, hc, hopen, hprinted⟩ := h.mine hconnected
    rw [ProcessState.getElem?_modifyChild, hc, Option.map_some]
    refine ⟨_, rfl, ?_, ?_⟩
    · split
      · rcases (hf c).2 with ⟨htable, hended⟩ | ⟨-, hended⟩
        · rw [htable, hended]
          exact hopen
        · exact .inl hended
      · exact hopen
    · split
      · rw [(hf c).1]
        exact hprinted
      · exact hprinted

/-- What a process prints goes where its standard output leads to. -/
theorem Piped.print (h : Piped connected n p got s) (i : ℕ) (data : Bytes) :
    Piped connected n p got (s.print i data) := by
  simp only [ProcessState.print]
  split
  · exact h
  split
  · exact h
  rename_i c hc hended
  -- the process that prints is the one of the pipe, or has nothing to do with it
  by_cases hmine : connected = true ∧ i = n
  · obtain ⟨hconnected, rfl⟩ := hmine
    obtain ⟨c', hc', hopen, hprinted⟩ := h.mine hconnected
    obtain rfl := Option.some.inj (hc.symm.trans hc')
    obtain ⟨flag, hout⟩ := hopen.resolve_left hended
    rw [hout]
    refine ⟨fun j c' hj hne fd d hd => ?_, fun _ => ?_, fun hfalse => ?_⟩
    · rw [ProcessState.children_setPipe, ProcessState.getElem?_modifyChild] at hj
      obtain ⟨c₀, hc₀, rfl⟩ := Option.map_eq_some_iff.1 hj
      rw [if_neg (Ne.symm (hne hconnected))] at hd
      exact h.others j c₀ hc₀ hne fd d hd
    · rw [ProcessState.children_setPipe, ProcessState.getElem?_modifyChild, hc, Option.map_some,
        if_pos rfl]
      refine ⟨_, rfl, .inr ⟨flag, hout⟩, ?_⟩
      simp [ProcessState.setPipe, ProcessState.modifyChild, hprinted]
    · rw [hconnected] at hfalse
      cases hfalse
  · have hne : connected = true → i ≠ n := fun hconnected heq => hmine ⟨hconnected, heq⟩
    have hother : Piped connected n p got
        (s.modifyChild i fun c => { c with printed := c.printed ++ data }) := by
      refine ⟨fun j c' hj hj' fd d hd => ?_, fun hconnected => ?_, h.silent⟩
      · rw [ProcessState.getElem?_modifyChild] at hj
        obtain ⟨c₀, hc₀, rfl⟩ := Option.map_eq_some_iff.1 hj
        split at hd
        · exact h.others j c₀ hc₀ hj' fd d hd
        · exact h.others j c₀ hc₀ hj' fd d hd
      · obtain ⟨c', hc', hrest⟩ := h.mine hconnected
        rw [ProcessState.getElem?_modifyChild, hc', Option.map_some, if_neg (hne hconnected)]
        exact ⟨c', rfl, hrest⟩
    split
    · rename_i q flag hout
      have hpq : p ≠ q := by
        intro heq
        subst heq
        exact h.others i c hc hne _ _ hout rfl
      have hpipe : ∀ bytes, ((s.modifyChild i fun c =>
          { c with printed := c.printed ++ data }).setPipe q bytes).pipe p = s.pipe p :=
        fun bytes => Function.update_of_ne hpq _ _
      refine ⟨hother.others, fun hconnected => ?_, fun hfalse => ?_⟩
      · rw [hpipe]
        exact hother.mine hconnected
      · rw [hpipe]
        exact h.silent hfalse
    · exact hother

theorem Piped.move (h : Piped connected n p got s) (m : ChildMove) :
    Piped connected n p got (s.move m) := by
  cases m with
  | print i data => exact h.print i data
  | exit i status => exact h.modifyChild fun _ => ⟨rfl, .inl ⟨rfl, rfl⟩⟩
  | finish i => exact h.modifyChild fun _ => ⟨rfl, .inr ⟨rfl, rfl⟩⟩

theorem Piped.moved (h : Piped connected n p got s) (hmoved : Moved s s') :
    Piped connected n p got s' :=
  hmoved.induction (P := Piped connected n p got) (fun _ m hp => hp.move m) h

/-- What is read is in the output from then on. -/
theorem Piped.read (h : Piped connected n p got s) {k : ℕ} (hk : 0 < k)
    (hle : k ≤ (s.pipe p).length) :
    Piped connected n p (got ++ (s.pipe p).take k) (s.setPipe p ((s.pipe p).drop k)) := by
  refine ⟨h.others, fun hconnected => ?_, fun hfalse => ?_⟩
  · obtain ⟨c, hc, hopen, hprinted⟩ := h.mine hconnected
    refine ⟨c, hc, hopen, ?_⟩
    simp [ProcessState.setPipe, hprinted]
  · -- nothing can be read from a pipe into which nobody writes
    rw [(h.silent hfalse).2, List.length_nil] at hle
    omega

/-- What was read in the end, of a process that had a standard output or not. -/
def Output (connected : Bool) (n : ℕ) (output : Bytes) (s : ProcessState) : Prop :=
  if connected = true then ∃ c, s.children[n]? = some c ∧ c.ended = true ∧ c.printed = output
  else output = []

theorem Output.evolves {output : Bytes} (h : Output connected n output s) (hs : Evolves s s') :
    Output connected n output s' := by
  unfold Output at h ⊢
  split
  · rename_i hconnected
    rw [if_pos hconnected] at h
    obtain ⟨c, hc, hended, hprinted⟩ := h
    obtain ⟨c', hc', hleads⟩ := hs n c hc
    obtain ⟨hended', hprinted'⟩ := hleads.ended hended
    exact ⟨c', hc', hended', hprinted'.trans hprinted⟩
  · rename_i hconnected
    rwa [if_neg hconnected] at h

/-- **The end of a pipe**: all that was printed was read. -/
theorem Piped.output (h : Piped connected n p got s) (hs : s.WellFormed) (hempty : s.pipe p = [])
    (hwriter : s.hasWriter p = false) : Output connected n got s := by
  unfold Output
  split
  · rename_i hconnected
    obtain ⟨c, hc, hopen, hprinted⟩ := h.mine hconnected
    refine ⟨c, hc, hopen.resolve_right fun hout => ?_, by rw [hprinted, hempty, List.append_nil]⟩
    obtain ⟨flag, hout⟩ := hout
    have hmem := List.mem_of_getElem? hc
    have hlt : STDOUT_FILENO < s.limit := (hs.child c hmem).bounded (by rw [hout]; simp)
    rw [ProcessState.hasWriter, Bool.or_eq_false_iff, List.any_eq_false] at hwriter
    refine hwriter.2 c hmem ?_
    rw [DescriptorTable.writes, List.any_eq_true]
    exact ⟨STDOUT_FILENO, List.mem_range.2 hlt, by simp [hout]⟩
  · rename_i hconnected
    exact (h.silent (by simpa using hconnected)).1

/-! ### Reading it -/

/-- While the output is read: the program has what it had, and the pipe is in order. -/
structure Reading (s₀ : ProcessState) (connected : Bool) (n p : ℕ) (got : Bytes)
    (s : ProcessState) : Prop where
  kept : Kept s₀ s
  evolves : Evolves s₀ s
  piped : Piped connected n p got s

theorem Reading.moved {s₀ : ProcessState} (h : Reading s₀ connected n p got s)
    (hmoved : Moved s s') : Reading s₀ connected n p got s' :=
  ⟨h.kept.trans hmoved.kept, h.evolves.trans hmoved.evolves, h.piped.moved hmoved⟩

/-- How the reading ends. -/
def ReadToEnd (s₀ : ProcessState) (connected : Bool) (n : ℕ) :
    Except Errno Bytes → ProcessState → Prop
  | .ok output, s => Kept s₀ s ∧ Evolves s₀ s ∧ Output connected n output s
  | .error e, s => Kept s₀ s ∧ Evolves s₀ s ∧ e ≠ 0

/-- What one read delivers: a piece of the output, or its end. -/
def ReadOne (s₀ : ProcessState) (connected : Bool) (n p : ℕ) (got : Bytes) :
    Except Errno Bytes → ProcessState → Prop
  | .error e, s => ReadToEnd s₀ connected n (.error e) s
  | .ok bytes, s =>
    if bytes = [] then ReadToEnd s₀ connected n (.ok got) s
    else Reading s₀ connected n p (got ++ bytes) s

/-- **One read**, after any number of interruptions. -/
theorem ensures_readOne {s₀ : ProcessState} {fd : Fd} {flag : Bool} {count : ℕ}
    (hfd : s₀.table fd = some ⟨.readEnd p, flag⟩)
    (h : Reading s₀ connected n p got w.toProcessState) :
    Ensures processMachine t (procUntil (.read fd count) interrupted)
      (fun r w' => ReadOne s₀ connected n p got r w'.toProcessState) w := by
  refine ensures_performUntil (I := fun w => Reading s₀ connected n p got w.toProcessState) h
    (fun w c r w' hw hstep hagain => ?_) fun w c r w' hw hstep _ => ?_
  · have hmoved : Moved w.toProcessState (w.moveAll c.moves) := ⟨_, rfl⟩
    have hreading := hw.moved hmoved
    rcases answer_read (hreading.kept.table ▸ hfd) (processMachine_step.1 hstep) with
      ⟨e, -, -, hs⟩ | ⟨rfl, -⟩ | ⟨k, -, -, rfl, -⟩
    · rw [hs]
      exact hreading
    · cases hagain
    · cases hagain
  · have hmoved : Moved w.toProcessState (w.moveAll c.moves) := ⟨_, rfl⟩
    have hreading := hw.moved hmoved
    rcases answer_read (hreading.kept.table ▸ hfd) (processMachine_step.1 hstep) with
      ⟨e, he, rfl, hs⟩ | ⟨rfl, hs, hempty, hwriter⟩ | ⟨k, hk, hle, rfl, hs⟩
    · rw [hs]
      exact ⟨hreading.kept, hreading.evolves, he⟩
    · rw [hs, ReadOne, if_pos rfl]
      exact ⟨hreading.kept, hreading.evolves,
        hreading.piped.output (hmoved.wellFormed w.wellFormed) hempty hwriter⟩
    · rw [hs, ReadOne, if_neg]
      · exact ⟨hreading.kept.trans ⟨rfl, rfl, rfl, rfl⟩,
          hreading.evolves.trans (evolves_of_children rfl), hreading.piped.read hk hle⟩
      · intro hnil
        have hlen := congrArg List.length hnil
        rw [List.length_take, List.length_nil] at hlen
        omega

/-- **The output is read to its end.** -/
theorem ensures_readOutput {s₀ : ProcessState} {fd : Fd} {flag : Bool}
    (hfd : s₀.table fd = some ⟨.readEnd p, flag⟩) (reads : ℕ)
    (h : Reading s₀ connected n p got w.toProcessState) :
    Ensures processMachine t (readOutput fd reads got)
      (fun r w' => ReadToEnd s₀ connected n r w'.toProcessState) w := by
  induction reads generalizing got w with
  | zero => exact ensures_forever
  | succ reads ih =>
      rw [readOutput]
      refine Delivers.bind (ensures_readOne hfd h) fun r w hr => ?_
      cases r with
      | error e => exact delivers_ret hr
      | ok bytes =>
          rw [ReadOne] at hr
          by_cases hnil : bytes = []
          · rw [if_pos hnil] at hr
            simp only [hnil, if_true]
            exact delivers_ret hr
          · rw [if_neg hnil] at hr
            simp only [if_neg hnil]
            exact ih hr

/-! ### Waiting -/

/-- What has become of a process that was waited for, with the log from before it was spawned. -/
def Waited (s : ProcessState) (log : List (List Bytes × Bool)) (argv : List Bytes) :
    Result ℕ → ProcessState → Prop
  | .ok status, s' => s'.table = s.table ∧ Evolves s s' ∧ s'.log = log ++ [(argv, true)] ∧
      ∃ c, s'.children[log.length]? = some c ∧ c.status = some status
  | .error e, s' => s'.table = s.table ∧ Evolves s s' ∧ s'.log = log ++ [(argv, false)] ∧
      e.osErrno ≠ 0

theorem log_reap (s : ProcessState) (i : ℕ) :
    (s.modifyChild i fun c => { c with reaped := true }).log =
      s.log.modify i fun entry => (entry.1, true) := by
  refine List.ext_getElem? fun j => ?_
  rw [ProcessState.log, ProcessState.log, List.getElem?_map, List.getElem?_modify,
    List.getElem?_map, ProcessState.getElem?_modifyChild, Option.map_map]
  cases s.children[j]? with
  | none => rfl
  | some c => by_cases hij : i = j <;> simp [hij]

theorem modify_append_singleton {α : Type} (l : List α) (a : α) (f : α → α) :
    (l ++ [a]).modify l.length f = l ++ [f a] := by
  induction l with
  | nil => rfl
  | cons b l ih => exact congrArg (b :: ·) ih

/-- **A process that was spawned last** is waited for. -/
theorem ensures_waitForChild {log : List (List Bytes × Bool)} {argv : List Bytes}
    (hlog : w.log = log ++ [(argv, false)]) :
    Ensures processMachine t (waitForChild log.length).run
      (fun r w' => Waited w.toProcessState log argv r w'.toProcessState) w := by
  -- while it is waited for, the processes go on
  let I (w' : Processes) : Prop :=
    Kept w.toProcessState w'.toProcessState ∧ Evolves w.toProcessState w'.toProcessState
  have hI : ∀ {w' : Processes} {s₁ : ProcessState}, I w' → Moved w'.toProcessState s₁ →
      Kept w.toProcessState s₁ ∧ Evolves w.toProcessState s₁ := fun h hmoved =>
    ⟨h.1.trans hmoved.kept, h.2.trans hmoved.evolves⟩
  refine ensures_orFail (P := fun r w' => match r with
    | .ok status => Waited w.toProcessState log argv (.ok status) w'.toProcessState
    | .error e => I w' ∧ e ≠ 0) ?_ (fun status w' h => h) fun e w' h => ?_
  · refine ensures_performUntil (I := I) ⟨⟨rfl, rfl, rfl, rfl⟩, .refl _⟩
      (fun w' c r w'' hw hstep hagain => ?_) fun w' c r w'' hw hstep _ => ?_
    · have hmoved := hI hw ⟨c.moves, rfl⟩
      rcases answer_waitpid (processMachine_step.1 hstep) with
        ⟨e, -, -, hs⟩ | ⟨c', status, -, -, -, rfl, -⟩
      · change Kept _ w''.toProcessState ∧ Evolves _ w''.toProcessState
        rw [hs]
        exact hmoved
      · cases hagain
    · have hmoved := hI hw ⟨c.moves, rfl⟩
      rcases answer_waitpid (processMachine_step.1 hstep) with
        ⟨e, he, rfl, hs⟩ | ⟨c', status, hc, hstatus, -, rfl, hs⟩
      · change (Kept _ w''.toProcessState ∧ Evolves _ w''.toProcessState) ∧ e ≠ 0
        rw [hs]
        exact ⟨hmoved, he⟩
      · change Waited _ log argv (.ok status) w''.toProcessState
        rw [hs]
        refine ⟨hmoved.1.table, hmoved.2.trans (evolves_modifyChild fun c _ =>
          ⟨rfl, id, fun _ => rfl, fun h => ⟨h, rfl⟩⟩), ?_, ?_⟩
        · rw [log_reap, hmoved.1.log, hlog, modify_append_singleton]
        · rw [ProcessState.getElem?_modifyChild, hc]
          exact ⟨_, rfl, by simpa using hstatus⟩
  · obtain ⟨⟨hkept, hevolves⟩, he⟩ := h
    exact ⟨hkept.table, hevolves, hkept.log.trans hlog, he⟩

end

/-! ### Running a process -/

/-- How a function ends that runs a process: `out` is what is promised of its result. -/
inductive Ran {α : Type} (s : ProcessState) (args : List Bytes) (out : α → Child → Prop) :
    Result α → ProcessState → Prop
  /-- No process was spawned. -/
  | notStarted {e : Error} {s' : ProcessState} (table : s'.table = s.table)
      (evolves : Evolves s s') (log : s'.log = s.log) : Ran s args out (.error e) s'
  /-- A call failed after the process was spawned, and it was not waited for. -/
  | lost {e : Error} {s' : ProcessState} (table : s'.table = s.table) (evolves : Evolves s s')
      (log : s'.log = s.log ++ [(args.map cStr, false)]) (errno : e.osErrno ≠ 0) :
      Ran s args out (.error e) s'
  /-- The process has not exited well. -/
  | failed {e : Error} {s' : ProcessState} {c : Child} {status : ℕ} (table : s'.table = s.table)
      (evolves : Evolves s s') (log : s'.log = s.log ++ [(args.map cStr, true)])
      (child : s'.children[s.children.length]? = some c) (exited : c.status = some status)
      (ill : exitedWell status = false) (errno : e.osErrno = 0) : Ran s args out (.error e) s'
  | ok {a : α} {s' : ProcessState} {c : Child} {status : ℕ} (table : s'.table = s.table)
      (evolves : Evolves s s') (log : s'.log = s.log ++ [(args.map cStr, true)])
      (child : s'.children[s.children.length]? = some c) (exited : c.status = some status)
      (well : exitedWell status = true) (result : out a c) : Ran s args out (.ok a) s'

theorem log_spawned (s : ProcessState) (argv : List Bytes) (table : DescriptorTable) :
    ProcessState.log { s with children := s.children ++ [{ argv := argv, table := table }] } =
      s.log ++ [(argv, false)] := by
  simp [ProcessState.log]

theorem length_log (s : ProcessState) : s.log.length = s.children.length := by
  simp [ProcessState.log]

/-- **What follows on a process that was spawned**: it is waited for, and its status decides. -/
theorem ensures_waited {α : Type} {s : ProcessState} {args : List Bytes} {out : α → Child → Prop}
    {a : α} {error : ℕ → Error} (hlog : w.log = s.log ++ [(args.map cStr, false)])
    (htable : w.table = s.table) (hevolves : Evolves s w.toProcessState)
    (herror : ∀ status, (error status).osErrno = 0)
    (hout : ∀ s' c, Evolves w.toProcessState s' → s'.children[s.children.length]? = some c →
      out a c) :
    Ensures processMachine t (do
      let status ← waitForChild s.children.length
      if exitedWell status then return a else throw (error status) : ProcAction α).run
      (fun r w' => Ran s args out r w'.toProcessState) w := by
  rw [← length_log]
  refine Ensures.exceptTBind (ensures_waitForChild hlog) (fun status w' h => ?_) fun e w' h => ?_
  · obtain ⟨htable', hevolves', hlog', c, hc, hstatus⟩ := h
    rw [length_log] at hc
    cases hwell : exitedWell status with
    | true =>
        exact delivers_ret (.ok (htable'.trans htable) (hevolves.trans hevolves') hlog' hc hstatus
          hwell (hout _ c hevolves' hc))
    | false =>
        exact delivers_ret (.failed (htable'.trans htable) (hevolves.trans hevolves') hlog' hc
          hstatus hwell (herror status))
  · obtain ⟨htable', hevolves', hlog', herrno⟩ := h
    exact .lost (htable'.trans htable) (hevolves.trans hevolves') hlog' herrno

/-- **`run_process`**, in every run. -/
theorem ensures_runProcess (args : List Bytes) :
    Ensures processMachine t (runProcess args).run (fun r w' =>
      Ran w.toProcessState args (fun _ _ => True) r w'.toProcessState) w := by
  cases args with
  | nil => exact delivers_ret (.notStarted rfl (.refl _) rfl)
  | cons file args =>
      rw [runProcess]
      refine Ensures.orFailBind (P := fun r w' => w'.table = w.table ∧
          Evolves w.toProcessState w'.toProcessState ∧
          ((∃ e, r = .error e ∧ w'.log = w.log) ∨ r = .ok w.children.length ∧
            w'.log = w.log ++ [((file :: args).map cStr, false)])) ?_ ?_ ?_
      · refine ensures_perform fun s₁ a r w' hmoved hanswer hevolves => ?_
        have hkept := hmoved.kept
        rcases answer_spawn hanswer with ⟨e, -, rfl, hs⟩ | ⟨table, hact, rfl, hs⟩
        · rw [hs]
          exact ⟨hkept.table, hmoved.evolves, .inl ⟨e, rfl, hkept.log⟩⟩
        · rw [hs] at hevolves ⊢
          refine ⟨hkept.table, hevolves, .inr ⟨by rw [length_children_eq hkept.log], ?_⟩⟩
          rw [log_spawned, hkept.log]
      · intro pid w' h
        obtain ⟨htable, hevolves, ⟨e, he, -⟩ | ⟨hpid, hlog⟩⟩ := h
        · cases he
        · obtain rfl := Except.ok.inj hpid
          exact ensures_waited hlog htable hevolves (fun _ => rfl) fun _ _ _ _ => trivial
      · intro e w' h
        obtain ⟨htable, hevolves, ⟨e', he, hlog⟩ | ⟨hpid, -⟩⟩ := h
        · exact .notStarted htable hevolves hlog
        · cases hpid

/-! ### Reading what a process prints -/

/-- A pipe that was made: its ends have the lowest numbers that were free, nobody else can write to
it, and nothing is in it. -/
structure PipeMade (s : ProcessState) (ends : Fd × Fd) (p : ℕ) (s' : ProcessState) : Prop where
  table : s'.table = Function.update (Function.update s.table ends.1 (some ⟨.readEnd p, true⟩))
    ends.2 (some ⟨.writeEnd p, true⟩)
  reading : s.table ends.1 = none
  writing : s.table ends.2 = none
  ne : ends.1 ≠ ends.2
  /-- One of the ends is the standard output if the program has none. -/
  stdout : s.table STDOUT_FILENO = none → ends.1 = STDOUT_FILENO ∨ ends.2 = STDOUT_FILENO
  fresh : ∀ fd d, s.table fd = some d → d.ref ≠ .writeEnd p
  piped : Piped false 0 p [] s'
  log : s'.log = s.log
  evolves : Evolves s s'

/-- How `pipe2` ends. -/
def PipeEnded (s : ProcessState) : Except Errno (Fd × Fd) → ProcessState → Prop
  | .ok ends, s' => ∃ p, PipeMade s ends p s'
  | .error _, s' => s'.table = s.table ∧ Evolves s s' ∧ s'.log = s.log

theorem fresh_of_wellFormed {table : DescriptorTable} {limit n : ℕ} (h : table.Fits limit n)
    {fd : Fd} {d : Descriptor} (hd : table fd = some d) : d.ref ≠ .writeEnd n := by
  intro heq
  have := h.known hd (p := n) (by rw [heq]; rfl)
  omega

/-- **Making a pipe.** -/
theorem ensures_pipe2 : Ensures processMachine t (proc .pipe2)
    (fun r w' => PipeEnded w.toProcessState r w'.toProcessState) w := by
  refine ensures_perform fun s₁ a r w' hmoved hanswer hevolves => ?_
  have hkept := hmoved.kept
  have hwell := hmoved.wellFormed w.wellFormed
  rcases ProcessState.orFault_eq_some.1 hanswer with ⟨e, -, -, rfl, hs⟩ | ⟨-, ends, rfl, hpipe⟩
  · rw [hs] at hevolves ⊢
    exact ⟨hkept.table, hevolves, hkept.log⟩
  · simp only [ProcessState.pipe2, Option.bind_eq_bind, Option.bind_eq_some_iff,
      Option.pure_def, Option.some.injEq, Prod.mk.injEq] at hpipe
    obtain ⟨r, hr, v, hv, rfl, hs⟩ := hpipe
    obtain ⟨-, hfree, hbelow⟩ := ProcessState.lowest_eq_some hr
    obtain ⟨-, hfree', hbelow'⟩ := ProcessState.lowest_eq_some hv
    have hother : ∀ {fd}, fd ≠ r →
        (s₁.setDescriptor r (some ⟨.readEnd s₁.nextPipe, true⟩)).table fd = s₁.table fd :=
      fun hne => Function.update_of_ne hne _ _
    have hne : r ≠ v := by
      intro heq
      subst heq
      simp [ProcessState.setDescriptor] at hfree'
    rw [← hs] at hevolves ⊢
    refine ⟨s₁.nextPipe, ?_, ?_, ?_, hne, fun hout => ?_, fun fd d hd => ?_, ⟨?_, ?_, ?_⟩, ?_,
      hevolves⟩
    · simp [ProcessState.setDescriptor, hkept.table]
    · rw [← hkept.table]
      exact hfree
    · rw [← hkept.table, ← hother (Ne.symm hne)]
      exact hfree'
    · -- both numbers are the lowest ones, and the standard output is free
      rw [← hkept.table] at hout
      by_contra hnot
      rw [not_or] at hnot
      obtain ⟨hr₁, hv₁⟩ := hnot
      have h₁ : ¬ (1 : ℕ) < r := fun hlt => hbelow _ hlt hout
      have h₂ : ¬ (1 : ℕ) < v := fun hlt => hbelow' _ hlt ((hother (Ne.symm hr₁)).trans hout)
      have hr₀ : r = 0 := Nat.lt_one_iff.1 (Nat.lt_of_le_of_ne (Nat.le_of_not_lt h₁) hr₁)
      have hv₀ : v = 0 := Nat.lt_one_iff.1 (Nat.lt_of_le_of_ne (Nat.le_of_not_lt h₂) hv₁)
      exact hne (hr₀.trans hv₀.symm)
    · rw [← hkept.table] at hd
      exact fresh_of_wellFormed hwell.own hd
    · intro j c hc _ fd d hd
      exact fresh_of_wellFormed (hwell.child c (List.mem_of_getElem? hc)) hd
    · intro hfalse
      cases hfalse
    · exact fun _ => ⟨rfl, Function.update_self _ _ _⟩
    · exact hkept.log

/-- The descriptors of a process that prints into a pipe, when it starts. -/
def spawnedTable (table : DescriptorTable) (ends : Fd × Fd) (p : ℕ) : DescriptorTable :=
  DescriptorTable.exec (Function.update (Function.update
    (Function.update table STDOUT_FILENO (some ⟨.writeEnd p, false⟩)) ends.1 none) ends.2 none)

theorem actAll_eq_some {limit : ℕ} {table table' : DescriptorTable} {ends : Fd × Fd} {p : ℕ}
    (hwriting : table ends.2 = some ⟨.writeEnd p, true⟩)
    (h : DescriptorTable.actAll limit
      [.dup2 ends.2 STDOUT_FILENO, .close ends.1, .close ends.2] table = some table') :
    table'.exec = spawnedTable table ends p := by
  simp only [DescriptorTable.actAll, DescriptorTable.act, hwriting, Option.map_some] at h
  split at h
  · obtain rfl := Option.some.inj h
    rfl
  · cases h

/-- **The process prints into the pipe** exactly if the program has a standard output. -/
theorem PipeMade.spawned {s s₁ s₂ : ProcessState} {ends : Fd × Fd} {p : ℕ}
    (h : PipeMade s ends p s₁) (hpiped : Piped false 0 p [] s₂) {argv : List Bytes} :
    Piped (s.table STDOUT_FILENO).isSome s₂.children.length p []
      { s₂ with children := s₂.children ++
          [{ argv := argv, table := spawnedTable s₁.table ends p }] } := by
  have hlast : ∀ {j : ℕ} {c : Child}, (s₂.children ++
      [{ argv := argv, table := spawnedTable s₁.table ends p }])[j]? = some c →
      s₂.children[j]? = some c ∨ j = s₂.children.length ∧
        c = { argv := argv, table := spawnedTable s₁.table ends p } := by
    intro j c hc
    by_cases hlt : j < s₂.children.length
    · rw [List.getElem?_append_left hlt] at hc
      exact .inl hc
    · rw [List.getElem?_append_right (by omega)] at hc
      obtain ⟨hj, hc⟩ := List.getElem?_eq_some_iff.1 hc
      rw [List.length_singleton] at hj
      rw [List.getElem_singleton] at hc
      exact .inr ⟨by omega, hc.symm⟩
  refine ⟨fun j c hc hne fd d hd => ?_, fun hconnected => ?_, fun _ => ⟨rfl, (hpiped.silent rfl).2⟩⟩
  · rcases hlast hc with hold | ⟨hj, rfl⟩
    · exact hpiped.others j c hold (fun hfalse => by cases hfalse) fd d hd
    · -- without a standard output the process has no end of the pipe
      have hnone : s.table STDOUT_FILENO = none := by
        by_contra hsome
        exact hne (Option.isSome_iff_ne_none.2 hsome) hj
      obtain ⟨hd, -⟩ := Option.filter_eq_some_iff.1 hd
      by_cases h₂ : fd = ends.2
      · rw [h₂, Function.update_self] at hd
        cases hd
      rw [Function.update_of_ne h₂] at hd
      by_cases h₁ : fd = ends.1
      · rw [h₁, Function.update_self] at hd
        cases hd
      rw [Function.update_of_ne h₁] at hd
      have hout : fd ≠ STDOUT_FILENO := by
        intro heq
        rcases h.stdout hnone with hends | hends
        · exact h₁ (heq.trans hends.symm)
        · exact h₂ (heq.trans hends.symm)
      rw [Function.update_of_ne hout, h.table, Function.update_of_ne h₂,
        Function.update_of_ne h₁] at hd
      exact h.fresh fd d hd
  · have hsome : s.table STDOUT_FILENO ≠ none := Option.isSome_iff_ne_none.1 hconnected
    have h₁ : STDOUT_FILENO ≠ ends.1 := fun heq => hsome (heq ▸ h.reading)
    have h₂ : STDOUT_FILENO ≠ ends.2 := fun heq => hsome (heq ▸ h.writing)
    refine ⟨{ argv := argv, table := spawnedTable s₁.table ends p }, ?_, .inr ⟨false, ?_⟩, ?_⟩
    · rw [List.getElem?_append_right le_rfl, Nat.sub_self]
      rfl
    · simp [spawnedTable, DescriptorTable.exec, h₁, h₂]
    · exact (hpiped.silent rfl).2.symm

/-- What is promised of the output of a process: it is what the process has printed, if the program
has a standard output itself, and otherwise nothing. -/
def CapturedOutput (s : ProcessState) (output : Bytes) (c : Child) : Prop :=
  if s.table STDOUT_FILENO ≠ none then c.ended = true ∧ c.printed = output else output = []

theorem Output.captured {s s' : ProcessState} {n : ℕ} {output : Bytes} {c : Child}
    (h : Output (s.table STDOUT_FILENO).isSome n output s') (hc : s'.children[n]? = some c) :
    CapturedOutput s output c := by
  unfold Output at h
  unfold CapturedOutput
  by_cases hsome : s.table STDOUT_FILENO = none
  · rw [if_neg (not_not.2 hsome)]
    simpa [hsome] using h
  · rw [if_pos hsome]
    rw [if_pos (Option.isSome_iff_ne_none.2 hsome)] at h
    obtain ⟨c', hc', hended, hprinted⟩ := h
    obtain rfl := Option.some.inj (hc.symm.trans hc')
    exact ⟨hended, hprinted⟩

/-- Closing a descriptor. -/
theorem ensures_close (fd : Fd) : Ensures processMachine t (proc (.close fd)) (fun _ w' =>
    ∃ s₁, Moved w.toProcessState s₁ ∧ w'.toProcessState = s₁.setDescriptor fd none) w :=
  ensures_perform fun s₁ _ _ _ hmoved hanswer _ => ⟨s₁, hmoved, answer_close hanswer⟩

/-- Closing both ends gives the table back. -/
theorem PipeMade.closed {s s₁ : ProcessState} {ends : Fd × Fd} {p : ℕ}
    (h : PipeMade s ends p s₁) :
    Function.update (Function.update s₁.table ends.2 none) ends.1 none = s.table := by
  funext fd
  by_cases h₁ : fd = ends.1
  · rw [h₁, Function.update_self, h.reading]
  rw [Function.update_of_ne h₁]
  by_cases h₂ : fd = ends.2
  · rw [h₂, Function.update_self, h.writing]
  rw [Function.update_of_ne h₂, h.table, Function.update_of_ne h₂, Function.update_of_ne h₁]

/-- What follows when the pipe is made and the process is spawned. -/
theorem ensures_capture {s s₁ : ProcessState} {ends : Fd × Fd} {p reads : ℕ}
    (hmade : PipeMade s ends p s₁) {args : List Bytes}
    (htable : w.table = Function.update s₁.table ends.2 none)
    (hlog : w.log = s.log ++ [(args.map cStr, false)]) (hevolves : Evolves s w.toProcessState)
    (hpiped : Piped (s.table STDOUT_FILENO).isSome s.children.length p [] w.toProcessState) :
    Ensures processMachine t (do
      let captured ← ExceptT.lift (readOutput ends.1 reads [])
      ExceptT.lift (proc (.close ends.1))
      match captured with
      | .error e => throw (procError "read failed for systemctl output: " e)
      | .ok output => do
        let status ← waitForChild s.children.length
        if exitedWell status then return output
        else throw (makeError .systemd (ofString "systemctl exited with status " ++
          decimal status ++ ofString " output: " ++ output)) : ProcAction Bytes).run
      (fun r w' => Ran s args (CapturedOutput s) r w'.toProcessState) w := by
  have hreading : w.table ends.1 = some ⟨.readEnd p, true⟩ := by
    rw [htable, Function.update_of_ne hmade.ne, hmade.table, Function.update_of_ne hmade.ne,
      Function.update_self]
  have hclosed : ∀ {s₂ : ProcessState}, s₂.table = w.table →
      (s₂.setDescriptor ends.1 none).table = s.table := by
    intro s₂ hs₂
    rw [ProcessState.setDescriptor, hs₂, htable, hmade.closed]
  refine Ensures.liftBind (ensures_readOutput hreading reads
    ⟨⟨rfl, rfl, rfl, rfl⟩, .refl _, hpiped⟩) fun captured w₁ hread => ?_
  refine Ensures.liftBind (ensures_close _) fun _ w₂ hw₂ => ?_
  obtain ⟨s₂, hmoved, hs₂⟩ := hw₂
  have hevolves₂ : Evolves w₁.toProcessState w₂.toProcessState := by
    rw [hs₂]
    exact hmoved.evolves.trans (evolves_of_children rfl)
  cases captured with
  | error e =>
      obtain ⟨hkept, hevolves₁, he⟩ := hread
      refine delivers_ret (.lost ?_ (hevolves.trans (hevolves₁.trans hevolves₂)) ?_ he)
      · rw [hs₂]
        exact hclosed (hmoved.kept.table.trans hkept.table)
      · rw [hs₂]
        exact hmoved.kept.log.trans (hkept.log.trans hlog)
  | ok output =>
      obtain ⟨hkept, hevolves₁, houtput⟩ := hread
      refine ensures_waited ?_ ?_ (hevolves.trans (hevolves₁.trans hevolves₂)) (fun _ => rfl)
        fun s' c hs' hc => (houtput.evolves (hevolves₂.trans hs')).captured hc
      · rw [hs₂]
        exact hmoved.kept.log.trans (hkept.log.trans hlog)
      · rw [hs₂]
        exact hclosed (hmoved.kept.table.trans hkept.table)

/-- **`run_process_capture`**, in every run. -/
theorem ensures_runProcessCapture (reads : ℕ) (args : List Bytes) :
    Ensures processMachine t (runProcessCapture reads args).run (fun r w' =>
      Ran w.toProcessState args (CapturedOutput w.toProcessState) r w'.toProcessState) w := by
  cases args with
  | nil => exact delivers_ret (.notStarted rfl (.refl _) rfl)
  | cons file args =>
      rw [runProcessCapture]
      refine Ensures.orFailBind ensures_pipe2 (fun ends w₁ h => ?_) fun e w₁ h =>
        .notStarted h.1 h.2.1 h.2.2
      obtain ⟨p, hmade⟩ := h
      have hwriting : w₁.table ends.2 = some ⟨.writeEnd p, true⟩ := by
        rw [hmade.table, Function.update_self]
      -- the process is spawned, or it is not
      refine Ensures.liftBind (P := fun r w₂ => w₂.table = w₁.table ∧
          Evolves w₁.toProcessState w₂.toProcessState ∧
          ((∃ e, r = .error e ∧ w₂.log = w₁.log) ∨ r = .ok w.children.length ∧
            w₂.log = w₁.log ++ [((file :: args).map cStr, false)] ∧
            Piped (w.table STDOUT_FILENO).isSome w.children.length p [] w₂.toProcessState)) ?_ ?_
      · refine ensures_perform fun s₁ a r w₂ hmoved hanswer hevolves => ?_
        have hkept := hmoved.kept
        rcases answer_spawn hanswer with ⟨e, -, rfl, hs⟩ | ⟨table, hact, rfl, hs⟩
        · rw [hs]
          exact ⟨hkept.table, hmoved.evolves, .inl ⟨e, rfl, hkept.log⟩⟩
        · have hlen : s₁.children.length = w.children.length :=
            length_children_eq (hkept.log.trans hmade.log)
          have hexec : table.exec = spawnedTable w₁.table ends p := by
            rw [hkept.table] at hact
            exact actAll_eq_some hwriting hact
          rw [hs] at hevolves ⊢
          refine ⟨hkept.table, hevolves, .inr ⟨by rw [hlen], ?_, ?_⟩⟩
          · rw [log_spawned, hkept.log]
          · rw [hexec, ← hlen]
            exact hmade.spawned (hmade.piped.moved hmoved)
      intro spawned w₂ h₂
      obtain ⟨htable₂, hevolves₂, hspawned⟩ := h₂
      refine Ensures.liftBind (ensures_close _) fun _ w₃ hw₃ => ?_
      obtain ⟨s₃, hmoved, hs₃⟩ := hw₃
      have hevolves₃ : Evolves w₂.toProcessState w₃.toProcessState := by
        rw [hs₃]
        exact hmoved.evolves.trans (evolves_of_children rfl)
      have htable₃ : w₃.table = Function.update w₁.table ends.2 none := by
        rw [hs₃, ProcessState.setDescriptor, hmoved.kept.table, htable₂]
      have hlog₃ : w₃.log = w₂.log := by
        rw [hs₃]
        exact hmoved.kept.log
      have hall := hmade.evolves.trans (hevolves₂.trans hevolves₃)
      rcases hspawned with ⟨e, rfl, hlog₂⟩ | ⟨rfl, hlog₂, hpiped⟩
      · refine Ensures.liftBind (ensures_close _) fun _ w₄ hw₄ => ?_
        obtain ⟨s₄, hmoved₄, hs₄⟩ := hw₄
        refine delivers_ret (.notStarted ?_ ?_ ?_)
        · rw [hs₄, ProcessState.setDescriptor, hmoved₄.kept.table, htable₃, hmade.closed]
        · rw [hs₄]
          exact hall.trans (hmoved₄.evolves.trans (evolves_of_children rfl))
        · rw [hs₄]
          exact hmoved₄.kept.log.trans (hlog₃.trans (hlog₂.trans hmade.log))
      · refine ensures_capture hmade htable₃ ?_ hall ?_
        · rw [hlog₃, hlog₂, hmade.log]
        · rw [hs₃]
          have hpiped₃ := hpiped.moved hmoved
          exact ⟨hpiped₃.others, hpiped₃.mine, hpiped₃.silent⟩

/-- **How `run_process_capture` ends.**  Its descriptors are what they were, and it has spawned the
process with these words or none.  It succeeds only if the process was waited for and has exited
well, and then its output is what the process and its descendants have printed. -/
theorem runProcessCapture_ran {reads : ℕ} {args : List Bytes} {r : Result Bytes}
    {tr : List (Event Proc.Resp Processes ProcChoice)}
    (h : Exec processMachine t w (runProcessCapture reads args).run tr w' r) :
    Ran w.toProcessState args (CapturedOutput w.toProcessState) r w'.toProcessState :=
  (ensures_runProcessCapture reads args).exec h

end

/-! ### A process that prints in pieces -/

/-- A program with a standard input, output and error. -/
def plainProcesses : Processes where
  table := fun fd => if fd < 3 then some ⟨.file fd, false⟩ else none
  limit := 16
  pipe := fun _ => []
  nextPipe := 0
  children := []
  wellFormed := by
    refine ⟨⟨?_, ?_⟩, fun c hc => by cases hc⟩
    · intro fd hfd
      by_contra hlt
      exact hfd (if_neg fun h => hlt (Nat.lt_trans h (by decide)))
    · intro fd d p hd hp
      dsimp only at hd
      split at hd
      · obtain rfl := Option.some.inj hd
        cases hp
      · cases hd

/-- The process prints twice; the first read is interrupted, and the others get less than there
is. -/
theorem runProcessCapture_in_pieces : ∃ tr w' output,
    Exec processMachine 0 plainProcesses (runProcessCapture 4 ["systemctl", "show"]).run tr w'
      (.ok output) ∧ output = "ActiveState=active" ∧
    Ran plainProcesses.toProcessState ["systemctl", "show"]
      (CapturedOutput plainProcesses.toProcessState) (.ok output) w'.toProcessState := by
  have hrun : (run processMachine 0
      [⟨[], .go⟩, ⟨[], .go⟩, ⟨[], .go⟩, ⟨[], .fault EINTR⟩,
        ⟨[.print 0 "ActiveState="], .moved 7⟩, ⟨[.print 0 "active", .exit 0 0], .moved 11⟩,
        ⟨[.finish 0], .go⟩, ⟨[], .go⟩, ⟨[], .go⟩]
      plainProcesses (runProcessCapture 4 ["systemctl", "show"]).run).any
      (fun out => out.2.2.toOption == some (ofString "ActiveState=active")) = true := by
    decide +kernel
  obtain ⟨tr, w', r, h, hr⟩ := exists_exec_of_run hrun
  cases r with
  | error e => simp [Except.toOption] at hr
  | ok output =>
      have houtput : output = "ActiveState=active" := by simpa [Except.toOption] using hr
      exact ⟨tr, w', output, h, houtput, runProcessCapture_ran h⟩

end PodInstaller
