/-
**Processes and pipes.**

The controllers that run `systemctl` start a process, read what it prints through a pipe, and wait
for it to exit.  This module says what the calls do that are made for this: `pipe2`,
`posix_spawnp` with its file actions, `close`, `read` and `waitpid`.

A process has a table of descriptors.  New descriptors get the lowest numbers that are free, up to
the limit of the process.  A process that is spawned gets a copy of the table, changed by the file
actions, without the descriptors that are closed on `exec`.  A pipe holds the bytes that were
written and not yet read; its end is read when it is empty and no process has a descriptor to write
to it any more.

Between two calls of the program the processes that it has spawned go on: they print, they exit,
and they go away, in any order.  What is printed counts for a process and all its descendants, which
may go on when the process itself has exited.

Main definitions:

* `PodInstaller.Descriptor`, `PodInstaller.DescriptorTable`, `PodInstaller.FileAction` —
  descriptors, and what happens to them when a process is spawned;
* `PodInstaller.Child`, `PodInstaller.ProcessState`, `PodInstaller.Processes` — the state;
* `PodInstaller.Proc`, `PodInstaller.Proc.Resp` — the calls and their answers;
* `PodInstaller.ChildMove`, `PodInstaller.ProcChoice` — what the environment chooses;
* `PodInstaller.ProcessState.step`, `PodInstaller.processMachine` — what a call does.

Main results:

* `PodInstaller.ProcessState.step_wellFormed` — the state stays well-formed;
* `PodInstaller.evolves_step` — what is known of a process stays so.
-/

import PodInstaller.Syscalls
import Mathlib.Logic.Function.Basic

set_option relaxedAutoImplicit false
set_option autoImplicit false

namespace PodInstaller

open Bytes

/-! ### Descriptors -/

/-- What a descriptor of a process refers to. -/
inductive FileRef
  | readEnd (pipe : ℕ)
  | writeEnd (pipe : ℕ)
  | file (i : ℕ)
  deriving DecidableEq

/-- The pipe that a descriptor leads to. -/
def FileRef.pipe : FileRef → Option ℕ
  | .readEnd p => some p
  | .writeEnd p => some p
  | .file _ => none

/-- A descriptor, with the flag that closes it on `exec`. -/
structure Descriptor where
  ref : FileRef
  cloexec : Bool := false
  deriving DecidableEq

/-- The descriptors of a process. -/
abbrev DescriptorTable := Fd → Option Descriptor

/-- `STDOUT_FILENO`. -/
def STDOUT_FILENO : Fd := 1

/-- What `posix_spawn_file_actions_adddup2` and `posix_spawn_file_actions_addclose` add. -/
inductive FileAction
  | dup2 (old new : Fd)
  | close (fd : Fd)
  deriving DecidableEq

namespace DescriptorTable

/-- One file action.  A copy is not closed on `exec`, also where a descriptor is copied to itself;
closing what is not open does nothing. -/
def act (limit : ℕ) (table : DescriptorTable) : FileAction → Option DescriptorTable
  | .dup2 old new =>
    if new < limit then
      (table old).map fun d => Function.update table new (some { d with cloexec := false })
    else none
  | .close fd => some (Function.update table fd none)

/-- The file actions, one after another. -/
def actAll (limit : ℕ) : List FileAction → DescriptorTable → Option DescriptorTable
  | [], table => some table
  | action :: actions, table => (act limit table action).bind (actAll limit actions)

/-- The descriptors that are left after `exec`. -/
def exec (table : DescriptorTable) : DescriptorTable := fun fd => (table fd).filter (!·.cloexec)

/-- A descriptor to write to a pipe. -/
def writes (limit : ℕ) (table : DescriptorTable) (p : ℕ) : Bool :=
  (List.range limit).any fun fd => (table fd).any fun d => d.ref == .writeEnd p

/-- The descriptors of a table are within the limit, and the pipes are there. -/
structure Fits (limit nextPipe : ℕ) (table : DescriptorTable) : Prop where
  bounded : ∀ {fd}, table fd ≠ none → fd < limit
  known : ∀ {fd d p}, table fd = some d → d.ref.pipe = some p → p < nextPipe

end DescriptorTable

/-! ### The state -/

/-- A process that was spawned: its words, the descriptors that it and its descendants have, what
they have printed, and how it has exited. -/
structure Child where
  argv : List Bytes
  table : DescriptorTable
  printed : Bytes := []
  /-- The process and its descendants are gone. -/
  ended : Bool := false
  status : Option ℕ := none
  reaped : Bool := false

/-- The state: the descriptors of the program and their limit, the pipes, and the processes that the
program has spawned.  A process is known by its place among them. -/
structure ProcessState where
  table : DescriptorTable
  limit : ℕ
  pipe : ℕ → Bytes
  nextPipe : ℕ
  children : List Child

namespace ProcessState

/-- All descriptors are within the limit and refer to pipes that are there. -/
structure WellFormed (s : ProcessState) : Prop where
  own : s.table.Fits s.limit s.nextPipe
  child : ∀ c ∈ s.children, c.table.Fits s.limit s.nextPipe

def setDescriptor (s : ProcessState) (fd : Fd) (d : Option Descriptor) : ProcessState :=
  { s with table := Function.update s.table fd d }

def setPipe (s : ProcessState) (p : ℕ) (bytes : Bytes) : ProcessState :=
  { s with pipe := Function.update s.pipe p bytes }

def modifyChild (s : ProcessState) (i : ℕ) (f : Child → Child) : ProcessState :=
  { s with children := s.children.modify i f }

/-- The lowest number that is free. -/
def lowest (s : ProcessState) : Option Fd :=
  (List.range s.limit).find? fun fd => (s.table fd).isNone

/-- Some process has a descriptor to write to a pipe. -/
def hasWriter (s : ProcessState) (p : ℕ) : Bool :=
  s.table.writes s.limit p || s.children.any fun c => c.table.writes s.limit p

/-- What is known of the processes that were spawned: their words, and whether they were waited
for. -/
def log (s : ProcessState) : List (List Bytes × Bool) :=
  s.children.map fun c => (c.argv, c.reaped)

end ProcessState

/-- A well-formed state. -/
structure Processes extends ProcessState where
  wellFormed : toProcessState.WellFormed

/-! ### The calls -/

/-- The calls that the controllers make. -/
inductive Proc
  | pipe2
  | spawn (file : Bytes) (argv : List Bytes) (actions : List FileAction)
  | close (fd : Fd)
  | read (fd : Fd) (count : ℕ)
  | waitpid (pid : ℕ)

/-- The answers: a value or an error number. -/
abbrev Proc.Resp : Proc → Type
  | .pipe2 => Except Errno (Fd × Fd)
  | .spawn _ _ _ => Except Errno ℕ
  | .close _ => Unit
  | .read _ _ => Except Errno Bytes
  | .waitpid _ => Except Errno ℕ

/-- What a process that was spawned does. -/
inductive ChildMove
  | print (i : ℕ) (data : Bytes)
  | exit (i : ℕ) (status : ℕ)
  | finish (i : ℕ)

/-- How a call goes: it does what it is there for, transfers some bytes, or fails. -/
inductive ProcAnswer
  | go
  | moved (n : ℕ)
  | fault (e : Errno)

/-- The choices of the environment: what the processes do before the call, and how the call goes. -/
structure ProcChoice where
  moves : List ChildMove := []
  answer : ProcAnswer

namespace ProcessState

/-- A process prints: what it prints arrives in the pipe that its standard output leads to, if it
leads to one. -/
def print (s : ProcessState) (i : ℕ) (data : Bytes) : ProcessState :=
  match s.children[i]? with
  | none => s
  | some c =>
    if c.ended = true then s
    else
      let s := s.modifyChild i fun c => { c with printed := c.printed ++ data }
      match c.table STDOUT_FILENO with
      | some ⟨.writeEnd p, _⟩ => s.setPipe p (s.pipe p ++ data)
      | _ => s

/-- A process exits, once. -/
def exit (s : ProcessState) (i : ℕ) (status : ℕ) : ProcessState :=
  s.modifyChild i fun c => { c with status := c.status.or (some status) }

/-- A process and its descendants are gone, and their descriptors with them. -/
def finish (s : ProcessState) (i : ℕ) : ProcessState :=
  s.modifyChild i fun c => { c with ended := true, table := fun _ => none }

/-- What a process does. -/
def move (s : ProcessState) : ChildMove → ProcessState
  | .print i data => s.print i data
  | .exit i status => s.exit i status
  | .finish i => s.finish i

def moveAll (s : ProcessState) (moves : List ChildMove) : ProcessState := moves.foldl move s

/-- `pipe2` with `O_CLOEXEC`. -/
def pipe2 (s : ProcessState) : Option ((Fd × Fd) × ProcessState) := do
  let r ← s.lowest
  let s₁ := s.setDescriptor r (some ⟨.readEnd s.nextPipe, true⟩)
  let w ← s₁.lowest
  let s₂ := s₁.setDescriptor w (some ⟨.writeEnd s.nextPipe, true⟩)
  return ((r, w), { s₂.setPipe s.nextPipe [] with nextPipe := s.nextPipe + 1 })

/-- `posix_spawnp`. -/
def spawn (s : ProcessState) (argv : List Bytes) (actions : List FileAction) :
    Option (ℕ × ProcessState) :=
  (DescriptorTable.actAll s.limit actions s.table).map fun table =>
    (s.children.length, { s with children := s.children ++ [{ argv, table := table.exec }] })

/-- `read` from a pipe. -/
def read (s : ProcessState) (fd : Fd) (count n : ℕ) : Option (Bytes × ProcessState) :=
  match s.table fd with
  | some ⟨.readEnd p, _⟩ =>
    if 0 < n ∧ n ≤ count ∧ n ≤ (s.pipe p).length then
      some ((s.pipe p).take n, s.setPipe p ((s.pipe p).drop n))
    else none
  | _ => none

/-- The end of a pipe. -/
def atEnd (s : ProcessState) (fd : Fd) : Bool :=
  match s.table fd with
  | some ⟨.readEnd p, _⟩ => (s.pipe p).isEmpty && !s.hasWriter p
  | _ => false

/-- `waitpid`: a process that has not exited yet has to be waited for. -/
def waitpid (s : ProcessState) (pid : ℕ) : Option (ℕ × ProcessState) := do
  let c ← s.children[pid]?
  let status ← c.status
  if c.reaped then none
  else return (status, s.modifyChild pid fun c => { c with reaped := true })

/-- A call that does what it is there for, or fails with an error number, which is not 0. -/
def orFault {α : Type} (s : ProcessState) (c : ProcAnswer) (go : Option (α × ProcessState)) :
    Option (Except Errno α × ProcessState) :=
  match c with
  | .go => go.map fun out => (.ok out.1, out.2)
  | .moved _ => none
  | .fault e => if e ≠ 0 then some (.error e, s) else none

/-- What a call does, once the processes have done what they do before it. -/
def answer (s : ProcessState) : (o : Proc) → ProcAnswer → Option (o.Resp × ProcessState)
  | .pipe2, c => s.orFault c s.pipe2
  | .spawn _ argv actions, c => s.orFault c (s.spawn argv actions)
  | .close fd, c => match c with
    | .go => some ((), s.setDescriptor fd none)
    | _ => none
  | .read fd count, c => match c with
    -- how much is read is up to the environment
    | .moved n => (s.read fd count n).map fun out => (.ok out.1, out.2)
    | c => s.orFault c (if s.atEnd fd then some ([], s) else none)
  | .waitpid pid, c => s.orFault c (s.waitpid pid)

/-- What a call does. -/
def step (s : ProcessState) (o : Proc) (c : ProcChoice) : Option (o.Resp × ProcessState) :=
  (s.moveAll c.moves).answer o c.answer

end ProcessState

/-! ### The state stays well-formed -/

section

variable {s s' : ProcessState} {limit n n' p i : ℕ} {table table' : DescriptorTable} {fd : Fd}
variable {f : Child → Child}

theorem DescriptorTable.Fits.mono (h : table.Fits limit n) (hn : n ≤ n') : table.Fits limit n' :=
  ⟨h.bounded, fun hd hp => (h.known hd hp).trans_le hn⟩

theorem DescriptorTable.Fits.none (limit n : ℕ) : Fits limit n fun _ => Option.none :=
  ⟨fun h => absurd rfl h, fun h => by cases h⟩

/-- A descriptor is opened or closed. -/
theorem DescriptorTable.Fits.update (h : table.Fits limit n) {d : Option Descriptor}
    (hfd : d ≠ .none → fd < limit)
    (hd : ∀ {d' p}, d = some d' → d'.ref.pipe = some p → p < n) :
    Fits limit n (Function.update table fd d) := by
  constructor
  · intro fd' hne
    by_cases hsame : fd' = fd
    · subst hsame
      rw [Function.update_self] at hne
      exact hfd hne
    · rw [Function.update_of_ne hsame] at hne
      exact h.bounded hne
  · intro fd' d' p hsome hp
    by_cases hsame : fd' = fd
    · subst hsame
      rw [Function.update_self] at hsome
      exact hd hsome hp
    · rw [Function.update_of_ne hsame] at hsome
      exact h.known hsome hp

theorem DescriptorTable.Fits.exec (h : table.Fits limit n) : table.exec.Fits limit n := by
  have hsome : ∀ {fd d}, table.exec fd = some d → table fd = some d := by
    intro fd d hd
    exact (Option.filter_eq_some_iff.1 hd).1
  constructor
  · intro fd hne
    obtain ⟨d, hd⟩ := Option.ne_none_iff_exists'.1 hne
    refine h.bounded ?_
    rw [hsome hd]
    exact Option.some_ne_none d
  · intro fd d p hd hp
    exact h.known (hsome hd) hp

theorem DescriptorTable.Fits.act (h : table.Fits limit n) {action : FileAction}
    (hact : act limit table action = some table') : table'.Fits limit n := by
  cases action with
  | dup2 old new =>
      simp only [DescriptorTable.act] at hact
      split at hact
      · rename_i hlt
        obtain ⟨d, hd, rfl⟩ := Option.map_eq_some_iff.1 hact
        refine h.update (fun _ => hlt) fun {d' p} hd' hp => ?_
        obtain rfl := Option.some.inj hd'
        exact h.known hd hp
      · cases hact
  | close fd =>
      obtain rfl := Option.some.inj hact
      exact h.update (fun hne => absurd rfl hne) fun hd => by cases hd

theorem DescriptorTable.Fits.actAll {actions : List FileAction} (h : table.Fits limit n)
    (hact : actAll limit actions table = some table') : table'.Fits limit n := by
  induction actions generalizing table with
  | nil =>
      obtain rfl := Option.some.inj hact
      exact h
  | cons action actions ih =>
      obtain ⟨table₁, h₁, hrest⟩ := Option.bind_eq_some_iff.1 hact
      exact ih (h.act h₁) hrest

namespace ProcessState

/-- The lowest number that is free is free, and the ones below are not. -/
theorem lowest_eq_some (h : s.lowest = some fd) :
    fd < s.limit ∧ s.table fd = none ∧ ∀ fd' < fd, s.table fd' ≠ none := by
  obtain ⟨hfree, l₁, l₂, hrange, hbelow⟩ := List.find?_eq_some_iff_append.1 h
  have hlen : l₁.length = fd := by
    have hget : (List.range s.limit)[l₁.length]? = some fd := by simp [hrange]
    have hlt : l₁.length < s.limit := by
      have := congrArg List.length hrange
      simp at this
      omega
    rw [List.getElem?_range hlt] at hget
    exact Option.some.inj hget
  have hmem : fd ∈ List.range s.limit := by
    rw [hrange]
    simp
  refine ⟨List.mem_range.1 hmem, by simpa using hfree, fun fd' hlt hnone => ?_⟩
  have hmem' : fd' ∈ l₁ := by
    have hget : (List.range s.limit)[fd']? = some fd' :=
      List.getElem?_range (hlt.trans (List.mem_range.1 hmem))
    rw [hrange, List.getElem?_append_left (hlen.symm ▸ hlt)] at hget
    exact List.mem_of_getElem? hget
  have := hbelow fd' hmem'
  rw [hnone] at this
  cases this

@[simp] theorem table_modifyChild : (s.modifyChild i f).table = s.table := rfl

@[simp] theorem table_setPipe {bytes : Bytes} : (s.setPipe p bytes).table = s.table := rfl

@[simp] theorem children_setDescriptor {d : Option Descriptor} :
    (s.setDescriptor fd d).children = s.children := rfl

@[simp] theorem children_setPipe {bytes : Bytes} :
    (s.setPipe p bytes).children = s.children := rfl

theorem getElem?_modifyChild (j : ℕ) : (s.modifyChild i f).children[j]? =
    (s.children[j]?).map fun c => if i = j then f c else c := by
  rw [modifyChild, List.getElem?_modify]
  cases s.children[j]? <;> rfl

theorem WellFormed.modifyChild (h : s.WellFormed)
    (hf : ∀ c, (f c).table = c.table ∨ (f c).table = fun _ => none) :
    (s.modifyChild i f).WellFormed := by
  refine ⟨h.own, fun c hc => ?_⟩
  obtain ⟨j, hj⟩ := List.mem_iff_getElem?.1 hc
  rw [getElem?_modifyChild] at hj
  obtain ⟨c₀, hc₀, rfl⟩ := Option.map_eq_some_iff.1 hj
  have hfits := h.child c₀ (List.mem_of_getElem? hc₀)
  split
  · rcases hf c₀ with hsame | hnone
    · rw [hsame]
      exact hfits
    · rw [hnone]
      exact .none _ _
  · exact hfits

theorem WellFormed.setPipe (h : s.WellFormed) (p : ℕ) (bytes : Bytes) :
    (s.setPipe p bytes).WellFormed := ⟨h.own, h.child⟩

theorem WellFormed.setDescriptor (h : s.WellFormed) {d : Option Descriptor}
    (hfd : d ≠ none → fd < s.limit)
    (hd : ∀ {d' p}, d = some d' → d'.ref.pipe = some p → p < s.nextPipe) :
    (s.setDescriptor fd d).WellFormed := ⟨h.own.update hfd hd, h.child⟩

theorem WellFormed.move (h : s.WellFormed) (m : ChildMove) : (s.move m).WellFormed := by
  cases m with
  | print i data =>
      have hprinted : (s.modifyChild i fun c =>
          { c with printed := c.printed ++ data }).WellFormed := h.modifyChild fun _ => .inl rfl
      simp only [ProcessState.move, print]
      split
      · exact h
      split
      · exact h
      split
      · exact hprinted.setPipe _ _
      · exact hprinted
  | exit i status => exact h.modifyChild fun _ => .inl rfl
  | finish i => exact h.modifyChild fun _ => .inr rfl

/-- What every move keeps is kept by any number of them. -/
theorem moveAll_induction {P : ProcessState → Prop} (hP : ∀ s m, P s → P (s.move m)) (h : P s)
    (moves : List ChildMove) : P (s.moveAll moves) := by
  induction moves generalizing s with
  | nil => exact h
  | cons m moves ih => exact ih (hP s m h)

theorem WellFormed.pipe2 (h : s.WellFormed) {ends : Fd × Fd}
    (hpipe : s.pipe2 = some (ends, s')) : s'.WellFormed := by
  simp only [ProcessState.pipe2, Option.bind_eq_bind, Option.bind_eq_some_iff, Option.pure_def,
    Option.some.injEq, Prod.mk.injEq] at hpipe
  obtain ⟨r, hr, w, hw, -, rfl⟩ := hpipe
  obtain ⟨hlt, -, -⟩ := lowest_eq_some hr
  obtain ⟨hlt', -, -⟩ := lowest_eq_some hw
  have hfits : s.table.Fits s.limit (s.nextPipe + 1) := h.own.mono (by omega)
  refine ⟨(hfits.update (fun _ => hlt) fun {d' p} hd' hp => ?_).update (fun _ => hlt')
    fun {d' p} hd' hp => ?_, fun c hc => (h.child c hc).mono (by exact Nat.le_succ _)⟩
  · obtain rfl := Option.some.inj hd'
    obtain rfl := Option.some.inj hp
    exact Nat.lt_succ_self _
  · obtain rfl := Option.some.inj hd'
    obtain rfl := Option.some.inj hp
    exact Nat.lt_succ_self _

theorem WellFormed.spawn (h : s.WellFormed) {argv : List Bytes} {actions : List FileAction}
    {pid : ℕ} (hspawn : s.spawn argv actions = some (pid, s')) : s'.WellFormed := by
  obtain ⟨table, hact, heq⟩ := Option.map_eq_some_iff.1 hspawn
  obtain ⟨-, rfl⟩ := Prod.mk.inj heq
  refine ⟨h.own, ?_⟩
  rw [List.forall_mem_append, List.forall_mem_singleton]
  exact ⟨h.child, (h.own.actAll hact).exec⟩

theorem WellFormed.read (h : s.WellFormed) {count m : ℕ} {bytes : Bytes}
    (hread : s.read fd count m = some (bytes, s')) : s'.WellFormed := by
  simp only [ProcessState.read] at hread
  split at hread
  · split at hread
    · obtain ⟨-, rfl⟩ := Prod.mk.inj (Option.some.inj hread)
      exact h.setPipe _ _
    · cases hread
  · cases hread

theorem WellFormed.waitpid (h : s.WellFormed) {pid status : ℕ}
    (hwait : s.waitpid pid = some (status, s')) : s'.WellFormed := by
  simp only [ProcessState.waitpid, Option.bind_eq_bind, Option.bind_eq_some_iff] at hwait
  obtain ⟨c, -, st, -, hrest⟩ := hwait
  split at hrest
  · cases hrest
  · obtain ⟨-, rfl⟩ := Prod.mk.inj (Option.some.inj hrest)
    exact h.modifyChild fun _ => .inl rfl

theorem orFault_eq_some {α : Type} {c : ProcAnswer} {go : Option (α × ProcessState)}
    {r : Except Errno α} : s.orFault c go = some (r, s') ↔
      (∃ e, e ≠ 0 ∧ c = .fault e ∧ r = .error e ∧ s' = s) ∨
        c = .go ∧ ∃ a, r = .ok a ∧ go = some (a, s') := by
  cases c with
  | go =>
      simp only [orFault, Option.map_eq_some_iff, Prod.mk.injEq, reduceCtorEq, false_and, and_false,
        exists_false, true_and, false_or]
      constructor
      · intro h
        obtain ⟨⟨a, s₁⟩, hgo, hr, rfl⟩ := h
        exact ⟨a, hr.symm, hgo⟩
      · intro h
        obtain ⟨a, rfl, hgo⟩ := h
        exact ⟨(a, s'), hgo, rfl, rfl⟩
  | moved n => simp [orFault]
  | fault e =>
      by_cases he : e = 0
      · simp [orFault, he]
      · simp only [orFault, if_pos he, Option.some.injEq, Prod.mk.injEq]
        constructor
        · intro h
          obtain ⟨rfl, rfl⟩ := h
          exact .inl ⟨e, he, rfl, rfl, rfl⟩
        · intro h
          rcases h with ⟨e', -, hc, rfl, rfl⟩ | ⟨hc, -⟩
          · obtain rfl := ProcAnswer.fault.inj hc
            exact ⟨rfl, rfl⟩
          · cases hc

/-- What is so of a state that a call of a kind leads to, whether or not the call fails. -/
theorem orFault_induction {α : Type} {P : ProcessState → Prop} {c : ProcAnswer}
    {go : Option (α × ProcessState)} {r : Except Errno α} (h : s.orFault c go = some (r, s'))
    (hs : P s) (hgo : ∀ a, go = some (a, s') → P s') : P s' := by
  rcases orFault_eq_some.1 h with ⟨e, -, -, -, rfl⟩ | ⟨-, a, -, heq⟩
  · exact hs
  · exact hgo a heq

/-- **Every call** leaves the state well-formed. -/
theorem step_wellFormed {o : Proc} {c : ProcChoice} {r : o.Resp} (h : s.WellFormed)
    (hstep : s.step o c = some (r, s')) : s'.WellFormed := by
  have hmoved : (s.moveAll c.moves).WellFormed :=
    moveAll_induction (P := WellFormed) (fun _ m h => h.move m) h c.moves
  rw [step] at hstep
  generalize s.moveAll c.moves = s₁ at hmoved hstep
  cases o with
  | pipe2 => exact orFault_induction hstep hmoved fun _ => hmoved.pipe2
  | spawn file argv actions => exact orFault_induction hstep hmoved fun _ => hmoved.spawn
  | close fd =>
      simp only [answer] at hstep
      split at hstep
      · obtain ⟨-, rfl⟩ := Prod.mk.inj (Option.some.inj hstep)
        exact hmoved.setDescriptor (fun hne => absurd rfl hne) fun hd => by cases hd
      · cases hstep
  | read fd count =>
      simp only [answer] at hstep
      split at hstep
      · obtain ⟨⟨bytes, s₂⟩, hout, heq⟩ := Option.map_eq_some_iff.1 hstep
        obtain ⟨-, rfl⟩ := Prod.mk.inj heq
        exact hmoved.read hout
      · refine orFault_induction hstep hmoved fun a hend => ?_
        split at hend
        · obtain ⟨-, rfl⟩ := Prod.mk.inj (Option.some.inj hend)
          exact hmoved
        · cases hend
  | waitpid pid => exact orFault_induction hstep hmoved fun _ => hmoved.waitpid

end ProcessState

end

/-- The processes, as a machine.  There is one program only. -/
def processMachine : Machine Proc.Resp Processes ProcChoice where
  step _ w o c :=
    match h : w.toProcessState.step o c with
    | none => none
    | some (r, s) => some (r, ⟨s, ProcessState.step_wellFormed w.wellFormed h⟩)

theorem processMachine_step {t : ℕ} {w w' : Processes} {o : Proc} {c : ProcChoice} {r : o.Resp} :
    processMachine.step t w o c = some (r, w') ↔
      w.toProcessState.step o c = some (r, w'.toProcessState) := by
  rw [processMachine]
  dsimp only
  split
  · rename_i hstep
    simp [hstep]
  · rename_i r₁ s hstep
    constructor
    · intro h
      obtain ⟨rfl, rfl⟩ := Prod.mk.inj (Option.some.inj h)
      exact hstep
    · intro h
      obtain ⟨rfl, rfl⟩ := Prod.mk.inj (Option.some.inj (hstep.symm.trans h))
      rfl

/-! ### What is known of a process stays so -/

/-- What is known of a process stays so: its words, that it has exited, that it was waited for, and,
once it is gone, what it has printed. -/
structure Child.Leads (c c' : Child) : Prop where
  argv : c'.argv = c.argv
  status : ∀ {st}, c.status = some st → c'.status = some st
  reaped : c.reaped = true → c'.reaped = true
  ended : c.ended = true → c'.ended = true ∧ c'.printed = c.printed

theorem Child.Leads.refl (c : Child) : c.Leads c := ⟨rfl, fun h => h, fun h => h, fun h => ⟨h, rfl⟩⟩

theorem Child.Leads.trans {c₁ c₂ c₃ : Child} (h : c₁.Leads c₂) (h' : c₂.Leads c₃) :
    c₁.Leads c₃ where
  argv := h'.argv.trans h.argv
  status hst := h'.status (h.status hst)
  reaped hr := h'.reaped (h.reaped hr)
  ended he := by
    obtain ⟨he₂, hp₂⟩ := h.ended he
    obtain ⟨he₃, hp₃⟩ := h'.ended he₂
    exact ⟨he₃, hp₃.trans hp₂⟩

/-- The processes of a state, later. -/
def Evolves (s s' : ProcessState) : Prop :=
  ∀ (i : ℕ) (c : Child), s.children[i]? = some c → ∃ c', s'.children[i]? = some c' ∧ c.Leads c'

section

variable {s s' : ProcessState} {i : ℕ} {f : Child → Child}

theorem Evolves.refl (s : ProcessState) : Evolves s s := fun _ _ h => ⟨_, h, .refl _⟩

theorem Evolves.trans {s₁ s₂ s₃ : ProcessState} (h : Evolves s₁ s₂) (h' : Evolves s₂ s₃) :
    Evolves s₁ s₃ := by
  intro i c hc
  obtain ⟨c₂, hc₂, hleads⟩ := h i c hc
  obtain ⟨c₃, hc₃, hleads'⟩ := h' i c₂ hc₂
  exact ⟨c₃, hc₃, hleads.trans hleads'⟩

theorem evolves_of_children (h : s'.children = s.children) : Evolves s s' := by
  intro i c hc
  exact ⟨c, h ▸ hc, .refl c⟩

theorem evolves_modifyChild (h : ∀ c, s.children[i]? = some c → c.Leads (f c)) :
    Evolves s (s.modifyChild i f) := by
  intro j c hc
  rw [ProcessState.getElem?_modifyChild, hc]
  by_cases hij : i = j
  · subst hij
    exact ⟨f c, by simp, h c hc⟩
  · exact ⟨c, by simp [hij], .refl c⟩

theorem evolves_move (s : ProcessState) (m : ChildMove) : Evolves s (s.move m) := by
  cases m with
  | print i data =>
      simp only [ProcessState.move, ProcessState.print]
      split
      · exact .refl s
      split
      · exact .refl s
      rename_i c hc hended
      have hprinted : Evolves s (s.modifyChild i fun c =>
          { c with printed := c.printed ++ data }) := by
        refine evolves_modifyChild fun c' hc' => ⟨rfl, id, id, fun h => ?_⟩
        obtain rfl := Option.some.inj (hc.symm.trans hc')
        exact absurd h hended
      split
      · exact hprinted.trans (evolves_of_children rfl)
      · exact hprinted
  | exit i status =>
      refine evolves_modifyChild fun c _ => ⟨rfl, fun h => ?_, id, fun h => ⟨h, rfl⟩⟩
      simp [h]
  | finish i =>
      exact evolves_modifyChild fun c _ => ⟨rfl, id, id, fun h => ⟨rfl, rfl⟩⟩

theorem evolves_moveAll (s : ProcessState) (moves : List ChildMove) :
    Evolves s (s.moveAll moves) :=
  ProcessState.moveAll_induction (P := Evolves s) (fun _ _ h => h.trans (evolves_move _ _))
    (.refl s) moves

/-- **A call** leaves what is known of the processes as it is. -/
theorem evolves_step {o : Proc} {c : ProcChoice} {r : o.Resp}
    (h : s.step o c = some (r, s')) : Evolves s s' := by
  refine (evolves_moveAll s c.moves).trans ?_
  rw [ProcessState.step] at h
  generalize s.moveAll c.moves = s₁ at h
  cases o with
  | pipe2 =>
      refine ProcessState.orFault_induction h (.refl s₁) fun a hpipe => ?_
      simp only [ProcessState.pipe2, Option.bind_eq_bind, Option.bind_eq_some_iff,
        Option.pure_def, Option.some.injEq, Prod.mk.injEq] at hpipe
      obtain ⟨r, -, w, -, -, rfl⟩ := hpipe
      exact evolves_of_children rfl
  | spawn file argv actions =>
      refine ProcessState.orFault_induction h (.refl s₁) fun a hspawn => ?_
      obtain ⟨table, -, heq⟩ := Option.map_eq_some_iff.1 hspawn
      obtain ⟨-, rfl⟩ := Prod.mk.inj heq
      intro i c hc
      have hlt : i < s₁.children.length := (List.getElem?_eq_some_iff.1 hc).1
      exact ⟨c, (List.getElem?_append_left hlt).trans hc, .refl c⟩
  | close fd =>
      simp only [ProcessState.answer] at h
      split at h
      · obtain ⟨-, rfl⟩ := Prod.mk.inj (Option.some.inj h)
        exact evolves_of_children rfl
      · cases h
  | read fd count =>
      simp only [ProcessState.answer] at h
      split at h
      · obtain ⟨⟨bytes, s₂⟩, hread, heq⟩ := Option.map_eq_some_iff.1 h
        obtain ⟨-, rfl⟩ := Prod.mk.inj heq
        simp only [ProcessState.read] at hread
        split at hread
        · split at hread
          · obtain ⟨-, rfl⟩ := Prod.mk.inj (Option.some.inj hread)
            exact evolves_of_children rfl
          · cases hread
        · cases hread
      · refine ProcessState.orFault_induction h (.refl s₁) fun a hend => ?_
        split at hend
        · obtain ⟨-, rfl⟩ := Prod.mk.inj (Option.some.inj hend)
          exact .refl _
        · cases hend
  | waitpid pid =>
      refine ProcessState.orFault_induction h (.refl s₁) fun a hwait => ?_
      simp only [ProcessState.waitpid, Option.bind_eq_bind, Option.bind_eq_some_iff] at hwait
      obtain ⟨c, -, st, -, hrest⟩ := hwait
      split at hrest
      · cases hrest
      · obtain ⟨-, rfl⟩ := Prod.mk.inj (Option.some.inj hrest)
        exact evolves_modifyChild fun c _ => ⟨rfl, id, fun _ => rfl, fun h => ⟨h, rfl⟩⟩

end

end PodInstaller
