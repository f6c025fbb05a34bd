/-
**Programs that call on an environment.**

A program is a tree: it either returns, or makes a call to its environment and goes on with the
answer.  A call may be marked to be made again for certain answers — the shape of a loop around an
interrupted system call.  What a call does is said by a machine: given who calls, the state of the
world and the choices the environment makes, it delivers the answer and the next state.  This
module defines the runs of a single program and how they split along the sequencing of programs.
Nothing here mentions any particular program or machine.

Main definitions:

* `Prog`, `Prog.perform`, `Prog.performUntil` — programs and single calls;
* `Machine`, `Event` — machines, and what is recorded of a call;
* `Prog.Calls`, `Prog.Until`, `Prog.Ends` — what a program can call, at all and up to a certain
  call, and how it can end;
* `Exec`, `run`, `runOn` — the runs of a program on its own, as a relation and as functions of the
  environment's choices;
* `Begun`, `proceed` — the runs that have come so far;
* `Delivers`, `Succeeds` — programs whose runs end well as long as their calls do.

Main results:

* `exec_bind` — a run of a sequence is a run of the first part followed by a run of the second;
* `exec_exceptT_bind` — the same for programs that can fail;
* `begun_invariant`, `exec_invariant` — what every call keeps is so all along a run;
* `exec_of_run`, `run_bind` — what the function computes is a run, and how it splits.
-/

import Mathlib.Tactic.Common

set_option relaxedAutoImplicit false
set_option autoImplicit false

/-- A program that makes calls `o : Op`, answered by `Resp o`, and returns an `α`.  A call is made
again as long as its answer satisfies `again`. -/
inductive Prog {Op : Type} (Resp : Op → Type) (α : Type) : Type
  | ret (a : α) : Prog Resp α
  | call (o : Op) (again : Resp o → Bool) (next : Resp o → Prog Resp α) : Prog Resp α

namespace Prog

variable {Op : Type} {Resp : Op → Type} {α β ε : Type}

/-- Going on with `f` where a program returns. -/
protected def bind : Prog Resp α → (α → Prog Resp β) → Prog Resp β
  | .ret a, f => f a
  | .call o again next, f => .call o again fun r => (next r).bind f

instance : Monad (Prog Resp) where
  pure := .ret
  bind := Prog.bind

/-- A single call. -/
def perform (o : Op) : Prog Resp (Resp o) := .call o (fun _ => false) .ret

/-- A single call, made again until its answer is one to go on with. -/
def performUntil (o : Op) (again : Resp o → Bool) : Prog Resp (Resp o) := .call o again .ret

@[simp] theorem ret_bind (a : α) (f : α → Prog Resp β) : (Prog.ret a >>= f) = f a := rfl

@[simp] theorem pure_eq (a : α) : (pure a : Prog Resp α) = .ret a := rfl

@[simp] theorem call_bind (o : Op) (again : Resp o → Bool) (next : Resp o → Prog Resp α)
    (f : α → Prog Resp β) :
    (Prog.call o again next >>= f) = .call o again fun r => next r >>= f := rfl

theorem bind_assoc {γ : Type} (p : Prog Resp α) (f : α → Prog Resp β) (g : β → Prog Resp γ) :
    (p >>= f >>= g) = p >>= fun a => f a >>= g := by
  induction p with
  | ret a => rfl
  | call o again next ih =>
      simp only [call_bind]
      congr 1
      funext r
      exact ih r

/-- Every call a program can make satisfies `P`, which looks at the call and at when it is made
again. -/
def Calls (P : (o : Op) → (Resp o → Bool) → Prop) : Prog Resp α → Prop
  | .ret _ => True
  | .call o again next => P o again ∧ ∀ r, (next r).Calls P

@[simp] theorem calls_ret {P : (o : Op) → (Resp o → Bool) → Prop} (a : α) :
    (Prog.ret a : Prog Resp α).Calls P := trivial

theorem Calls.mono {P Q : (o : Op) → (Resp o → Bool) → Prop}
    (hPQ : ∀ o again, P o again → Q o again) {p : Prog Resp α} (hp : p.Calls P) : p.Calls Q := by
  induction p with
  | ret a => trivial
  | call o again next ih => exact ⟨hPQ _ _ hp.1, fun r => ih r (hp.2 r)⟩

theorem calls_of_forall {P : (o : Op) → (Resp o → Bool) → Prop} (h : ∀ o again, P o again)
    (p : Prog Resp α) : p.Calls P := by
  induction p with
  | ret a => trivial
  | call o again next ih => exact ⟨h _ _, ih⟩

theorem calls_bind {P : (o : Op) → (Resp o → Bool) → Prop} {p : Prog Resp α} {f : α → Prog Resp β}
    (hp : p.Calls P) (hf : ∀ a, (f a).Calls P) : (p >>= f).Calls P := by
  induction p with
  | ret a => exact hf a
  | call o again next ih => exact ⟨hp.1, fun r => ih r (hp.2 r)⟩

theorem calls_perform {P : (o : Op) → (Resp o → Bool) → Prop} {o : Op}
    (h : P o fun _ => false) : (perform o : Prog Resp _).Calls P :=
  ⟨h, fun _ => trivial⟩

/-- What a program returns satisfies `P`, if the answers it gets satisfy `A`. -/
def Ends (A : (o : Op) → Resp o → Prop) (P : α → Prop) : Prog Resp α → Prop
  | .ret a => P a
  | .call o _ next => ∀ r, A o r → (next r).Ends A P

theorem ends_of_forall {A : (o : Op) → Resp o → Prop} {P : α → Prop} (h : ∀ a, P a)
    (p : Prog Resp α) : p.Ends A P := by
  induction p with
  | ret a => exact h a
  | call o again next ih => exact fun r _ => ih r

theorem ends_bind {A : (o : Op) → Resp o → Prop} {P : α → Prop} {Q : β → Prop} {p : Prog Resp α}
    {f : α → Prog Resp β} (hp : p.Ends A P) (hf : ∀ a, P a → (f a).Ends A Q) :
    (p >>= f).Ends A Q := by
  induction p with
  | ret a => exact hf a hp
  | call o again next ih => exact fun r hr => ih r (hp r hr)

/-- Up to a call that is answered as `D` says a program makes calls of `C` only, and what it returns
before that satisfies `P`. -/
def Until (C : Op → Prop) (D : (o : Op) → Resp o → Prop) (P : α → Prop) : Prog Resp α → Prop
  | .ret a => P a
  | .call o _ next => C o ∧ ∀ r, ¬ D o r → (next r).Until C D P

theorem until_of_calls {C : Op → Prop} {D : (o : Op) → Resp o → Prop} {P : α → Prop}
    {p : Prog Resp α} (hp : p.Calls fun o _ => C o) (h : ∀ a, P a) : p.Until C D P := by
  induction p with
  | ret a => exact h a
  | call o again next ih => exact ⟨hp.1, fun r _ => ih r (hp.2 r)⟩

theorem until_bind {C : Op → Prop} {D : (o : Op) → Resp o → Prop} {P : α → Prop} {Q : β → Prop}
    {p : Prog Resp α} {f : α → Prog Resp β} (hp : p.Until C D P)
    (hf : ∀ a, P a → (f a).Until C D Q) : (p >>= f).Until C D Q := by
  induction p with
  | ret a => exact hf a hp
  | call o again next ih => exact ⟨hp.1, fun r hr => ih r (hp.2 r hr)⟩

/-- What a program returns when its calls are answered from a table. -/
def result (answer : (o : Op) → Resp o) : Prog Resp α → α
  | .ret a => a
  | .call o _ next => (next (answer o)).result answer

@[simp] theorem result_ret (answer : (o : Op) → Resp o) (a : α) :
    (Prog.ret a : Prog Resp α).result answer = a := rfl

@[simp] theorem result_bind (answer : (o : Op) → Resp o) (p : Prog Resp α) (f : α → Prog Resp β) :
    (p >>= f).result answer = (f (p.result answer)).result answer := by
  induction p with
  | ret a => rfl
  | call o again next ih => exact ih (answer o)

end Prog

/-! ### Machines and runs -/

/-- What the calls of a program do: for the caller, the state of the world, the call and the
choices of the environment, the answer and the next state.  A call that the environment cannot
answer in this way, or not yet, has none. -/
structure Machine {Op : Type} (Resp : Op → Type) (World Choice : Type) where
  step : ℕ → World → (o : Op) → Choice → Option (Resp o × World)

/-- What is recorded of a call. -/
structure Event {Op : Type} (Resp : Op → Type) (World Choice : Type) where
  before : World
  op : Op
  choice : Choice
  resp : Resp op
  after : World

section Runs

variable {Op : Type} {Resp : Op → Type} {World Choice α β ε : Type}
variable (M : Machine Resp World Choice) (t : ℕ)

/-- The runs of a program whose caller is alone: from `w` the program makes the calls of the trace
and returns in `w'`.  Answers for which a call is made again are not recorded. -/
inductive Exec : World → Prog Resp α → List (Event Resp World Choice) → World → α → Prop
  | ret (w : World) (a : α) : Exec w (.ret a) [] w a
  | again {w w₁ w' : World} {o : Op} {c : Choice} {r : Resp o} {again : Resp o → Bool}
      {next : Resp o → Prog Resp α} {tr : List (Event Resp World Choice)} {a : α}
      (hstep : M.step t w o c = some (r, w₁)) (hagain : again r = true)
      (hrest : Exec w₁ (.call o again next) tr w' a) : Exec w (.call o again next) tr w' a
  | step {w w₁ w' : World} {o : Op} {c : Choice} {r : Resp o} {again : Resp o → Bool}
      {next : Resp o → Prog Resp α} {tr : List (Event Resp World Choice)} {a : α}
      (hstep : M.step t w o c = some (r, w₁)) (hagain : again r = false)
      (hrest : Exec w₁ (next r) tr w' a) :
      Exec w (.call o again next) (⟨w, o, c, r, w₁⟩ :: tr) w' a

/-- The runs that have come so far: from `w` the program has made the calls of the trace, and in
`w'` the program `q` is left of it. -/
inductive Begun : World → Prog Resp α → List (Event Resp World Choice) → World → Prog Resp α → Prop
  | here (w : World) (p : Prog Resp α) : Begun w p [] w p
  | again {w w₁ w' : World} {o : Op} {c : Choice} {r : Resp o} {again : Resp o → Bool}
      {next : Resp o → Prog Resp α} {tr : List (Event Resp World Choice)} {q : Prog Resp α}
      (hstep : M.step t w o c = some (r, w₁)) (hagain : again r = true)
      (hrest : Begun w₁ (.call o again next) tr w' q) : Begun w (.call o again next) tr w' q
  | step {w w₁ w' : World} {o : Op} {c : Choice} {r : Resp o} {again : Resp o → Bool}
      {next : Resp o → Prog Resp α} {tr : List (Event Resp World Choice)} {q : Prog Resp α}
      (hstep : M.step t w o c = some (r, w₁)) (hagain : again r = false)
      (hrest : Begun w₁ (next r) tr w' q) :
      Begun w (.call o again next) (⟨w, o, c, r, w₁⟩ :: tr) w' q

/-- The run for a list of choices, as far as they reach. -/
def run : List Choice → World → Prog Resp α →
    Option (List (Event Resp World Choice) × World × α)
  | _, w, .ret a => some ([], w, a)
  | [], _, .call _ _ _ => none
  | c :: cs, w, .call o again next =>
    match M.step t w o c with
    | none => none
    | some (r, w₁) =>
      if again r then run cs w₁ (.call o again next)
      else (run cs w₁ (next r)).map fun out => (⟨w, o, c, r, w₁⟩ :: out.1, out.2)

/-- The run for as many calls as there are choices, with what is left of the program. -/
def proceed : List Choice → World → Prog Resp α → Option (World × Prog Resp α)
  | [], w, p => some (w, p)
  | _ :: _, _, .ret _ => none
  | c :: cs, w, .call o again next =>
    match M.step t w o c with
    | none => none
    | some (r, w₁) =>
      if again r then proceed cs w₁ (.call o again next) else proceed cs w₁ (next r)

/-- The run for a list of choices, with the choices that are left over. -/
def runOn : List Choice → World → Prog Resp α →
    Option (List (Event Resp World Choice) × World × α × List Choice)
  | cs, w, .ret a => some ([], w, a, cs)
  | [], _, .call _ _ _ => none
  | c :: cs, w, .call o again next =>
    match M.step t w o c with
    | none => none
    | some (r, w₁) =>
      if again r then runOn cs w₁ (.call o again next)
      else (runOn cs w₁ (next r)).map fun out => (⟨w, o, c, r, w₁⟩ :: out.1, out.2)

variable {M t}

/-- What the function computes is a run. -/
theorem exec_of_run {cs : List Choice} {w w' : World} {p : Prog Resp α}
    {tr : List (Event Resp World Choice)} {a : α} (h : run M t cs w p = some (tr, w', a)) :
    Exec M t w p tr w' a := by
  induction cs generalizing w p tr with
  | nil =>
      cases p with
      | ret b =>
          simp only [run, Option.some.injEq, Prod.mk.injEq] at h
          obtain ⟨rfl, rfl, rfl⟩ := h
          exact .ret _ _
      | call o again next => simp [run] at h
  | cons c cs ih =>
      cases p with
      | ret b =>
          simp only [run, Option.some.injEq, Prod.mk.injEq] at h
          obtain ⟨rfl, rfl, rfl⟩ := h
          exact .ret _ _
      | call o again next =>
          rw [run] at h
          split at h
          · simp at h
          · rename_i r w₁ hstep
            split at h
            · rename_i hagain
              exact .again hstep hagain (ih h)
            · rename_i hagain
              obtain ⟨⟨tr', out⟩, hrun, heq⟩ := Option.map_eq_some_iff.1 h
              obtain ⟨rfl, rfl⟩ := Prod.mk.inj heq
              exact .step hstep (by simpa using hagain) (ih hrun)

@[simp] theorem runOn_ret (cs : List Choice) (w : World) (a : α) :
    runOn M t cs w (.ret a : Prog Resp α) = some ([], w, a, cs) := by
  cases cs <;> rfl

/-- A call that is made once. -/
theorem runOn_step {o : Op} {again : Resp o → Bool} {next : Resp o → Prog Resp α} {w w₁ : World}
    {c : Choice} {r : Resp o} (hstep : M.step t w o c = some (r, w₁)) (hagain : again r = false)
    (cs : List Choice) : runOn M t (c :: cs) w (.call o again next) =
      (runOn M t cs w₁ (next r)).map fun out => (⟨w, o, c, r, w₁⟩ :: out.1, out.2) := by
  rw [runOn, hstep]
  simp only [hagain, Bool.false_eq_true, if_false]

theorem run_eq_map_runOn (cs : List Choice) (w : World) (p : Prog Resp α) :
    run M t cs w p = (runOn M t cs w p).map fun out => (out.1, out.2.1, out.2.2.1) := by
  induction cs generalizing w p with
  | nil => cases p <;> rfl
  | cons c cs ih =>
      cases p with
      | ret a => rfl
      | call o again next =>
          rw [run, runOn]
          cases M.step t w o c with
          | none => rfl
          | some out =>
              dsimp only
              split
              · exact ih _ _
              · rw [ih, Option.map_map, Option.map_map]
                rfl

theorem exec_of_runOn {cs cs' : List Choice} {w w' : World} {p : Prog Resp α}
    {tr : List (Event Resp World Choice)} {a : α} (h : runOn M t cs w p = some (tr, w', a, cs')) :
    Exec M t w p tr w' a := by
  have hrun : run M t cs w p = some (tr, w', a) := by
    rw [run_eq_map_runOn, h]
    rfl
  exact exec_of_run hrun

/-- A run with a property, from the computed one. -/
theorem exists_exec_of_run {cs : List Choice} {w : World} {p : Prog Resp α}
    {P : List (Event Resp World Choice) × World × α → Bool}
    (h : (run M t cs w p).any P = true) :
    ∃ tr w' a, Exec M t w p tr w' a ∧ P (tr, w', a) = true := by
  cases hrun : run M t cs w p with
  | none => simp [hrun] at h
  | some out =>
      obtain ⟨tr, w', a⟩ := out
      exact ⟨tr, w', a, exec_of_run hrun, by simpa [hrun] using h⟩

/-- What has come so far, from what was computed. -/
theorem begun_of_proceed {cs : List Choice} {w w' : World} {p q : Prog Resp α}
    (h : proceed M t cs w p = some (w', q)) : ∃ tr, Begun M t w p tr w' q := by
  induction cs generalizing w p with
  | nil =>
      obtain ⟨rfl, rfl⟩ := Prod.mk.inj (Option.some.inj h)
      exact ⟨[], .here _ _⟩
  | cons c cs ih =>
      cases p with
      | ret a => cases h
      | call o again next =>
          rw [proceed] at h
          split at h
          · cases h
          · rename_i r w₁ hstep
            split at h
            · rename_i hagain
              obtain ⟨tr, hrest⟩ := ih h
              exact ⟨tr, .again hstep hagain hrest⟩
            · rename_i hagain
              obtain ⟨tr, hrest⟩ := ih h
              exact ⟨_, .step hstep (by simpa using hagain) hrest⟩

/-- A run so far with a property, from the computed one. -/
theorem exists_begun_of_proceed {cs : List Choice} {w : World} {p : Prog Resp α}
    {P : World × Prog Resp α → Bool} (h : (proceed M t cs w p).any P = true) :
    ∃ tr w' q, Begun M t w p tr w' q ∧ P (w', q) = true := by
  obtain ⟨⟨w', q⟩, hproceed, hP⟩ := (Option.any_eq_true _ _).1 h
  obtain ⟨tr, hbegun⟩ := begun_of_proceed hproceed
  exact ⟨tr, w', q, hbegun, hP⟩

/-- The run of a sequence, with the choices that are left over in the end. -/
theorem runOn_bind (p : Prog Resp α) (f : α → Prog Resp β) (cs : List Choice) (w : World) :
    runOn M t cs w (p >>= f) = (runOn M t cs w p).bind fun out =>
      (runOn M t out.2.2.2 out.2.1 (f out.2.2.1)).map fun out' => (out.1 ++ out'.1, out'.2) := by
  induction cs generalizing w p with
  | nil =>
      cases p with
      | ret a => simp [runOn]
      | call o again next => rfl
  | cons c cs ih =>
      cases p with
      | ret a => simp [runOn]
      | call o again next =>
          rw [Prog.call_bind, runOn, runOn]
          cases M.step t w o c with
          | none => rfl
          | some out =>
              dsimp only
              split
              · exact ih (.call o again next) out.2
              · rw [ih (next out.1) out.2, Option.bind_map, Option.map_bind]
                congr 1
                funext out'
                simp [Function.comp_def]

/-- **The run of a sequence** goes on with the choices that the first program has left over. -/
theorem run_bind (p : Prog Resp α) (f : α → Prog Resp β) (cs : List Choice) (w : World) :
    run M t cs w (p >>= f) = (runOn M t cs w p).bind fun out =>
      (run M t out.2.2.2 out.2.1 (f out.2.2.1)).map fun out' => (out.1 ++ out'.1, out'.2) := by
  rw [run_eq_map_runOn, runOn_bind, Option.map_bind]
  congr 1
  funext out
  simp [run_eq_map_runOn, Function.comp_def]

/-- A call that is made in vain a number of times. -/
theorem runOn_replicate_again {o : Op} {again : Resp o → Bool} {next : Resp o → Prog Resp α}
    {w : World} {c : Choice} {r : Resp o} (hstep : M.step t w o c = some (r, w))
    (hagain : again r = true) (k : ℕ) (cs : List Choice) :
    runOn M t (List.replicate k c ++ cs) w (.call o again next) =
      runOn M t cs w (.call o again next) := by
  induction k with
  | zero => rfl
  | succ k ih =>
      rw [List.replicate_succ, List.cons_append, runOn, hstep]
      simp only [hagain, if_true]
      exact ih

theorem exec_ret {w w' : World} {a b : α} {tr : List (Event Resp World Choice)} :
    Exec M t w (.ret a) tr w' b ↔ tr = [] ∧ w' = w ∧ b = a := by
  constructor
  · intro h
    cases h
    exact ⟨rfl, rfl, rfl⟩
  · rintro ⟨rfl, rfl, rfl⟩
    exact .ret _ _

/-- A single call is answered once. -/
theorem exec_perform {w w' : World} {o : Op} {r : Resp o} {tr : List (Event Resp World Choice)} :
    Exec M t w (Prog.perform o) tr w' r ↔
      ∃ c, M.step t w o c = some (r, w') ∧ tr = [⟨w, o, c, r, w'⟩] := by
  constructor
  · intro h
    cases h with
    | again _ hagain _ => simp at hagain
    | step hstep _ hrest =>
        cases hrest
        exact ⟨_, hstep, rfl⟩
  · rintro ⟨c, hstep, rfl⟩
    exact .step hstep rfl (.ret _ _)

/-- A call is made again until its answer is one to go on with. -/
theorem exec_call {o : Op} {again : Resp o → Bool} {next : Resp o → Prog Resp α} {w w' : World}
    {a : α} {tr : List (Event Resp World Choice)}
    (h : Exec M t w (.call o again next) tr w' a) :
    ∃ w₁ c r w₂ tr', M.step t w₁ o c = some (r, w₂) ∧ again r = false ∧
      Exec M t w₂ (next r) tr' w' a ∧ tr = ⟨w₁, o, c, r, w₂⟩ :: tr' := by
  generalize hp : Prog.call o again next = p at h
  induction h with
  | ret w a => cases hp
  | again hstep hagain hrest ih =>
      cases hp
      exact ih rfl
  | step hstep hagain hrest ih =>
      cases hp
      exact ⟨_, _, _, _, _, hstep, hagain, hrest, rfl⟩

/-- **A run of a sequence** is a run of the first program followed by one of the second. -/
theorem exec_bind {p : Prog Resp α} {f : α → Prog Resp β} {w w' : World} {b : β}
    {tr : List (Event Resp World Choice)} :
    Exec M t w (p >>= f) tr w' b ↔
      ∃ tr₁ w₁ a tr₂, Exec M t w p tr₁ w₁ a ∧ Exec M t w₁ (f a) tr₂ w' b ∧ tr = tr₁ ++ tr₂ := by
  constructor
  · intro h
    generalize hq : p >>= f = q at h
    -- the run is cut where `p` has returned, which may be at once
    induction h generalizing p with
    | ret w b =>
        cases p with
        | ret a =>
            rw [Prog.ret_bind] at hq
            exact ⟨[], w, a, [], .ret _ _, by rw [hq]; exact .ret _ _, rfl⟩
        | call o again next => simp at hq
    | @again w w₁ w' o c r again next tr b hstep hagain hrest ih =>
        cases p with
        | ret a =>
            rw [Prog.ret_bind] at hq
            exact ⟨[], w, a, tr, .ret _ _, hq ▸ .again hstep hagain hrest, rfl⟩
        | call o' again' next' =>
            rw [Prog.call_bind] at hq
            cases hq
            obtain ⟨tr₁, w₂, a, tr₂, h₁, h₂, rfl⟩ := ih (p := .call o again next') rfl
            exact ⟨tr₁, w₂, a, tr₂, .again hstep hagain h₁, h₂, rfl⟩
    | @step w w₁ w' o c r again next tr b hstep hagain hrest ih =>
        cases p with
        | ret a =>
            rw [Prog.ret_bind] at hq
            exact ⟨[], w, a, _, .ret _ _, hq ▸ .step hstep hagain hrest, rfl⟩
        | call o' again' next' =>
            rw [Prog.call_bind] at hq
            cases hq
            obtain ⟨tr₁, w₂, a, tr₂, h₁, h₂, rfl⟩ := ih rfl
            exact ⟨_, w₂, a, tr₂, .step hstep hagain h₁, h₂, rfl⟩
  · rintro ⟨tr₁, w₁, a, tr₂, h₁, h₂, rfl⟩
    induction h₁ with
    | ret w a => exact h₂
    | again hstep hagain _ ih => exact .again hstep hagain (ih h₂)
    | step hstep hagain _ ih => exact .step hstep hagain (ih h₂)

/-- **An environment that answers from a table** runs a program to its end. -/
theorem exists_exec_result {answer : (o : Op) → Resp o} {w : World} {choose : Op → Choice}
    (hstep : ∀ o, M.step t w o (choose o) = some (answer o, w)) {p : Prog Resp α}
    (hp : p.Calls fun o again => again (answer o) = false) :
    ∃ tr, Exec M t w p tr w (p.result answer) ∧ ∀ e ∈ tr, e.choice = choose e.op := by
  induction p with
  | ret a => exact ⟨[], .ret w a, by simp⟩
  | call o again next ih =>
      obtain ⟨tr, h, htr⟩ := ih (answer o) (hp.2 _)
      exact ⟨_, .step (hstep o) hp.1 h, List.forall_mem_cons.2 ⟨rfl, htr⟩⟩

/-- The calls that are made are calls of the program. -/
theorem exec_calls {P : Op → Prop} {p : Prog Resp α} {w w' : World} {a : α}
    {tr : List (Event Resp World Choice)} (h : Exec M t w p tr w' a)
    (hp : p.Calls fun o _ => P o) : ∀ e ∈ tr, P e.op := by
  induction h with
  | ret w a => simp
  | again hstep hagain _ ih => exact ih hp
  | step hstep hagain _ ih =>
      rw [List.forall_mem_cons]
      exact ⟨hp.1, ih (hp.2 _)⟩

/-- A run ends as its program does. -/
theorem exec_ends {A : (o : Op) → Resp o → Prop} {P : α → Prop} {p : Prog Resp α} {w w' : World}
    {a : α} {tr : List (Event Resp World Choice)} (hp : p.Ends A P) (h : Exec M t w p tr w' a)
    (htr : ∀ e ∈ tr, A e.op e.resp) : P a := by
  induction h with
  | ret w a => exact hp
  | again hstep hagain _ ih => exact ih hp htr
  | step hstep hagain _ ih =>
      rw [List.forall_mem_cons] at htr
      exact ih (hp _ htr.1) htr.2

/-- The events of a run are steps of the machine. -/
theorem exec_steps {p : Prog Resp α} {w w' : World} {a : α}
    {tr : List (Event Resp World Choice)} (h : Exec M t w p tr w' a) :
    ∀ e ∈ tr, M.step t e.before e.op e.choice = some (e.resp, e.after) := by
  induction h with
  | ret w a => simp
  | again hstep hagain _ ih => exact ih
  | step hstep hagain _ ih =>
      rw [List.forall_mem_cons]
      exact ⟨hstep, ih⟩

/-- A run that has come to its end. -/
theorem Exec.begun {p : Prog Resp α} {w w' : World} {a : α}
    {tr : List (Event Resp World Choice)} (h : Exec M t w p tr w' a) :
    Begun M t w p tr w' (.ret a) := by
  induction h with
  | ret w a => exact .here w _
  | again hstep hagain _ ih => exact .again hstep hagain ih
  | step hstep hagain _ ih => exact .step hstep hagain ih

/-- **What every call of a program keeps** is so as far as a run has come. -/
theorem begun_invariant {P : World → Prop} {Q : Op → Prop} {p q : Prog Resp α} {w w' : World}
    {tr : List (Event Resp World Choice)}
    (hstep : ∀ {w w' : World} {o : Op} {c : Choice} {r : Resp o}, Q o →
      M.step t w o c = some (r, w') → P w → P w')
    (hp : p.Calls fun o _ => Q o) (h : Begun M t w p tr w' q) (hw : P w) :
    (∀ e ∈ tr, P e.before ∧ P e.after) ∧ P w' := by
  induction h with
  | here w p => simpa using hw
  | again hs hagain _ ih => exact ih hp (hstep hp.1 hs hw)
  | step hs hagain _ ih =>
      have hafter := hstep hp.1 hs hw
      obtain ⟨hrest, hend⟩ := ih (hp.2 _) hafter
      refine ⟨?_, hend⟩
      rw [List.forall_mem_cons]
      exact ⟨⟨hw, hafter⟩, hrest⟩

theorem exec_invariant {P : World → Prop} {Q : Op → Prop} {p : Prog Resp α} {w w' : World} {a : α}
    {tr : List (Event Resp World Choice)}
    (hstep : ∀ {w w' : World} {o : Op} {c : Choice} {r : Resp o}, Q o →
      M.step t w o c = some (r, w') → P w → P w')
    (hp : p.Calls fun o _ => Q o) (h : Exec M t w p tr w' a) (hw : P w) :
    (∀ e ∈ tr, P e.before ∧ P e.after) ∧ P w' :=
  begun_invariant hstep hp h.begun hw

/-! ### Programs that can fail -/

theorem run_exceptT_bind (x : ExceptT ε (Prog Resp) α) (f : α → ExceptT ε (Prog Resp) β) :
    (x >>= f).run = x.run >>= fun
      | .ok a => (f a).run
      | .error e => .ret (.error e) := by
  change x.run >>= _ = _
  congr 1
  funext r
  cases r <;> rfl

/-- Answered from a table, the second part starts from what the first returns. -/
theorem result_exceptT_bind {answer : (o : Op) → Resp o} {x : ExceptT ε (Prog Resp) α} {a : α}
    (hx : x.run.result answer = .ok a) (f : α → ExceptT ε (Prog Resp) β) :
    (x >>= f).run.result answer = (f a).run.result answer := by
  rw [run_exceptT_bind, Prog.result_bind, hx]

theorem ends_exceptT_bind {A : (o : Op) → Resp o → Prop} {P : Except ε α → Prop}
    {Q : Except ε β → Prop} {x : ExceptT ε (Prog Resp) α} {f : α → ExceptT ε (Prog Resp) β}
    (hx : x.run.Ends A P) (herror : ∀ e, P (.error e) → Q (.error e))
    (hf : ∀ a, P (.ok a) → (f a).run.Ends A Q) : (x >>= f).run.Ends A Q := by
  rw [run_exceptT_bind]
  refine Prog.ends_bind hx fun r hr => ?_
  cases r with
  | ok a => exact hf a hr
  | error e => exact herror e hr

theorem calls_exceptT_bind {P : (o : Op) → (Resp o → Bool) → Prop} {x : ExceptT ε (Prog Resp) α}
    {f : α → ExceptT ε (Prog Resp) β} (hx : x.run.Calls P) (hf : ∀ a, (f a).run.Calls P) :
    (x >>= f).run.Calls P := by
  rw [run_exceptT_bind]
  refine Prog.calls_bind hx fun r => ?_
  cases r with
  | ok a => exact hf a
  | error e => exact trivial

/-- **A run of a sequence that can fail** ends in the first part, if that fails, and goes on with
the second otherwise. -/
theorem exec_exceptT_bind {x : ExceptT ε (Prog Resp) α} {f : α → ExceptT ε (Prog Resp) β}
    {w w' : World} {r : Except ε β} {tr : List (Event Resp World Choice)} :
    Exec M t w (x >>= f).run tr w' r ↔
      (∃ e, r = .error e ∧ Exec M t w x.run tr w' (.error e)) ∨
      ∃ tr₁ w₁ a tr₂, Exec M t w x.run tr₁ w₁ (.ok a) ∧ Exec M t w₁ (f a).run tr₂ w' r ∧
        tr = tr₁ ++ tr₂ := by
  rw [run_exceptT_bind, exec_bind]
  constructor
  · rintro ⟨tr₁, w₁, r', tr₂, h₁, h₂, rfl⟩
    cases r' with
    | ok a => exact .inr ⟨tr₁, w₁, a, tr₂, h₁, h₂, rfl⟩
    | error e =>
        obtain ⟨rfl, rfl, rfl⟩ := exec_ret.1 h₂
        rw [List.append_nil]
        exact .inl ⟨e, rfl, h₁⟩
  · rintro (⟨e, rfl, h⟩ | ⟨tr₁, w₁, a, tr₂, h₁, h₂, rfl⟩)
    · exact ⟨tr, w', .error e, [], h, .ret _ _, by simp⟩
    · exact ⟨tr₁, w₁, .ok a, tr₂, h₁, h₂, rfl⟩

/-- A run of a sequence succeeds when both parts do. -/
theorem exec_bind_ok {x : ExceptT ε (Prog Resp) α} {f : α → ExceptT ε (Prog Resp) β}
    {w w' : World} {b : β} {tr : List (Event Resp World Choice)} :
    Exec M t w (x >>= f).run tr w' (.ok b) ↔
      ∃ tr₁ w₁ a tr₂, Exec M t w x.run tr₁ w₁ (.ok a) ∧ Exec M t w₁ (f a).run tr₂ w' (.ok b) ∧
        tr = tr₁ ++ tr₂ := by
  rw [exec_exceptT_bind, or_iff_right]
  rintro ⟨e, he, -⟩
  cases he

end Runs

/-! ### Runs of certain events only -/

section Delivers

variable {Op : Type} {Resp : Op → Type} {World Choice α β ε : Type}
variable (M : Machine Resp World Choice) (t : ℕ) (F : Event Resp World Choice → Prop)

/-- Every run of a program all of whose events satisfy `F` ends with `Q`. -/
def Delivers (p : Prog Resp α) (Q : α → World → Prop) (w : World) : Prop :=
  ∀ tr w' a, Exec M t w p tr w' a → (∀ e ∈ tr, F e) → Q a w'

/-- The same of a program that can fail, which it does not. -/
def Succeeds (x : ExceptT ε (Prog Resp) α) (Q : α → World → Prop) (w : World) : Prop :=
  Delivers M t F x.run (fun r w => ∃ a, r = .ok a ∧ Q a w) w

variable {M t F} {w : World}

theorem Delivers.weaken {p : Prog Resp α} {Q Q' : α → World → Prop} (h : Delivers M t F p Q w)
    (hQ : ∀ a w, Q a w → Q' a w) : Delivers M t F p Q' w :=
  fun tr w' a hexec htr => hQ _ _ (h tr w' a hexec htr)

theorem delivers_ret {a : α} {Q : α → World → Prop} (h : Q a w) :
    Delivers M t F (.ret a) Q w := by
  intro tr w' b hexec _
  obtain ⟨-, rfl, rfl⟩ := exec_ret.1 hexec
  exact h

/-- A call that is made again only where that changes nothing. -/
theorem delivers_performUntil {o : Op} {again : Resp o → Bool} {Q : Resp o → World → Prop}
    (hagain : ∀ c r w', M.step t w o c = some (r, w') → again r = true → w' = w)
    (h : ∀ c r w', M.step t w o c = some (r, w') → again r = false → F ⟨w, o, c, r, w'⟩ →
      Q r w') : Delivers M t F (Prog.performUntil o again) Q w := by
  intro tr w' a hexec htr
  generalize hp : Prog.performUntil o again = p at hexec
  induction hexec with
  | ret w b => cases hp
  | again hstep hr _ ih =>
      cases hp
      obtain rfl := hagain _ _ _ hstep hr
      exact ih hagain h htr rfl
  | step hstep hr hrest _ =>
      cases hp
      obtain ⟨rfl, rfl, rfl⟩ := exec_ret.1 hrest
      exact h _ _ _ hstep hr (htr _ (List.mem_singleton_self _))

/-- A single call. -/
theorem delivers_perform {o : Op} {Q : Resp o → World → Prop}
    (h : ∀ c r w', M.step t w o c = some (r, w') → F ⟨w, o, c, r, w'⟩ → Q r w') :
    Delivers M t F (Prog.perform o) Q w := by
  refine delivers_performUntil (fun c r w' _ hagain => ?_) fun c r w' hstep _ => h c r w' hstep
  cases hagain

/-- **A sequence**: the second program starts where the first one ends. -/
theorem Delivers.bind {p : Prog Resp α} {f : α → Prog Resp β} {P : α → World → Prop}
    {Q : β → World → Prop} (hp : Delivers M t F p P w)
    (hf : ∀ a w, P a w → Delivers M t F (f a) Q w) : Delivers M t F (p >>= f) Q w := by
  intro tr w' b hexec htr
  obtain ⟨tr₁, w₁, a, tr₂, h₁, h₂, rfl⟩ := exec_bind.1 hexec
  rw [List.forall_mem_append] at htr
  exact hf a w₁ (hp _ _ _ h₁ htr.1) _ _ _ h₂ htr.2

/-- **A sequence of programs that can fail.** -/
theorem Succeeds.bind {x : ExceptT ε (Prog Resp) α} {f : α → ExceptT ε (Prog Resp) β}
    {P : α → World → Prop} {Q : Except ε β → World → Prop} (hx : Succeeds M t F x P w)
    (hf : ∀ a w, P a w → Delivers M t F (f a).run Q w) : Delivers M t F (x >>= f).run Q w := by
  rw [run_exceptT_bind]
  refine Delivers.bind hx fun r w h => ?_
  obtain ⟨a, rfl, hP⟩ := h
  exact hf a w hP

theorem succeeds_pure {a : α} {Q : α → World → Prop} (h : Q a w) :
    Succeeds M t F (pure a : ExceptT ε (Prog Resp) α) Q w := delivers_ret ⟨a, rfl, h⟩

end Delivers
