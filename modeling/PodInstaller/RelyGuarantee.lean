/-
**Programs that run among others.**

A program of a pool runs while others change the world between its calls.  `Safe` is what one shows
of such a program: relying on the others to stay within a relation `R`, every call it makes is one
it may make, every change it makes stays within a relation `G`, and it returns with what was
promised.  A program that is safe does what it promises when it runs alone; a pool of safe
programs, each of which changes no more than the others rely on, is safe as a whole, however their
calls are interleaved and wherever some of them are stopped.  Nothing here mentions any particular
program or machine.

Main definitions:

* `Trace`, `Safe` — programs that keep their promises among others;
* `Pool`, `Pool.Step`, `Pool.Reachable` — pools of calls that run at the same time;
* `Contract` — what each caller relies on, guarantees and promises.

Main results:

* `safe_bind`, `safe_exceptT_bind` — sequences;
* `Safe.mono`, `Safe.keeps` — weaker promises, and facts that nobody's steps touch;
* `Safe.records`, `Safe.ends` — what the calls of a program are like, and what it returns;
* `Safe.exec` — a safe program on its own;
* `Pool.Reachable.begun` — a caller of a pool that makes its next calls alone;
* `Contract.sound` — **a pool of safe programs is safe**.
-/

import PodInstaller.Interaction
import Mathlib.Logic.Relation
import Mathlib.Logic.Function.Basic

set_option relaxedAutoImplicit false
set_option autoImplicit false

/-- The calls a program has made so far, with what they did. -/
abbrev Trace {Op : Type} (Resp : Op → Type) (World Choice : Type) := List (Event Resp World Choice)

section SafePrograms

variable {Op : Type} {Resp : Op → Type} {World Choice α β ε : Type}
variable (M : Machine Resp World Choice) (t : ℕ)
variable (R G : World → World → Prop) (J : Trace Resp World Choice → World → Prop)

/-- A program that keeps its promises, having made the calls of a trace: whenever the others have
changed the world within `R`, it may make its next call (`J`), the call stays within `G`, a call
that has to be made again changes nothing, and in the end `Q` holds. -/
def Safe (Q : Trace Resp World Choice → α → World → Prop) :
    Prog Resp α → Trace Resp World Choice → World → Prop
  | .ret a, tr, w => Q tr a w
  | .call o again next, tr, w => ∀ w₁, R w w₁ → J tr w₁ ∧
      ∀ c r w₂, M.step t w₁ o c = some (r, w₂) → G w₁ w₂ ∧ (again r = true → w₂ = w₁) ∧
        (again r = false → Safe Q (next r) (tr ++ [⟨w₁, o, c, r, w₂⟩]) w₂)

variable {M t R G J}
variable {Q : Trace Resp World Choice → α → World → Prop} {tr : Trace Resp World Choice}
variable {w : World}

@[simp] theorem safe_ret {a : α} : Safe M t R G J Q (.ret a) tr w ↔ Q tr a w := Iff.rfl

/-- A single call. -/
theorem safe_call {o : Op} {again : Resp o → Bool} {next : Resp o → Prog Resp α}
    (hJ : ∀ w₁, R w w₁ → J tr w₁)
    (hstep : ∀ w₁ c r w₂, R w w₁ → M.step t w₁ o c = some (r, w₂) →
      G w₁ w₂ ∧ (again r = true → w₂ = w₁) ∧
        (again r = false → Safe M t R G J Q (next r) (tr ++ [⟨w₁, o, c, r, w₂⟩]) w₂)) :
    Safe M t R G J Q (.call o again next) tr w :=
  fun w₁ hw => ⟨hJ w₁ hw, fun c r w₂ => hstep w₁ c r w₂ hw⟩

/-- **Weakening.**  The others may do less, the program more, and the promises may be weaker. -/
theorem Safe.mono {R' G' : World → World → Prop} {J' : Trace Resp World Choice → World → Prop}
    {Q' : Trace Resp World Choice → α → World → Prop} {p : Prog Resp α}
    (h : Safe M t R G J Q p tr w) (hR : ∀ w w', R' w w' → R w w') (hG : ∀ w w', G w w' → G' w w')
    (hJ : ∀ tr w, J tr w → J' tr w) (hQ : ∀ tr a w, Q tr a w → Q' tr a w) :
    Safe M t R' G' J' Q' p tr w := by
  induction p generalizing tr w with
  | ret a => exact hQ _ _ _ h
  | call o again next ih =>
      intro w₁ hw
      obtain ⟨hj, hcalls⟩ := h w₁ (hR _ _ hw)
      refine ⟨hJ _ _ hj, fun c r w₂ hstep => ?_⟩
      obtain ⟨hg, hagain, hnext⟩ := hcalls c r w₂ hstep
      exact ⟨hG _ _ hg, hagain, fun hr => ih r (hnext hr)⟩

/-- A weaker promise about what is returned. -/
theorem Safe.weaken {Q' : Trace Resp World Choice → α → World → Prop} {p : Prog Resp α}
    (h : Safe M t R G J Q p tr w) (hQ : ∀ tr a w, Q tr a w → Q' tr a w) :
    Safe M t R G J Q' p tr w :=
  h.mono (fun _ _ h => h) (fun _ _ h => h) (fun _ _ h => h) hQ

/-- **A sequence**: the second program starts where the first one returns. -/
theorem safe_bind {Q : Trace Resp World Choice → β → World → Prop}
    {P : Trace Resp World Choice → α → World → Prop} {p : Prog Resp α} {f : α → Prog Resp β}
    (hp : Safe M t R G J P p tr w) (hf : ∀ tr a w, P tr a w → Safe M t R G J Q (f a) tr w) :
    Safe M t R G J Q (p >>= f) tr w := by
  induction p generalizing tr w with
  | ret a => exact hf _ _ _ hp
  | call o again next ih =>
      intro w₁ hw
      obtain ⟨hj, hcalls⟩ := hp w₁ hw
      refine ⟨hj, fun c r w₂ hstep => ?_⟩
      obtain ⟨hg, hagain, hnext⟩ := hcalls c r w₂ hstep
      exact ⟨hg, hagain, fun hr => ih r (hnext hr)⟩

/-- **A sequence of programs that can fail.** -/
theorem safe_exceptT_bind {Q : Trace Resp World Choice → Except ε β → World → Prop}
    {P : Trace Resp World Choice → Except ε α → World → Prop} {x : ExceptT ε (Prog Resp) α}
    {f : α → ExceptT ε (Prog Resp) β} (hx : Safe M t R G J P x.run tr w)
    (hok : ∀ tr a w, P tr (.ok a) w → Safe M t R G J Q (f a).run tr w)
    (herror : ∀ tr e w, P tr (.error e) w → Q tr (.error e) w) :
    Safe M t R G J Q (x >>= f).run tr w := by
  rw [run_exceptT_bind]
  refine safe_bind hx fun tr r w h => ?_
  cases r with
  | ok a => exact hok _ _ _ h
  | error e => exact herror _ _ _ h

/-- **What nobody's steps touch** holds at every call and in the end. -/
theorem Safe.keeps {P : World → Prop} {p : Prog Resp α} (h : Safe M t R G J Q p tr w)
    (hR : ∀ w w', R w w' → P w → P w') (hG : ∀ w w', G w w' → P w → P w') (hP : P w) :
    Safe M t R G (fun tr w => J tr w ∧ P w) (fun tr a w => Q tr a w ∧ P w) p tr w := by
  induction p generalizing tr w with
  | ret a => exact ⟨h, hP⟩
  | call o again next ih =>
      intro w₁ hw
      obtain ⟨hj, hcalls⟩ := h w₁ hw
      refine ⟨⟨hj, hR _ _ hw hP⟩, fun c r w₂ hstep => ?_⟩
      obtain ⟨hg, hagain, hnext⟩ := hcalls c r w₂ hstep
      exact ⟨hg, hagain, fun hr => ih r (hnext hr) (hG _ _ hg (hR _ _ hw hP))⟩

/-- A program all of whose calls stay within `G`, whatever the world is. -/
theorem safe_of_calls {C : (o : Op) → (Resp o → Bool) → Prop} {p : Prog Resp α} (hp : p.Calls C)
    (hC : ∀ o again c w r w', C o again → M.step t w o c = some (r, w') →
      G w w' ∧ (again r = true → w' = w)) (hJ : ∀ tr w, J tr w) :
    Safe M t R G J (fun _ _ _ => True) p tr w := by
  induction p generalizing tr w with
  | ret a => trivial
  | call o again next ih =>
      refine safe_call (fun w₁ _ => hJ _ _) fun w₁ c r w₂ _ hstep => ?_
      obtain ⟨hg, hagain⟩ := hC o again c w₁ r w₂ hp.1 hstep
      exact ⟨hg, hagain, fun _ => ih r (hp.2 r)⟩

/-- **What a program returns**, whatever it is answered. -/
theorem Safe.ends {P : α → Prop} {p : Prog Resp α} (h : Safe M t R G J Q p tr w)
    (hp : p.Ends (fun _ _ => True) P) :
    Safe M t R G J (fun tr a w => Q tr a w ∧ P a) p tr w := by
  induction p generalizing tr w with
  | ret a => exact ⟨h, hp⟩
  | call o again next ih =>
      intro w₁ hw
      obtain ⟨hj, hcalls⟩ := h w₁ hw
      refine ⟨hj, fun c r w₂ hstep => ?_⟩
      obtain ⟨hg, hagain, hnext⟩ := hcalls c r w₂ hstep
      exact ⟨hg, hagain, fun hr => ih r (hnext hr) (hp r trivial)⟩

/-- A trace goes on with certain calls only, which stay within `G`. -/
def Extends (C : Op → Prop) (G : World → World → Prop) (tr tr' : Trace Resp World Choice) : Prop :=
  ∃ ext, tr' = tr ++ ext ∧ ∀ e ∈ ext, C e.op ∧ G e.before e.after

theorem Extends.refl {C : Op → Prop} (tr : Trace Resp World Choice) : Extends C G tr tr :=
  ⟨[], by simp⟩

/-- **What the calls of a program are like** shows in its trace. -/
theorem Safe.records {C : Op → Prop} {p : Prog Resp α} (h : Safe M t R G J Q p tr w)
    (hp : p.Calls fun o _ => C o) :
    Safe M t R G (fun tr' w => J tr' w ∧ Extends C G tr tr')
      (fun tr' a w => Q tr' a w ∧ Extends C G tr tr') p tr w := by
  suffices hgen : ∀ tr₀ tr w, Safe M t R G J Q p tr w → Extends C G tr₀ tr →
      Safe M t R G (fun tr' w => J tr' w ∧ Extends C G tr₀ tr')
        (fun tr' a w => Q tr' a w ∧ Extends C G tr₀ tr') p tr w from hgen tr tr w h (.refl tr)
  clear h
  intro tr₀
  induction p with
  | ret a => exact fun tr w h hext => ⟨h, hext⟩
  | call o again next ih =>
      intro tr w h hext w₁ hw
      obtain ⟨hj, hcalls⟩ := h w₁ hw
      refine ⟨⟨hj, hext⟩, fun c r w₂ hstep => ?_⟩
      obtain ⟨hg, hagain, hnext⟩ := hcalls c r w₂ hstep
      refine ⟨hg, hagain, fun hr => ih r (hp.2 r) _ _ (hnext hr) ?_⟩
      obtain ⟨ext, rfl, hC⟩ := hext
      refine ⟨ext ++ [⟨w₁, o, c, r, w₂⟩], by simp, ?_⟩
      intro e he
      rw [List.mem_append, List.mem_singleton] at he
      rcases he with he | rfl
      · exact hC e he
      · exact ⟨hp.1, hg⟩

/-- **A safe program on its own** keeps its promises. -/
theorem Safe.exec {p : Prog Resp α} (h : Safe M t R G J Q p tr w) (hR : ∀ w, R w w)
    {tr' : Trace Resp World Choice} {w' : World} {a : α} (hexec : Exec M t w p tr' w' a) :
    Q (tr ++ tr') a w' ∧ Relation.ReflTransGen G w w' := by
  induction hexec generalizing tr with
  | ret w a => exact ⟨by simpa using h, .refl⟩
  | again hstep hagain _ ih =>
      obtain ⟨-, hcalls⟩ := h _ (hR _)
      obtain ⟨-, hsame, -⟩ := hcalls _ _ _ hstep
      obtain rfl := hsame hagain
      exact ih h
  | step hstep hagain _ ih =>
      obtain ⟨-, hcalls⟩ := h _ (hR _)
      obtain ⟨hg, -, hnext⟩ := hcalls _ _ _ hstep
      obtain ⟨hq, hgs⟩ := ih (hnext hagain)
      rw [List.append_assoc, List.singleton_append] at hq
      exact ⟨hq, .head hg hgs⟩

end SafePrograms

/-- A place in a list that has grown by one at its end. -/
theorem append_singleton_eq_append_cons {α : Type} {l l₁ l₂ : List α} {a b : α} :
    l ++ [b] = l₁ ++ a :: l₂ ↔
      l₁ = l ∧ a = b ∧ l₂ = [] ∨ ∃ l₃, l₂ = l₃ ++ [b] ∧ l = l₁ ++ a :: l₃ := by
  constructor
  · intro h
    rcases List.eq_nil_or_concat l₂ with rfl | ⟨l₃, c, rfl⟩
    · obtain ⟨rfl, hlast⟩ := List.append_inj' h rfl
      exact .inl ⟨rfl, (List.singleton_inj.1 hlast).symm, rfl⟩
    · rw [List.concat_eq_append, ← List.cons_append, ← List.append_assoc] at h
      obtain ⟨rfl, hlast⟩ := List.append_inj' h rfl
      obtain rfl := List.singleton_inj.1 hlast
      exact .inr ⟨l₃, List.concat_eq_append, rfl⟩
  · rintro (⟨rfl, rfl, rfl⟩ | ⟨l₃, rfl, rfl⟩)
    · rfl
    · rw [List.append_assoc, List.cons_append]

/-! ### Pools -/

section Pools

variable {Op : Type} {Resp : Op → Type} {World Choice Call : Type} {Out : Call → Type}

/-- A caller of a pool: it has not called yet, it is running a call (or has returned from it, when
the program has), or it was stopped. -/
inductive Caller (Resp : Op → Type) (Call : Type) (Out : Call → Type) : Type
  | idle
  | running (c : Call) (p : Prog Resp (Out c))
  | stopped

/-- A pool: the world, the callers, and all calls that were made so far, in their order. -/
structure Pool (Resp : Op → Type) (World Choice Call : Type) (Out : Call → Type) where
  world : World
  caller : ℕ → Caller Resp Call Out
  history : List (ℕ × Event Resp World Choice)

namespace Pool

/-- The calls of one caller. -/
def trace (P : Pool Resp World Choice Call Out) (t : ℕ) : Trace Resp World Choice :=
  P.history.filterMap fun e => if e.1 = t then some e.2 else none

/-- The pool in which nobody has called yet. -/
def initial (w : World) : Pool Resp World Choice Call Out := ⟨w, fun _ => .idle, []⟩

/-- A caller takes a step. -/
def set (P : Pool Resp World Choice Call Out) (t : ℕ) (w : World)
    (caller : Caller Resp Call Out) : Pool Resp World Choice Call Out :=
  { P with world := w, caller := Function.update P.caller t caller }

/-- A caller takes a step that is recorded. -/
def log (P : Pool Resp World Choice Call Out) (t : ℕ) (e : Event Resp World Choice)
    (caller : Caller Resp Call Out) : Pool Resp World Choice Call Out :=
  { P.set t e.after caller with history := P.history ++ [(t, e)] }

variable (M : Machine Resp World Choice) (body : (c : Call) → Prog Resp (Out c))
variable (stop : ℕ → World → World) (allowed : Pool Resp World Choice Call Out → Call → Prop)

/-- One step of a pool: a caller starts a call that is allowed, makes the next call of its program,
makes it in vain, or is stopped. -/
inductive Step : Pool Resp World Choice Call Out → Pool Resp World Choice Call Out → Prop
  | start {P : Pool Resp World Choice Call Out} {t : ℕ} {c : Call} (hidle : P.caller t = .idle)
      (hallowed : allowed P c) : Step P (P.set t P.world (.running c (body c)))
  | again {P : Pool Resp World Choice Call Out} {t : ℕ} {c : Call} {o : Op} {again : Resp o → Bool}
      {next : Resp o → Prog Resp (Out c)} {choice : Choice} {r : Resp o} {w : World}
      (hrun : P.caller t = .running c (.call o again next))
      (hstep : M.step t P.world o choice = some (r, w)) (hagain : again r = true) :
      Step P (P.set t w (.running c (.call o again next)))
  | call {P : Pool Resp World Choice Call Out} {t : ℕ} {c : Call} {o : Op} {again : Resp o → Bool}
      {next : Resp o → Prog Resp (Out c)} {choice : Choice} {r : Resp o} {w : World}
      (hrun : P.caller t = .running c (.call o again next))
      (hstep : M.step t P.world o choice = some (r, w)) (hagain : again r = false) :
      Step P (P.log t ⟨P.world, o, choice, r, w⟩ (.running c (next r)))
  | stop {P : Pool Resp World Choice Call Out} {t : ℕ} {c : Call} {p : Prog Resp (Out c)}
      (hrun : P.caller t = .running c p) : Step P (P.set t (stop t P.world) .stopped)

/-- The pools that can come about, in any interleaving of the calls. -/
def Reachable (w : World) (P : Pool Resp World Choice Call Out) : Prop :=
  Relation.ReflTransGen (Step M body stop allowed) (initial w) P

variable {M body stop allowed}
variable {P P' : Pool Resp World Choice Call Out} {s t : ℕ} {w : World}
variable {k : Caller Resp Call Out} {e : Event Resp World Choice}

@[simp] theorem world_set : (P.set t w k).world = w := rfl

@[simp] theorem caller_set_self : (P.set t w k).caller t = k := by simp [set]

@[simp] theorem caller_set_of_ne (h : s ≠ t) : (P.set t w k).caller s = P.caller s := by
  simp [set, h]

@[simp] theorem trace_set : (P.set t w k).trace s = P.trace s := rfl

@[simp] theorem world_log : (P.log t e k).world = e.after := rfl

@[simp] theorem caller_log_self : (P.log t e k).caller t = k := by simp [log]

@[simp] theorem caller_log_of_ne (h : s ≠ t) : (P.log t e k).caller s = P.caller s := by
  simp [log, h]

@[simp] theorem history_log : (P.log t e k).history = P.history ++ [(t, e)] := rfl

@[simp] theorem trace_log_self : (P.log t e k).trace t = P.trace t ++ [e] := by simp [trace]

@[simp] theorem trace_log_of_ne (h : s ≠ t) : (P.log t e k).trace s = P.trace s := by
  simp [trace, Ne.symm h]

/-- **A caller that makes its next calls alone** comes as far as it would on its own. -/
theorem Reachable.begun {w₀ : World} {c : Call} {p q : Prog Resp (Out c)}
    {tr : Trace Resp World Choice} {w' : World} (h : Begun M t w p tr w' q)
    (hP : Reachable M body stop allowed w₀ P) (hworld : P.world = w)
    (hrun : P.caller t = .running c p) :
    ∃ P', Reachable M body stop allowed w₀ P' ∧ P'.world = w' ∧
      P'.caller t = .running c q ∧ ∀ s, s ≠ t → P'.caller s = P.caller s := by
  induction h generalizing P with
  | here w p => exact ⟨P, hP, hworld, hrun, fun _ _ => rfl⟩
  | again hstep hagain _ ih =>
      subst hworld
      obtain ⟨P', hP', hw', hret, hothers⟩ := ih (hP.tail (.again hrun hstep hagain)) rfl
        caller_set_self
      exact ⟨P', hP', hw', hret, fun s hs => (hothers s hs).trans (caller_set_of_ne hs)⟩
  | step hstep hagain _ ih =>
      subst hworld
      obtain ⟨P', hP', hw', hret, hothers⟩ := ih (hP.tail (.call hrun hstep hagain)) rfl
        caller_log_self
      exact ⟨P', hP', hw', hret, fun s hs => (hothers s hs).trans (caller_log_of_ne hs)⟩

theorem mem_trace : e ∈ P.trace t ↔ (t, e) ∈ P.history := by
  rw [trace, List.mem_filterMap]
  constructor
  · rintro ⟨⟨s, e'⟩, hmem, heq⟩
    split at heq
    · rename_i hs
      obtain rfl : e' = e := by simpa using heq
      exact hs ▸ hmem
    · simp at heq
  · intro hmem
    exact ⟨(t, e), hmem, by simp⟩

end Pool

section

variable {M : Machine Resp World Choice} {body : (c : Call) → Prog Resp (Out c)}
variable {stop : ℕ → World → World} {allowed : Pool Resp World Choice Call Out → Call → Prop}
variable {C : Op → Prop} {D : (o : Op) → Resp o → Prop}

/-- Up to a call that is answered as `D` says, the trace of a caller has calls of `C` only, and so
it goes on. -/
structure Pool.KeepsUntil (C : Op → Prop) (D : (o : Op) → Resp o → Prop)
    (P : Pool Resp World Choice Call Out) : Prop where
  program : ∀ t c p, P.caller t = .running c p → (∀ e ∈ P.trace t, ¬ D e.op e.resp) →
    p.Until C D fun _ => True
  trace : ∀ t tr₁ e tr₂, P.trace t = tr₁ ++ e :: tr₂ → (∀ e ∈ tr₁, ¬ D e.op e.resp) → C e.op

/-- One step of a pool. -/
theorem Pool.KeepsUntil.step {P P' : Pool Resp World Choice Call Out} (h : P.KeepsUntil C D)
    (hP : Pool.Step M body stop allowed P P') (hbody : ∀ c, (body c).Until C D fun _ => True) :
    P'.KeepsUntil C D := by
  cases hP with
  | @start t c hidle hallowed =>
      refine ⟨fun s c' p hrun => ?_, h.trace⟩
      by_cases hst : s = t
      · subst hst
        rw [Pool.caller_set_self] at hrun
        cases hrun
        exact fun _ => hbody c
      · exact h.program s c' p (by rwa [Pool.caller_set_of_ne hst] at hrun)
  | @again t c o again next choice r w hrun hstep hagain =>
      refine ⟨fun s c' p hrun' => ?_, h.trace⟩
      by_cases hst : s = t
      · subst hst
        rw [Pool.caller_set_self] at hrun'
        exact h.program s c' p (hrun.trans hrun')
      · exact h.program s c' p (by rwa [Pool.caller_set_of_ne hst] at hrun')
  | @call t c o again next choice r w hrun hstep hagain =>
      refine ⟨fun s c' p hrun' => ?_, fun s tr₁ e tr₂ htr hnone => ?_⟩
      · by_cases hst : s = t
        · subst hst
          rw [Pool.caller_log_self] at hrun'
          cases hrun'
          rw [Pool.trace_log_self, List.forall_mem_append, List.forall_mem_singleton]
          -- the program that is left is what the call was promised to leave
          rintro ⟨hnone, hlast⟩
          exact (h.program s c _ hrun hnone).2 r hlast
        · rw [Pool.caller_log_of_ne hst] at hrun'
          rw [Pool.trace_log_of_ne hst]
          exact h.program s c' p hrun'
      · by_cases hst : s = t
        · subst hst
          rw [Pool.trace_log_self] at htr
          -- the event is the new one, or one of the trace so far
          rcases append_singleton_eq_append_cons.1 htr with ⟨rfl, rfl, -⟩ | ⟨tr₃, -, hold⟩
          · exact (h.program s c _ hrun hnone).1
          · exact h.trace s tr₁ e tr₃ hold hnone
        · exact h.trace s tr₁ e tr₂ (by rwa [Pool.trace_log_of_ne hst] at htr) hnone
  | @stop t c p hrun =>
      refine ⟨fun s c' p' hrun' => ?_, h.trace⟩
      by_cases hst : s = t
      · subst hst
        rw [Pool.caller_set_self] at hrun'
        cases hrun'
      · exact h.program s c' p' (by rwa [Pool.caller_set_of_ne hst] at hrun')

/-- **What programs call up to a certain call** shows in every pool. -/
theorem Pool.Reachable.keepsUntil {w : World} {P : Pool Resp World Choice Call Out}
    (hP : Pool.Reachable M body stop allowed w P)
    (hbody : ∀ c, (body c).Until C D fun _ => True) : P.KeepsUntil C D := by
  induction hP with
  | refl =>
      refine ⟨fun t c p hrun => ?_, fun t tr₁ e tr₂ htr => ?_⟩
      · cases hrun
      · exact absurd htr (by simp [Pool.trace, Pool.initial])
  | tail _ hstep ih => exact ih.step hstep hbody

end

/-! ### Contracts -/

variable (M : Machine Resp World Choice) (body : (c : Call) → Prog Resp (Out c))
variable (stop : ℕ → World → World) (allowed : Pool Resp World Choice Call Out → Call → Prop)

/-- What each caller of a pool relies on, guarantees and promises, and what holds of the world at
all times: whatever one caller does, also when it is stopped, is what the others rely on. -/
structure Contract (Resp : Op → Type) (World Choice Call : Type) (Out : Call → Type)
    (stop : ℕ → World → World) where
  rely : ℕ → World → World → Prop
  guarantee : ℕ → World → World → Prop
  may : ℕ → Call → Trace Resp World Choice → World → Prop
  promise : ℕ → (c : Call) → Trace Resp World Choice → Out c → World → Prop
  inv : World → Prop
  rely_refl : ∀ t w, rely t w w
  rely_trans : ∀ t w₁ w₂ w₃, rely t w₁ w₂ → rely t w₂ w₃ → rely t w₁ w₃
  guarantee_rely : ∀ s t w w', s ≠ t → guarantee s w w' → rely t w w'
  stop_rely : ∀ s t w, s ≠ t → rely t w (stop s w)
  guarantee_inv : ∀ t w w', inv w → guarantee t w w' → inv w'
  stop_inv : ∀ t w, inv w → inv (stop t w)

namespace Contract

variable {M body stop allowed} (C : Contract Resp World Choice Call Out stop)
variable {P P' : Pool Resp World Choice Call Out} {t : ℕ}

/-- A program that keeps the contract. -/
def Keeps (M : Machine Resp World Choice) (t : ℕ) (c : Call) (p : Prog Resp (Out c))
    (tr : Trace Resp World Choice) (w : World) : Prop :=
  Safe M t (C.rely t) (C.guarantee t) (C.may t c) (C.promise t c) p tr w

/-- What the contract says of a pool: the invariant holds, and every caller keeps the contract from
some earlier state of the world on. -/
structure Sound (M : Machine Resp World Choice) (P : Pool Resp World Choice Call Out) : Prop where
  inv : C.inv P.world
  idle : ∀ t, P.caller t = .idle → P.trace t = []
  running : ∀ t c p, P.caller t = .running c p →
    ∃ w, C.rely t w P.world ∧ C.Keeps M t c p (P.trace t) w

variable {C}

/-- The next call of a caller, in the world as it is: it may be made, it stays within what is
guaranteed, and the program goes on keeping the contract. -/
theorem Sound.next {c : Call} {o : Op} {again : Resp o → Bool} {next : Resp o → Prog Resp (Out c)}
    {choice : Choice} {r : Resp o} {w : World} (h : C.Sound M P)
    (hrun : P.caller t = .running c (.call o again next))
    (hstep : M.step t P.world o choice = some (r, w)) :
    C.may t c (P.trace t) P.world ∧ C.guarantee t P.world w ∧ (again r = true → w = P.world) ∧
      (again r = false →
        C.Keeps M t c (next r) (P.trace t ++ [⟨P.world, o, choice, r, w⟩]) w) := by
  obtain ⟨w₀, hrely, hsafe⟩ := h.running t c _ hrun
  obtain ⟨hmay, hcalls⟩ := hsafe P.world hrely
  obtain ⟨hg, hagain, hnext⟩ := hcalls choice r w hstep
  exact ⟨hmay, hg, hagain, hnext⟩

/-- Before a call: it may be made. -/
theorem Sound.may {c : Call} {o : Op} {again : Resp o → Bool} {next : Resp o → Prog Resp (Out c)}
    (h : C.Sound M P) (hrun : P.caller t = .running c (.call o again next)) :
    C.may t c (P.trace t) P.world := by
  obtain ⟨w₀, hrely, hsafe⟩ := h.running t c _ hrun
  exact (hsafe P.world hrely).1

/-- A call that is made in vain leaves the pool as it is. -/
theorem Sound.again_eq {c : Call} {o : Op} {again : Resp o → Bool}
    {next : Resp o → Prog Resp (Out c)} {choice : Choice} {r : Resp o} {w : World}
    (h : C.Sound M P) (hrun : P.caller t = .running c (.call o again next))
    (hstep : M.step t P.world o choice = some (r, w)) (hagain : again r = true) :
    P.set t w (.running c (.call o again next)) = P := by
  obtain ⟨-, -, hsame, -⟩ := h.next hrun hstep
  rw [hsame hagain, ← hrun, Pool.set, Function.update_eq_self]

/-- **One step** of a pool keeps it sound, if calls are safe when they start. -/
theorem Sound.step (h : C.Sound M P) (hP : Pool.Step M body stop allowed P P')
    (hstart : ∀ t c, allowed P c → C.Keeps M t c (body c) [] P.world) : C.Sound M P' := by
  -- what another caller has shown is not touched by a step within the guarantee
  have hothers : ∀ {s t w}, t ≠ s → C.guarantee s P.world w → ∀ c p, P.caller t = .running c p →
      ∃ w', C.rely t w' w ∧ C.Keeps M t c p (P.trace t) w' := by
    intro s t w hne hg c p hrun
    obtain ⟨w₀, hrely, hsafe⟩ := h.running t c p hrun
    exact ⟨w₀, C.rely_trans _ _ _ _ hrely (C.guarantee_rely _ _ _ _ (Ne.symm hne) hg), hsafe⟩
  cases hP with
  | @start t c hidle hallowed =>
      refine ⟨h.inv, fun s hs => ?_, fun s c' p hrun => ?_⟩
      · by_cases hst : s = t
        · simp [hst] at hs
        · exact h.idle s (by simpa [hst] using hs)
      · by_cases hst : s = t
        · subst hst
          rw [Pool.caller_set_self] at hrun
          cases hrun
          refine ⟨P.world, C.rely_refl _ _, ?_⟩
          rw [Pool.trace_set, h.idle s hidle]
          exact hstart s c hallowed
        · exact h.running s c' p (by simpa [hst] using hrun)
  | @again t c o again next choice r w hrun hstep hagain =>
      rwa [h.again_eq hrun hstep hagain]
  | @call t c o again next choice r w hrun hstep hagain =>
      obtain ⟨-, hg, -, hnext⟩ := h.next hrun hstep
      refine ⟨C.guarantee_inv _ _ _ h.inv hg, fun s hs => ?_, fun s c' p hrun' => ?_⟩
      · by_cases hst : s = t
        · simp [hst] at hs
        · rw [Pool.trace_log_of_ne hst]
          exact h.idle s (by simpa [hst] using hs)
      · by_cases hst : s = t
        · subst hst
          rw [Pool.caller_log_self] at hrun'
          cases hrun'
          rw [Pool.trace_log_self]
          exact ⟨w, C.rely_refl _ _, hnext hagain⟩
        · rw [Pool.caller_log_of_ne hst] at hrun'
          rw [Pool.trace_log_of_ne hst]
          exact hothers hst hg c' p hrun'
  | @stop t c p hrun =>
      refine ⟨C.stop_inv _ _ h.inv, fun s hs => ?_, fun s c' p hrun' => ?_⟩
      · by_cases hst : s = t
        · simp [hst] at hs
        · exact h.idle s (by simpa [hst] using hs)
      · by_cases hst : s = t
        · simp [hst] at hrun'
        · obtain ⟨w₀, hrely, hsafe⟩ := h.running s c' p (by simpa [hst] using hrun')
          exact ⟨w₀, C.rely_trans _ _ _ _ hrely (C.stop_rely _ _ _ (Ne.symm hst)), hsafe⟩

/-- **A pool of safe programs is safe**, in every interleaving. -/
theorem sound {w : World} (hinv : C.inv w)
    (hstart : ∀ P t c, Pool.Reachable M body stop allowed w P → C.Sound M P → allowed P c →
      C.Keeps M t c (body c) [] P.world)
    (hP : Pool.Reachable M body stop allowed w P) : C.Sound M P := by
  induction hP with
  | refl => exact ⟨hinv, fun _ _ => rfl, fun t c p hrun => by simp [Pool.initial] at hrun⟩
  | tail hreach hstep ih => exact ih.step hstep fun t c => hstart _ t c hreach ih

end Contract

end Pools
