/-
**Machines that are put together.**

Two machines can stand side by side: a program calls on either of them, and neither sees the other.
Or one stands on top of the other: some calls of the upper machine are answered by programs that run
on the lower one, and the upper machine is left with a choice that gives this answer.  A run on
machines that are put together is a run on each of them.  Nothing here mentions any particular
program or machine.

Main definitions:

* `SumResp`, `Prog.inl`, `Prog.inr`, `Machine.beside` — machines side by side;
* `Handler`, `Machine.link` — a machine on top of another one;
* `Handler.Threaded` — the runs on the lower machine, one after another.

Main results:

* `exec_inl`, `exec_inr` — a program that calls on one of two machines;
* `Exec.outer` — **a run on linked machines is a run on the upper one**;
* `Exec.threaded` — and the lower one runs the programs that answer its calls.
-/

import PodInstaller.Interaction

set_option relaxedAutoImplicit false
set_option autoImplicit false

/-! ### Side by side -/

section Beside

variable {Op₁ Op₂ : Type} {Resp₁ : Op₁ → Type} {Resp₂ : Op₂ → Type} {World₁ World₂ : Type}
variable {Choice₁ Choice₂ α β : Type}

/-- The answers to the calls on two machines. -/
abbrev SumResp (Resp₁ : Op₁ → Type) (Resp₂ : Op₂ → Type) : Op₁ ⊕ Op₂ → Type
  | .inl o => Resp₁ o
  | .inr o => Resp₂ o

/-- A program that calls on the first machine only. -/
def Prog.inl : Prog Resp₁ α → Prog (SumResp Resp₁ Resp₂) α
  | .ret a => .ret a
  | .call o again next => .call (.inl o) again fun r => (next r).inl

/-- A program that calls on the second machine only. -/
def Prog.inr : Prog Resp₂ α → Prog (SumResp Resp₁ Resp₂) α
  | .ret a => .ret a
  | .call o again next => .call (.inr o) again fun r => (next r).inr

/-- Two machines that do not see each other. -/
def Machine.beside (M₁ : Machine Resp₁ World₁ Choice₁) (M₂ : Machine Resp₂ World₂ Choice₂) :
    Machine (SumResp Resp₁ Resp₂) (World₁ × World₂) (Choice₁ ⊕ Choice₂) where
  step t w
    | .inl o => fun
      | .inl c => (M₁.step t w.1 o c).map fun out => (out.1, out.2, w.2)
      | .inr _ => none
    | .inr o => fun
      | .inl _ => none
      | .inr c => (M₂.step t w.2 o c).map fun out => (out.1, w.1, out.2)

/-- A call on the first machine, beside the second one. -/
def Event.inl (v : World₂) (e : Event Resp₁ World₁ Choice₁) :
    Event (SumResp Resp₁ Resp₂) (World₁ × World₂) (Choice₁ ⊕ Choice₂) :=
  ⟨(e.before, v), .inl e.op, .inl e.choice, e.resp, (e.after, v)⟩

/-- A call on the second machine, beside the first one. -/
def Event.inr (v : World₁) (e : Event Resp₂ World₂ Choice₂) :
    Event (SumResp Resp₁ Resp₂) (World₁ × World₂) (Choice₁ ⊕ Choice₂) :=
  ⟨(v, e.before), .inr e.op, .inr e.choice, e.resp, (v, e.after)⟩

/-- What the first machine records of a call, if the call is its own. -/
def Event.left : Event (SumResp Resp₁ Resp₂) (World₁ × World₂) (Choice₁ ⊕ Choice₂) →
    Option (Event Resp₁ World₁ Choice₁)
  | ⟨before, .inl o, .inl c, r, after⟩ => some ⟨before.1, o, c, r, after.1⟩
  | _ => none

/-- What the second machine records of a call, if the call is its own. -/
def Event.right : Event (SumResp Resp₁ Resp₂) (World₁ × World₂) (Choice₁ ⊕ Choice₂) →
    Option (Event Resp₂ World₂ Choice₂)
  | ⟨before, .inr o, .inr c, r, after⟩ => some ⟨before.2, o, c, r, after.2⟩
  | _ => none

/-- What happens on the first machine. -/
def lefts (tr : List (Event (SumResp Resp₁ Resp₂) (World₁ × World₂) (Choice₁ ⊕ Choice₂))) :
    List (Event Resp₁ World₁ Choice₁) := tr.filterMap Event.left

/-- What happens on the second machine. -/
def rights (tr : List (Event (SumResp Resp₁ Resp₂) (World₁ × World₂) (Choice₁ ⊕ Choice₂))) :
    List (Event Resp₂ World₂ Choice₂) := tr.filterMap Event.right

theorem lefts_append
    (tr tr' : List (Event (SumResp Resp₁ Resp₂) (World₁ × World₂) (Choice₁ ⊕ Choice₂))) :
    lefts (tr ++ tr') = lefts tr ++ lefts tr' := List.filterMap_append

theorem rights_append
    (tr tr' : List (Event (SumResp Resp₁ Resp₂) (World₁ × World₂) (Choice₁ ⊕ Choice₂))) :
    rights (tr ++ tr') = rights tr ++ rights tr' := List.filterMap_append

theorem lefts_inl (v : World₂) (tr : List (Event Resp₁ World₁ Choice₁)) :
    lefts (tr.map (Event.inl v :
      _ → Event (SumResp Resp₁ Resp₂) (World₁ × World₂) (Choice₁ ⊕ Choice₂))) = tr := by
  induction tr with
  | nil => rfl
  | cons e tr ih => exact congrArg (e :: ·) ih

theorem lefts_inr (v : World₁) (tr : List (Event Resp₂ World₂ Choice₂)) :
    lefts (tr.map (Event.inr v :
      _ → Event (SumResp Resp₁ Resp₂) (World₁ × World₂) (Choice₁ ⊕ Choice₂))) = [] := by
  induction tr with
  | nil => rfl
  | cons e tr ih => exact ih

theorem rights_inl (v : World₂) (tr : List (Event Resp₁ World₁ Choice₁)) :
    rights (tr.map (Event.inl v :
      _ → Event (SumResp Resp₁ Resp₂) (World₁ × World₂) (Choice₁ ⊕ Choice₂))) = [] := by
  induction tr with
  | nil => rfl
  | cons e tr ih => exact ih

theorem rights_inr (v : World₁) (tr : List (Event Resp₂ World₂ Choice₂)) :
    rights (tr.map (Event.inr v :
      _ → Event (SumResp Resp₁ Resp₂) (World₁ × World₂) (Choice₁ ⊕ Choice₂))) = tr := by
  induction tr with
  | nil => rfl
  | cons e tr ih => exact congrArg (e :: ·) ih

/-- One machine after the other: what happens on the first one. -/
theorem lefts_inl_append_inr (v₂ : World₂) (v₁ : World₁) (tr₁ : List (Event Resp₁ World₁ Choice₁))
    (tr₂ : List (Event Resp₂ World₂ Choice₂)) :
    lefts (tr₁.map (Event.inl v₂) ++ tr₂.map (Event.inr v₁)) = tr₁ := by
  rw [lefts_append, lefts_inl, lefts_inr, List.append_nil]

/-- One machine after the other: what happens on the second one. -/
theorem rights_inl_append_inr (v₂ : World₂) (v₁ : World₁) (tr₁ : List (Event Resp₁ World₁ Choice₁))
    (tr₂ : List (Event Resp₂ World₂ Choice₂)) :
    rights (tr₁.map (Event.inl v₂) ++ tr₂.map (Event.inr v₁)) = tr₂ := by
  rw [rights_append, rights_inl, rights_inr, List.nil_append]

variable {M₁ : Machine Resp₁ World₁ Choice₁} {M₂ : Machine Resp₂ World₂ Choice₂} {t : ℕ}
variable {w w' : World₁ × World₂} {a : α}
variable {tr : List (Event (SumResp Resp₁ Resp₂) (World₁ × World₂) (Choice₁ ⊕ Choice₂))}

theorem beside_step_inl {o : Op₁} {c : Choice₁ ⊕ Choice₂} {r : Resp₁ o} :
    (M₁.beside M₂).step t w (.inl o) c = some (r, w') ↔
      ∃ c₁, c = .inl c₁ ∧ M₁.step t w.1 o c₁ = some (r, w'.1) ∧ w'.2 = w.2 := by
  cases c with
  | inl c =>
      simp only [Machine.beside, Option.map_eq_some_iff, Prod.exists, Prod.mk.injEq,
        Sum.inl.injEq, exists_eq_left']
      constructor
      · intro h
        obtain ⟨r', w₁, hstep, rfl, rfl⟩ := h
        exact ⟨hstep, rfl⟩
      · intro h
        obtain ⟨hstep, hsame⟩ := h
        exact ⟨r, w'.1, hstep, rfl, by rw [← hsame]⟩
  | inr c => simp [Machine.beside]

theorem beside_step_inr {o : Op₂} {c : Choice₁ ⊕ Choice₂} {r : Resp₂ o} :
    (M₁.beside M₂).step t w (.inr o) c = some (r, w') ↔
      ∃ c₂, c = .inr c₂ ∧ M₂.step t w.2 o c₂ = some (r, w'.2) ∧ w'.1 = w.1 := by
  cases c with
  | inl c => simp [Machine.beside]
  | inr c =>
      simp only [Machine.beside, Option.map_eq_some_iff, Prod.exists, Prod.mk.injEq,
        Sum.inr.injEq, exists_eq_left']
      constructor
      · intro h
        obtain ⟨r', w₂, hstep, rfl, rfl⟩ := h
        exact ⟨hstep, rfl⟩
      · intro h
        obtain ⟨hstep, hsame⟩ := h
        exact ⟨r, w'.2, hstep, rfl, by rw [← hsame]⟩

/-- **A program that calls on the first machine only.** -/
theorem exec_inl {p : Prog Resp₁ α} (h : Exec (M₁.beside M₂) t w p.inl tr w' a) :
    ∃ tr₁, Exec M₁ t w.1 p tr₁ w'.1 a ∧ w'.2 = w.2 ∧ tr = tr₁.map (Event.inl w.2) := by
  generalize hq : (p.inl : Prog (SumResp Resp₁ Resp₂) α) = q at h
  induction h generalizing p with
  | ret w b =>
      cases p with
      | ret b' =>
          cases hq
          exact ⟨[], .ret _ _, rfl, rfl⟩
      | call o again next => cases hq
  | again hstep hagain _ ih =>
      cases p with
      | ret b' => cases hq
      | call o again next =>
          cases hq
          obtain ⟨c, -, hstep, hsame⟩ := beside_step_inl.1 hstep
          obtain ⟨tr₁, hexec, hsame', htr⟩ := ih (p := .call o again next) rfl
          exact ⟨tr₁, .again hstep hagain hexec, hsame'.trans hsame, by rw [htr, hsame]⟩
  | @step w w₁ w' o c r again next tr a hstep hagain hrest ih =>
      cases p with
      | ret b' => cases hq
      | call o' again' next' =>
          cases hq
          obtain ⟨c, rfl, hstep, hsame⟩ := beside_step_inl.1 hstep
          obtain ⟨tr₁, hexec, hsame', htr⟩ := ih rfl
          refine ⟨⟨w.1, o', c, r, w₁.1⟩ :: tr₁, .step hstep hagain hexec, hsame'.trans hsame, ?_⟩
          have hafter : w₁ = (w₁.1, w.2) := by rw [← hsame]
          rw [List.map_cons, htr, hsame, Event.inl, ← hafter]

/-- **A program that calls on the second machine only.** -/
theorem exec_inr {p : Prog Resp₂ α} (h : Exec (M₁.beside M₂) t w p.inr tr w' a) :
    ∃ tr₂, Exec M₂ t w.2 p tr₂ w'.2 a ∧ w'.1 = w.1 ∧ tr = tr₂.map (Event.inr w.1) := by
  generalize hq : (p.inr : Prog (SumResp Resp₁ Resp₂) α) = q at h
  induction h generalizing p with
  | ret w b =>
      cases p with
      | ret b' =>
          cases hq
          exact ⟨[], .ret _ _, rfl, rfl⟩
      | call o again next => cases hq
  | again hstep hagain _ ih =>
      cases p with
      | ret b' => cases hq
      | call o again next =>
          cases hq
          obtain ⟨c, -, hstep, hsame⟩ := beside_step_inr.1 hstep
          obtain ⟨tr₂, hexec, hsame', htr⟩ := ih (p := .call o again next) rfl
          exact ⟨tr₂, .again hstep hagain hexec, hsame'.trans hsame, by rw [htr, hsame]⟩
  | @step w w₁ w' o c r again next tr a hstep hagain hrest ih =>
      cases p with
      | ret b' => cases hq
      | call o' again' next' =>
          cases hq
          obtain ⟨c, rfl, hstep, hsame⟩ := beside_step_inr.1 hstep
          obtain ⟨tr₂, hexec, hsame', htr⟩ := ih rfl
          refine ⟨⟨w.2, o', c, r, w₁.2⟩ :: tr₂, .step hstep hagain hexec, hsame'.trans hsame, ?_⟩
          have hafter : w₁ = (w.1, w₁.2) := by rw [← hsame]
          rw [List.map_cons, htr, hsame, Event.inr, ← hafter]

end Beside

/-! ### On top of one another -/

section Link

variable {Op Op' : Type} {Resp : Op → Type} {Resp' : Op' → Type}
variable {World World' Choice Choice' Extra α : Type}

/-- What answers some of the calls of a machine: programs for another one, and the choices with
which the machine gives the answers of these programs. -/
structure Handler (Resp : Op → Type) (Resp' : Op' → Type) (Choice Extra : Type) where
  prog : (o : Op) → Option (Prog Resp' (Resp o))
  choose : (o : Op) → Resp o → Extra → Choice

/-- The choices for linked machines: a choice for the upper machine, or the choices for a program on
the lower one, and what is left open for the upper one. -/
inductive LinkChoice (Choice Choice' Extra : Type)
  | direct (c : Choice)
  | handled (inner : List Choice') (x : Extra)

/-- The choice that the upper machine makes for a call that is answered with `r`. -/
def LinkChoice.outer (H : Handler Resp Resp' Choice Extra) {o : Op} (r : Resp o) :
    LinkChoice Choice Choice' Extra → Choice
  | .direct c => c
  | .handled _ x => H.choose o r x

/-- A machine that answers some of its calls by programs that run on another one. -/
def Machine.link (M : Machine Resp World Choice) (M' : Machine Resp' World' Choice')
    (H : Handler Resp Resp' Choice Extra) :
    Machine Resp (World × World') (LinkChoice Choice Choice' Extra) where
  step t w o
    | .direct c =>
      if (H.prog o).isNone then (M.step t w.1 o c).map fun out => (out.1, out.2, w.2) else none
    | .handled inner x => do
      let p ← H.prog o
      let out ← run M' t inner w.2 p
      let out' ← M.step t w.1 o (H.choose o out.2.2 x)
      return (out'.1, out'.2, out.2.1)

/-- The upper machine gives the answers that it is given. -/
def Handler.Lawful (H : Handler Resp Resp' Choice Extra) (M : Machine Resp World Choice) : Prop :=
  ∀ t w o r x r' w', (H.prog o).isSome → M.step t w o (H.choose o r x) = some (r', w') → r' = r

/-- What the upper machine records of a call. -/
def Event.outer (H : Handler Resp Resp' Choice Extra)
    (e : Event Resp (World × World') (LinkChoice Choice Choice' Extra)) :
    Event Resp World Choice :=
  ⟨e.before.1, e.op, e.choice.outer H e.resp, e.resp, e.after.1⟩

/-- The runs on the lower machine, for the calls of a trace that it answers. -/
inductive Handler.Threaded (H : Handler Resp Resp' Choice Extra)
    (M' : Machine Resp' World' Choice') (t : ℕ) :
    World' → List (Event Resp (World × World') (LinkChoice Choice Choice' Extra)) → World' → Prop
  | nil (v : World') : Threaded H M' t v [] v
  | direct {v v' : World'} {e : Event Resp (World × World') (LinkChoice Choice Choice' Extra)}
      {tr : List (Event Resp (World × World') (LinkChoice Choice Choice' Extra))}
      (hnone : H.prog e.op = none) (rest : Threaded H M' t v tr v') :
      Threaded H M' t v (e :: tr) v'
  | handled {v v₁ v' : World'}
      {e : Event Resp (World × World') (LinkChoice Choice Choice' Extra)}
      {p : Prog Resp' (Resp e.op)}
      {tr : List (Event Resp (World × World') (LinkChoice Choice Choice' Extra))}
      {inner : List (Event Resp' World' Choice')} (hsome : H.prog e.op = some p)
      (hexec : Exec M' t v p inner v₁ e.resp) (rest : Threaded H M' t v₁ tr v') :
      Threaded H M' t v (e :: tr) v'

variable {M : Machine Resp World Choice} {M' : Machine Resp' World' Choice'} {t : ℕ}
variable {H : Handler Resp Resp' Choice Extra} {w w' : World × World'} {a : α}
variable {tr : List (Event Resp (World × World') (LinkChoice Choice Choice' Extra))}

/-- **What a call on linked machines does.** -/
theorem link_step {o : Op} {c : LinkChoice Choice Choice' Extra} {r : Resp o}
    (hlaw : H.Lawful M) (h : (M.link M' H).step t w o c = some (r, w')) :
    M.step t w.1 o (c.outer H r) = some (r, w'.1) ∧
      (H.prog o = none ∧ w'.2 = w.2 ∨
        ∃ p inner, H.prog o = some p ∧ Exec M' t w.2 p inner w'.2 r) := by
  cases c with
  | direct c =>
      simp only [Machine.link] at h
      split at h
      · rename_i hnone
        obtain ⟨⟨r', w₁⟩, hstep, heq⟩ := Option.map_eq_some_iff.1 h
        obtain ⟨rfl, rfl⟩ := Prod.mk.inj heq
        exact ⟨hstep, .inl ⟨Option.isNone_iff_eq_none.1 hnone, rfl⟩⟩
      · cases h
  | handled inner x =>
      simp only [Machine.link, Option.bind_eq_bind, Option.bind_eq_some_iff, Option.pure_def,
        Option.some.injEq, Prod.exists, Prod.mk.injEq] at h
      obtain ⟨p, hsome, tr', v, r₀, hrun, r', w₁, hstep, rfl, rfl⟩ := h
      have hsame := hlaw _ _ _ _ _ _ _ (by rw [hsome]; rfl) hstep
      rw [← hsame] at hstep hrun
      exact ⟨hstep, .inr ⟨p, tr', hsome, exec_of_run hrun⟩⟩

/-- **A run on linked machines is a run on the upper one.** -/
theorem Exec.outer (hlaw : H.Lawful M) {p : Prog Resp α}
    (h : Exec (M.link M' H) t w p tr w' a) :
    Exec M t w.1 p (tr.map (Event.outer H)) w'.1 a := by
  induction h with
  | ret w b => exact .ret _ _
  | again hstep hagain _ ih => exact .again (link_step hlaw hstep).1 hagain ih
  | step hstep hagain _ ih => exact .step (link_step hlaw hstep).1 hagain ih

/-- **What the lower machine runs**, for a program whose calls that it answers are made once. -/
theorem Exec.threaded (hlaw : H.Lawful M) {p : Prog Resp α}
    (hcalls : p.Calls fun o again => (H.prog o).isSome → ∀ r, again r = false)
    (h : Exec (M.link M' H) t w p tr w' a) : H.Threaded M' t w.2 tr w'.2 := by
  induction h with
  | ret w b => exact .nil _
  | again hstep hagain _ ih =>
      rcases (link_step hlaw hstep).2 with ⟨-, hsame⟩ | ⟨q, inner, hsome, -⟩
      · rw [← hsame]
        exact ih hcalls
      · -- a call that the lower machine answers is not made again
        rw [hcalls.1 (by rw [hsome]; rfl)] at hagain
        cases hagain
  | step hstep hagain _ ih =>
      rcases (link_step hlaw hstep).2 with ⟨hnone, hsame⟩ | ⟨q, inner, hsome, hexec⟩
      · refine .direct hnone ?_
        rw [← hsame]
        exact ih (hcalls.2 _)
      · exact .handled hsome hexec (ih (hcalls.2 _))

end Link
