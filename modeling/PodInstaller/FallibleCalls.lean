/-
**Programs all of whose runs end well.**

`Ensures` says of a program that every run of it, whatever the environment chooses, ends as
promised.  This module has the rules to show it: for single calls, for calls that are made again
while the world goes on, and for sequences whose parts can fail.  Nothing here mentions any
particular program or machine.

Main definitions:

* `orFail` — a call whose failure ends a function;
* `Ensures` — what every run of a program ends with.

Main results:

* `ensures_performUntil` — a call that is made again, with what holds meanwhile;
* `Ensures.liftBind`, `Ensures.orFailBind` — sequences that can fail.
-/

import PodInstaller.Interaction

set_option relaxedAutoImplicit false
set_option autoImplicit false

section FallibleCalls

variable {Op : Type} {Resp : Op → Type} {World Choice α β ε δ : Type}

/-- A call whose failure ends a function, with an error made from what went wrong. -/
def orFail (p : Prog Resp (Except δ α)) (error : δ → ε) : ExceptT ε (Prog Resp) α :=
  ExceptT.mk (p >>= fun r => pure (r.mapError error))

theorem run_lift_bind (p : Prog Resp α) (f : α → ExceptT ε (Prog Resp) β) :
    (ExceptT.lift p >>= f).run = p >>= fun a => (f a).run := by
  have hlift : (ExceptT.lift p : ExceptT ε (Prog Resp) α).run = p >>= fun a => .ret (.ok a) := rfl
  rw [run_exceptT_bind, hlift, Prog.bind_assoc]
  rfl

theorem run_orFail_bind (p : Prog Resp (Except δ α)) (error : δ → ε)
    (f : α → ExceptT ε (Prog Resp) β) :
    (orFail p error >>= f).run = p >>= fun
      | .ok a => (f a).run
      | .error e => .ret (.error (error e)) := by
  rw [run_exceptT_bind, orFail, ExceptT.run_mk, Prog.bind_assoc]
  congr 1
  funext r
  cases r <;> rfl

section Exec

variable {M : Machine Resp World Choice} {t : ℕ} {w w' : World}
variable {tr : List (Event Resp World Choice)}

/-- A call that succeeds. -/
theorem exec_orFail_ok {p : Prog Resp (Except δ α)} {error : δ → ε} {a : α} :
    Exec M t w (orFail p error).run tr w' (.ok a) ↔ Exec M t w p tr w' (.ok a) := by
  rw [orFail, ExceptT.run_mk, exec_bind]
  constructor
  · intro h
    obtain ⟨tr₁, w₁, r, tr₂, h₁, h₂, rfl⟩ := h
    obtain ⟨rfl, rfl, hr⟩ := exec_ret.1 h₂
    cases r with
    | ok b =>
        obtain rfl := Except.ok.inj hr
        rwa [List.append_nil]
    | error e => cases hr
  · intro h
    exact ⟨tr, w', .ok a, [], h, .ret _ _, (List.append_nil tr).symm⟩

/-- A call that changes nothing as long as it is made in vain. -/
theorem exec_performUntil {o : Op} {again : Resp o → Bool} {r : Resp o}
    (hagain : ∀ {c r w'}, M.step t w o c = some (r, w') → again r = true → w' = w)
    (h : Exec M t w (Prog.performUntil o again) tr w' r) :
    ∃ c, M.step t w o c = some (r, w') ∧ again r = false ∧ tr = [⟨w, o, c, r, w'⟩] := by
  generalize hp : Prog.performUntil o again = p at h
  induction h with
  | ret w b => cases hp
  | again hstep hr _ ih =>
      cases hp
      obtain rfl := hagain hstep hr
      exact ih hagain rfl
  | step hstep hr hrest _ =>
      cases hp
      obtain ⟨rfl, rfl, rfl⟩ := exec_ret.1 hrest
      exact ⟨_, hstep, hr, rfl⟩

end Exec

variable (M : Machine Resp World Choice) (t : ℕ)

/-- Every run of a program ends with `Q`. -/
abbrev Ensures (p : Prog Resp α) (Q : α → World → Prop) (w : World) : Prop :=
  Delivers M t (fun _ => True) p Q w

variable {M t} {w : World}

theorem Ensures.exec {p : Prog Resp α} {Q : α → World → Prop} (h : Ensures M t p Q w)
    {tr : List (Event Resp World Choice)} {w' : World} {a : α}
    (hexec : Exec M t w p tr w' a) : Q a w' := h tr w' a hexec fun _ _ => trivial

/-- **A call that is made again**, while `I` holds of the world. -/
theorem ensures_performUntil {o : Op} {again : Resp o → Bool} {I : World → Prop}
    {Q : Resp o → World → Prop} (hw : I w)
    (hagain : ∀ w c r w', I w → M.step t w o c = some (r, w') → again r = true → I w')
    (h : ∀ w c r w', I w → M.step t w o c = some (r, w') → again r = false → Q r w') :
    Ensures M t (Prog.performUntil o again) Q w := by
  intro tr w' a hexec htr
  clear htr
  generalize hp : Prog.performUntil o again = p at hexec
  induction hexec with
  | ret w b => cases hp
  | again hstep hr _ ih =>
      cases hp
      exact ih (hagain _ _ _ _ hw hstep hr) rfl
  | step hstep hr hrest _ =>
      cases hp
      obtain ⟨rfl, rfl, rfl⟩ := exec_ret.1 hrest
      exact h _ _ _ _ hw hstep hr

/-- A call that is made again whatever it is answered never returns. -/
theorem ensures_forever {o : Op} {next : Resp o → Prog Resp α} {Q : α → World → Prop} :
    Ensures M t (.call o (fun _ => true) next) Q w := by
  intro tr w' a hexec _
  obtain ⟨_, _, _, _, _, -, hagain, -⟩ := exec_call hexec
  cases hagain

theorem Ensures.liftBind {p : Prog Resp α} {f : α → ExceptT ε (Prog Resp) β}
    {P : α → World → Prop} {Q : Except ε β → World → Prop} (hp : Ensures M t p P w)
    (hf : ∀ a w, P a w → Ensures M t (f a).run Q w) :
    Ensures M t (ExceptT.lift p >>= f).run Q w := by
  rw [run_lift_bind]
  exact Delivers.bind hp hf

theorem Ensures.orFailBind {p : Prog Resp (Except δ α)} {error : δ → ε}
    {f : α → ExceptT ε (Prog Resp) β} {P : Except δ α → World → Prop}
    {Q : Except ε β → World → Prop} (hp : Ensures M t p P w)
    (hok : ∀ a w, P (.ok a) w → Ensures M t (f a).run Q w)
    (herror : ∀ e w, P (.error e) w → Q (.error (error e)) w) :
    Ensures M t (orFail p error >>= f).run Q w := by
  rw [run_orFail_bind]
  refine Delivers.bind hp fun r w h => ?_
  cases r with
  | ok a => exact hok a w h
  | error e => exact delivers_ret (herror e w h)

theorem ensures_orFail {p : Prog Resp (Except δ α)} {error : δ → ε} {P : Except δ α → World → Prop}
    {Q : Except ε α → World → Prop} (hp : Ensures M t p P w)
    (hok : ∀ a w, P (.ok a) w → Q (.ok a) w)
    (herror : ∀ e w, P (.error e) w → Q (.error (error e)) w) :
    Ensures M t (orFail p error).run Q w := by
  refine Delivers.bind hp fun r w h => ?_
  cases r with
  | ok a => exact delivers_ret (hok a w h)
  | error e => exact delivers_ret (herror e w h)

/-- A call that does not fail. -/
theorem succeeds_orFail {F : Event Resp World Choice → Prop} {p : Prog Resp (Except δ α)}
    {error : δ → ε} {Q : α → World → Prop}
    (hp : Delivers M t F p (fun r w => ∃ a, r = .ok a ∧ Q a w) w) :
    Succeeds M t F (orFail p error) Q w := by
  refine Delivers.bind hp fun r w h => ?_
  obtain ⟨a, rfl, hQ⟩ := h
  exact delivers_ret ⟨a, rfl, hQ⟩

/-- A sequence whose first part may fail. -/
theorem Ensures.exceptTBind {x : ExceptT ε (Prog Resp) α} {f : α → ExceptT ε (Prog Resp) β}
    {P : Except ε α → World → Prop} {Q : Except ε β → World → Prop} (hx : Ensures M t x.run P w)
    (hok : ∀ a w, P (.ok a) w → Ensures M t (f a).run Q w)
    (herror : ∀ e w, P (.error e) w → Q (.error e) w) : Ensures M t (x >>= f).run Q w := by
  rw [run_exceptT_bind]
  refine Delivers.bind hx fun r w h => ?_
  cases r with
  | ok a => exact hok a w h
  | error e => exact delivers_ret (herror e w h)

end FallibleCalls
