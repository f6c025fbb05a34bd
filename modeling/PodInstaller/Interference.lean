/-
**Programs of the installer among others.**

`PodInstaller.Meets` is what is proved of every function of the installer: run by a caller while
others do no more than `PodInstaller.OthersOnly` allows them, the function stays within a
`PodInstaller.FileGuarantee`, and it ends as the postcondition says.  The rules of this module go
with the ways the functions are put together; facts that neither the others nor a function touches
are carried over it by `PodInstaller.Meets.keeps`.

Main definitions:

* `PodInstaller.OthersOnly` — what one relies on;
* `PodInstaller.Stable` — facts about the world that last while one changes no Quadlet file;
* `PodInstaller.Meets` — a function with its postcondition.

Main results:

* `PodInstaller.Meets.bind`, `PodInstaller.meets_call`, `PodInstaller.meets_attempt`, … — the rules;
* `PodInstaller.meets_of_minor` — functions that only look and prepare;
* `PodInstaller.Meets.exec` — a function that runs alone.
-/

import PodInstaller.Footprint
import PodInstaller.RelyGuarantee

set_option relaxedAutoImplicit false
set_option autoImplicit false

namespace PodInstaller

open Bytes

/-! ### What one relies on -/

/-- What others do is, step by step, what some other caller may do. -/
def OthersOnly (t : ℕ) (R : World → World → Prop) : Prop :=
  ∀ w w', R w w' → Relation.ReflTransGen
    (fun w w' : World => ∃ u, u ≠ t ∧ Framed u w.toSystem w'.toSystem) w w'

section

variable {t : ℕ} {R : World → World → Prop} {w w' : World}

theorem othersOnly_eq : OthersOnly t Eq := by
  rintro w _ rfl
  exact .refl

/-- What no other caller can touch lasts. -/
theorem OthersOnly.lasts (hR : OthersOnly t R) {P : World → Prop}
    (hP : ∀ {u : ℕ} {w w' : World}, u ≠ t → Framed u w.toSystem w'.toSystem → P w → P w')
    (h : R w w') (hw : P w) : P w' := by
  have hsteps := hR w w' h
  clear h
  induction hsteps with
  | refl => exact hw
  | tail _ hstep ih =>
      obtain ⟨u, hne, hframed⟩ := hstep
      exact hP hne hframed ih

/-- A descriptor of one's own lasts. -/
theorem OthersOnly.ofd (hR : OthersOnly t R) (h : R w w') {fd : Fd} {target : OfdTarget}
    {offset : ℕ} (hfd : w.ofd fd = some ⟨target, offset, t⟩) :
    w'.ofd fd = some ⟨target, offset, t⟩ := by
  refine hR.lasts (P := fun w => w.ofd fd = some ⟨target, offset, t⟩) ?_ h hfd
  intro u w w' hne hframed hw
  exact hframed.own_ofd hne hw

end

/-- Facts about the world that last while a caller changes no Quadlet file. -/
structure Stable (t : ℕ) (R : World → World → Prop) (L : World → Prop) : Prop where
  others : ∀ {w w' : World}, R w w' → L w → L w'
  quiet : ∀ {w w' : World}, Guarantee t nothing w.toSystem w'.toSystem → L w → L w'

theorem stable_any {t : ℕ} {R : World → World → Prop} : Stable t R fun _ => True :=
  ⟨fun _ _ => trivial, fun _ _ => trivial⟩

/-! ### The rules -/

/-- What a caller may change, depending on the world. -/
abbrev May := World → UInt32 → Bytes → Option Content → Prop

/-- No Quadlet file at all. -/
abbrev mayNothing : May := fun _ => nothing

/-- A function that is run among others: it stays within the guarantee and ends as the
postcondition says. -/
def Meets (K : Kernel) (t : ℕ) (R : World → World → Prop) (may : May) {α : Type} (p : SysProg α)
    (post : α → World → Prop) (w : World) : Prop :=
  ∀ tr, Safe K.machine t R (fun w w' => FileGuarantee t (may w) w.toSystem w'.toSystem)
    (fun _ _ => True) (fun _ => post) p tr w

section

variable {K : Kernel} {t : ℕ} {R : World → World → Prop} {may may' : May} {α β : Type} {w : World}

theorem Meets.weaken {p : SysProg α} {post post' : α → World → Prop}
    (h : Meets K t R may p post w) (hpost : ∀ a w, post a w → post' a w) :
    Meets K t R may p post' w :=
  fun tr => (h tr).weaken fun _ a w => hpost a w

/-- A function that is allowed more. -/
theorem Meets.allow {p : SysProg α} {post : α → World → Prop} (h : Meets K t R may p post w)
    (hmay : ∀ w uid n c, ¬ Hidden n → may w uid n c → may' w uid n c) :
    Meets K t R may' p post w :=
  fun tr => (h tr).mono (fun _ _ h => h) (fun w _ h => h.mono (hmay w)) (fun _ _ h => h)
    fun _ _ _ h => h

/-- A function that changes no Quadlet file may do so wherever others are changed. -/
theorem Meets.ofQuiet {p : SysProg α} {post : α → World → Prop}
    (h : Meets K t R mayNothing p post w) : Meets K t R may p post w :=
  h.allow fun _ _ _ _ _ h => h.elim

/-- **What lasts** is still so when a function that changes no Quadlet file has ended. -/
theorem Meets.keeps {L : World → Prop} (hL : Stable t R L) {p : SysProg α}
    {post : α → World → Prop} (h : Meets K t R mayNothing p post w) (hw : L w) :
    Meets K t R mayNothing p (fun a w => post a w ∧ L w) w := by
  intro tr
  refine ((h tr).keeps (fun _ _ => hL.others) ?_ hw).mono (fun _ _ h => h) (fun _ _ h => h)
    (fun _ _ _ => trivial) fun _ _ _ h => h
  intro w w' hguar
  exact hL.quiet hguar.toGuarantee

/-- **A function that runs alone.** -/
theorem Meets.exec {p : SysProg α} {post : α → World → Prop} (h : Meets K t R may p post w)
    (hR : ∀ w, R w w) {tr : Trace Sys.Resp World Choice} {w' : World} {a : α}
    (hexec : Exec K.machine t w p tr w' a) : post a w' :=
  ((h []).exec hR hexec).1

/-- What a function that runs alone changes, when what it may change is always the same. -/
theorem Meets.exec_guarantee {allowed : UInt32 → Bytes → Option Content → Prop} {p : SysProg α}
    {post : α → World → Prop} (h : Meets K t R (fun _ => allowed) p post w) (hR : ∀ w, R w w)
    {tr : Trace Sys.Resp World Choice} {w' : World} {a : α}
    (hexec : Exec K.machine t w p tr w' a) :
    FileGuarantee t allowed w.toSystem w'.toSystem := by
  have hsteps := ((h []).exec hR hexec).2
  clear hexec
  induction hsteps with
  | refl => exact .refl _ _ _
  | tail _ hstep ih => exact ih.trans w.wellFormed hstep

theorem meets_ret {a : α} {post : α → World → Prop} (h : post a w) :
    Meets K t R may (.ret a) post w := fun _ => h

theorem meets_pure {a : α} {post : Result α → World → Prop} (h : post (.ok a) w) :
    Meets K t R may (pure a : Action α).run post w := fun _ => h

theorem meets_throw {e : Error} {post : Result α → World → Prop} (h : post (.error e) w) :
    Meets K t R may (throw e : Action α).run post w := fun _ => h

/-- **A sequence.** -/
theorem Meets.bind {x : Action α} {f : α → Action β} {mid : Result α → World → Prop}
    {post : Result β → World → Prop} (hx : Meets K t R may x.run mid w)
    (hok : ∀ a w, mid (.ok a) w → Meets K t R may (f a).run post w)
    (herror : ∀ e w, mid (.error e) w → post (.error e) w) :
    Meets K t R may (x >>= f).run post w :=
  fun tr => safe_exceptT_bind (hx tr) (fun tr a w h => hok a w h tr) fun _ e w h => herror e w h

/-- **A sequence** of programs that return no result. -/
theorem Meets.seq {x : SysProg α} {f : α → SysProg β} {mid : α → World → Prop}
    {post : β → World → Prop} (hx : Meets K t R may x mid w)
    (hf : ∀ a w, mid a w → Meets K t R may (f a) post w) : Meets K t R may (x >>= f) post w :=
  fun tr => safe_bind (hx tr) fun tr a w h => hf a w h tr

/-- What is to be shown of a single call. -/
def CallMeets (K : Kernel) (t : ℕ) (R : World → World → Prop) (may : May) (o : Sys)
    (post : o.Resp → World → Prop) (w : World) : Prop :=
  ∀ (w₁ : World) (c : Choice) (r : o.Resp) (w₂ : World), R w w₁ →
    w₁.toSystem.step K t o c = some (r, w₂.toSystem) →
    FileGuarantee t (may w₁) w₁.toSystem w₂.toSystem ∧ post r w₂

theorem CallMeets.ofQuiet {o : Sys} {post : o.Resp → World → Prop}
    (h : CallMeets K t R mayNothing o post w) : CallMeets K t R may o post w := by
  intro w₁ c r w₂ hw hstep
  obtain ⟨hguar, hpost⟩ := h w₁ c r w₂ hw hstep
  exact ⟨hguar.mono fun _ _ _ _ h => h.elim, hpost⟩

theorem meets_sys {o : Sys} {post : o.Resp → World → Prop} (h : CallMeets K t R may o post w) :
    Meets K t R may (sys o) post w := by
  intro tr
  refine safe_call (fun _ _ => trivial) fun w₁ c r w₂ hw hstep => ?_
  obtain ⟨hguar, hpost⟩ := h w₁ c r w₂ hw (Kernel.machine_step.1 hstep)
  exact ⟨hguar, fun hagain => by simp at hagain, fun _ => hpost⟩

theorem meets_call {o : Sys} {post : Result o.Resp → World → Prop}
    (h : CallMeets K t R may o (fun r => post (.ok r)) w) :
    Meets K t R may (call o).run post w :=
  (meets_sys h).seq fun _ _ hpost => meets_ret hpost

/-- A call, and what is done with its answer. -/
theorem CallMeets.bind {o : Sys} {f : o.Resp → Action β} {mid : o.Resp → World → Prop}
    {post : Result β → World → Prop} (h : CallMeets K t R may o mid w)
    (hf : ∀ r w, mid r w → Meets K t R may (f r).run post w) :
    Meets K t R may (call o >>= f).run post w := by
  have hcall : Meets K t R may (call o).run (fun r w => ∃ a, r = .ok a ∧ mid a w) w := by
    refine meets_call fun w₁ c r w₂ hw hstep => ?_
    obtain ⟨hguar, hmid⟩ := h w₁ c r w₂ hw hstep
    exact ⟨hguar, r, rfl, hmid⟩
  refine hcall.bind ?_ ?_
  · rintro a w ⟨_, ⟨⟩, hmid⟩
    exact hf a w hmid
  · rintro e w ⟨_, ⟨⟩, -⟩

/-- A function, and what is done with its result. -/
theorem Meets.outcomeBind {x : Action α} {f : Result α → Action β} {mid : Result α → World → Prop}
    {post : Result β → World → Prop} (h : Meets K t R may x.run mid w)
    (hf : ∀ r w, mid r w → Meets K t R may (f r).run post w) :
    Meets K t R may (outcome x >>= f).run post w := by
  have hrun : Meets K t R may (outcome x).run (fun r w => ∃ a, r = .ok a ∧ mid a w) w :=
    h.seq fun a w hmid => meets_ret ⟨a, rfl, hmid⟩
  refine hrun.bind ?_ ?_
  · rintro a w ⟨_, ⟨⟩, hmid⟩
    exact hf a w hmid
  · rintro e w ⟨_, ⟨⟩, -⟩

/-- A call that may end the function. -/
theorem Meets.attemptBind {p : SysProg (Except Errno α)} {error : Errno → Error}
    {f : α → Action β} {mid : Except Errno α → World → Prop} {post : Result β → World → Prop}
    (h : Meets K t R may p mid w)
    (hok : ∀ a w, mid (.ok a) w → Meets K t R may (f a).run post w)
    (herror : ∀ e w, mid (.error e) w → post (.error (error e)) w) :
    Meets K t R may (attempt p error >>= f).run post w := by
  have hrun : Meets K t R may (attempt p error).run
      (fun r w => ∃ a, r = a.mapError error ∧ mid a w) w :=
    h.seq fun a w hmid => meets_ret ⟨a, rfl, hmid⟩
  refine hrun.bind ?_ ?_
  · rintro a w ⟨b, heq, hmid⟩
    cases b with
    | ok b =>
        obtain rfl : a = b := by simpa [Except.mapError] using heq
        exact hok a w hmid
    | error e => cases heq
  · rintro e w ⟨b, heq, hmid⟩
    cases b with
    | ok b => cases heq
    | error n =>
        obtain rfl : e = error n := by simpa [Except.mapError] using heq
        exact herror n w hmid

/-- A step without calls that may end the function. -/
theorem meets_done_bind {r : Result α} {f : α → Action β} {post : Result β → World → Prop}
    (hok : ∀ a, r = .ok a → Meets K t R may (f a).run post w)
    (herror : ∀ e, r = .error e → post (.error e) w) :
    Meets K t R may (done r >>= f).run post w := by
  rw [run_exceptT_bind]
  cases r with
  | ok a => exact hok a rfl
  | error e => exact meets_ret (herror e rfl)

/-- A check that may end the function. -/
theorem meets_rejectIf_bind {rejected : Prop} [Decidable rejected] {e : Error}
    {f : Unit → Action β} {post : Result β → World → Prop}
    (hok : ¬ rejected → Meets K t R may (f ()).run post w)
    (herror : rejected → post (.error e) w) :
    Meets K t R may (rejectIf rejected e >>= f).run post w := by
  refine meets_done_bind (fun _ h => hok (reject_eq_ok.1 h)) fun e' h => ?_
  obtain ⟨hrejected, rfl⟩ := reject_eq_error.1 h
  exact herror hrejected

theorem meets_attempt {p : SysProg (Except Errno α)} {error : Errno → Error}
    {post : Result α → World → Prop}
    (h : Meets K t R may p (fun r => post (r.mapError error)) w) :
    Meets K t R may (attempt p error).run post w :=
  h.seq fun _ _ hpost => meets_ret hpost

/-- A call that is made again after answers that come with no change. -/
theorem meets_sysUntil {o : Sys} {again : o.Resp → Bool} {post : o.Resp → World → Prop}
    (h : CallMeets K t R may o post w)
    (hagain : ∀ (w₁ : World) (c : Choice) (r : o.Resp) (w₂ : World), R w w₁ →
      w₁.toSystem.step K t o c = some (r, w₂.toSystem) → again r = true → w₂ = w₁) :
    Meets K t R may (sysUntil o again) post w := by
  intro tr
  refine safe_call (fun _ _ => trivial) fun w₁ c r w₂ hw hstep => ?_
  have hstep' := Kernel.machine_step.1 hstep
  obtain ⟨hguar, hpost⟩ := h w₁ c r w₂ hw hstep'
  exact ⟨hguar, hagain w₁ c r w₂ hw hstep', fun _ => hpost⟩

/-! ### Functions that only look and prepare -/

/-- A call that makes a small change only, and is made once. -/
def MinorOnce (o : Sys) (again : o.Resp → Bool) : Prop := o.isMinor = true ∧ ∀ r, again r = false

/-- **Functions that only look and prepare** change no Quadlet file, and keep what small changes
keep. -/
theorem meets_of_minor {p : SysProg α} (hp : p.Calls MinorOnce) {P : World → Prop}
    (hothers : ∀ w w', R w w' → P w → P w')
    (hminor : ∀ w w' : World, System.Minor t w.toSystem w'.toSystem → P w → P w') (hw : P w) :
    Meets K t R mayNothing p (fun _ => P) w := by
  intro tr
  have hsafe : Safe K.machine t R (fun w w' => System.Minor t w.toSystem w'.toSystem)
      (fun _ _ => True) (fun _ _ _ => True) p tr w := by
    refine safe_of_calls hp (fun o again c w r w' ho hstep => ?_) fun _ _ => trivial
    refine ⟨System.step_minor w.wellFormed ho.1 (Kernel.machine_step.1 hstep), fun hagain => ?_⟩
    rw [ho.2 r] at hagain
    exact absurd hagain Bool.false_ne_true
  refine (hsafe.keeps hothers hminor hw).mono (fun _ _ h => h) ?_ (fun _ _ _ => trivial)
    fun _ _ _ h => h.2
  intro w w' h
  exact h.fileGuarantee w.wellFormed

theorem Stable.minor {L : World → Prop} (hL : Stable t R L) {w w' : World}
    (h : System.Minor t w.toSystem w'.toSystem) (hw : L w) : L w' :=
  hL.quiet (h.fileGuarantee w.wellFormed).toGuarantee hw

theorem minorOnce {o : Sys} (h : o.isMinor = true) : MinorOnce o fun _ => false := ⟨h, fun _ => rfl⟩

end

end PodInstaller
