/-
**Callers of one tree.**

Several callers, threads of one process or processes, work in one tree.  Each relies on the others
to do no more than each of them guarantees, also where a caller is killed between two of its calls:
its descriptors are closed, its locks are released, and its files are left as they are.

Main definitions:

* `PodInstaller.World.exit` — a caller is killed;
* `PodInstaller.Rely`, `PodInstaller.treeContract` — callers that rely on what the others guarantee.

Main results:

* `PodInstaller.change_exit` — a caller that is killed changes no Quadlet file;
* `PodInstaller.othersOnly_rely`, `PodInstaller.Rely.lasts` — what one may rely on.
-/

import PodInstaller.Interference

set_option relaxedAutoImplicit false
set_option autoImplicit false

namespace PodInstaller

open Bytes

/-! ### A caller that is killed -/

namespace System

/-- The descriptors of a caller are closed, which releases its locks. -/
def exit (s : System) (t : ℕ) : System :=
  { s with
    ofd := fun fd => (s.ofd fd).filter fun o => o.owner ≠ t
    lock := fun i => (s.lock i).filter fun fd => (s.ofd fd).any fun o => o.owner ≠ t }

variable {s : System} {t : ℕ}

theorem exit_ofd {fd : Fd} {o : Ofd} :
    (s.exit t).ofd fd = some o ↔ s.ofd fd = some o ∧ o.owner ≠ t := by
  simp [exit]

theorem exit_lock {i : ℕ} {fd : Fd} : (s.exit t).lock i = some fd ↔
    s.lock i = some fd ∧ ∃ o, s.ofd fd = some o ∧ o.owner ≠ t := by
  simp [exit, Option.any_eq_true]

theorem wellFormed_exit (hs : s.WellFormed) (t : ℕ) : (s.exit t).WellFormed where
  sub_root := hs.sub_root
  entry_dir := hs.entry_dir
  entry_lt := hs.entry_lt
  ofd_lt h := by
    obtain ⟨o, ho⟩ := Option.ne_none_iff_exists'.1 h
    refine hs.ofd_lt ?_
    rw [(exit_ofd.1 ho).1]
    exact Option.some_ne_none o
  target_lt h ho := hs.target_lt (exit_ofd.1 h).1 ho
  lock_ofd h := by
    obtain ⟨hlock, o, ho, howner⟩ := exit_lock.1 h
    obtain ⟨o', ho', htarget⟩ := hs.lock_ofd hlock
    obtain rfl : o = o' := Option.some.inj (ho.symm.trans ho')
    exact ⟨o, exit_ofd.2 ⟨ho, howner⟩, htarget⟩
  linked_once := hs.linked_once
  link_kind := hs.link_kind

end System

/-- A caller is killed. -/
def World.exit (t : ℕ) (w : World) : World :=
  ⟨w.toSystem.exit t, System.wellFormed_exit w.wellFormed t⟩

/-- **A caller that is killed** changes no Quadlet file. -/
theorem change_exit {t : ℕ} {may : UInt32 → Bytes → Option Content → Prop} (w : World) :
    Change t may w.toSystem (w.exit t).toSystem :=
  { Framed.refl t w.toSystem with
    ofd := fun ho howner => System.exit_ofd.2 ⟨ho, howner⟩
    lock := fun hlock ho howner => System.exit_lock.2 ⟨hlock, _, ho, howner⟩
    look := fun _ => .inl rfl }

/-! ### What callers rely on -/

/-- What the others have done in the meantime. -/
def Rely (G : ℕ → World → World → Prop) (t : ℕ) : World → World → Prop :=
  Relation.ReflTransGen fun w w' => ∃ u, u ≠ t ∧ G u w w'

section

variable {G : ℕ → World → World → Prop} {t : ℕ} {w w' : World}

/-- What no step of another caller touches lasts. -/
theorem Rely.lasts {P : World → Prop} (hP : ∀ {u w w'}, u ≠ t → G u w w' → P w → P w')
    (h : Rely G t w w') (hw : P w) : P w' := by
  induction h with
  | refl => exact hw
  | tail _ hstep ih =>
      obtain ⟨u, hne, hguar⟩ := hstep
      exact hP hne hguar ih

theorem othersOnly_rely (hG : ∀ {u w w'}, G u w w' → Framed u w.toSystem w'.toSystem) :
    OthersOnly t (Rely G t) := by
  intro w w' h
  refine Relation.ReflTransGen.mono ?_ _ _ h
  rintro w w' ⟨u, hne, hguar⟩
  exact ⟨u, hne, hG hguar⟩

/-- **Callers of one tree**, each of whom guarantees `G`. -/
def treeContract {Call : Type} {Out : Call → Type} (G : ℕ → World → World → Prop)
    (hexit : ∀ t w, G t w (w.exit t)) (inv : World → Prop)
    (hinv : ∀ t w w', inv w → G t w w' → inv w')
    (may : ℕ → Call → Trace Sys.Resp World Choice → World → Prop)
    (promise : ℕ → (c : Call) → Trace Sys.Resp World Choice → Out c → World → Prop) :
    Contract Sys.Resp World Choice Call Out World.exit where
  rely := Rely G
  guarantee := G
  may := may
  promise := promise
  inv := inv
  rely_refl _ _ := .refl
  rely_trans _ _ _ _ h h' := h.trans h'
  guarantee_rely _ _ _ _ hne hguar := .single ⟨_, hne, hguar⟩
  stop_rely s _ w hne := .single ⟨s, hne, hexit s w⟩
  guarantee_inv := hinv
  stop_inv t w hw := hinv t w _ hw (hexit t w)

end

end PodInstaller
