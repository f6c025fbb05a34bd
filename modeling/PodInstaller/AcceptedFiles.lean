/-
**Only accepted files ever appear.**

Any number of callers install, deploy, remove, snapshot and restore Quadlets in one tree, and each
of them may be killed between any two of its calls.  What is written under a hidden name moves to a
Quadlet path as a whole, by one call; what a snapshot has read was, at one time, at a Quadlet path.
So whatever the order of the calls, a Quadlet path is empty, or as it was in the beginning, or it
holds a Quadlet that the installer accepts for it.

Main definitions:

* `PodInstaller.TreeCall`, `PodInstaller.TreeCall.body`, `PodInstaller.TreeCall.Allowed` — what is
  called;
* `PodInstaller.Accepted` — what a Quadlet path may hold.

Main results:

* `PodInstaller.keeps_body` — every call keeps to it;
* `PodInstaller.accepted_of_reachable` — **only accepted files ever appear**.
-/

import PodInstaller.CallerPools
import PodInstaller.Rollback

set_option relaxedAutoImplicit false
set_option autoImplicit false

namespace PodInstaller

open Bytes

/-! ### The calls -/

/-- The calls that change a tree, or read it. -/
inductive TreeCall
  | install (uid : UInt32) (quadlet : QuadletFile)
  | deploy (orchestrator : DeploymentOrchestrator) (bundle : DeploymentBundle)
  | remove (uid : UInt32) (fileName : Bytes)
  | snapshot (uid : UInt32) (fileName : Bytes)
  | restore (uid : UInt32) (snapshot : QuadletSnapshot)

namespace TreeCall

/-- What a call returns. -/
def Out : TreeCall → Type
  | install _ _ => Result InstalledQuadlet
  | deploy _ _ => Except Failure DeploymentResult
  | remove _ _ => Result Unit
  | snapshot _ _ => Result QuadletSnapshot
  | restore _ _ => Result Unit

/-- The functions that are called. -/
def body (installer : QuadletInstaller) : (c : TreeCall) → SysProg c.Out
  | install uid quadlet => (installer.installForUser uid quadlet).run
  | deploy orchestrator bundle => (orchestrator.deploy bundle).run
  | remove uid fileName => (installer.removeForUser uid fileName).run
  | snapshot uid fileName => (installer.snapshotForUser uid fileName).run
  | restore uid saved => (installer.restoreForUser uid saved).run

/-- The callers that share a tree. -/
abbrev TreePool := Pool Sys.Resp World Choice TreeCall Out

/-- A snapshot that one of the callers was given. -/
def WasReturned (P : TreePool) (saved : QuadletSnapshot) : Prop :=
  ∃ t uid fileName, P.caller t = .running (.snapshot uid fileName) (.ret (.ok saved))

/-- The calls that may be made: deployments by the same installer, none of them dry, and restores of
snapshots that were taken. -/
def Allowed (installer : QuadletInstaller) (P : TreePool) : TreeCall → Prop
  | deploy orchestrator _ =>
      orchestrator.installer = installer ∧ orchestrator.options.dryRun = false
  | restore _ saved => WasReturned P saved
  | _ => True

end TreeCall

/-! ### What a Quadlet path may hold -/

/-- Nothing, what was there in the beginning, or the contents of a Quadlet that the installer
accepts for the file name. -/
inductive Accepted (installer : QuadletInstaller) (w₀ : World) (uid : UInt32) (n : Bytes) :
    Option Content → Prop
  | absent : Accepted installer w₀ uid n none
  | initial : Accepted installer w₀ uid n (w₀.look uid n)
  | installed {quadlet : QuadletFile} {expected : InstalledQuadlet} (name : quadlet.fileName = n)
      (accepted : installer.expectedInstall uid quadlet = .ok expected) :
      Accepted installer w₀ uid n (some (.regular quadlet.contents))

/-- All Quadlet paths hold what they may hold. -/
def AllAccepted (installer : QuadletInstaller) (w₀ w : World) : Prop :=
  ∀ uid n, ¬ Hidden n → Accepted installer w₀ uid n (w.look uid n)

/-- A step of a caller puts accepted contents at Quadlet paths only. -/
def PutsAccepted (installer : QuadletInstaller) (w₀ : World) (t : ℕ) (w w' : World) : Prop :=
  Change t (Accepted installer w₀) w.toSystem w'.toSystem

section

variable {K : Kernel} {installer : QuadletInstaller} {w₀ w w' : World} {t : ℕ} {uid : UInt32}
variable {n : Bytes}

theorem AllAccepted.change (hw : AllAccepted installer w₀ w)
    (h : PutsAccepted installer w₀ t w w') : AllAccepted installer w₀ w' := by
  intro uid n hn
  rcases h.look hn with hsame | haccepted
  · exact hsame ▸ hw uid n hn
  · exact haccepted

/-- The others of a caller. -/
abbrev AcceptingOthers (installer : QuadletInstaller) (w₀ : World) (t : ℕ) :
    World → World → Prop := Rely (PutsAccepted installer w₀) t

theorem othersOnly_accepting : OthersOnly t (AcceptingOthers installer w₀ t) :=
  othersOnly_rely fun h => h.toFramed

theorem stable_allAccepted :
    Stable t (AcceptingOthers installer w₀ t) (AllAccepted installer w₀) where
  others h hw := h.lasts (fun _ hstep hw => hw.change hstep) hw
  quiet hguar hw := hw.change hguar.change

/-- **Accepted contents** may take the place of others. -/
theorem transition_accepted {c : Option Content} (h : Accepted installer w₀ uid n c) :
    Transition t (AcceptingOthers installer w₀ t) (fun _ => Accepted installer w₀) uid n
      (AllAccepted installer w₀) (AllAccepted installer w₀) c where
  before := stable_allAccepted
  after := stable_allAccepted
  allowed _ _ := h
  change _ _ hw hguar _ := hw.change hguar.toChange

/-! ### The calls keep to it -/

/-- What a call promises: a snapshot was taken of a Quadlet path while all was accepted. -/
def Promises (installer : QuadletInstaller) (w₀ : World) :
    (c : TreeCall) → Trace Sys.Resp World Choice → c.Out → World → Prop
  | .snapshot uid fileName => fun _ r _ => ∀ saved, r = .ok saved →
      TakenFrom installer.layout uid fileName (AllAccepted installer w₀) saved
  | _ => fun _ _ _ => True

/-- The contract between the callers. -/
def acceptingContract (installer : QuadletInstaller) (w₀ : World) :
    Contract Sys.Resp World Choice TreeCall TreeCall.Out World.exit :=
  treeContract (PutsAccepted installer w₀) (fun _ w => change_exit w) (AllAccepted installer w₀)
    (fun _ _ _ hw h => hw.change h) (fun _ _ _ _ => True) fun _ => Promises installer w₀

/-- A function that meets its specification keeps the contract. -/
theorem keeps_of_meets {c : TreeCall} {p : SysProg c.Out} {post : c.Out → World → Prop}
    (h : Meets K t (AcceptingOthers installer w₀ t) (fun _ => Accepted installer w₀) p post w)
    (hpost : ∀ tr r w, post r w → Promises installer w₀ c tr r w) :
    (acceptingContract installer w₀).Keeps K.machine t c p [] w :=
  (h []).mono (fun _ _ h => h) (fun _ _ h => h.toChange) (fun _ _ h => h) hpost

/-- A snapshot holds what may be at its path, and at no other. -/
theorem accepted_of_takenFrom {uid' : UInt32} {saved : QuadletSnapshot}
    (h : TakenFrom installer.layout uid' n (AllAccepted installer w₀) saved)
    (hname : QuadletName saved.fileName)
    (hpath : PosixPath.same (installer.layout.quadletPath uid saved.fileName) saved.path = true) :
    Accepted installer w₀ uid saved.fileName saved.content := by
  obtain ⟨hsaved, rfl, w₁, hw₁, hcontent⟩ := h
  rw [hsaved] at hpath
  obtain ⟨rfl, -⟩ := quadletPath_same hname hname hpath
  rw [← hcontent]
  exact hw₁ _ _ hname.visible

/-- **A deployment** keeps the contract. -/
theorem keeps_deploy (hroot : installer.layout.adminUserRoot = K.adminRoot)
    {orchestrator : DeploymentOrchestrator} {bundle : DeploymentBundle}
    (hinstaller : orchestrator.installer = installer)
    (hdry : orchestrator.options.dryRun = false) (hw : AllAccepted installer w₀ w) :
    (acceptingContract installer w₀).Keeps K.machine t (.deploy orchestrator bundle)
      (orchestrator.deploy bundle).run [] w := by
  subst hinstaller
  have hunit : ∀ expected, orchestrator.installer.expectedInstall bundle.targetUid bundle.quadlet =
      .ok expected → expected.systemdUnit =
        (serviceUnitNameFromQuadlet bundle.quadlet.fileName).toOption.getD [] := by
    intro expected hexpected
    obtain ⟨-, -, hunit, -⟩ := QuadletInstaller.expectedInstall_eq_ok.1 hexpected
    rw [hunit]
    rfl
  -- all paths hold what they may hold, before the deployment, under its lock, and after it
  have hB : Stable t (AcceptingOthers orchestrator.installer w₀ t)
      (AllAccepted orchestrator.installer w₀) := stable_allAccepted
  have hexchange : ∀ expected,
      orchestrator.installer.expectedInstall bundle.targetUid bundle.quadlet = .ok expected →
      Exchange t (AcceptingOthers orchestrator.installer w₀ t)
        (fun _ => Accepted orchestrator.installer w₀) bundle.targetUid bundle.quadlet.fileName
        (AllAccepted orchestrator.installer w₀) (AllAccepted orchestrator.installer w₀)
        bundle.quadlet.contents := fun expected hexpected =>
    ⟨transition_accepted (.installed rfl hexpected), fun w₁ hw₁ =>
      transition_accepted (hw₁ _ _ (visible_of_expectedInstall hexpected))⟩
  have hdeploy := safe_deploy othersOnly_accepting hroot hdry hB hunit
    (fun _ _ hw₁ _ => ⟨hw₁, hB, hB, hexchange⟩) hw
  exact hdeploy.mono (fun _ _ h => h) (fun _ _ h => h) (fun _ _ _ => trivial) fun _ _ _ _ => trivial

/-- **Every call** keeps the contract. -/
theorem keeps_body (hroot : installer.layout.adminUserRoot = K.adminRoot)
    {P : TreeCall.TreePool} (hP : (acceptingContract installer w₀).Sound K.machine P) {c : TreeCall}
    (hallowed : TreeCall.Allowed installer P c) :
    (acceptingContract installer w₀).Keeps K.machine t c (TreeCall.body installer c) []
      P.world := by
  have hR : OthersOnly t (AcceptingOthers installer w₀ t) := othersOnly_accepting
  have hw : AllAccepted installer w₀ P.world := hP.inv
  have hclean := clean_nextIno (t := t) P.world.wellFormed
  cases c with
  | install uid quadlet =>
      exact keeps_of_meets (meets_installForUser hR hroot stable_allAccepted
        (fun _ hexpected => transition_accepted (.installed rfl hexpected)) hw hclean)
        fun _ _ _ _ => trivial
  | deploy orchestrator bundle => exact keeps_deploy hroot hallowed.1 hallowed.2 hw
  | remove uid fileName =>
      exact keeps_of_meets (meets_removeForUser hR hroot stable_allAccepted
        (fun _ => transition_accepted .absent) hw hclean) fun _ _ _ _ => trivial
  | snapshot uid fileName =>
      exact keeps_of_meets (meets_snapshotForUser hR hroot stable_allAccepted hw).ofQuiet
        fun _ _ _ htaken => htaken
  | restore uid saved =>
      obtain ⟨s, uid', fileName, hreturned⟩ := hallowed
      obtain ⟨_, -, htaken⟩ := hP.running s _ _ hreturned
      exact keeps_of_meets (meets_restoreForUser hR hroot stable_allAccepted
        (fun hname hpath => transition_accepted (accepted_of_takenFrom (htaken saved rfl) hname
          hpath)) hw hclean) fun _ _ _ _ => trivial

/-- **Only accepted files ever appear**, in every interleaving of the calls, whatever faults they
meet and wherever they are killed. -/
theorem accepted_of_reachable (hroot : installer.layout.adminUserRoot = K.adminRoot)
    {P : TreeCall.TreePool} (hP : Pool.Reachable K.machine (TreeCall.body installer) World.exit
      (TreeCall.Allowed installer) w₀ P) (uid : UInt32) (n : Bytes) (hn : ¬ Hidden n) :
    Accepted installer w₀ uid n (P.world.look uid n) := by
  have hsound : (acceptingContract installer w₀).Sound K.machine P :=
    Contract.sound (fun _ _ _ => .initial) (fun _ _ _ _ hP hallowed => keeps_body hroot hP hallowed)
      hP
  exact hsound.inv uid n hn

end

/-- Two callers install the same file.  The second one starts when the first one has opened its
temporary file, and is killed when it has written its own, after the first one has returned. -/
theorem installed_accepted :
    ∃ P : TreeCall.TreePool, Pool.Reachable defaultKernel.machine (TreeCall.body {}) World.exit
        (TreeCall.Allowed {}) emptyWorld P ∧
      (∃ r, P.caller 0 = .running (.install 1000 webQuadlet) (.ret r)) ∧ P.caller 1 = .stopped ∧
      P.world.look 1000 webQuadlet.fileName = some (.regular webQuadlet.contents) ∧
      Accepted {} emptyWorld 1000 webQuadlet.fileName (P.world.look 1000 webQuadlet.fileName) := by
  have hrun : (proceed defaultKernel.machine 0 untilWrite emptyWorld
      (TreeCall.body {} (.install 1000 webQuadlet))).any (fun out =>
        (proceed defaultKernel.machine 1 (List.replicate 9 .go ++ [.pid 8, .go,
          .moved otherQuadlet.contents.length]) out.1
            (TreeCall.body {} (.install 1000 otherQuadlet))).any fun out' =>
          (run defaultKernel.machine 0 (.moved webQuadlet.contents.length :: List.replicate 4 .go)
            out'.1 out.2).any fun last => decide (last.2.1.look 1000 webQuadlet.fileName =
              some (.regular webQuadlet.contents))) = true := by
    decide +kernel
  obtain ⟨tr₀, w₀, q₀, h₀, hsecond⟩ := exists_begun_of_proceed hrun
  obtain ⟨tr₁, w₁, q₁, h₁, hends⟩ := exists_begun_of_proceed hsecond
  obtain ⟨tr₂, w₂, r, h₂, hlook⟩ := exists_exec_of_run hends
  -- the callers take turns
  have hstart₀ : Pool.Reachable defaultKernel.machine (TreeCall.body {}) World.exit
      (TreeCall.Allowed {}) emptyWorld
      ((Pool.initial emptyWorld).set 0 emptyWorld (.running (.install 1000 webQuadlet) _)) :=
    .tail .refl (.start rfl trivial)
  obtain ⟨P₀, hP₀, rfl, hrun₀, hothers₀⟩ := hstart₀.begun h₀ rfl Pool.caller_set_self
  have hidle : P₀.caller 1 = .idle := hothers₀ 1 (by decide)
  have hstart₁ : Pool.Reachable defaultKernel.machine (TreeCall.body {}) World.exit
      (TreeCall.Allowed {}) emptyWorld
      (P₀.set 1 P₀.world (.running (.install 1000 otherQuadlet) _)) :=
    hP₀.tail (.start hidle trivial)
  obtain ⟨P₁, hP₁, rfl, hrun₁, hothers₁⟩ := hstart₁.begun h₁ rfl Pool.caller_set_self
  have hwaits : P₁.caller 0 = .running (.install 1000 webQuadlet) q₀ := by
    rw [hothers₁ 0 (by decide), Pool.caller_set_of_ne (by decide), hrun₀]
  obtain ⟨P₂, hP₂, rfl, hrun₂, hothers₂⟩ := hP₁.begun h₂.begun rfl hwaits
  have hP := hP₂.tail (.stop ((hothers₂ 1 (by decide)).trans hrun₁))
  refine ⟨_, hP, ⟨r, ?_⟩, Pool.caller_set_self, of_decide_eq_true hlook,
    accepted_of_reachable rfl hP 1000 _ ?_⟩
  · rw [Pool.caller_set_of_ne (by decide), hrun₂]
  · rw [Hidden]
    decide +kernel

end PodInstaller
