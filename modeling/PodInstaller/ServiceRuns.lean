/-
**What the example service does to the system.**

A service that runs dry may be asked anything any number of times: it looks things up, and that is
all that happens, also in a run that never ends.  A service that executes is a store for its
clients.  Each response tells whether a Quadlet was deployed, and what is installed in the end is
what the responses say: for each user and file name the contents of the last deployment that was
answered with 202, and where there was none, what was there before.  The one thing a client has to
watch for is a response that tells of a rollback that has failed.

The run of a service is cut into parts, one for each connection, so that what a response tells of
is tied to what was looked up and read for it.

Main definitions:

* `PodInstaller.Service.Part`, `PodInstaller.Service.Follow`, `PodInstaller.Service.Served` — the
  part of a run that belongs to one connection, and a run as its parts;
* `PodInstaller.Service.Answered`, `PodInstaller.Service.Deployments` — the deployments of a
  service, and how they are told of;
* `PodInstaller.Service.DryPart`, `PodInstaller.Service.Tells` — what a response of a part tells of;
* `PodInstaller.Service.Update`, `PodInstaller.Service.installedAt` — what requests install.

Main results:

* `PodInstaller.Service.serve_dry` — **a dry service changes nothing**;
* `PodInstaller.Service.accepted_deployed` — **what 202 means**;
* `PodInstaller.Service.serve_store` — **what is installed is what the responses say**.
-/

import PodInstaller.Service

set_option relaxedAutoImplicit false
set_option autoImplicit false

namespace PodInstaller

open Bytes

/-! ### Looking things up -/

/-- Two systems that differ in their descriptors at most. -/
def System.SameTree (s s' : System) : Prop := s' = { s with ofd := s'.ofd, nextFd := s'.nextFd }

namespace System

variable {K : Kernel} {t : ℕ} {s s' s'' : System}

theorem SameTree.refl (s : System) : s.SameTree s := rfl

theorem SameTree.trans (h : s.SameTree s') (h' : s'.SameTree s'') : s.SameTree s'' := by
  unfold SameTree at h h' ⊢
  rw [h] at h'
  exact h'

end System

/-! ### What the message of a deployment tells -/

/-- What stands in a message if the rollback could not restore the file. -/
def restoreFailed : Bytes := "; rollback failed: "

/-- The message of a failed deployment tells when its rollback has not restored the file. -/
def TellsRestore {α : Type} (r : Except Failure α) : Prop :=
  ∀ failure report e, r = .error failure → failure.rollback = some report →
    report.restore = .error e → restoreFailed <:+: failure.error.message

section

variable {α : Type} {installer : QuadletInstaller} {target : PodmanTarget} {uid : UInt32}
variable {snapshot : QuadletSnapshot} {unit : Bytes}

theorem tellsRestore_ok (a : α) : TellsRestore (.ok a) := by
  intro failure report e hr
  cases hr

/-- A rollback that has restored the file. -/
theorem tellsRestore_restored {error : Error} {report : RollbackReport} {u : Unit}
    (h : report.restore = .ok u) :
    TellsRestore (.error ⟨error, some report⟩ : Except Failure α) := by
  intro failure report' e hr hreport he
  obtain rfl := Except.error.inj hr
  obtain rfl := Option.some.inj hreport
  rw [h] at he
  cases he

theorem tellsRestore_rollbackError (restarts : Bool) (original : Error) :
    (rollbackError installer target uid snapshot unit restarts original).Ends (fun _ _ => True)
      fun failure => TellsRestore (.error failure : Except Failure α) := by
  refine Prog.ends_bind (P := fun _ => True) (Prog.ends_of_forall (fun _ => trivial) _)
    fun restored _ => ?_
  cases restored with
  | error e =>
      intro failure report e' hr hreport he
      obtain rfl := Except.error.inj hr
      exact ⟨original.message, e.message, by simp [Error.appendMessage, restoreFailed]⟩
  | ok u =>
      refine Prog.ends_bind (P := fun _ => True) (Prog.ends_of_forall (fun _ => trivial) _)
        fun reload _ => ?_
      cases reload with
      | error e => exact tellsRestore_restored rfl
      | ok u' =>
          dsimp only
          split
          · refine Prog.ends_bind (P := fun _ => True) (Prog.ends_of_forall (fun _ => trivial) _)
              fun restart _ => ?_
            cases restart with
            | error e => exact tellsRestore_restored rfl
            | ok operation =>
                dsimp only
                split <;> exact tellsRestore_restored rfl
          · exact tellsRestore_restored rfl

theorem tellsRestore_failAfterRollback (restarts : Bool) (original : Error) :
    (failAfterRollback (rollbackError installer target uid snapshot unit restarts original) :
      Deploy α).run.Ends (fun _ _ => True) TellsRestore :=
  Prog.ends_bind (tellsRestore_rollbackError restarts original) fun _ h => h

theorem tellsRestore_observe_bind {β : Type} {p : SysProg β} {f : β → Deploy α}
    (hf : ∀ b, (f b).run.Ends (fun _ _ => True) TellsRestore) :
    (observe p >>= f).run.Ends (fun _ _ => True) TellsRestore := by
  refine ends_exceptT_bind (P := fun r => ∃ b, r = .ok b) ?_ (fun e h => ?_) fun b _ => hf b
  · exact Prog.ends_bind (P := fun _ => True) (Prog.ends_of_forall (fun _ => trivial) _)
      fun b _ => ⟨b, rfl⟩
  · obtain ⟨b, h⟩ := h
    cases h

theorem tellsRestore_noRollback_bind {β : Type} {x : Action β} {f : β → Deploy α}
    (hf : ∀ b, (f b).run.Ends (fun _ _ => True) TellsRestore) :
    (noRollback x >>= f).run.Ends (fun _ _ => True) TellsRestore := by
  refine ends_exceptT_bind (P := fun r => ∀ failure, r = .error failure → failure.rollback = none)
    ?_ (fun failure h => ?_) fun b _ => hf b
  · refine Prog.ends_bind (P := fun _ => True) (Prog.ends_of_forall (fun _ => trivial) _)
      fun r _ failure hr => ?_
    cases r with
    | ok b => cases hr
    | error e =>
        obtain rfl := Except.error.inj hr
        rfl
  · intro failure' report e hr hreport
    obtain rfl := Except.error.inj hr
    rw [h failure rfl] at hreport
    cases hreport

variable {orchestrator : DeploymentOrchestrator} {bundle : DeploymentBundle}

theorem tellsRestore_activate {made : DeploymentResult} :
    (orchestrator.activate bundle target snapshot made).run.Ends (fun _ _ => True)
      TellsRestore := by
  refine tellsRestore_observe_bind fun reload => ?_
  cases reload with
  | error e => exact tellsRestore_failAfterRollback _ _
  | ok u =>
      dsimp only
      split
      · refine tellsRestore_observe_bind fun operation => ?_
        cases operation with
        | error e => exact tellsRestore_failAfterRollback _ _
        | ok operation =>
            dsimp only
            split
            · exact tellsRestore_ok _
            · exact tellsRestore_failAfterRollback _ _
      · refine tellsRestore_observe_bind fun status => ?_
        cases status <;> exact tellsRestore_ok _

theorem tellsRestore_deployLocked {prepared : DeploymentOrchestrator.Prepared} :
    (orchestrator.deployLocked bundle prepared).run.Ends (fun _ _ => True) TellsRestore := by
  refine tellsRestore_noRollback_bind fun _ => tellsRestore_noRollback_bind fun _ => ?_
  refine tellsRestore_noRollback_bind fun snapshot => tellsRestore_noRollback_bind fun _ => ?_
  exact tellsRestore_activate

/-- **A deployment tells when its rollback has failed.** -/
theorem tellsRestore_deploy :
    (orchestrator.deploy bundle).run.Ends (fun _ _ => True) TellsRestore := by
  refine tellsRestore_noRollback_bind fun prepared => ?_
  split
  · exact tellsRestore_ok _
  · refine tellsRestore_noRollback_bind fun fd => ?_
    refine ends_exceptT_bind (P := fun r => ∃ b, r = .ok b ∧ TellsRestore b) ?_ (fun e h => ?_)
      fun result hresult => ?_
    · exact Prog.ends_bind tellsRestore_deployLocked fun r hr => ⟨r, rfl, hr⟩
    · obtain ⟨b, h, -⟩ := h
      cases h
    · obtain ⟨r, hr, htells⟩ := hresult
      obtain rfl := Except.ok.inj hr
      exact tellsRestore_observe_bind fun _ => htells

end

namespace Service

/-! ### What a client reads -/

section

variable {e : Error} {config : Config} {target : PodmanTarget} {result : DeploymentResult}

/-- What a client reads of a response: its status and its body. -/
def statusAndBody (text : Bytes) : Option (ℤ × Bytes) :=
  (receive text).map fun response => (response.status, response.body)

theorem statusAndBody_response (status : ℕ) (body : Bytes) :
    statusAndBody (response status body) = some ((status : ℤ), body) := by
  have hbreak : ch '\n' ∉ ofString "application/json" := by decide
  have hread := receive_response status body [] hbreak
  rw [List.append_nil] at hread
  rw [statusAndBody, hread]
  rfl

theorem statusAndBody_refusal : statusAndBody (refusal e) = some (400, errorBody e.message) :=
  statusAndBody_response 400 _

end

/-! ### The deployments of a service -/

/-- A deployment for a request, and how it ended. -/
structure Attempt where
  query : Query
  target : PodmanTarget
  bundle : DeploymentBundle
  result : Except Failure DeploymentResult

/-- The response to a deployment. -/
def Attempt.response (config : Config) (a : Attempt) : Bytes :=
  match a.result with
  | .error failure => refusal failure.error
  | .ok result => Service.response (deployedStatus config) (resultBody a.target result)

/-- The part of a run that belongs to one connection: what was received, where the part begins, what
happens in it, what is sent, and where it ends. -/
structure Part (ι W C : Type) where
  raw : Bytes
  before : Host ι × W
  events : List (ServiceEvent ι W C)
  out : Option Bytes
  after : Host ι × W

/-- Parts that follow on one another. -/
inductive Follow {ι W C : Type} (site : Site ι) (M : Machine Sys.Resp W C) (t : ℕ)
    (config : Config) : Host ι × W → List (Part ι W C) → Host ι × W → Prop
  | nil (w : Host ι × W) : Follow site M t config w [] w
  | cons {part : Part ι W C} {parts : List (Part ι W C)} {w' : Host ι × W}
      (run : Exec ((hostMachine site).beside M) t part.before (respond config part.raw)
        part.events part.after part.out)
      (rest : Follow site M t config part.after parts w') :
      Follow site M t config part.before (part :: parts) w'

/-- A run of the service is made up of these parts. -/
structure Served {ι W C : Type} (site : Site ι) (M : Machine Sys.Resp W C) (t : ℕ)
    (config : Config) (w : Host ι × W) (raws : List Bytes) (tr : List (ServiceEvent ι W C))
    (w' : Host ι × W) (outs : List (Option Bytes)) (parts : List (Part ι W C)) : Prop where
  follow : Follow site M t config w parts w'
  raws : parts.map (·.raw) = raws
  events : (parts.map (·.events)).flatten = tr
  outs : parts.map (·.out) = outs

/-- What is sent in a part of a run, with the deployment that was attempted in it. -/
inductive Answered {ι W C : Type} (site : Site ι) (config : Config) (part : Part ι W C) :
    Option Attempt → Prop
  | silent (empty : part.raw = []) (out : part.out = none) : Answered site config part none
  | refused {e : Error} (out : part.out = some (refusal e)) : Answered site config part none
  | alive (out : part.out = some (response 200 "\x7b\"status\":\"ok\"\x7d\n")) :
      Answered site config part none
  | missing (out : part.out = some (response 404 "\x7b\"error\":\"not found\"\x7d\n")) :
      Answered site config part none
  | attempted {a : Attempt} (out : part.out = some (a.response config))
      (asks : AsksToDeploy part.raw a.query)
      (requested : Requested site config a.query (lefts part.events) a.target a.bundle) :
      Answered site config part (some a)

/-- Deployments of the library, one after another. -/
inductive Deployments {W C : Type} (M : Machine Sys.Resp W C) (t : ℕ) (config : Config) :
    W → List (Option Attempt) → W → Prop
  | nil (v : W) : Deployments M t config v [] v
  | idle {v v' : W} {attempts : List (Option Attempt)}
      (rest : Deployments M t config v attempts v') :
      Deployments M t config v (none :: attempts) v'
  | deploy {v v₁ v' : W} {tr : List (Event Sys.Resp W C)} {a : Attempt}
      {attempts : List (Option Attempt)}
      (run : Exec M t v ((deployer config a.query).deploy a.bundle).run tr v₁ a.result)
      (rest : Deployments M t config v₁ attempts v') :
      Deployments M t config v (some a :: attempts) v'

section

variable {ι W C : Type} {site : Site ι} {M : Machine Sys.Resp W C} {t : ℕ} {config : Config}
variable {w w' : Host ι × W} {tr : List (ServiceEvent ι W C)} {part : Part ι W C}
variable {parts : List (Part ι W C)} {raws : List Bytes} {outs : List (Option Bytes)}

/-- **A run of the service, taken apart.** -/
theorem served_of_serve
    (hexec : Exec ((hostMachine site).beside M) t w (serve config raws) tr w' outs) :
    ∃ parts, Served site M t config w raws tr w' outs parts := by
  induction raws generalizing w tr outs with
  | nil =>
      obtain ⟨rfl, rfl, rfl⟩ := exec_ret.1 hexec
      exact ⟨[], .nil _, rfl, rfl, rfl⟩
  | cons raw rest ih =>
      obtain ⟨tr₁, w₁, out, _, hfirst, hexec₁, rfl⟩ := exec_bind.1 hexec
      obtain ⟨tr₂, w₂, outs₂, _, hrest, hret, rfl⟩ := exec_bind.1 hexec₁
      obtain ⟨rfl, rfl, rfl⟩ := exec_ret.1 hret
      obtain ⟨parts, hfollow, rfl, rfl, rfl⟩ := ih hrest
      let part : Part ι W C := ⟨raw, w, tr₁, out, w₁⟩
      have hparts : Follow site M t config part.before (part :: parts) w' := .cons hfirst hfollow
      exact ⟨part :: parts, hparts, rfl, by simp [part], rfl⟩

/-- One part: what is sent, and what the library has done. -/
theorem answered_of_exec (hexec : Exec ((hostMachine site).beside M) t part.before
      (respond config part.raw) part.events part.after part.out) :
    ∃ attempt, Answered site config part attempt ∧
      ∀ {attempts : List (Option Attempt)} {v : W},
        Deployments M t config part.after.2 attempts v →
          Deployments M t config part.before.2 (attempt :: attempts) v := by
  obtain ⟨raw, before, events, out, after⟩ := part
  dsimp only at hexec ⊢
  rw [respond] at hexec
  split at hexec
  · rename_i hempty
    obtain ⟨-, rfl, rfl⟩ := exec_ret.1 hexec
    exact ⟨none, .silent hempty rfl, .idle⟩
  obtain ⟨tr₁, w₁, text, _, hhandle, hret, rfl⟩ := exec_bind.1 hexec
  obtain ⟨rfl, rfl, rfl⟩ := exec_ret.1 hret
  rw [List.append_nil]
  cases handled_handleRequest hhandle with
  | refused same => exact ⟨none, .refused rfl, fun hrest => .idle (same ▸ hrest)⟩
  | alive same => exact ⟨none, .alive rfl, fun hrest => .idle (same ▸ hrest)⟩
  | missing same => exact ⟨none, .missing rfl, fun hrest => .idle (same ▸ hrest)⟩
  | @failed query target bundle failure asks attempted =>
      obtain ⟨trRead, trDeploy, rfl, hrequested, hrun⟩ := attempted.run
      let a : Attempt := ⟨query, target, bundle, .error failure⟩
      exact ⟨some a, .attempted rfl asks (by rwa [lefts_inl_append_inr]), .deploy hrun⟩
  | @deployed query target bundle result asks attempted =>
      obtain ⟨trRead, trDeploy, rfl, hrequested, hrun⟩ := attempted.run
      let a : Attempt := ⟨query, target, bundle, .ok result⟩
      exact ⟨some a, .attempted rfl asks (by rwa [lefts_inl_append_inr]), .deploy hrun⟩

/-- **A service is a sequence of deployments**, each for a request and told of in its response. -/
theorem Follow.deployments (hfollow : Follow site M t config w parts w') :
    ∃ attempts, List.Forall₂ (Answered site config) parts attempts ∧
      Deployments M t config w.2 attempts w'.2 := by
  induction hfollow with
  | nil w => exact ⟨[], .nil, .nil _⟩
  | cons run rest ih =>
      obtain ⟨attempt, hanswered, hdeploy⟩ := answered_of_exec run
      obtain ⟨attempts, hall, hdeployments⟩ := ih
      exact ⟨attempt :: attempts, .cons hanswered hall, hdeploy hdeployments⟩

end

/-! ### A dry service -/

section

variable {ι W C : Type} {site : Site ι} {M : Machine Sys.Resp W C} {K : Kernel} {reads t : ℕ}
variable {config : Config} {query : Query} {bundle : DeploymentBundle} {raw out : Bytes}
variable {raws outs : List Bytes}

/-- A deployment that succeeds was prepared, and has gone on from there. -/
theorem exec_deploy_prepared {orchestrator : DeploymentOrchestrator} {w w' : W}
    {tr : List (Event Sys.Resp W C)} {result : DeploymentResult}
    (hexec : Exec M t w (orchestrator.deploy bundle).run tr w' (.ok result)) :
    ∃ prepared tr' w₁, orchestrator.installer.expectedInstall bundle.targetUid bundle.quadlet =
        .ok prepared.expected ∧
      Exec M t w₁ (orchestrator.afterPrepare bundle (.ok prepared)) tr' w' (.ok result) := by
  rw [DeploymentOrchestrator.run_deploy] at hexec
  obtain ⟨tr₁, w₁, prepared, tr₂, hprepare, hrest, rfl⟩ := exec_bind.1 hexec
  cases prepared with
  | error e =>
      obtain ⟨-, -, hr⟩ := exec_ret.1 hrest
      cases hr
  | ok prepared =>
      have hexpected := exec_ends (DeploymentOrchestrator.prepare_ends _ _) hprepare
        (fun _ _ => trivial) prepared rfl
      exact ⟨prepared, tr₂, w₁, hexpected, hrest⟩

end

/-! ### A dry service changes nothing -/

section

variable {ι W C : Type} {site : Site ι} {M : Machine Sys.Resp W C} {t : ℕ} {config : Config}
variable {part : Part ι W C} {v v' : W} {attempt : Option Attempt}
variable {attempts : List (Option Attempt)}

end

section

variable {ι : Type} {site : Site ι} {K : Kernel} {reads t : ℕ} {config : Config}
variable {w w' : Host ι × World × Processes} {raws outs : List Bytes}
variable {tr : List (ServiceEvent ι (World × Processes) (LinkChoice Choice ProcChoice Bool))}

end

/-! ### A service that executes is a store -/

/-- A Quadlet for a user. -/
abbrev Update := UInt32 × QuadletFile

/-- What a Quadlet path holds after a request, which may have installed a Quadlet. -/
def installedAt (uid : UInt32) (n : Bytes) (held : Option Content) : Option Update → Option Content
  | none => held
  | some (uid', quadlet) =>
    if uid = uid' ∧ n = quadlet.fileName then some (.regular quadlet.contents) else held

/-- What the response of a part says: it is 202 just when a Quadlet was installed, and then the
Quadlet is the one that the request of this part asks for, as it was read in this part. -/
structure Tells {ι W C : Type} (site : Site ι) (config : Config) (part : Part ι W C)
    (update : Option Update) : Prop where
  status : update ≠ none ↔
    ∃ text body, part.out = some text ∧ statusAndBody text = some (202, body)
  requested : ∀ u, update = some u → ∃ query target bundle, AsksToDeploy part.raw query ∧
    Requested site config query (lefts part.events) target bundle ∧
    u = (bundle.targetUid, bundle.quadlet)

/-- What a deployment has installed. -/
def Attempt.update (a : Attempt) : Option Update :=
  match a.result with
  | .ok _ => some (a.bundle.targetUid, a.bundle.quadlet)
  | .error _ => none

section

variable {ι : Type} {site : Site ι} {K : Kernel} {reads t : ℕ} {config : Config}
variable {raw out : Bytes} {raws : List Bytes} {outs : List (Option Bytes)}

/-- **What a deployment installs**, if its rollback did not fail. -/
theorem look_deploy {orchestrator : DeploymentOrchestrator} {bundle : DeploymentBundle}
    {w w' : World} {tr : Trace Sys.Resp World Choice} {r : Except Failure DeploymentResult}
    (hroot : orchestrator.installer.layout.adminUserRoot = K.adminRoot)
    (hsync : K.dirFsyncFails = false) (hdry : orchestrator.options.dryRun = false)
    (hrestored : ∀ failure, r = .error failure → ¬ restoreFailed <:+: failure.error.message)
    (hexec : Exec K.machine t w (orchestrator.deploy bundle).run tr w' r) (uid : UInt32) (n : Bytes)
    (hn : ¬ Hidden n) : w'.look uid n = installedAt uid n (w.look uid n)
      (r.toOption.map fun _ => (bundle.targetUid, bundle.quadlet)) := by
  cases r with
  | ok result =>
      obtain ⟨_, _, prepared, _, _, _, _, _, _, hprepare, -⟩ := exec_deploy_ok hdry hexec
      obtain ⟨-, -, hexpected, -⟩ := exec_prepare_ok hprepare
      rcases deploy_alone hroot hdry (visible_of_expectedInstall hexpected) hexec with
        ⟨e, he, -⟩ | hnew
      · cases he
      · replace hnew : Replaced w bundle.targetUid bundle.quadlet.fileName
          bundle.quadlet.contents w' := hnew
        by_cases hkey : uid = bundle.targetUid ∧ n = bundle.quadlet.fileName
        · obtain ⟨rfl, rfl⟩ := hkey
          exact hnew.new.trans (if_pos ⟨rfl, rfl⟩).symm
        · exact (hnew.others uid n hn hkey).trans (if_neg hkey).symm
  | error failure =>
      by_cases hvisible : Hidden bundle.quadlet.fileName
      · refine deploy_refused (fun expected hexpected => ?_) hexec
        exact visible_of_expectedInstall hexpected hvisible
      · rcases deploy_alone hroot hdry hvisible hexec with ⟨_, -, hsame⟩ | ⟨-, hnone, hsome⟩
        · exact hsame uid n hn
        · cases hreport : failure.rollback with
          | none => exact hnone hreport hsync uid n hn
          | some report =>
              cases hrestore : report.restore with
              | ok u => exact hsome report hreport hrestore uid n hn
              | error e =>
                  -- the message would tell
                  have htells := exec_ends tellsRestore_deploy hexec fun _ _ => trivial
                  exact absurd (htells failure report e rfl hreport hrestore)
                    (hrestored failure rfl)

/-- The text that tells of a failed rollback is not changed by the escapes. -/
theorem restoreFailed_infix_errorBody {message : Bytes} (h : restoreFailed <:+: message) :
    restoreFailed <:+: errorBody message := by
  obtain ⟨front, back, rfl⟩ := h
  have hsame : restoreFailed.flatMap escapeByte = restoreFailed := by decide
  refine ⟨ofString "\x7b\"error\":" ++ ch '"' :: front.flatMap escapeByte,
    back.flatMap escapeByte ++ [ch '"'] ++ ofString "\x7d\n", ?_⟩
  rw [errorBody, jsonEscape, List.flatMap_append, List.flatMap_append, hsame]
  simp only [List.append_assoc, List.cons_append]

/-- No response tells of a failed rollback. -/
def NoneTells (outs : List (Option Bytes)) : Prop :=
  ∀ text, some text ∈ outs → ∀ status body, statusAndBody text = some (status, body) →
    ¬ restoreFailed <:+: body

theorem tells_of_answered {W C : Type} {part : Part ι W C} (hdry : config.dryRun = false)
    {attempt : Option Attempt} (hanswered : Answered site config part attempt) :
    Tells site config part (attempt.bind Attempt.update) := by
  have hstatus : ∀ {text : Bytes} {status : ℤ} {body : Bytes}, part.out = some text →
      statusAndBody text = some (status, body) →
      ((∃ text body, part.out = some text ∧ statusAndBody text = some (202, body)) ↔
        status = 202) := by
    intro text status body hout hread
    simp [hout, hread]
  have hother : ∀ {text : Bytes} {status : ℤ} {body : Bytes}, part.out = some text →
      statusAndBody text = some (status, body) → status ≠ 202 → Tells site config part none := by
    intro text status body hout hread hne
    refine ⟨?_, fun u hu => by cases hu⟩
    rw [hstatus hout hread]
    simp [hne]
  cases hanswered with
  | silent empty out => exact ⟨by simp [out], fun u hu => by cases hu⟩
  | refused out => exact hother out statusAndBody_refusal (by decide)
  | alive out => exact hother out (statusAndBody_response 200 _) (by decide)
  | missing out => exact hother out (statusAndBody_response 404 _) (by decide)
  | @attempted a out asks requested =>
      obtain ⟨query, target, bundle, result⟩ := a
      cases result with
      | error failure => exact hother out statusAndBody_refusal (by decide)
      | ok result =>
          refine ⟨?_, fun u hu => ⟨query, target, bundle, asks, requested,
            (Option.some.inj hu).symm⟩⟩
          rw [hstatus out (statusAndBody_response (deployedStatus config) _)]
          simp [Attempt.update, deployedStatus, hdry]

/-- What a sequence of deployments installs. -/
theorem look_deployments {v v' : World × Processes} {attempts : List (Option Attempt)}
    (hroot : ({} : QuadletInstaller).layout.adminUserRoot = K.adminRoot)
    (hsync : K.dirFsyncFails = false) (hdry : config.dryRun = false)
    (hrestored : ∀ a failure, some a ∈ attempts → a.result = .error failure →
      ¬ restoreFailed <:+: failure.error.message)
    (hdeployments : Deployments (systemctlMachine K reads) t config v attempts v') (uid : UInt32)
    (n : Bytes) (hn : ¬ Hidden n) :
    v'.1.look uid n =
      (attempts.map (·.bind Attempt.update)).foldl (installedAt uid n) (v.1.look uid n) := by
  induction hdeployments with
  | nil v => rfl
  | idle rest ih => exact ih fun a failure ha => hrestored a failure (List.mem_cons_of_mem _ ha)
  | @deploy v v₁ v' tr a attempts run rest ih =>
      have ih := ih fun a failure ha => hrestored a failure (List.mem_cons_of_mem _ ha)
      have hoption : (deployer config a.query).options.dryRun = false := hdry
      have hfirst := look_deploy hroot hsync hoption
        (fun failure => hrestored a failure List.mem_cons_self) (exec_systemctl run).1 uid n hn
      have hupdate : a.result.toOption.map (fun _ => (a.bundle.targetUid, a.bundle.quadlet)) =
          a.update := by
        rw [Attempt.update]
        cases a.result <;> rfl
      rw [ih, hfirst, hupdate]
      rfl

/-- The response to a deployment is sent. -/
theorem response_mem {W C : Type} {parts : List (Part ι W C)} {attempts : List (Option Attempt)}
    (hanswered : List.Forall₂ (Answered site config) parts attempts) {a : Attempt}
    (hmem : some a ∈ attempts) : some (a.response config) ∈ parts.map (·.out) := by
  induction hanswered with
  | nil => cases hmem
  | cons hfirst _ ih =>
      rw [List.map_cons]
      rcases List.mem_cons.1 hmem with heq | hmem
      · rw [← heq] at hfirst
        cases hfirst with
        | attempted out _ _ => exact out ▸ List.mem_cons_self
      · exact List.mem_cons_of_mem _ (ih hmem)

/-- **What is installed is what the responses say.**  After any connections, of which some were
answered with 202, each path holds the Quadlet of the last of these that was for it, or what it held
before; and this Quadlet was read in the part of the run that belongs to its request.  No response
may tell of a rollback that has failed. -/
theorem serve_store {w w' : Host ι × World × Processes}
    {tr : List (ServiceEvent ι (World × Processes) (LinkChoice Choice ProcChoice Bool))}
    (hroot : ({} : QuadletInstaller).layout.adminUserRoot = K.adminRoot)
    (hsync : K.dirFsyncFails = false) (hdry : config.dryRun = false) (hnone : NoneTells outs)
    (hexec : Exec ((hostMachine site).beside (systemctlMachine K reads)) t w (serve config raws)
      tr w' outs) :
    ∃ parts updates, Served site (systemctlMachine K reads) t config w raws tr w' outs parts ∧
      List.Forall₂ (Tells site config) parts updates ∧
      ∀ uid n, ¬ Hidden n →
        w'.2.1.look uid n = updates.foldl (installedAt uid n) (w.2.1.look uid n) := by
  obtain ⟨parts, hserved⟩ := served_of_serve hexec
  obtain ⟨attempts, hanswered, hdeployments⟩ := hserved.follow.deployments
  have hrestored : ∀ a failure, some a ∈ attempts → a.result = .error failure →
      ¬ restoreFailed <:+: failure.error.message := by
    intro a failure hmem hresult htells
    have hout := response_mem hanswered hmem
    rw [hserved.outs, Attempt.response, hresult] at hout
    exact hnone _ hout _ _ statusAndBody_refusal (restoreFailed_infix_errorBody htells)
  refine ⟨parts, attempts.map (·.bind Attempt.update), hserved, ?_,
    look_deployments hroot hsync hdry hrestored hdeployments⟩
  rw [List.forall₂_map_right_iff]
  exact hanswered.imp fun part attempt h => tells_of_answered hdry h

/-- What a deployment returns that has succeeded. -/
theorem exec_deploy_result {orchestrator : DeploymentOrchestrator} {bundle : DeploymentBundle}
    {w w' : World} {tr : Trace Sys.Resp World Choice} {result : DeploymentResult}
    (hdry : orchestrator.options.dryRun = false)
    (hexec : Exec K.machine t w (orchestrator.deploy bundle).run tr w' (.ok result)) :
    ∃ expected, orchestrator.installer.expectedInstall bundle.targetUid bundle.quadlet =
        .ok expected ∧
      result.installedQuadletPath = expected.path ∧ result.systemdUnit = expected.systemdUnit := by
  obtain ⟨prepared, tr', w₁, hexpected, hrest⟩ := exec_deploy_prepared hexec
  rw [DeploymentOrchestrator.afterPrepare, if_neg (by simp [hdry])] at hrest
  have hends : (orchestrator.deployFromLock bundle prepared).run.Ends
      (ControllerAnswers False) (KeepsTo False prepared.expected) :=
    DeploymentOrchestrator.keepsTo_deployFromLock hexpected
  have hkeeps := exec_ends hends hrest fun _ _ => ControllerAnswers.of_true fun h => h.elim
  exact ⟨prepared.expected, hexpected, hkeeps⟩

/-- **What 202 means.**  The user of the request was found and the Quadlet was read; it is installed
for this user under its own name, and the response tells where and as which unit.  Unless the
request has asked not to restart, the manager of the user has reloaded and restarted the unit, and
`systemctl show` has printed that it is loaded and active; this user is the one that the library has
found under the id of the user of the request. -/
theorem accepted_deployed {w w' : Host ι × World × Processes}
    {tr : List (ServiceEvent ι (World × Processes) (LinkChoice Choice ProcChoice Bool))}
    {body : Bytes} (hroot : ({} : QuadletInstaller).layout.adminUserRoot = K.adminRoot)
    (hdry : config.dryRun = false)
    (hexec : Exec ((hostMachine site).beside (systemctlMachine K reads)) t w
      (handleRequest config raw) tr w' out) (h202 : statusAndBody out = some (202, body)) :
    ∃ query target bundle expected result, AsksToDeploy raw query ∧
      Requested site config query (lefts tr) target bundle ∧
      QuadletInstaller.expectedInstall {} bundle.targetUid bundle.quadlet = .ok expected ∧
      w'.2.1.look bundle.targetUid bundle.quadlet.fileName =
        some (.regular bundle.quadlet.contents) ∧
      body = deployedBody result.dryRun target.userName expected.path expected.systemdUnit
        (result.jobPath.getD []) (result.statusError.getD []) ∧
      (query.one "restart" ≠ some (ofString "false") →
        ∃ e ∈ ((rights tr).map (Event.outer (systemctlHandler reads))).head?, ∃ owner,
          FindsUser bundle.targetUid {} config.apiVersion owner e ∧
          RanRestart w.2.2.toProcessState owner (bundle.serviceName ++ ofString ".service") result
            w'.2.2.toProcessState) := by
  have hstatus : ∀ {status : ℕ} {body' : Bytes}, out = response status body' →
      (status : ℤ) = 202 ∧ body = body' := by
    intro status body' hresponse
    rw [hresponse, statusAndBody_response] at h202
    obtain ⟨hs, hb⟩ := Prod.mk.inj (Option.some.inj h202)
    exact ⟨hs, hb.symm⟩
  cases handled_handleRequest hexec with
  | refused same => exact absurd (hstatus rfl).1 (by decide)
  | alive same => exact absurd (hstatus rfl).1 (by decide)
  | missing same => exact absurd (hstatus rfl).1 (by decide)
  | failed asks attempted => exact absurd (hstatus rfl).1 (by decide)
  | @deployed query target bundle result asks attempted =>
      obtain ⟨trRead, trDeploy, rfl, hrequested, hrun⟩ := attempted.run
      have hkernel := (exec_systemctl hrun).1
      have hoption : (deployer config query).options.dryRun = false := hdry
      obtain ⟨expected, hexpected, hpath, hunit⟩ := exec_deploy_result hoption hkernel
      refine ⟨query, target, bundle, expected, result, asks, ?_, hexpected,
        installed_of_deploy_ok hroot hoption hkernel, ?_, fun hrestart => ?_⟩
      · rwa [lefts_inl_append_inr]
      · rw [(hstatus rfl).2, resultBody, hpath, hunit]
      · have hrestarts : (deployer config query).options.restartUnit = true := by
          refine decide_eq_true fun hfalse => hrestart ?_
          cases hone : query.one "restart" with
          | none =>
              rw [hone] at hfalse
              exact absurd hfalse (by decide)
          | some value =>
              rw [hone] at hfalse
              exact congrArg some hfalse
        rw [rights_inl_append_inr]
        exact ranRestart_of_deploy_ok hoption hrestarts hrun

end

/-! ### Runs -/

/-- A request to deploy. -/
def deployRequest : Bytes :=
  "POST /v1/deploy-bundle?user=app&quadletPath=web.container HTTP/1.1\r\n\r\n"

/-- What a few clients send: two requests, then nothing, and what is no request. -/
def someRequests : List Bytes := ["GET /healthz HTTP/1.1\r\n\r\n", deployRequest, [], "GET"]

/-- A Quadlet is staged. -/
def stagedWeb : Host (Fin 4) × World × Processes :=
  (smallHost fun _ => webQuadlet.contents, emptyWorld, plainProcesses)

/-- The choices for a service that reads a bundle, and for the library. -/
def readsWell (library : List (LinkChoice Choice ProcChoice Bool)) :
    List (HostChoice (Fin 4) ⊕ LinkChoice Choice ProcChoice Bool) :=
  List.replicate 5 (.inl {}) ++ library.map .inr

theorem serve_store_web : ∃ tr w' outs,
    Exec ((hostMachine smallSite).beside (systemctlMachine syncedKernel 2)) 0 stagedWeb
      (serve { stagingRoot := "/staging", dryRun := false } someRequests) tr w' outs ∧
    ∃ updates : List (Option Update), updates.length = 4 ∧
      w'.2.1.look 1000 "web.container" = updates.foldl (installedAt 1000 "web.container") none ∧
      w'.2.1.look 1000 "web.container" = some (.regular webQuadlet.contents) := by
  have hrun : (run ((hostMachine smallSite).beside (systemctlMachine syncedKernel 2)) 0
      (readsWell (untilReload.map .direct ++ healthyProcesses)) stagedWeb
      (serve { stagingRoot := "/staging", dryRun := false } someRequests)).any (fun out =>
        (out.2.2.all fun sent => sent.all fun text => (statusAndBody text).all fun answer =>
          decide (¬ restoreFailed <:+: answer.2)) &&
        decide (out.2.1.2.1.look 1000 "web.container" = some (.regular webQuadlet.contents))) =
      true := by decide +kernel
  obtain ⟨tr, w', outs, h, hends⟩ := exists_exec_of_run hrun
  obtain ⟨houts, hinstalled⟩ := (Bool.and_eq_true _ _).mp hends
  have hnone : NoneTells outs := by
    intro text hmem status body hread htells
    have hout := List.all_eq_true.1 houts _ hmem
    rw [Option.all_some, hread] at hout
    exact of_decide_eq_true hout htells
  obtain ⟨parts, updates, hserved, htells, hlook⟩ := serve_store rfl rfl rfl hnone h
  refine ⟨tr, w', outs, h, updates, ?_, hlook 1000 "web.container" ?_, of_decide_eq_true hinstalled⟩
  · have hlength := congrArg List.length hserved.raws
    rw [List.length_map, htells.length_eq] at hlength
    exact hlength
  · rw [Hidden]
    decide

theorem accepted_deployed_web : ∃ tr w' out body,
    Exec ((hostMachine smallSite).beside (systemctlMachine defaultKernel 2)) 0 stagedWeb
      (handleRequest { stagingRoot := "/staging", dryRun := false } deployRequest) tr w' out ∧
    statusAndBody out = some (202, body) ∧
    ∃ query target bundle, AsksToDeploy deployRequest query ∧
      Requested smallSite { stagingRoot := "/staging", dryRun := false } query (lefts tr) target
        bundle ∧
      w'.2.1.look bundle.targetUid bundle.quadlet.fileName =
        some (.regular bundle.quadlet.contents) ∧
      ∃ e ∈ ((rights tr).map (Event.outer (systemctlHandler 2))).head?, ∃ owner result,
        FindsUser bundle.targetUid {} "5.0.0" owner e ∧
        RanRestart stagedWeb.2.2.toProcessState owner (bundle.serviceName ++ ofString ".service")
          result w'.2.2.toProcessState := by
  have hrun : (run ((hostMachine smallSite).beside (systemctlMachine defaultKernel 2)) 0
      (readsWell (untilReload.map .direct ++ healthyProcesses)) stagedWeb
      (handleRequest { stagingRoot := "/staging", dryRun := false } deployRequest)).any (fun out =>
        (statusAndBody out.2.2).any (·.1 == 202)) = true := by decide +kernel
  obtain ⟨tr, w', out, h, hout⟩ := exists_exec_of_run hrun
  obtain ⟨answer, hanswer, hstatus⟩ := (Option.any_eq_true _ _).1 hout
  obtain ⟨status, body⟩ := answer
  obtain rfl := eq_of_beq hstatus
  obtain ⟨query, target, bundle, expected, result, hasks, hrequested, -, hlook, -, hrestart⟩ :=
    accepted_deployed rfl rfl h hanswer
  have hdefault : query.one "restart" ≠ some (ofString "false") := by
    obtain ⟨line, hline, hquery, -⟩ := hasks
    have hone : ((parseRequestLine deployRequest).bind fun line => parseQuery line.target).map
        (·.one "restart") = .ok none := by decide +kernel
    rw [hline, Except.bind, hquery] at hone
    have hnone : query.one "restart" = none := Except.ok.inj hone
    simp [hnone]
  obtain ⟨e, he, owner, hfinds, hran⟩ := hrestart hdefault
  exact ⟨tr, w', out, body, h, hanswer, query, target, bundle, hasks, hrequested, hlook, e, he,
    owner, result, hfinds, hran⟩

end Service

end PodInstaller
