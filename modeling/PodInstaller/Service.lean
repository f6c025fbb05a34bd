/-
**The example service.**

The service answers requests one after another.  A request to deploy names a user, a Quadlet in the
staging directory, and perhaps an image archive there; the service looks the user up, reads the
Quadlet, has the library deploy it, and says in its response what has happened.

The files that are staged and the users are on the host of the service, and the library works on the
kernel and runs `systemctl`.  A request calls on one of them after the other, so that what it does
is known from what is known of the staged files and of deployments.

Main definitions:

* `PodInstaller.resolveUser`, `PodInstaller.Service.readBundle`,
  `PodInstaller.Service.handleDeployBundle`, `PodInstaller.Service.handleRequest`,
  `PodInstaller.Service.respond`, `PodInstaller.Service.serve` — the code;
* `PodInstaller.Service.Requested` — the bundle that a request asks for;
* `PodInstaller.Service.Handled` — what a request does.

Main results:

* `PodInstaller.Service.handled_handleRequest` — every request does one of these things.
-/

import PodInstaller.ServiceRequest
import PodInstaller.ServiceResponse
import PodInstaller.StagedFiles
import PodInstaller.LinkedDeployment

set_option relaxedAutoImplicit false
set_option autoImplicit false

namespace PodInstaller

open Bytes

/-! ### The code -/

/-- `resolve_user`. -/
def resolveUser (userName : Bytes) (layout : RuntimeDirectoryLayout) (apiVersion : Bytes) :
    HostAction PodmanTarget := do
  ExceptT.mk (pure (reject (userName = []) (makeError .invalidArgument "user name is empty")))
  let pw ← orFail (host (.getpwnam (cStr userName)))
    (sysError (ofString "getpwnam_r failed for user '" ++ userName ++ ofString "'"))
  match pw with
  | none =>
    throw (makeError .invalidArgument
      (ofString "user '" ++ userName ++ ofString "' does not exist"))
  | some pw => return makeTarget pw.uid pw.name layout apiVersion

namespace Service

/-- `Config`, without the address that the service listens on. -/
structure Config where
  apiVersion : Bytes := "5.0.0"
  stagingRoot : PosixPath := "/var/lib/pod-installer/staging"
  maxQuadletSize : ℕ := 1024 * 1024
  dryRun : Bool := true
  validateSocket : Bool := true

/-- `service_name_from_quadlet_path`. -/
def serviceNameFromQuadletPath (path : PosixPath) : Result Bytes := do
  let unit ← serviceUnitNameFromQuadlet (PosixPath.filename path)
  let suffix : Bytes := ".service"
  return unit.take (unit.length - suffix.length)

/-- The staged image archive that a request names, if it does. -/
def requestedArchive (config : Config) (query : Query) : HostAction (Option ImageArchive) :=
  match query.one "imageArchive" with
  | none => return none
  | some path => do
    -- the file is opened only to see that it is there; the library opens it again
    let staged ← openStagedRegularFile config.stagingRoot path (8 * 1024 * 1024 * 1024)
    return some { path := staged.relativePath }

/-- `handle_deploy_bundle` up to the deployment. -/
def readBundle (config : Config) (query : Query) (user : Bytes) (quadletPath : PosixPath) :
    HostAction (PodmanTarget × DeploymentBundle) := do
  let target ← resolveUser user {} config.apiVersion
  let contents ← readStagedRegularFile config.stagingRoot quadletPath config.maxQuadletSize
  let inferredService ← ExceptT.mk (pure (serviceNameFromQuadletPath quadletPath))
  let imageArchive ← requestedArchive config query
  return (target, {
    targetUid := target.uid
    serviceName := (query.one "service").getD inferredService
    imageArchive := imageArchive
    quadlet := ⟨PosixPath.filename quadletPath, contents⟩ })

/-- The deployer of a request. -/
def deployer (config : Config) (query : Query) : DeploymentOrchestrator where
  installer := {}
  options := {
    apiVersion := config.apiVersion
    validateSocket := config.validateSocket
    imageArchiveRoot := some config.stagingRoot
    loadImageArchive := decide ((query.one "loadImage").getD "true" ≠ "false")
    restartUnit := decide ((query.one "restart").getD "true" ≠ "false")
    dryRun := config.dryRun }

/-- A program of the service, which calls on its host and on the system of the library. -/
abbrev ServiceProg (α : Type) := Prog (SumResp HostCall.Resp Sys.Resp) α

/-- The body of the response to a deployment. -/
def resultBody (target : PodmanTarget) (deployed : DeploymentResult) : Bytes :=
  deployedBody deployed.dryRun target.userName deployed.installedQuadletPath deployed.systemdUnit
    (deployed.jobPath.getD []) (deployed.statusError.getD [])

/-- `handle_deploy_bundle`. -/
def handleDeployBundle (config : Config) (query : Query) : ServiceProg (Result Bytes) :=
  match query.one "user", query.one "quadletPath" with
  | some user, some quadletPath => do
    let read ← (readBundle config query user quadletPath).run.inl
    match read with
    | .error e => return .error e
    | .ok (target, bundle) =>
      let deployed ← ((deployer config query).deploy bundle).run.inr
      match deployed with
      | .error failure => return .error failure.error
      | .ok deployed => return .ok (resultBody target deployed)
  | _, _ =>
    return .error (makeError .invalidArgument
      "deploy-bundle requires user and quadletPath query parameters")

/-- The response to a request that has failed. -/
def refusal (e : Error) : Bytes := response 400 (errorBody e.message)

/-- The status of a response to a deployment that has succeeded. -/
def deployedStatus (config : Config) : ℕ := if config.dryRun then 200 else 202

/-- `handle_request`. -/
def handleRequest (config : Config) (raw : Bytes) : ServiceProg Bytes :=
  match parseRequestLine raw with
  | .error e => return refusal e
  | .ok line =>
    match parseQuery line.target with
    | .error e => return refusal e
    | .ok query =>
      if line.method = "GET" ∧ query.path = "/healthz" then
        return response 200 "\x7b\"status\":\"ok\"\x7d\n"
      else if line.method = "POST" ∧ query.path = "/v1/deploy-bundle" then do
        let result ← handleDeployBundle config query
        match result with
        | .error e => return refusal e
        | .ok body => return response (deployedStatus config) body
      else return response 404 "\x7b\"error\":\"not found\"\x7d\n"

/-- What `main` does with a connection of which `recv` has delivered `raw`: where that is nothing,
nothing is sent. -/
def respond (config : Config) (raw : Bytes) : ServiceProg (Option Bytes) :=
  if raw = [] then return none
  else do
    let out ← handleRequest config raw
    return some out

/-- The loop of `main`, over one connection after another. -/
def serve (config : Config) : List Bytes → ServiceProg (List (Option Bytes))
  | [] => return []
  | raw :: rest => do
    let out ← respond config raw
    let outs ← serve config rest
    return out :: outs

end Service

/-! ### What a request asks for -/

/-- What is recorded of a call of the service. -/
abbrev ServiceEvent (ι W C : Type) :=
  Event (SumResp HostCall.Resp Sys.Resp) (Host ι × W) (HostChoice ι ⊕ C)

/-- Nobody writes to the files of the host. -/
def QuietHost {ι : Type} (tr : List (HostEvent ι)) : Prop := ∀ e ∈ tr, e.choice.written = none

namespace Service

/-- A request to deploy, with its parameters. -/
def AsksToDeploy (raw : Bytes) (query : Query) : Prop :=
  ∃ line, parseRequestLine raw = .ok line ∧ parseQuery line.target = .ok query ∧
    line.method = "POST" ∧ query.path = "/v1/deploy-bundle"

section

variable {ι : Type} {site : Site ι} {t : ℕ} {h h' : Host ι} {tr : List (HostEvent ι)}
variable {config : Config} {query : Query} {user : Bytes} {quadletPath : PosixPath}
variable {target : PodmanTarget} {bundle : DeploymentBundle} {tr' : List (HostEvent ι)}

/-- The Quadlet of a request: it was read from the file that is staged under the path of the
request, and it is called what this file is called.  It is what the file contained at the first call
for the request, if nobody has written to it since. -/
structure RequestedQuadlet (site : Site ι) (config : Config) (query : Query)
    (tr : List (HostEvent ι)) (quadlet : QuadletFile) (i : ι) : Prop where
  path : ∃ path, query.one "quadletPath" = some path ∧
    quadlet.fileName = PosixPath.filename path ∧
    ReadFrom site config.stagingRoot path config.maxQuadletSize tr quadlet.contents i
  unwritten : ∀ e ∈ tr.head?, QuietHost tr.tail → quadlet.contents = e.after.contents i

/-- The bundle that a request asks for, whose calls on the host are those of the trace. -/
structure Requested (site : Site ι) (config : Config) (query : Query) (tr : List (HostEvent ι))
    (target : PodmanTarget) (bundle : DeploymentBundle) : Prop where
  user : ∃ user pw, query.one "user" = some user ∧ site.users (cStr user) = some pw ∧
    target = makeTarget pw.uid pw.name {} config.apiVersion
  uid : bundle.targetUid = target.uid
  quadlet : ∃ i, RequestedQuadlet site config query tr bundle.quadlet i
  service : ∃ path inferred, query.one "quadletPath" = some path ∧
    serviceNameFromQuadletPath path = .ok inferred ∧
    bundle.serviceName = (query.one "service").getD inferred
  archive : ∀ path, query.one "imageArchive" = some path → ∃ relative i,
    bundle.imageArchive = some { path := relative } ∧
    stagedRelativePath config.stagingRoot path = .ok relative ∧
    relativeStagedPath config.stagingRoot relative = .ok relative ∧
    site.Staged config.stagingRoot path i ∧ (site.fs.stat i).kind = .regular

/-- The user that is found under a name. -/
theorem exec_resolveUser {layout : RuntimeDirectoryLayout} {apiVersion : Bytes}
    (hexec : Exec (hostMachine site) t h (resolveUser user layout apiVersion).run tr h'
      (.ok target)) :
    (∃ pw, site.users (cStr user) = some pw ∧
      target = makeTarget pw.uid pw.name layout apiVersion) ∧ ∃ e, tr = [e] ∧ e.after = h' := by
  rw [resolveUser] at hexec
  obtain ⟨_, _, _, _, hempty, hexec₁, rfl⟩ := exec_bind_ok.1 hexec
  obtain ⟨rfl, rfl, -⟩ := exec_ret.1 hempty
  obtain ⟨trUser, h₁, pw, _, hlookup, hrest, rfl⟩ := exec_bind_ok.1 hexec₁
  obtain ⟨c, hstep, rfl⟩ := exec_host (exec_orFail_ok.1 hlookup)
  rcases Site.step_ok hstep with hgo | ⟨_, _, _, _, hread⟩
  swap
  · cases hread
  obtain ⟨hpw, -⟩ := Prod.mk.inj (Option.some.inj hgo)
  obtain rfl := Except.ok.inj hpw
  cases hfound : site.users (cStr user) with
  | none =>
      rw [hfound] at hrest
      obtain ⟨-, -, hr⟩ := exec_ret.1 hrest
      cases hr
  | some pw =>
      rw [hfound] at hrest
      obtain ⟨rfl, rfl, hr⟩ := exec_ret.1 hrest
      exact ⟨⟨pw, rfl, Except.ok.inj hr⟩, _, rfl, rfl⟩

/-- The image archive that a request names is there, and the library will let its path through. -/
theorem exec_requestedArchive {archive : Option ImageArchive}
    (hexec : Exec (hostMachine site) t h (requestedArchive config query).run tr h' (.ok archive)) :
    ∀ path, query.one "imageArchive" = some path → ∃ relative i,
      archive = some { path := relative } ∧
      stagedRelativePath config.stagingRoot path = .ok relative ∧
      relativeStagedPath config.stagingRoot relative = .ok relative ∧
      site.Staged config.stagingRoot path i ∧ (site.fs.stat i).kind = .regular := by
  intro path hpath
  rw [requestedArchive, hpath] at hexec
  obtain ⟨trOpen, h₁, file, _, hopen, hret, rfl⟩ := exec_bind_ok.1 hexec
  obtain ⟨-, -, harchive⟩ := exec_ret.1 hret
  obtain ⟨hrelative, -, i, hstaged, hkind, -⟩ := exec_openStagedRegularFile hopen
  exact ⟨file.relativePath, i, Except.ok.inj harchive, hrelative,
    relativeStagedPath_of_staged hstaged.root_ne_nil hrelative, hstaged, hkind⟩

/-- **What is read for a request** is what it asks for. -/
theorem exec_readBundle (hquadlet : query.one "quadletPath" = some quadletPath)
    (huser : query.one "user" = some user)
    (hexec : Exec (hostMachine site) t h (readBundle config query user quadletPath).run tr h'
      (.ok (target, bundle))) : Requested site config query tr target bundle := by
  rw [readBundle] at hexec
  obtain ⟨trUser, h₁, target', _, hresolve, hexec₁, rfl⟩ := exec_bind_ok.1 hexec
  obtain ⟨trRead, h₂, contents, _, hread, hexec₂, rfl⟩ := exec_bind_ok.1 hexec₁
  obtain ⟨_, _, inferred, _, hname, hexec₃, rfl⟩ := exec_bind_ok.1 hexec₂
  obtain ⟨rfl, rfl, hinferred⟩ := exec_ret.1 hname
  obtain ⟨trArchive, h₃, archive, _, harchive, hret, rfl⟩ := exec_bind_ok.1 hexec₃
  obtain ⟨-, -, hpair⟩ := exec_ret.1 hret
  obtain ⟨rfl, rfl⟩ := Prod.mk.inj (Except.ok.inj hpair)
  obtain ⟨⟨pw, hpw, htarget⟩, first, rfl, hfirst⟩ := exec_resolveUser hresolve
  obtain ⟨i, hfrom⟩ := readFrom_readStagedRegularFile hread
  refine ⟨⟨user, pw, huser, hpw, htarget⟩, rfl, ⟨i, ⟨quadletPath, hquadlet, rfl,
    hfrom.mono fun e he => ?_⟩, fun e he hquiet => ?_⟩, ⟨quadletPath, inferred, hquadlet,
      hinferred.symm, rfl⟩, exec_requestedArchive harchive⟩
  · simp [he]
  · obtain rfl : first = e := by simpa using he
    have hduring := (exec_contents (calls_readStagedRegularFile _ _ _) hread
      fun e he => hquiet e (by simp [he])).1
    refine hfrom.eq fun e he => ?_
    rw [hduring e he, hfirst]

end

/-! ### What a request does -/

section

variable {ι W C : Type} {site : Site ι} {M : Machine Sys.Resp W C} {t : ℕ} {config : Config}
variable {w w' : Host ι × W} {tr : List (ServiceEvent ι W C)} {raw out : Bytes} {query : Query}

/-- A deployment for a request: the bundle was read on the host, and then the library has run. -/
structure Attempted (site : Site ι) (M : Machine Sys.Resp W C) (t : ℕ) (config : Config)
    (query : Query) (w w' : Host ι × W) (tr : List (ServiceEvent ι W C)) (target : PodmanTarget)
    (bundle : DeploymentBundle) (r : Except Failure DeploymentResult) : Prop where
  run : ∃ trRead trDeploy, tr = trRead.map (Event.inl w.2) ++ trDeploy.map (Event.inr w'.1) ∧
    Requested site config query trRead target bundle ∧
    Exec M t w.2 ((deployer config query).deploy bundle).run trDeploy w'.2 r

/-- What a request does, with the response to it. -/
inductive Handled (site : Site ι) (M : Machine Sys.Resp W C) (t : ℕ) (config : Config) (raw : Bytes)
    (w w' : Host ι × W) (tr : List (ServiceEvent ι W C)) : Bytes → Prop
  | refused {e : Error} (same : w'.2 = w.2) : Handled site M t config raw w w' tr (refusal e)
  | alive (same : w'.2 = w.2) :
      Handled site M t config raw w w' tr (response 200 "\x7b\"status\":\"ok\"\x7d\n")
  | missing (same : w'.2 = w.2) :
      Handled site M t config raw w w' tr (response 404 "\x7b\"error\":\"not found\"\x7d\n")
  | failed {query : Query} {target : PodmanTarget} {bundle : DeploymentBundle} {failure : Failure}
      (asks : AsksToDeploy raw query)
      (attempted : Attempted site M t config query w w' tr target bundle (.error failure)) :
      Handled site M t config raw w w' tr (refusal failure.error)
  | deployed {query : Query} {target : PodmanTarget} {bundle : DeploymentBundle}
      {result : DeploymentResult} (asks : AsksToDeploy raw query)
      (attempted : Attempted site M t config query w w' tr target bundle (.ok result)) :
      Handled site M t config raw w w' tr
        (response (deployedStatus config) (resultBody target result))

/-- How a request to deploy ends. -/
theorem exec_handleDeployBundle {r : Result Bytes}
    (hexec : Exec ((hostMachine site).beside M) t w (handleDeployBundle config query) tr w' r) :
    (∃ e, r = .error e ∧ w'.2 = w.2) ∨ ∃ target bundle r',
      Attempted site M t config query w w' tr target bundle r' ∧
      r = (r'.map (resultBody target)).mapError Failure.error := by
  rw [handleDeployBundle] at hexec
  split at hexec
  · rename_i user quadletPath huser hquadlet
    obtain ⟨tr₁, w₁, read, tr₂, hread, hrest, rfl⟩ := exec_bind.1 hexec
    obtain ⟨trRead, hbundle, hsame, rfl⟩ := exec_inl hread
    cases read with
    | error e =>
        obtain ⟨-, rfl, rfl⟩ := exec_ret.1 hrest
        exact .inl ⟨e, rfl, hsame⟩
    | ok read =>
        obtain ⟨target, bundle⟩ := read
        obtain ⟨tr₃, w₂, deployed, tr₄, hdeploy, hret, rfl⟩ := exec_bind.1 hrest
        obtain ⟨trDeploy, hlibrary, hhost, rfl⟩ := exec_inr hdeploy
        have hrequested := exec_readBundle hquadlet huser hbundle
        rw [hsame] at hlibrary
        cases deployed with
        | error failure =>
            obtain ⟨rfl, rfl, rfl⟩ := exec_ret.1 hret
            exact .inr ⟨target, bundle, .error failure,
              ⟨trRead, trDeploy, by rw [List.append_nil, hhost], hrequested, hlibrary⟩, rfl⟩
        | ok result =>
            obtain ⟨rfl, rfl, rfl⟩ := exec_ret.1 hret
            exact .inr ⟨target, bundle, .ok result,
              ⟨trRead, trDeploy, by rw [List.append_nil, hhost], hrequested, hlibrary⟩, rfl⟩
  · obtain ⟨-, rfl, rfl⟩ := exec_ret.1 hexec
    exact .inl ⟨_, rfl, rfl⟩

/-- **What a request does.** -/
theorem handled_handleRequest
    (hexec : Exec ((hostMachine site).beside M) t w (handleRequest config raw) tr w' out) :
    Handled site M t config raw w w' tr out := by
  rw [handleRequest] at hexec
  split at hexec
  · obtain ⟨-, rfl, rfl⟩ := exec_ret.1 hexec
    exact .refused rfl
  · rename_i line hline
    split at hexec
    · obtain ⟨-, rfl, rfl⟩ := exec_ret.1 hexec
      exact .refused rfl
    · rename_i query hquery
      split at hexec
      · obtain ⟨-, rfl, rfl⟩ := exec_ret.1 hexec
        exact .alive rfl
      · split at hexec
        · rename_i hasks
          have hasks : AsksToDeploy raw query := ⟨line, hline, hquery, hasks.1, hasks.2⟩
          obtain ⟨tr₁, w₁, r, tr₂, hdeploy, hret, rfl⟩ := exec_bind.1 hexec
          rcases exec_handleDeployBundle hdeploy with
            ⟨e, rfl, hsame⟩ | ⟨target, bundle, r', hattempted, rfl⟩
          · obtain ⟨-, rfl, rfl⟩ := exec_ret.1 hret
            exact .refused hsame
          · cases r' with
            | error failure =>
                obtain ⟨rfl, rfl, rfl⟩ := exec_ret.1 hret
                rw [List.append_nil]
                exact .failed hasks hattempted
            | ok result =>
                obtain ⟨rfl, rfl, rfl⟩ := exec_ret.1 hret
                rw [List.append_nil]
                exact .deployed hasks hattempted
        · obtain ⟨-, rfl, rfl⟩ := exec_ret.1 hexec
          exact .missing rfl

end

end Service

end PodInstaller
