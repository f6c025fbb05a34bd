/-
**The client of the Podman service.**

`PodmanClient` turns a call of one of its methods into a request over the socket of a user and turns
the answer into a result.  What the service is asked to do is in the request: in its method, in the
segments of its path, in the parameters behind the path and in a body or an upload.  A service that
decodes these finds what the client was called with, except for the container names `.` and `..`,
which are removed from the path on the way, and for label filters with control characters, whose
text is no JSON.  A call that is refused beforehand sends nothing.

Main definitions:

* `PodInstaller.info`, `PodInstaller.createContainer`, `PodInstaller.loadImageArchive` — the
  methods that a deployment does not use;
* `PodInstaller.Ask`, `PodInstaller.Ask.transfer` — what a service is asked to do, and the
  request that asks for it;
* `PodInstaller.readTransfer` — what a service finds in a request;
* `PodInstaller.PodmanCall`, `PodInstaller.converse` — the calls, and calls one after another;
* `PodInstaller.PodmanCall.Asks`, `PodInstaller.PodmanCall.Refuses` — what a call is there for, and
  why it is refused; for archives `PodInstaller.FdRefused` and `PodInstaller.PathRefused`;
* `PodInstaller.Conversed`, `PodInstaller.Dialogue.Held` — how a call ends, with what was sent.

Main results:

* `PodInstaller.readTransfer_transfer_iff` — **what arrives**;
* `PodInstaller.conversed_send` — **what one call does**;
* `PodInstaller.converse_arrives` — **what calls one after another do**.
-/

import PodInstaller.ServiceRequest

set_option relaxedAutoImplicit false
set_option autoImplicit false

namespace PodInstaller

open Bytes UrlPath

/-! ### The methods -/

/-- `PodmanClient::info`. -/
def info (target : PodmanTarget) : Action HttpResponse := do
  let response ← request target { method := "GET", path := versionedPath target "/libpod/info" }
  done (requireSuccess response "podman info")

/-- `PodmanClient::create_container`. -/
def createContainer (target : PodmanTarget) (spec : ContainerSpec) : Action HttpResponse := do
  let body ← done (toPodmanCreateJson spec)
  let response ← request target
    { method := "POST"
      path := versionedPath target "/libpod/containers/create"
      headers := ["Content-Type: application/json"]
      body := some body }
  done (requireSuccess response "create container")

/-- `PodmanClient::load_image_archive`. -/
def loadImageArchive (target : PodmanTarget) (archivePath : PosixPath) : Action HttpResponse := do
  let fd ← attempt (sys (.openPath (cStr archivePath) {})) fun e =>
    sysError (ofString "failed to open image archive '" ++ archivePath ++ ofString "'") e
  let st ← attempt (sys (.fstat fd)) fun e =>
    sysError (ofString "failed to stat image archive '" ++ archivePath ++ ofString "'") e
  rejectIf (st.kind ≠ .regular)
    (makeError .filesystem (ofString "image archive is not a regular file: " ++ archivePath))
  rejectIf (st.size < 0)
    (makeError .filesystem (ofString "image archive has invalid size: " ++ archivePath))
  loadImageArchiveFd target fd st.size.toNat

/-! ### What is asked for -/

/-- What the service is asked to do. -/
inductive Ask
  | ping
  | info
  | listContainers (all : Bool) (labelFilters : List Bytes)
  | createContainer (spec : ContainerSpec)
  | container (name : Bytes) (r : ContainerRequest)
  | loadImage (fd : Fd) (size : ℕ)

/-- A path and parameters in a URL; a path without parameters has no question mark behind it. -/
def endpointText (names : List Bytes) (params : List (Bytes × Bytes)) : Bytes :=
  if params = [] then segmentsText (names.map urlEncodeComponent)
  else targetText (segmentsText (names.map urlEncodeComponent)) params

/-- The text of a parameter that is a truth value. -/
def boolText (b : Bool) : Bytes := if b then "true" else "false"

namespace Ask

def method : Ask → Bytes
  | ping | info | listContainers _ _ => "GET"
  | createContainer _ | loadImage _ _ => "POST"
  | container _ .start | container _ (.stop _) => "POST"
  | container _ (.remove _) => "DELETE"

/-- The segments of the path behind the version. -/
def libpod : Ask → List Bytes
  | ping => []
  | info => ["info"]
  | listContainers _ _ => ["containers", "json"]
  | createContainer _ => ["containers", "create"]
  | container name r => ofString "containers" :: name :: r.action
  | loadImage _ _ => ["images", "load"]

/-- The segments of the path. -/
def names (version : Bytes) : Ask → List Bytes
  | ping => ["_ping"]
  | asked => (ofString "v" ++ version) :: ofString "libpod" :: asked.libpod

def params : Ask → List (Bytes × Bytes)
  | listContainers all labelFilters => ("all", boolText all) ::
      if labelFilters = [] then [] else [("filters", filtersJson labelFilters)]
  | container _ (.stop timeoutSeconds) => [("timeout", decimal timeoutSeconds)]
  | container _ (.remove force) => [("force", boolText force)]
  | _ => []

def headers : Ask → List Bytes
  | createContainer _ => ["Content-Type: application/json"]
  | loadImage _ _ => ["Content-Type: application/x-tar"]
  | _ => []

def body : Ask → Option Bytes
  | createContainer spec => some (Json.render jsonEscape (specJson spec))
  | _ => none

def upload : Ask → Option (Fd × ℕ)
  | loadImage fd size => some (fd, size)
  | _ => none

/-- The request that asks for it. -/
def transfer (target : PodmanTarget) (asked : Ask) : Transfer where
  socketPath := cStr target.socketPath
  url := baseUrl ++ endpointText (asked.names target.apiVersion) asked.params
  method := asked.method
  headers := asked.headers
  body := asked.body
  upload := asked.upload

/-- What can be said in a URL: a container is not named like a dot segment, and a filter has no
control character. -/
def Arrives : Ask → Prop
  | listContainers _ labelFilters => ∀ filter ∈ labelFilters, ∀ c ∈ filter, ¬ c < 0x20
  | container name _ => name ≠ "." ∧ name ≠ ".."
  | _ => True

end Ask

/-! ### What a service finds in a request -/

/-- The segments of a path, each behind its slash. -/
def segmentsOf (path : Bytes) : List Bytes := (path.splitOn (ch '/')).tail

def decodeCount : Json → Option ℕ
  | .num n => if n.exponent = 0 ∧ 0 ≤ n.mantissa then some n.mantissa.toNat else none
  | _ => none

/-- The object of the label filters. -/
def decodeFilters : Json → Option (List Bytes)
  | .obj ms => requireField ms "label" decodeStrings
  | _ => none

/-- A parameter that must be there. -/
def readParam {α : Type} (one : Bytes → Option Bytes) (key : Bytes) (decode : Json → Option α) :
    Option α :=
  one key >>= Json.parse >>= decode

/-- The filters, which may be missing. -/
def readFilters (one : Bytes → Option Bytes) : Option (List Bytes) :=
  match one "filters" with
  | none => some []
  | some text => Json.parse text >>= decodeFilters

/-- The endpoints behind the version. -/
def readLibpod (transfer : Transfer) (one : Bytes → Option Bytes) : List Bytes → Option Ask
  | [name] => if transfer.method = "GET" ∧ name = "info" then some .info else none
  | [kind, name] =>
    if kind = "images" then
      if transfer.method = "POST" ∧ name = "load" ∧
          transfer.headers = [ofString "Content-Type: application/x-tar"] then
        transfer.upload.map fun upload => .loadImage upload.1 upload.2
      else none
    else if kind = "containers" then
      if transfer.method = "DELETE" then
        (readParam one "force" decodeBool).map fun force => .container name (.remove force)
      else if transfer.method = "GET" ∧ name = "json" then do
        let all ← readParam one "all" decodeBool
        let labelFilters ← readFilters one
        return .listContainers all labelFilters
      else if transfer.method = "POST" ∧ name = "create" ∧
          transfer.headers = [ofString "Content-Type: application/json"] then
        (transfer.body >>= Json.parse >>= decodeSpec).map .createContainer
      else none
    else none
  | [kind, name, action] =>
    if kind = "containers" ∧ transfer.method = "POST" then
      if action = "start" then some (.container name .start)
      else if action = "stop" then
        (readParam one "timeout" decodeCount).map fun timeoutSeconds =>
          .container name (.stop timeoutSeconds)
      else none
    else none
  | _ => none

/-- The endpoints. -/
def readEndpoint (version : Bytes) (transfer : Transfer) (one : Bytes → Option Bytes) :
    List Bytes → Option Ask
  | [name] => if transfer.method = "GET" ∧ name = "_ping" then some .ping else none
  | name :: libpod :: endpoint =>
    if name = ofString "v" ++ version ∧ libpod = "libpod" then readLibpod transfer one endpoint
    else none
  | [] => none

/-- **What a service finds in a request**, of whose URL the dot segments are removed. -/
def readTransfer (version : Bytes) (transfer : Transfer) : Option Ask :=
  if baseUrl <+: transfer.url then do
    let query ← (parseQuery (requestTarget (transfer.url.drop baseUrl.length))).toOption
    let names ← (segmentsOf query.path).mapM fun s => (urlDecodeComponent false s).toOption
    readEndpoint version transfer query.one names
  else none

/-! ### URLs that are written -/

section

variable {names names' : List Bytes} {params : List (Bytes × Bytes)} {version : Bytes}

theorem segmentsOf_segmentsText {segments : List Bytes} (hne : segments ≠ [])
    (h : ∀ s ∈ segments, Segment s) : segmentsOf (segmentsText segments) = segments := by
  have hjoin : segmentsText segments = [ch '/'].intercalate ([] :: segments) := by
    clear h
    induction segments with
    | nil => exact absurd rfl hne
    | cons s segments ih =>
        rw [segmentsText_cons, List.intercalate_cons_cons, List.nil_append, List.singleton_append]
        cases segments with
        | nil => simp
        | cons s' segments =>
            rw [ih (by simp), List.intercalate_cons_cons, List.intercalate_cons_cons]
            simp
  have hnone : ∀ s ∈ [] :: segments, ch '/' ∉ s := by
    intro s hs
    rcases List.mem_cons.1 hs with rfl | hs
    · simp
    · exact h s hs
  rw [segmentsOf, hjoin, List.splitOn_intercalate _ hnone (by simp), List.tail_cons]

/-- The bytes of a path of encoded names. -/
theorem notMem_encodedPath {d : UInt8} (hd : unreserved d = false) (hpercent : d ≠ ch '%')
    (hslash : d ≠ ch '/') (names : List Bytes) :
    d ∉ segmentsText (names.map urlEncodeComponent) := by
  intro hmem
  obtain ⟨s, hs, hmem⟩ := List.mem_flatMap.1 hmem
  obtain ⟨name, -, rfl⟩ := List.mem_map.1 hs
  exact notMem_urlEncodeComponent hd hpercent name ((List.mem_cons.1 hmem).resolve_left hslash)

/-- The bytes of a URL. -/
theorem notMem_endpointText {d : UInt8} (hd : unreserved d = false) (hpercent : d ≠ ch '%')
    (hother : d ∉ ofString "/?&=") (names : List Bytes) (params : List (Bytes × Bytes)) :
    d ∉ endpointText names params := by
  simp only [ofString, List.mem_map, not_exists, not_and] at hother
  have hslash : d ≠ ch '/' := fun h => hother '/' (by decide) h.symm
  have hquestion : d ≠ ch '?' := fun h => hother '?' (by decide) h.symm
  have hand : d ≠ ch '&' := fun h => hother '&' (by decide) h.symm
  have hequals : d ≠ ch '=' := fun h => hother '=' (by decide) h.symm
  have hpath := notMem_encodedPath hd hpercent hslash names
  rw [endpointText]
  split
  · exact hpath
  · rw [targetText, List.mem_append, List.mem_cons]
    rintro (hmem | hmem | hmem)
    · exact hpath hmem
    · exact hquestion hmem
    · refine notMem_intercalate hand (fun block hblock => ?_) hmem
      obtain ⟨param, -, rfl⟩ := List.mem_map.1 hblock
      exact notMem_paramText hd hpercent hequals param

/-- The parameter that counts is the first one with a key. -/
def firstParam (params : List (Bytes × Bytes)) (key : Bytes) : Option Bytes :=
  (params.find? fun param => param.1 == key).map (·.2)

/-- A service decodes the names of the path that is left, and finds the parameters. -/
theorem parseQuery_endpointText (params : List (Bytes × Bytes)) (hne : names' ≠ [])
    (hpath : removeDotSegments (segmentsText (names.map urlEncodeComponent)) =
      segmentsText (names'.map urlEncodeComponent)) :
    ∃ query, parseQuery (requestTarget (endpointText names params)) = .ok query ∧
      (segmentsOf query.path).mapM (fun s => (urlDecodeComponent false s).toOption) = some names' ∧
      query.one = firstParam params := by
  have hquestion : ∀ names : List Bytes, ch '?' ∉ segmentsText (names.map urlEncodeComponent) :=
    notMem_encodedPath (by decide) (by decide) (by decide)
  have hfragment : ch '#' ∉ endpointText names params :=
    notMem_endpointText (by decide) (by decide) (by decide) names params
  have hsegments : segmentsOf (segmentsText (names'.map urlEncodeComponent)) =
      names'.map urlEncodeComponent := by
    refine segmentsOf_segmentsText (by simpa using hne) fun s hs => ?_
    obtain ⟨name, -, rfl⟩ := List.mem_map.1 hs
    exact notMem_urlEncodeComponent (by decide) (by decide) name
  have hdecode : (names'.map urlEncodeComponent).mapM
      (fun s => (urlDecodeComponent false s).toOption) = some names' := by
    clear hne hpath hsegments
    induction names' with
    | nil => rfl
    | cons name names' ih =>
        rw [List.map_cons, List.mapM_cons, urlDecodeComponent_urlEncodeComponent, ih]
        rfl
  rw [endpointText] at hfragment ⊢
  split at hfragment
  · rename_i hnil
    have htarget : requestTarget (segmentsText (names.map urlEncodeComponent) ++ []) =
        removeDotSegments (segmentsText (names.map urlEncodeComponent)) ++ [] :=
      requestTarget_append (hquestion names) (by simpa using hfragment) (.inl rfl)
    rw [List.append_nil, List.append_nil, hpath] at htarget
    rw [if_pos hnil, htarget, parseQuery, if_pos (hquestion names')]
    refine ⟨_, rfl, ?_, funext fun key => ?_⟩
    · rw [before_of_notMem (hquestion names'), hsegments, hdecode]
    · rw [hnil, Query.one_eq]
      simp [firstParam]
  · rename_i hcons
    rw [targetText] at hfragment
    have htarget := requestTarget_append (hquestion names) hfragment (.inr rfl)
    obtain ⟨query, hquery, hqueryPath, hvalues⟩ :=
      parseQuery_targetText params (hquestion names')
    rw [if_neg hcons, targetText, htarget, hpath, ← targetText]
    refine ⟨query, hquery, ?_, funext fun key => ?_⟩
    · rw [hqueryPath, hsegments, hdecode]
    · rw [Query.one_eq, hvalues, head?_valuesOf, firstParam]

/-- No name is a dot segment. -/
def Undotted (names : List Bytes) : Prop := ∀ name ∈ names, name ≠ "." ∧ name ≠ ".."

theorem Undotted.plain (h : Undotted names) : ∀ s ∈ names.map urlEncodeComponent, Plain s := by
  intro s hs
  obtain ⟨name, hname, rfl⟩ := List.mem_map.1 hs
  exact plain_urlEncodeComponent (h name hname).1 (h name hname).2

/-- Names that are not dot segments stay in the path. -/
theorem removeDotSegments_names (h : Undotted names) :
    removeDotSegments (segmentsText (names.map urlEncodeComponent)) =
      segmentsText (names.map urlEncodeComponent) := removeDotSegments_plain h.plain

/-- What is left of the names behind a name that was removed. -/
def orEmpty (names : List Bytes) : List Bytes := if names = [] then [[]] else names

theorem slashBefore_names (names : List Bytes) :
    slashBefore (segmentsText (names.map urlEncodeComponent)) =
      segmentsText ((orEmpty names).map urlEncodeComponent) := by
  cases names with
  | nil => rfl
  | cons name names => simp [orEmpty, slashBefore]

/-- A dot is removed from the path. -/
theorem removeDotSegments_dot {front back : List Bytes} (hfront : Undotted front)
    (hback : Undotted back) :
    removeDotSegments (segmentsText ((front ++ ofString "." :: back).map urlEncodeComponent)) =
      segmentsText ((front ++ orEmpty back).map urlEncodeComponent) := by
  have hdot : urlEncodeComponent (ofString ".") = ofString "." := by decide
  rw [List.map_append, List.map_cons, hdot, removeDots_dot hfront.plain hback.plain,
    slashBefore_names, List.map_append]
  simp [segmentsText]

/-- Two dots are removed with the name in front of them. -/
theorem removeDotSegments_dotdot {front back : List Bytes} {name : Bytes}
    (hfront : Undotted (front ++ [name])) (hback : Undotted back) :
    removeDotSegments
        (segmentsText ((front ++ name :: ofString ".." :: back).map urlEncodeComponent)) =
      segmentsText ((front ++ orEmpty back).map urlEncodeComponent) := by
  have hdotdot : urlEncodeComponent (ofString "..") = ofString ".." := by decide
  have hname := hfront name (by simp)
  have hbefore : Undotted front := fun s hs => hfront s (List.mem_append_left _ hs)
  rw [List.map_append, List.map_cons, List.map_cons, hdotdot, removeDots_dotdot hbefore.plain
    (plain_urlEncodeComponent hname.1 hname.2) hback.plain, slashBefore_names, List.map_append]
  simp [segmentsText]

end

/-! ### What arrives -/

section

variable {target : PodmanTarget} {version : Bytes} {asked : Ask}

theorem boolText_eq (b : Bool) : boolText b = Json.render jsonEscape (.bool b) := by
  rw [Json.render]
  cases b <;> rfl

theorem decimal_eq_render (n : ℕ) : decimal n = Json.render jsonEscape (.num ⟨n, 0⟩) := by
  have hnat : ¬ (n : ℤ) < 0 := by omega
  rw [Json.render, Json.renderNumber, decimalInt, if_neg hnat, Int.natAbs_natCast]
  simp

theorem readParam_bool {params : List (Bytes × Bytes)} {key : Bytes} {b : Bool}
    (h : firstParam params key = some (boolText b)) :
    readParam (firstParam params) key decodeBool = some b := by
  rw [readParam, h, boolText_eq]
  simp [Json.parse_render jsonEscape_escapes, decodeBool]

theorem readParam_count {params : List (Bytes × Bytes)} {key : Bytes} {n : ℕ}
    (h : firstParam params key = some (decimal n)) :
    readParam (firstParam params) key decodeCount = some n := by
  rw [readParam, h, decimal_eq_render]
  simp [Json.parse_render jsonEscape_escapes, decodeCount]

/-- The filters are found if they have no control character, and otherwise nothing is. -/
theorem readFilters_eq_some_iff {all : Bool} {labelFilters : List Bytes} :
    readFilters (firstParam (Ask.listContainers all labelFilters).params) = some labelFilters ↔
      (Ask.listContainers all labelFilters).Arrives := by
  by_cases hnil : labelFilters = []
  · subst hnil
    simp [readFilters, firstParam, Ask.params, Ask.Arrives, ofString]
  · have hfound : firstParam (Ask.listContainers all labelFilters).params "filters" =
        some (filtersJson labelFilters) := by
      simp [firstParam, Ask.params, hnil, ofString]
    rw [readFilters, hfound]
    constructor
    · intro hread filter hfilter c hc hlt
      have hbroken := parse_filtersJson_control ⟨filter, hfilter, c, hc, hlt⟩
      simp [hbroken] at hread
    · intro hclean
      rw [filtersJson_eq_render hclean]
      have hkey : List.lookup (ofString "label") [(ofString "label", stringsJson labelFilters)] =
          some (stringsJson labelFilters) := by simp
      simp [Json.parse_render jsonEscape_escapes, filtersObject, decodeFilters, requireField, hkey,
        decodeStrings_stringsJson]

/-- What a service finds, in terms of the path that is left of the path. -/
theorem readTransfer_eq {names : List Bytes} (hne : names ≠ [])
    (hpath : removeDotSegments
        (segmentsText ((asked.names target.apiVersion).map urlEncodeComponent)) =
      segmentsText (names.map urlEncodeComponent)) :
    readTransfer target.apiVersion (asked.transfer target) =
      readEndpoint target.apiVersion (asked.transfer target) (firstParam asked.params) names := by
  obtain ⟨query, hquery, hnames, hone⟩ := parseQuery_endpointText asked.params hne hpath
  have hurl : (asked.transfer target).url =
      baseUrl ++ endpointText (asked.names target.apiVersion) asked.params := rfl
  rw [readTransfer, hurl, if_pos (List.prefix_append _ _), List.drop_left, hquery]
  simp only [Except.toOption, Option.bind_eq_bind, Option.bind_some] at hnames ⊢
  rw [hnames, Option.bind_some, hone]

/-- The version stands in front of everything but a ping. -/
theorem Ask.names_eq (h : asked ≠ .ping) (version : Bytes) :
    asked.names version = [ofString "v" ++ version, ofString "libpod"] ++ asked.libpod := by
  cases asked with
  | ping => exact absurd rfl h
  | _ => rfl

theorem undotted_version (hv : ApiVersion version) :
    Undotted [ofString "v" ++ version, ofString "libpod"] := fun name hname =>
  (plain_containersSegments hv name (List.mem_append_left [ofString "containers"] hname)).2

theorem undotted_names (hv : ApiVersion version) (h : Undotted asked.libpod) :
    Undotted (asked.names version) := by
  by_cases hping : asked = .ping
  · subst hping
    intro name hname
    obtain rfl := List.mem_singleton.1 hname
    exact ⟨by decide, by decide⟩
  · intro name hname
    rw [Ask.names_eq hping] at hname
    rcases List.mem_append.1 hname with hname | hname
    · exact undotted_version hv name hname
    · exact h name hname

/-- Behind the version a service looks at the rest of the path. -/
theorem readEndpoint_version (version : Bytes) (transfer : Transfer) (one : Bytes → Option Bytes)
    (endpoint : List Bytes) :
    readEndpoint version transfer one ([ofString "v" ++ version, ofString "libpod"] ++ endpoint) =
      readLibpod transfer one endpoint := if_pos ⟨rfl, rfl⟩

theorem readLibpod_listContainers (all : Bool) (labelFilters : List Bytes) :
    readLibpod ((Ask.listContainers all labelFilters).transfer target)
        (firstParam (Ask.listContainers all labelFilters).params)
        (Ask.listContainers all labelFilters).libpod = some (.listContainers all labelFilters) ↔
      (Ask.listContainers all labelFilters).Arrives := by
  have hall : readParam (firstParam (Ask.listContainers all labelFilters).params) "all"
      decodeBool = some all := readParam_bool rfl
  rw [← readFilters_eq_some_iff, Ask.libpod, readLibpod, if_neg (by decide), if_pos rfl,
    if_neg (by simp only [Ask.transfer, Ask.method]; decide),
    if_pos ⟨rfl, rfl⟩, hall]
  cases readFilters (firstParam (Ask.listContainers all labelFilters).params) with
  | none => simp
  | some filters => simp

/-- The endpoints of a service are those of the client. -/
theorem readLibpod_libpod (hping : asked ≠ .ping)
    (hlist : ∀ all labelFilters, asked ≠ .listContainers all labelFilters) :
    readLibpod (asked.transfer target) (firstParam asked.params) asked.libpod = some asked := by
  cases asked with
  | ping => exact absurd rfl hping
  | info => rfl
  | listContainers all labelFilters => exact absurd rfl (hlist all labelFilters)
  | createContainer spec =>
      have hbody : Json.parse (Json.render jsonEscape (specJson spec)) = some (specJson spec) :=
        Json.parse_render jsonEscape_escapes _
      rw [Ask.libpod, readLibpod, if_neg (by decide), if_pos rfl,
        if_neg (by simp only [Ask.transfer, Ask.method]; decide),
        if_neg (by simp only [Ask.transfer, Ask.method]; decide), if_pos ⟨rfl, rfl, rfl⟩]
      simp [Ask.transfer, Ask.body, hbody, decodeSpec_specJson]
  | container name r =>
      cases r with
      | start => rfl
      | stop timeoutSeconds =>
          have htimeout :
              readParam (firstParam (Ask.container name (.stop timeoutSeconds)).params) "timeout"
                decodeCount = some timeoutSeconds := readParam_count rfl
          rw [Ask.libpod, ContainerRequest.action, readLibpod, if_pos ⟨rfl, rfl⟩,
            if_neg (by decide), if_pos rfl, htimeout]
          rfl
      | remove force =>
          have hforce : readParam (firstParam (Ask.container name (.remove force)).params) "force"
              decodeBool = some force := readParam_bool rfl
          have hmethod : ((Ask.container name (.remove force)).transfer target).method =
              ofString "DELETE" := rfl
          rw [Ask.libpod, ContainerRequest.action, readLibpod, if_neg (by decide), if_pos rfl,
            if_pos hmethod, hforce]
          rfl
  | loadImage fd size => rfl

/-- What a service finds behind the version, of a path that stays. -/
theorem readTransfer_stays (hv : ApiVersion target.apiVersion) (hping : asked ≠ .ping)
    (h : Undotted asked.libpod) : readTransfer target.apiVersion (asked.transfer target) =
      readLibpod (asked.transfer target) (firstParam asked.params) asked.libpod := by
  have hne : asked.names target.apiVersion ≠ [] := by simp [Ask.names_eq hping]
  rw [readTransfer_eq hne (removeDotSegments_names (undotted_names hv h)), Ask.names_eq hping,
    readEndpoint_version]

/-- What it finds of a path with a container that is called `.`. -/
theorem readTransfer_dot {action : List Bytes} (hv : ApiVersion target.apiVersion)
    (hping : asked ≠ .ping)
    (hlibpod : asked.libpod = ofString "containers" :: ofString "." :: action)
    (haction : Undotted action) : readTransfer target.apiVersion (asked.transfer target) =
      readLibpod (asked.transfer target) (firstParam asked.params)
        (ofString "containers" :: orEmpty action) := by
  have hfront : Undotted
      [ofString "v" ++ target.apiVersion, ofString "libpod", ofString "containers"] := fun name h =>
    (plain_containersSegments hv name h).2
  have hpath := removeDotSegments_dot hfront haction
  have hnames : asked.names target.apiVersion = [ofString "v" ++ target.apiVersion,
      ofString "libpod", ofString "containers"] ++ ofString "." :: action := by
    rw [Ask.names_eq hping, hlibpod]
    rfl
  rw [← hnames] at hpath
  rw [readTransfer_eq (by simp) hpath]
  exact readEndpoint_version _ _ _ _

/-- What it finds of a path with a container that is called `..`. -/
theorem readTransfer_dotdot {action : List Bytes} (hv : ApiVersion target.apiVersion)
    (hping : asked ≠ .ping)
    (hlibpod : asked.libpod = ofString "containers" :: ofString ".." :: action)
    (haction : Undotted action) : readTransfer target.apiVersion (asked.transfer target) =
      readLibpod (asked.transfer target) (firstParam asked.params) (orEmpty action) := by
  have hfront : Undotted
      ([ofString "v" ++ target.apiVersion, ofString "libpod"] ++ [ofString "containers"]) :=
    fun name h => (plain_containersSegments hv name h).2
  have hpath := removeDotSegments_dotdot hfront haction
  have hnames : asked.names target.apiVersion = [ofString "v" ++ target.apiVersion,
      ofString "libpod"] ++ ofString "containers" :: ofString ".." :: action := by
    rw [Ask.names_eq hping, hlibpod]
  rw [← hnames] at hpath
  rw [readTransfer_eq (by simp) hpath]
  exact readEndpoint_version _ _ _ _

theorem readLibpod_short {transfer : Transfer} (hmethod : transfer.method ≠ "GET")
    (one : Bytes → Option Bytes) (name : Bytes) : readLibpod transfer one [name] = none :=
  if_neg fun h => hmethod h.1

theorem readLibpod_posted {transfer : Transfer} (hmethod : transfer.method = "POST")
    (one : Bytes → Option Bytes) {name : Bytes} (hname : name ≠ "create") :
    readLibpod transfer one [ofString "containers", name] = none := by
  rw [readLibpod, hmethod, if_neg (by decide), if_pos rfl, if_neg (by decide),
    if_neg fun h => absurd h.1 (by decide), if_neg fun h => hname h.2.1]

theorem readLibpod_deleted {transfer : Transfer} (hmethod : transfer.method = "DELETE")
    (one : Bytes → Option Bytes) (name : Bytes) :
    readLibpod transfer one [ofString "containers", name] =
      (readParam one "force" decodeBool).map fun force => .container name (.remove force) := by
  rw [readLibpod, hmethod, if_neg (by decide), if_pos rfl, if_pos rfl]

theorem method_container_ne (name : Bytes) (r : ContainerRequest) :
    (Ask.container name r).method ≠ "GET" := by
  cases r with
  | start => exact (by decide : ofString "POST" ≠ ofString "GET")
  | stop timeoutSeconds => exact (by decide : ofString "POST" ≠ ofString "GET")
  | remove force => exact (by decide : ofString "DELETE" ≠ ofString "GET")

theorem undotted_action (r : ContainerRequest) : Undotted r.action := fun s hs =>
  (plain_action r s hs).2

/-- A request about a container with the name of a dot segment is another request, or none. -/
theorem readTransfer_dots (hv : ApiVersion target.apiVersion) {name : Bytes}
    (hname : name = "." ∨ name = "..") (r : ContainerRequest) :
    readTransfer target.apiVersion ((Ask.container name r).transfer target) ≠
      some (.container name r) := by
  have haction := undotted_action r
  rcases hname with rfl | rfl
  · -- the name is taken for the rest of the path, or for an empty name
    rw [readTransfer_dot hv (by simp) rfl haction]
    cases r with
    | start => exact ne_of_eq_of_ne (readLibpod_posted rfl _ (by decide)) (by simp)
    | stop timeoutSeconds => exact ne_of_eq_of_ne (readLibpod_posted rfl _ (by decide)) (by simp)
    | remove force =>
        refine ne_of_eq_of_ne (readLibpod_deleted rfl _ []) fun heq => ?_
        obtain ⟨b, -, hb⟩ := Option.map_eq_some_iff.1 heq
        obtain ⟨hempty, -⟩ := Ask.container.inj hb
        exact absurd hempty (by decide)
  · rw [readTransfer_dotdot hv (by simp) rfl haction]
    have hshort : ∀ {one : Bytes → Option Bytes} {s : Bytes},
        readLibpod ((Ask.container ".." r).transfer target) one [s] = none :=
      readLibpod_short (method_container_ne ".." r) _ _
    cases r with
    | start => exact ne_of_eq_of_ne hshort (by simp)
    | stop timeoutSeconds => exact ne_of_eq_of_ne hshort (by simp)
    | remove force => exact ne_of_eq_of_ne hshort (by simp)

/-- A request about a container arrives unless its name is a dot segment. -/
theorem readTransfer_container (hv : ApiVersion target.apiVersion) {name : Bytes}
    (r : ContainerRequest) :
    readTransfer target.apiVersion ((Ask.container name r).transfer target) =
      some (.container name r) ↔ name ≠ "." ∧ name ≠ ".." := by
  constructor
  · intro hread
    refine ⟨fun hdot => ?_, fun hdotdot => ?_⟩
    · exact readTransfer_dots hv (.inl hdot) r hread
    · exact readTransfer_dots hv (.inr hdotdot) r hread
  · intro hname
    have hundotted : Undotted (Ask.container name r).libpod := by
      intro s hs
      rcases List.mem_cons.1 hs with rfl | hs
      · exact ⟨by decide, by decide⟩
      · rcases List.mem_cons.1 hs with rfl | hs
        · exact hname
        · exact undotted_action r s hs
    rw [readTransfer_stays hv (by simp) hundotted, readLibpod_libpod (by simp) (by simp)]

theorem undotted_libpod (h : ∀ name r, asked ≠ .container name r) : Undotted asked.libpod := by
  cases asked with
  | container name r => exact absurd rfl (h name r)
  | ping => exact fun s hs => by cases hs
  | info => exact (by decide : ∀ s ∈ [ofString "info"], s ≠ "." ∧ s ≠ "..")
  | _ =>
      simp only [Ask.libpod, Undotted]
      decide

/-- **What arrives.**  A service that decodes a request finds what was asked for, except if it is
about a container with the name of a dot segment or has a filter with a control character. -/
theorem readTransfer_transfer_iff (hv : ApiVersion target.apiVersion) (asked : Ask) :
    readTransfer target.apiVersion (asked.transfer target) = some asked ↔ asked.Arrives := by
  cases asked with
  | ping =>
      have hping : Undotted (Ask.ping.names target.apiVersion) := by
        simp only [Ask.names, Undotted, List.mem_singleton, forall_eq]
        decide
      rw [readTransfer_eq (by simp [Ask.names]) (removeDotSegments_names hping)]
      exact iff_of_true rfl trivial
  | listContainers all labelFilters =>
      rw [readTransfer_stays hv (by simp) (undotted_libpod (by simp))]
      exact readLibpod_listContainers all labelFilters
  | container name r => exact readTransfer_container hv r
  | info =>
      rw [readTransfer_stays hv (by simp) (undotted_libpod (by simp)),
        readLibpod_libpod (by simp) (by simp)]
      exact iff_of_true rfl trivial
  | createContainer spec =>
      rw [readTransfer_stays hv (by simp) (undotted_libpod (by simp)),
        readLibpod_libpod (by simp) (by simp)]
      exact iff_of_true rfl trivial
  | loadImage fd size =>
      rw [readTransfer_stays hv (by simp) (undotted_libpod (by simp)),
        readLibpod_libpod (by simp) (by simp)]
      exact iff_of_true rfl trivial

end

/-! ### The requests of the client -/

section

variable {target : PodmanTarget}

theorem urlEncodeComponent_unreserved {s : Bytes} (h : ∀ c ∈ s, unreserved c = true) :
    urlEncodeComponent s = s := by
  induction s with
  | nil => rfl
  | cons c s ih =>
      have hc : urlEncodeByte c = [c] := by rw [urlEncodeByte, if_pos (h c (by simp))]
      rw [urlEncodeComponent, List.flatMap_cons, hc, ← urlEncodeComponent,
        ih fun c hc => h c (List.mem_cons_of_mem _ hc), List.singleton_append]

theorem urlEncodeComponent_decimal (n : ℕ) : urlEncodeComponent (decimal n) = decimal n := by
  refine urlEncodeComponent_unreserved fun c hc => ?_
  have hdigit := digit_of_mem_decimal hc
  have hisdigit : isdigit c = true := by
    simp only [isdigit, Bool.and_eq_true, decide_eq_true_eq, UInt8.le_iff_toNat_le]
    exact hdigit
  simp [unreserved, isalnum, hisdigit]

/-- The path of a request, with the version in front. -/
theorem versionedPath_eq (hv : ApiVersion target.apiVersion) (names : List Bytes) (rest : Bytes) :
    versionedPath target
        (ofString "/libpod" ++ (segmentsText (names.map urlEncodeComponent) ++ rest)) =
      segmentsText (([ofString "v" ++ target.apiVersion, ofString "libpod"] ++ names).map
        urlEncodeComponent) ++ rest := by
  have hslash : ofString "/libpod" ++ (segmentsText (names.map urlEncodeComponent) ++ rest) =
      ch '/' :: (ofString "libpod" ++ (segmentsText (names.map urlEncodeComponent) ++ rest)) := rfl
  have hversion : urlEncodeComponent (ofString "v" ++ target.apiVersion) =
      ofString "v" ++ target.apiVersion := by
    refine urlEncodeComponent_unreserved fun c hc => ?_
    rcases List.mem_append.1 hc with hc | hc
    · rw [List.mem_singleton.1 hc]
      decide
    · rcases hv.mem hc with hdigit | rfl
      · simp [unreserved, isalnum, hdigit]
      · decide
  have hlibpod : urlEncodeComponent (ofString "libpod") = ofString "libpod" := by decide +kernel
  rw [hslash, versionedPath_of_apiVersion hv, List.map_append, List.map_cons, List.map_cons,
    hversion, hlibpod]
  simp [ofString, ch]

/-- A URL without parameters. -/
theorem path_of_params_nil (hv : ApiVersion target.apiVersion) {asked : Ask} (h : asked ≠ .ping)
    (hparams : asked.params = []) : endpointText (asked.names target.apiVersion) asked.params =
      versionedPath target
        (ofString "/libpod" ++ segmentsText (asked.libpod.map urlEncodeComponent)) := by
  have hpath := versionedPath_eq hv asked.libpod []
  rw [List.append_nil, List.append_nil] at hpath
  rw [hpath, endpointText, if_pos hparams, Ask.names_eq h]

/-- A URL with parameters. -/
theorem path_of_params_ne_nil (hv : ApiVersion target.apiVersion) {asked : Ask}
    (h : asked ≠ .ping) (hparams : asked.params ≠ []) :
    endpointText (asked.names target.apiVersion) asked.params =
      versionedPath target
        (ofString "/libpod" ++ (segmentsText (asked.libpod.map urlEncodeComponent) ++
          ch '?' :: [ch '&'].intercalate (asked.params.map paramText))) := by
  rw [versionedPath_eq hv, endpointText, if_neg hparams, Ask.names_eq h, targetText]

/-- A URL has no NUL byte at which it would be cut. -/
theorem cStr_url (names : List Bytes) (params : List (Bytes × Bytes)) :
    cStr (baseUrl ++ endpointText names params) = baseUrl ++ endpointText names params := by
  refine cStr_eq_self ?_
  rw [List.mem_append, not_or]
  exact ⟨by decide, notMem_endpointText (by decide) (by decide) (by decide) _ _⟩

/-- A request of the client is the one that asks for it. -/
theorem request_eq (asked : Ask) {req : HttpRequest}
    (hpath : req.path = endpointText (asked.names target.apiVersion) asked.params)
    (hmethod : cStr req.method = asked.method) (hheaders : req.headers = asked.headers)
    (hbody : req.body = asked.body) (hupload : asked.upload = none) :
    request target req = attempt (sys (.curl (asked.transfer target))) curlError := by
  rw [request, hpath, hmethod, hheaders, hbody, cStr_url, Ask.transfer, hupload]

theorem info_eq (hv : ApiVersion target.apiVersion) : info target =
    attempt (sys (.curl (Ask.info.transfer target))) curlError >>= fun response =>
      done (requireSuccess response "podman info") := by
  rw [info, request_eq .info ?_ rfl rfl rfl rfl]
  rw [path_of_params_nil hv (by simp) rfl]
  rfl

theorem ping_eq : ping target =
    attempt (sys (.curl (Ask.ping.transfer target))) curlError >>= fun response =>
      done (requireSuccess response "podman ping") := by
  have hpath : ofString "/_ping" =
      endpointText (Ask.ping.names target.apiVersion) Ask.ping.params := by
    simp only [endpointText, Ask.params, Ask.names, if_true]
    decide +kernel
  rw [ping, hpath]
  rfl

/-- What stands behind the path stays there. -/
theorem versionedPath_append (hv : ApiVersion target.apiVersion) (path rest : Bytes) :
    versionedPath target (ch '/' :: (path ++ rest)) =
      versionedPath target (ch '/' :: path) ++ rest := by
  rw [versionedPath_of_apiVersion hv, versionedPath_of_apiVersion hv]
  simp

theorem paramText_bool (key : String) (hkey : ∀ c ∈ ofString key, unreserved c = true) (b : Bool) :
    paramText (ofString key, boolText b) = ofString key ++ ch '=' :: boolText b := by
  have hbool : urlEncodeComponent (boolText b) = boolText b := by
    refine urlEncodeComponent_unreserved ?_
    cases b <;> decide +kernel
  rw [paramText, urlEncodeComponent_unreserved hkey, hbool]

theorem listContainers_eq (hv : ApiVersion target.apiVersion) (all : Bool)
    (labelFilters : List Bytes) : listContainers target all labelFilters =
      attempt (sys (.curl ((Ask.listContainers all labelFilters).transfer target))) curlError
        >>= fun response => done (requireSuccess response "list containers") := by
  have hlibpod : ofString "/libpod/containers/json" = ofString "/libpod" ++
      segmentsText ([ofString "containers", ofString "json"].map urlEncodeComponent) := by
    decide +kernel
  have hfilters : urlEncodeComponent (ofString "filters") = ofString "filters" := by
    decide +kernel
  -- the first parameter stands there always, the second one only if there are filters
  have hquery : ofString (if all then "?all=true" else "?all=false") ++ filtersQuery labelFilters =
      ch '?' :: [ch '&'].intercalate
        ((Ask.listContainers all labelFilters).params.map paramText) := by
    have hall : ofString (if all then "?all=true" else "?all=false") =
        ch '?' :: paramText (ofString "all", boolText all) := by
      rw [paramText_bool "all" (by decide +kernel)]
      cases all <;> rfl
    rw [hall, filtersQuery, Ask.params]
    split_ifs with hnil
    · simp
    · rw [List.map_cons, List.map_cons, List.map_nil, List.intercalate_cons_cons, paramText,
        paramText, hfilters]
      simp [ofString, ch]
  rw [listContainers, request_eq (.listContainers all labelFilters) ?_ rfl rfl rfl rfl]
  rw [path_of_params_ne_nil hv (by simp) (by simp [Ask.params]), ← hquery, ← List.append_assoc,
    Ask.libpod, ← hlibpod, List.append_assoc]
  exact (versionedPath_append hv (ofString "libpod/containers/json") _).symm

theorem done_ok_bind {α β : Type} (a : α) (f : α → Action β) : (done (.ok a) >>= f) = f a := rfl

theorem createContainer_eq (hv : ApiVersion target.apiVersion) {spec : ContainerSpec}
    (hvalid : validateContainerSpec spec = .ok ()) : createContainer target spec =
      attempt (sys (.curl ((Ask.createContainer spec).transfer target))) curlError
        >>= fun response => done (requireSuccess response "create container") := by
  have hlibpod : ofString "/libpod/containers/create" = ofString "/libpod" ++
      segmentsText ([ofString "containers", ofString "create"].map urlEncodeComponent) := by
    decide +kernel
  rw [createContainer, toPodmanCreateJson_eq hvalid, done_ok_bind,
    request_eq (.createContainer spec) ?_ rfl rfl rfl rfl]
  rw [path_of_params_nil hv (by simp) rfl, hlibpod]
  rfl

/-- The path of a container, and what stands behind it. -/
theorem containerPath (name rest : Bytes) (action : List Bytes) :
    ofString "/libpod" ++ (segmentsText ((ofString "containers" :: name :: action).map
      urlEncodeComponent) ++ rest) = ofString "/libpod/containers/" ++ urlEncodeComponent name ++
        (segmentsText (action.map urlEncodeComponent) ++ rest) := by
  have hcontainers : urlEncodeComponent (ofString "containers") = ofString "containers" := by
    decide +kernel
  rw [List.map_cons, List.map_cons, hcontainers]
  simp [ofString, ch]

theorem startContainer_eq (hv : ApiVersion target.apiVersion) (name : Bytes) :
    startContainer target name =
      attempt (sys (.curl ((Ask.container name .start).transfer target))) curlError
        >>= fun response => done (requireSuccess response "start container") := by
  have haction : segmentsText ([ofString "start"].map urlEncodeComponent) ++ [] =
      ofString "/start" := by decide +kernel
  rw [startContainer, request_eq (.container name .start) ?_ rfl rfl rfl rfl]
  rw [path_of_params_nil hv (by simp) rfl, ← List.append_nil (segmentsText _), Ask.libpod,
    containerPath, ContainerRequest.action, haction]

theorem stopContainer_eq (hv : ApiVersion target.apiVersion) (name : Bytes) (n : ℕ) :
    stopContainer target name n =
      attempt (sys (.curl ((Ask.container name (.stop n)).transfer target))) curlError
        >>= fun response => done (requireSuccess response "stop container") := by
  have hnat : ¬ (n : ℤ) < 0 := by omega
  have haction : segmentsText ([ofString "stop"].map urlEncodeComponent) = ofString "/stop" := by
    decide +kernel
  have hparam : paramText (ofString "timeout", decimal n) = ofString "timeout=" ++ decimal n := by
    have htimeout : urlEncodeComponent (ofString "timeout") = ofString "timeout" := by
      decide +kernel
    rw [paramText, htimeout, urlEncodeComponent_decimal]
    rfl
  rw [stopContainer, rejectIf, reject, if_neg hnat]
  refine (done_ok_bind _ _).trans ?_
  rw [decimalInt, if_neg hnat, Int.natAbs_natCast,
    request_eq (.container name (.stop n)) ?_ rfl rfl rfl rfl]
  rw [path_of_params_ne_nil hv (by simp) (by simp [Ask.params]), Ask.libpod, containerPath,
    ContainerRequest.action, haction, Ask.params, List.map_singleton, hparam]
  simp [ofString, ch]

theorem removeContainer_eq (hv : ApiVersion target.apiVersion) (name : Bytes) (force : Bool) :
    removeContainer target name force =
      attempt (sys (.curl ((Ask.container name (.remove force)).transfer target))) curlError
        >>= fun response => done (requireSuccess response "remove container") := by
  rw [removeContainer, request_eq (.container name (.remove force)) ?_ rfl rfl rfl rfl]
  rw [path_of_params_ne_nil hv (by simp) (by simp [Ask.params]), Ask.libpod, containerPath,
    ContainerRequest.action, Ask.params, List.map_singleton,
    paramText_bool "force" (by decide +kernel)]
  cases force <;> simp [ofString, ch, boolText]

end

/-! ### Calls one after another -/

/-- The calls of the client. -/
inductive PodmanCall
  | ping
  | info
  | listContainers (all : Bool) (labelFilters : List Bytes)
  | createContainer (spec : ContainerSpec)
  | startContainer (name : Bytes)
  | stopContainer (name : Bytes) (timeoutSeconds : ℤ)
  | removeContainer (name : Bytes) (force : Bool)
  | loadImageArchive (archivePath : PosixPath)
  | loadImageArchiveFd (archiveFd : ℤ) (archiveSize : ℕ)

namespace PodmanCall

/-- The method of the client. -/
def send (target : PodmanTarget) : PodmanCall → Action HttpResponse
  | ping => PodInstaller.ping target
  | info => PodInstaller.info target
  | listContainers all labelFilters => PodInstaller.listContainers target all labelFilters
  | createContainer spec => PodInstaller.createContainer target spec
  | startContainer name => PodInstaller.startContainer target name
  | stopContainer name timeoutSeconds => PodInstaller.stopContainer target name timeoutSeconds
  | removeContainer name force => PodInstaller.removeContainer target name force
  | loadImageArchive archivePath => PodInstaller.loadImageArchive target archivePath
  | loadImageArchiveFd archiveFd archiveSize =>
    PodInstaller.loadImageArchiveFd target archiveFd archiveSize

/-- What an error of the call speaks of. -/
def operation : PodmanCall → Bytes
  | ping => "podman ping"
  | info => "podman info"
  | listContainers _ _ => "list containers"
  | createContainer _ => "create container"
  | startContainer _ => "start container"
  | stopContainer _ _ => "stop container"
  | removeContainer _ _ => "remove container"
  | loadImageArchive _ | loadImageArchiveFd _ _ => "load image archive"

end PodmanCall

/-- Calls of the client, one after another. -/
def converse (target : PodmanTarget) : List PodmanCall → SysProg (List (Result HttpResponse))
  | [] => .ret []
  | call :: calls => do
    let result ← (call.send target).run
    let results ← converse target calls
    return result :: results

section

variable {World Choice : Type}

/-- A request that was sent, and its answer. -/
def exchangeOf (e : Event Sys.Resp World Choice) :
    Option (Transfer × Except CurlFailure HttpResponse) :=
  match e with
  | ⟨_, .curl transfer, _, answer, _⟩ => some (transfer, answer)
  | _ => none

/-- The requests that were sent, and their answers. -/
def exchanges (tr : List (Event Sys.Resp World Choice)) :
    List (Transfer × Except CurlFailure HttpResponse) :=
  tr.filterMap exchangeOf

/-- A descriptor was looked at, and it is one of a regular file with at least as many bytes. -/
def SawArchive (tr : List (Event Sys.Resp World Choice)) (fd : Fd) (size : ℤ → Prop) : Prop :=
  ∃ w c st w', ⟨w, .fstat fd, c, .ok st, w'⟩ ∈ tr ∧ st.kind = .regular ∧ size st.size

/-- What a call asks for, if what it was called with passes its checks.  An archive is opened where
its path leads, and asked for in its whole size. -/
def PodmanCall.Asks (tr : List (Event Sys.Resp World Choice)) : PodmanCall → Ask → Prop
  | ping, asked => asked = .ping
  | info, asked => asked = .info
  | listContainers all labelFilters, asked => asked = .listContainers all labelFilters
  | createContainer spec, asked =>
    validateContainerSpec spec = .ok () ∧ asked = .createContainer spec
  | startContainer name, asked => asked = .container name .start
  | stopContainer name timeoutSeconds, asked =>
    ∃ n : ℕ, timeoutSeconds = n ∧ asked = .container name (.stop n)
  | removeContainer name force, asked => asked = .container name (.remove force)
  | loadImageArchive archivePath, asked => ∃ fd size, asked = .loadImage fd size ∧
    (∃ w c w', ⟨w, .openPath (cStr archivePath) {}, c, .ok fd, w'⟩ ∈ tr) ∧
    SawArchive tr fd (· = size)
  | loadImageArchiveFd archiveFd archiveSize, asked => ∃ fd : Fd, archiveFd = fd ∧
    asked = .loadImage fd archiveSize ∧ archiveSize ≤ 9223372036854775807 ∧
    SawArchive tr fd (archiveSize ≤ ·)

/-- Why the archive behind a descriptor is not sent, with the call that has shown it. -/
inductive FdRefused (fd : Fd) (size : ℕ) : List (Event Sys.Resp World Choice) → Error → Prop
  | unseen {w w' : World} {c : Choice} {n : Errno} :
      FdRefused fd size [⟨w, .fstat fd, c, .error n, w'⟩]
        (sysError "failed to stat image archive fd" n)
  | irregular {w w' : World} {c : Choice} {st : Stat} (kind : st.kind ≠ .regular) :
      FdRefused fd size [⟨w, .fstat fd, c, .ok st, w'⟩]
        (makeError .filesystem "image archive fd is not a regular file")
  | short {w w' : World} {c : Choice} {st : Stat} (kind : st.kind = .regular)
      (short : st.size < 0 ∨ st.size < size) :
      FdRefused fd size [⟨w, .fstat fd, c, .ok st, w'⟩]
        (makeError .invalidArgument "image archive fd size is invalid")
  | large {w w' : World} {c : Choice} {st : Stat} (kind : st.kind = .regular)
      (large : 9223372036854775807 < size) :
      FdRefused fd size [⟨w, .fstat fd, c, .ok st, w'⟩]
        (makeError .invalidArgument "image archive is too large for curl")

/-- Why the archive at a path is not sent, with the calls that have shown it. -/
inductive PathRefused (archivePath : PosixPath) :
    List (Event Sys.Resp World Choice) → Error → Prop
  | unopened {w w' : World} {c : Choice} {n : Errno} :
      PathRefused archivePath [⟨w, .openPath (cStr archivePath) {}, c, .error n, w'⟩]
        (sysError (ofString "failed to open image archive '" ++ archivePath ++ ofString "'") n)
  | unseen {w w₁ w' : World} {c c' : Choice} {fd : Fd} {n : Errno} :
      PathRefused archivePath
        [⟨w, .openPath (cStr archivePath) {}, c, .ok fd, w₁⟩, ⟨w₁, .fstat fd, c', .error n, w'⟩]
        (sysError (ofString "failed to stat image archive '" ++ archivePath ++ ofString "'") n)
  | irregular {w w₁ w' : World} {c c' : Choice} {fd : Fd} {st : Stat}
      (kind : st.kind ≠ .regular) :
      PathRefused archivePath
        [⟨w, .openPath (cStr archivePath) {}, c, .ok fd, w₁⟩, ⟨w₁, .fstat fd, c', .ok st, w'⟩]
        (makeError .filesystem (ofString "image archive is not a regular file: " ++ archivePath))
  | negative {w w₁ w' : World} {c c' : Choice} {fd : Fd} {st : Stat}
      (kind : st.kind = .regular) (negative : st.size < 0) :
      PathRefused archivePath
        [⟨w, .openPath (cStr archivePath) {}, c, .ok fd, w₁⟩, ⟨w₁, .fstat fd, c', .ok st, w'⟩]
        (makeError .filesystem (ofString "image archive has invalid size: " ++ archivePath))
  | fdRefused {w w₁ w' : World} {c c' : Choice} {fd : Fd} {st : Stat}
      {tr : List (Event Sys.Resp World Choice)} {e : Error} (kind : st.kind = .regular)
      (rest : FdRefused fd st.size.toNat tr e) :
      PathRefused archivePath (⟨w, .openPath (cStr archivePath) {}, c, .ok fd, w₁⟩ ::
        ⟨w₁, .fstat fd, c', .ok st, w'⟩ :: tr) e

/-- Why a call is refused before anything is sent: by its arguments, or by what was found of the
archive that it names. -/
def PodmanCall.Refuses (tr : List (Event Sys.Resp World Choice)) : PodmanCall → Error → Prop
  | createContainer spec, e => tr = [] ∧ validateContainerSpec spec = .error e
  | stopContainer _ timeoutSeconds, e => tr = [] ∧
    timeoutSeconds < 0 ∧ e = makeError .invalidArgument "stop timeout must be non-negative"
  | loadImageArchive archivePath, e => PathRefused archivePath tr e
  | loadImageArchiveFd archiveFd archiveSize, e =>
    (tr = [] ∧ archiveFd < 0 ∧ e = makeError .invalidArgument "image archive fd is invalid") ∨
      ∃ fd : Fd, archiveFd = fd ∧ FdRefused fd archiveSize tr e
  | _, _ => False

/-- What is made of the answer to a request. -/
def judged (operation : Bytes) : Except CurlFailure HttpResponse → Result HttpResponse
  | .ok response => requireSuccess response operation
  | .error failure => .error (curlError failure)

/-- How a call ends: it is refused and has sent nothing, or it has sent one request, which asks for
what the call is there for, and its result is made of the answer. -/
inductive Conversed (target : PodmanTarget) (call : PodmanCall)
    (tr : List (Event Sys.Resp World Choice)) : Result HttpResponse → Prop
  | refused {e : Error} (hrefuses : call.Refuses tr e) (hsent : exchanges tr = []) :
      Conversed target call tr (.error e)
  | answered {asked : Ask} {answer : Except CurlFailure HttpResponse} (hasks : call.Asks tr asked)
      (hsent : exchanges tr = [(asked.transfer target, answer)]) :
      Conversed target call tr (judged call.operation answer)

variable {M : Machine Sys.Resp World Choice} {t : ℕ} {w w' : World} {target : PodmanTarget}
variable {tr : List (Event Sys.Resp World Choice)} {r : Result HttpResponse}

/-- A request that is sent and whose answer is judged. -/
theorem exec_judged {transfer : Transfer} {operation : Bytes}
    (h : Exec M t w (attempt (sys (.curl transfer)) curlError >>= fun response =>
      done (requireSuccess response operation)).run tr w' r) :
    ∃ answer, exchanges tr = [(transfer, answer)] ∧ r = judged operation answer := by
  rcases exec_exceptT_bind.1 h with ⟨e, rfl, hfail⟩ | ⟨tr₁, w₁, response, tr₂, hsent, hdone, rfl⟩
  · obtain ⟨failure, rfl, hcurl⟩ := exec_attempt_error.1 hfail
    obtain ⟨c, -, rfl⟩ := exec_sys.1 hcurl
    exact ⟨.error failure, rfl, rfl⟩
  · obtain ⟨rfl, -, rfl⟩ := exec_done.1 hdone
    obtain ⟨c, -, rfl⟩ := exec_sys.1 (exec_attempt_ok.1 hsent)
    exact ⟨.ok response, rfl, rfl⟩

/-- A call that goes straight to its request. -/
theorem Conversed.of_request {call : PodmanCall} {asked : Ask} (hasks : call.Asks tr asked)
    (hsend : call.send target = attempt (sys (.curl (asked.transfer target))) curlError >>=
      fun response => done (requireSuccess response call.operation))
    (h : Exec M t w (call.send target).run tr w' r) : Conversed target call tr r := by
  rw [hsend] at h
  obtain ⟨answer, hsent, rfl⟩ := exec_judged h
  exact .answered hasks hsent

@[simp] theorem exchanges_append (tr tr' : List (Event Sys.Resp World Choice)) :
    exchanges (tr ++ tr') = exchanges tr ++ exchanges tr' := List.filterMap_append

/-- How the request ends that uploads the archive behind a descriptor. -/
theorem exec_loadFromFd (hv : ApiVersion target.apiVersion) {fd : Fd} {size : ℕ}
    (h : Exec M t w (loadFromFd target fd size).run tr w' r) :
    (∃ e, r = .error e ∧ FdRefused fd size tr e ∧ exchanges tr = []) ∨
    ∃ answer, exchanges tr = [((Ask.loadImage fd size).transfer target, answer)] ∧
      r = judged "load image archive" answer ∧ size ≤ 9223372036854775807 ∧
      SawArchive tr fd (size ≤ ·) := by
  have hpath : ofString "/libpod/images/load" = ofString "/libpod" ++
      segmentsText ([ofString "images", ofString "load"].map urlEncodeComponent) := by
    decide +kernel
  have hurl : cStr (baseUrl ++ versionedPath target "/libpod/images/load") =
      ((Ask.loadImage fd size).transfer target).url := by
    have hping : Ask.loadImage fd size ≠ .ping := by simp
    have hends := path_of_params_nil hv hping rfl
    rw [hpath, Ask.transfer]
    exact (congrArg (fun path => cStr (baseUrl ++ path)) hends.symm).trans (cStr_url _ _)
  rw [loadFromFd, exec_exceptT_bind] at h
  rcases h with ⟨e, rfl, hfail⟩ | ⟨tr₁, w₁, st, tr₂, hstat, hrest, rfl⟩
  · obtain ⟨n, rfl, hcall⟩ := exec_attempt_error.1 hfail
    obtain ⟨c, -, rfl⟩ := exec_sys.1 hcall
    exact .inl ⟨_, rfl, .unseen, rfl⟩
  · obtain ⟨c, -, rfl⟩ := exec_sys.1 (exec_attempt_ok.1 hstat)
    -- what is looked at sends nothing
    rcases exec_rejectIf_bind.1 hrest with ⟨hkind, rfl, -, rfl⟩ | ⟨hkind, hrest⟩
    · exact .inl ⟨_, rfl, .irregular hkind, rfl⟩
    rw [not_not] at hkind
    rcases exec_rejectIf_bind.1 hrest with ⟨hshort, rfl, -, rfl⟩ | ⟨hshort, hrest⟩
    · exact .inl ⟨_, rfl, .short hkind hshort, rfl⟩
    rcases exec_rejectIf_bind.1 hrest with ⟨hlarge, rfl, -, rfl⟩ | ⟨hfits, hrest⟩
    · exact .inl ⟨_, rfl, .large hkind hlarge, rfl⟩
    rw [hurl] at hrest
    obtain ⟨answer, hsent, rfl⟩ := exec_judged hrest
    refine .inr ⟨answer, hsent, rfl, not_lt.1 hfits, w, c, st, w₁, List.mem_cons_self, hkind, ?_⟩
    omega

/-- How the request ends that uploads the archive at a path. -/
theorem conversed_loadImageArchive (hv : ApiVersion target.apiVersion) {archivePath : PosixPath}
    (h : Exec M t w (loadImageArchive target archivePath).run tr w' r) :
    Conversed target (.loadImageArchive archivePath) tr r := by
  rw [loadImageArchive, exec_exceptT_bind] at h
  rcases h with ⟨e, rfl, hfail⟩ | ⟨tr₁, w₁, fd, tr₂, hopen, hrest, rfl⟩
  · obtain ⟨n, rfl, hcall⟩ := exec_attempt_error.1 hfail
    obtain ⟨c, -, rfl⟩ := exec_sys.1 hcall
    exact .refused .unopened rfl
  obtain ⟨c, -, rfl⟩ := exec_sys.1 (exec_attempt_ok.1 hopen)
  rw [exec_exceptT_bind] at hrest
  rcases hrest with ⟨e, rfl, hfail⟩ | ⟨tr₃, w₂, st, tr₄, hstat, hrest, rfl⟩
  · obtain ⟨n, rfl, hcall⟩ := exec_attempt_error.1 hfail
    obtain ⟨c', -, rfl⟩ := exec_sys.1 hcall
    exact .refused .unseen rfl
  obtain ⟨c', -, rfl⟩ := exec_sys.1 (exec_attempt_ok.1 hstat)
  rcases exec_rejectIf_bind.1 hrest with ⟨hkind, rfl, -, rfl⟩ | ⟨hkind, hrest⟩
  · exact .refused (.irregular hkind) rfl
  rw [not_not] at hkind
  rcases exec_rejectIf_bind.1 hrest with ⟨hnegative, rfl, -, rfl⟩ | ⟨hsize, hrest⟩
  · exact .refused (.negative hkind hnegative) rfl
  rw [loadImageArchiveFd_natCast] at hrest
  rcases exec_loadFromFd hv hrest with ⟨e, rfl, hrefused, hsent⟩ | ⟨answer, hsent, rfl, -, -⟩
  · exact .refused (.fdRefused hkind hrefused) hsent
  · refine .answered ⟨fd, st.size.toNat, rfl, ⟨w, c, w₁, by simp⟩, w₁, c', st, w₂, by simp, hkind,
      ?_⟩ hsent
    omega

/-- How the request ends that uploads the archive behind what is given as a descriptor. -/
theorem conversed_loadImageArchiveFd (hv : ApiVersion target.apiVersion) {archiveFd : ℤ}
    {archiveSize : ℕ}
    (h : Exec M t w (loadImageArchiveFd target archiveFd archiveSize).run tr w' r) :
    Conversed target (.loadImageArchiveFd archiveFd archiveSize) tr r := by
  rcases exec_rejectIf_bind.1 h with ⟨hneg, rfl, -, rfl⟩ | ⟨hpass, hrest⟩
  · exact .refused (.inl ⟨rfl, hneg, rfl⟩) rfl
  obtain ⟨fd, rfl⟩ := Int.eq_ofNat_of_zero_le (Int.not_lt.1 hpass)
  rw [Int.toNat_natCast] at hrest
  rcases exec_loadFromFd hv hrest with ⟨e, rfl, hrefused, hsent⟩ |
    ⟨answer, hsent, rfl, hfits, hsaw⟩
  · exact .refused (.inr ⟨fd, rfl, hrefused⟩) hsent
  · exact .answered ⟨fd, rfl, rfl, hfits, hsaw⟩ hsent

/-- **What one call does.** -/
theorem conversed_send (hv : ApiVersion target.apiVersion) {call : PodmanCall}
    (h : Exec M t w (call.send target).run tr w' r) : Conversed target call tr r := by
  cases call with
  | ping => exact .of_request rfl ping_eq h
  | info => exact .of_request rfl (info_eq hv) h
  | listContainers all labelFilters =>
      exact .of_request rfl (listContainers_eq hv all labelFilters) h
  | createContainer spec =>
      cases hvalid : validateContainerSpec spec with
      | ok u => exact .of_request ⟨hvalid, rfl⟩ (createContainer_eq hv hvalid) h
      | error e =>
          have hbody : toPodmanCreateJson spec = .error e := by
            rw [toPodmanCreateJson, hvalid]
            rfl
          rw [PodmanCall.send, createContainer, hbody] at h
          obtain ⟨rfl, -, rfl⟩ := exec_ret.1 h
          exact .refused ⟨rfl, hvalid⟩ rfl
  | startContainer name => exact .of_request rfl (startContainer_eq hv name) h
  | stopContainer name timeoutSeconds =>
      by_cases hneg : timeoutSeconds < 0
      · obtain ⟨rfl, -, rfl⟩ : tr = [] ∧ w' = w ∧ r = .error (makeError .invalidArgument
            "stop timeout must be non-negative") := by
          rcases exec_rejectIf_bind.1 h with ⟨-, htr, hw, hr⟩ | ⟨hpass, -⟩
          · exact ⟨htr, hw, hr⟩
          · exact absurd hneg hpass
        exact .refused ⟨rfl, hneg, rfl⟩ rfl
      · obtain ⟨n, rfl⟩ := Int.eq_ofNat_of_zero_le (Int.not_lt.1 hneg)
        exact .of_request ⟨n, rfl, rfl⟩ (stopContainer_eq hv name n) h
  | removeContainer name force => exact .of_request rfl (removeContainer_eq hv name force) h
  | loadImageArchive archivePath => exact conversed_loadImageArchive hv h
  | loadImageArchiveFd archiveFd archiveSize => exact conversed_loadImageArchiveFd hv h

/-- A call with what happened during it and its result. -/
structure Dialogue (World Choice : Type) where
  call : PodmanCall
  events : List (Event Sys.Resp World Choice)
  result : Result HttpResponse

/-- What holds of a call in a sequence of calls: at most one request was sent for it, over the
socket of the target, in which a service finds what was asked for if it can be said in a URL at all;
and it has succeeded exactly if the service answered so. -/
structure Dialogue.Held (target : PodmanTarget) (d : Dialogue World Choice) : Prop where
  conversed : Conversed target d.call d.events d.result
  arrives : ∀ transfer answer, (transfer, answer) ∈ exchanges d.events →
    exchanges d.events = [(transfer, answer)] ∧ transfer.socketPath = cStr target.socketPath ∧
      ∃ asked, d.call.Asks d.events asked ∧
        (readTransfer target.apiVersion transfer = some asked ↔ asked.Arrives)
  succeeds : ∀ response, d.result = .ok response ↔ 200 ≤ response.status ∧ response.status < 300 ∧
    ∃ transfer, (transfer, .ok response) ∈ exchanges d.events

/-- When an answer is a success. -/
theorem judged_eq_ok {operation : Bytes} {answer : Except CurlFailure HttpResponse}
    {response : HttpResponse} : judged operation answer = .ok response ↔
      200 ≤ response.status ∧ response.status < 300 ∧ answer = .ok response := by
  cases answer with
  | error failure => simp [judged]
  | ok answered =>
      rw [judged, requireSuccess_eq_ok, Except.ok.injEq]
      constructor
      · rintro ⟨⟨hlow, hhigh⟩, rfl⟩
        exact ⟨hlow, hhigh, rfl⟩
      · rintro ⟨hlow, hhigh, rfl⟩
        exact ⟨⟨hlow, hhigh⟩, rfl⟩

/-- A call that has ended as it should holds what is said of it. -/
theorem Conversed.held (hv : ApiVersion target.apiVersion) {d : Dialogue World Choice}
    (h : Conversed target d.call d.events d.result) : d.Held target := by
  obtain ⟨call, events, result⟩ := d
  refine ⟨h, ?_, ?_⟩
  · intro transfer answer hmem
    dsimp only at h hmem ⊢
    cases h with
    | refused hrefuses hsent =>
        rw [hsent] at hmem
        cases hmem
    | answered hasks hsent =>
        rename_i asked _
        rw [hsent] at hmem ⊢
        obtain ⟨rfl, rfl⟩ := Prod.mk.inj (List.mem_singleton.1 hmem)
        exact ⟨rfl, rfl, asked, hasks, readTransfer_transfer_iff hv asked⟩
  · intro response
    dsimp only at h ⊢
    cases h with
    | refused hrefuses hsent => simp [hsent]
    | answered hasks hsent =>
        rw [judged_eq_ok, hsent]
        simp [eq_comm]

/-- **What calls one after another do.**  The run is cut into the calls, each with its events and
its result. -/
theorem converse_arrives (hv : ApiVersion target.apiVersion) {calls : List PodmanCall}
    {results : List (Result HttpResponse)}
    (h : Exec M t w (converse target calls) tr w' results) :
    ∃ dialogues : List (Dialogue World Choice), dialogues.map Dialogue.call = calls ∧
      dialogues.flatMap Dialogue.events = tr ∧ dialogues.map Dialogue.result = results ∧
      ∀ d ∈ dialogues, d.Held target := by
  induction calls generalizing w tr results with
  | nil =>
      obtain ⟨rfl, -, rfl⟩ := exec_ret.1 h
      exact ⟨[], rfl, rfl, rfl, fun d hd => by cases hd⟩
  | cons call calls ih =>
      rw [converse] at h
      obtain ⟨tr₁, w₁, result, tr₂, hcall, hrest, rfl⟩ := exec_bind.1 h
      obtain ⟨tr₃, w₂, results', tr₄, hcalls, hend, rfl⟩ := exec_bind.1 hrest
      obtain ⟨rfl, rfl, rfl⟩ := exec_ret.1 hend
      obtain ⟨dialogues, hmap, hevents, hresults, hheld⟩ := ih hcalls
      have hfirst : Conversed target call tr₁ result := conversed_send hv hcall
      refine ⟨⟨call, tr₁, result⟩ :: dialogues, ?_, ?_, ?_, ?_⟩
      · rw [List.map_cons, hmap]
      · rw [List.flatMap_cons, hevents, List.append_nil]
      · rw [List.map_cons, hresults]
      · intro d hd
        rcases List.mem_cons.1 hd with rfl | hd
        · exact hfirst.held hv
        · exact hheld d hd

end

/-- A service that answers as it likes, beside an archive of five bytes. -/
def answeringService : Machine Sys.Resp Unit (Except CurlFailure HttpResponse) where
  step _ _ o answer :=
    match o with
    | .openPath _ _ => some (.ok 3, ())
    | .fstat _ => some (.ok ⟨.regular, 0, 0, 0o644, 5⟩, ())
    | .curl _ => some (answer, ())
    | _ => none

/-- Calls that are refused, that succeed and that the service turns down. -/
def mixedCalls : List PodmanCall :=
  [.stopContainer "web" (-1), .startContainer "web/../1", .loadImageArchive "/srv/web.tar",
    .loadImageArchiveFd 3 9, .listContainers true ["app=\"web\""]]

theorem converse_arrives_mixed : ∃ tr results,
    Exec answeringService 0 () (converse exampleTarget mixedCalls) tr () results ∧
    results.map Except.toBool = [false, true, true, false, false] ∧
    ∃ dialogues : List (Dialogue Unit (Except CurlFailure HttpResponse)),
      dialogues.flatMap Dialogue.events = tr ∧ dialogues.map Dialogue.result = results ∧
      ∀ d ∈ dialogues, d.Held exampleTarget := by
  have hrun : (run answeringService 0
      (List.replicate 6 (.ok { status := 204 }) ++ [.ok { status := 500 }]) ()
      (converse exampleTarget mixedCalls)).any
      (fun out => out.2.2.map Except.toBool == [false, true, true, false, false]) = true := by
    decide +kernel
  obtain ⟨tr, w', results, h, hresults⟩ := exists_exec_of_run hrun
  obtain ⟨dialogues, -, hevents, hmap, hheld⟩ := converse_arrives apiVersion_exampleTarget h
  exact ⟨tr, results, h, eq_of_beq hresults, dialogues, hevents, hmap, hheld⟩

end PodInstaller
