/-
**The requests about containers.**

The Podman client asks about containers under the path `/libpod/containers/`.  The name of a
container goes into the path as one percent-encoded component, and a list of label filters goes
into the query as the percent-encoding of a JSON text that the client writes itself.

Percent-encoding leaves the unreserved bytes alone, the dot among them.  So the names `.` and `..`
are written as dot segments, which are removed before the request is sent, and these are the only
names that do not arrive.  The writer of the filters escapes quotes and backslashes and nothing
else, while a JSON text may not hold a control character unescaped.

Main definitions:

* `PodInstaller.HttpRequest`, `PodInstaller.request` — a request without an upload;
* `PodInstaller.startContainer`, `PodInstaller.stopContainer`, `PodInstaller.removeContainer`,
  `PodInstaller.listContainers` — the requests;
* `PodInstaller.filtersQuery` — the query of the label filters;
* `PodInstaller.ContainerRequest`, `PodInstaller.KeepsEndpoint` — the requests about one container,
  and that a request goes to its own endpoint;
* `PodInstaller.FiltersArrive` — the filters are read back as they were given.

Main results:

* `PodInstaller.keepsEndpoint_iff` — the names that stay one segment of the path;
* `PodInstaller.filtersArrive_iff` — the filters that are read back.
-/

import PodInstaller.UrlCodec
import PodInstaller.UrlPath
import PodInstaller.Target
import PodInstaller.CreateBody

set_option relaxedAutoImplicit false
set_option autoImplicit false

namespace PodInstaller

open Bytes UrlPath

/-! ### Requests -/

/-- `HttpRequest`. -/
structure HttpRequest where
  method : Bytes
  path : Bytes
  headers : List Bytes := []
  body : Option Bytes := none

/-- `PodmanClient::request`. -/
def request (target : PodmanTarget) (req : HttpRequest) : Action HttpResponse :=
  attempt (sys (.curl
    { socketPath := cStr target.socketPath
      url := cStr (baseUrl ++ req.path)
      method := cStr req.method
      headers := req.headers
      body := req.body })) curlError

/-- `PodmanClient::start_container`. -/
def startContainer (target : PodmanTarget) (name : Bytes) : Action HttpResponse := do
  let response ← request target
    { method := "POST"
      path := versionedPath target
        (ofString "/libpod/containers/" ++ urlEncodeComponent name ++ ofString "/start") }
  done (requireSuccess response "start container")

/-- `PodmanClient::stop_container`. -/
def stopContainer (target : PodmanTarget) (name : Bytes) (timeoutSeconds : ℤ) :
    Action HttpResponse := do
  rejectIf (timeoutSeconds < 0)
    (makeError .invalidArgument "stop timeout must be non-negative")
  let response ← request target
    { method := "POST"
      path := versionedPath target (ofString "/libpod/containers/" ++ urlEncodeComponent name ++
        ofString "/stop?timeout=" ++ decimalInt timeoutSeconds) }
  done (requireSuccess response "stop container")

/-- `PodmanClient::remove_container`. -/
def removeContainer (target : PodmanTarget) (name : Bytes) (force : Bool) :
    Action HttpResponse := do
  let response ← request target
    { method := "DELETE"
      path := versionedPath target (ofString "/libpod/containers/" ++ urlEncodeComponent name ++
        ofString "?force=" ++ ofString (if force then "true" else "false")) }
  done (requireSuccess response "remove container")

/-! ### One segment of the path -/

/-- An `api_version` of digits and of dots between digits. -/
def ApiVersion (version : Bytes) : Prop :=
  ∀ block ∈ version.splitOn (ch '.'), block ≠ [] ∧ ∀ c ∈ block, isdigit c = true

/-- The requests about one container. -/
inductive ContainerRequest
  | start
  | stop (timeoutSeconds : ℕ)
  | remove (force : Bool)

namespace ContainerRequest

/-- The request of a client. -/
def send (target : PodmanTarget) (name : Bytes) : ContainerRequest → Action HttpResponse
  | start => startContainer target name
  | stop timeoutSeconds => stopContainer target name timeoutSeconds
  | remove force => removeContainer target name force

/-- The segments behind the name of the container. -/
def action : ContainerRequest → List Bytes
  | start => ["start"]
  | stop _ => ["stop"]
  | remove _ => []

/-- The query. -/
def query : ContainerRequest → Bytes
  | start => []
  | stop timeoutSeconds => ofString "?timeout=" ++ decimal timeoutSeconds
  | remove force => ofString "?force=" ++ ofString (if force then "true" else "false")

end ContainerRequest

/-- The request goes to its own endpoint: the path that is sent is the prefix of the version, the
path of the containers, one segment that is an encoding of the name, and the rest of the
endpoint. -/
def KeepsEndpoint (target : PodmanTarget) (name : Bytes) (r : ContainerRequest) : Prop :=
  (r.send target name).run.Calls fun o _ => ∃ transfer url component,
    o = .curl transfer ∧ transfer.url = baseUrl ++ url ∧
    component ≠ [] ∧ Segment component ∧ ch '?' ∉ component ∧
    urlDecodeComponent false component = .ok name ∧
    requestTarget url = ofString "/v" ++ target.apiVersion ++ ofString "/libpod/containers/" ++
      component ++ segmentsText r.action ++ r.query

/-- The bytes of an encoding. -/
theorem unreserved_of_mem_urlEncodeComponent {s : Bytes} {c : UInt8}
    (h : c ∈ urlEncodeComponent s) : unreserved c = true ∨ c = ch '%' := by
  have hdigit : ∀ n, n < 16 → unreserved (upperHexDigit n) = true := by decide +kernel
  obtain ⟨b, -, hc⟩ := List.mem_flatMap.1 h
  have hb := b.toNat_lt
  unfold urlEncodeByte at hc
  split at hc
  · rename_i hplain
    rw [List.mem_singleton] at hc
    exact .inl (hc ▸ hplain)
  · simp only [List.mem_cons, List.not_mem_nil, or_false] at hc
    rcases hc with rfl | rfl | rfl
    · exact .inr rfl
    · exact .inl (hdigit _ (by omega))
    · exact .inl (hdigit _ (by omega))

theorem notMem_urlEncodeComponent {d : UInt8} (h : unreserved d = false) (hd : d ≠ ch '%')
    (s : Bytes) : d ∉ urlEncodeComponent s := by
  intro hmem
  rcases unreserved_of_mem_urlEncodeComponent hmem with hmem | hmem
  · rw [h] at hmem
    cases hmem
  · exact hd hmem

theorem urlEncodeComponent_injective : Function.Injective urlEncodeComponent := by
  intro s t h
  have hs := urlDecodeComponent_urlEncodeComponent false s
  rw [h, urlDecodeComponent_urlEncodeComponent] at hs
  exact (Except.ok.inj hs).symm

theorem urlEncodeComponent_ne_nil {s : Bytes} (h : s ≠ []) : urlEncodeComponent s ≠ [] :=
  fun hnil => h (urlEncodeComponent_injective hnil)

/-- The dots are the only names whose encoding is a dot segment. -/
theorem plain_urlEncodeComponent {name : Bytes} (hdot : name ≠ ".") (hdotdot : name ≠ "..") :
    Plain (urlEncodeComponent name) := by
  refine ⟨notMem_urlEncodeComponent (by decide) (by decide) name, ?_, ?_⟩
  · exact fun h => hdot (urlEncodeComponent_injective h)
  · exact fun h => hdotdot (urlEncodeComponent_injective h)

/-- The bytes of a version are digits and dots. -/
theorem ApiVersion.mem {version : Bytes} (h : ApiVersion version) {c : UInt8} (hc : c ∈ version) :
    isdigit c = true ∨ c = ch '.' := by
  by_cases hdot : c = ch '.'
  · exact .inr hdot
  · obtain ⟨block, hin, hmem⟩ := (mem_splitOn hdot version).1 hc
    exact .inl ((h block hin).2 c hmem)

theorem ApiVersion.notMem {version : Bytes} (h : ApiVersion version) {d : UInt8}
    (hdigit : isdigit d = false) (hdot : d ≠ ch '.') : d ∉ version := by
  intro hd
  rcases h.mem hd with hd | hd
  · rw [hdigit] at hd
    cases hd
  · exact hdot hd

/-- A version is not empty and does not start with a `v`, so that it is put behind one. -/
theorem versionedPath_of_apiVersion {target : PodmanTarget} (h : ApiVersion target.apiVersion)
    (rest : Bytes) :
    versionedPath target (ch '/' :: rest) =
      ofString "/v" ++ target.apiVersion ++ ch '/' :: rest := by
  have hne : target.apiVersion ≠ [] := by
    intro hnil
    have := (h [] (by rw [hnil]; simp)).1
    exact this rfl
  have hv : target.apiVersion.head? ≠ some (ch 'v') := fun hv =>
    h.notMem (by decide) (by decide) (List.mem_of_mem_head? hv)
  simp only [versionedPath, if_neg hv, if_neg hne, List.head?_cons, if_true, List.append_nil]

/-- The segments in front of the name. -/
def containersSegments (version : Bytes) : List Bytes :=
  [ofString "v" ++ version, "libpod", "containers"]

theorem plain_containersSegments {version : Bytes} (h : ApiVersion version) :
    ∀ s ∈ containersSegments version, Plain s := by
  intro s hs
  simp only [containersSegments, List.mem_cons, List.not_mem_nil, or_false] at hs
  rcases hs with rfl | rfl | rfl
  · refine ⟨?_, ?_, ?_⟩
    · have hslash := h.notMem (d := ch '/') (by decide) (by decide)
      simpa [Segment, ofString, ch] using hslash
    · intro heq
      exact absurd (congrArg List.head? heq) (by simp [ofString])
    · intro heq
      exact absurd (congrArg List.head? heq) (by simp [ofString])
  · exact ⟨by decide, by decide, by decide⟩
  · exact ⟨by decide, by decide, by decide⟩

theorem plain_action (r : ContainerRequest) : ∀ s ∈ r.action, Plain s := by
  intro s hs
  cases r with
  | start =>
      obtain rfl := List.mem_singleton.1 hs
      exact ⟨by decide, by decide, by decide⟩
  | stop timeoutSeconds =>
      obtain rfl := List.mem_singleton.1 hs
      exact ⟨by decide, by decide, by decide⟩
  | remove force => cases hs

/-- The path of a request, before its dot segments are removed. -/
def ContainerRequest.path (version name : Bytes) (r : ContainerRequest) : Bytes :=
  segmentsText (containersSegments version ++ urlEncodeComponent name :: r.action)

/-- A request and its answer are one transfer. -/
theorem calls_request {target : PodmanTarget} {req : HttpRequest} {operation : Bytes}
    {P : (o : Sys) → (o.Resp → Bool) → Prop} :
    (request target req >>= fun response => done (requireSuccess response operation)).run.Calls P ↔
      P (.curl { socketPath := cStr target.socketPath, url := cStr (baseUrl ++ req.path),
                 method := cStr req.method, headers := req.headers, body := req.body })
        fun _ => false := by
  constructor
  · exact fun h => h.1
  · intro h
    exact calls_exceptT_bind (calls_attempt (calls_sys h)) fun _ => trivial

/-- A request about a container is one transfer, to the path and the query of the request. -/
theorem ContainerRequest.send_calls {target : PodmanTarget} (hv : ApiVersion target.apiVersion)
    (name : Bytes) (r : ContainerRequest) :
    ∃ transfer : Transfer,
      transfer.url = cStr (baseUrl ++ (r.path target.apiVersion name ++ r.query)) ∧
      ∀ {P : (o : Sys) → (o.Resp → Bool) → Prop},
        (r.send target name).run.Calls P ↔ P (.curl transfer) fun _ => false := by
  have hpath : ∀ rest : Bytes, versionedPath target
      (ofString "/libpod/containers/" ++ urlEncodeComponent name ++ rest) =
        segmentsText (containersSegments target.apiVersion ++ [urlEncodeComponent name]) ++
          rest := by
    intro rest
    have hslash : ofString "/libpod/containers/" ++ urlEncodeComponent name ++ rest =
        ch '/' :: (ofString "libpod/containers/" ++ urlEncodeComponent name ++ rest) := rfl
    rw [hslash, versionedPath_of_apiVersion hv]
    simp [containersSegments, ofString, ch]
  cases r with
  | start =>
      refine ⟨_, ?_, calls_request⟩
      dsimp only
      rw [hpath, path, query, action]
      simp [containersSegments, segmentsText, ofString, ch]
  | stop timeoutSeconds =>
      have hneg : ¬ ((timeoutSeconds : ℤ) < 0) := by omega
      have hsend : send target name (stop timeoutSeconds) =
          request target
            { method := "POST"
              path := versionedPath target (ofString "/libpod/containers/" ++
                urlEncodeComponent name ++ ofString "/stop?timeout=" ++ decimal timeoutSeconds) }
          >>= fun response => done (requireSuccess response "stop container") := by
        rw [send, stopContainer, rejectIf, reject, if_neg hneg, decimalInt, if_neg hneg,
          Int.natAbs_natCast]
        rfl
      rw [hsend]
      refine ⟨_, ?_, calls_request⟩
      dsimp only
      rw [List.append_assoc _ _ (decimal _), hpath, path, query, action]
      simp [containersSegments, segmentsText, ofString, ch]
  | remove force =>
      refine ⟨_, ?_, calls_request⟩
      dsimp only
      rw [List.append_assoc _ (ofString "?force="), hpath, path, query, action]

/-- The bytes of a path: what separates the parts of a URL is not among them. -/
theorem ContainerRequest.notMem_path {version : Bytes} (hv : ApiVersion version) (name : Bytes)
    (r : ContainerRequest) {d : UInt8} (hd : unreserved d = false) (hpercent : d ≠ ch '%')
    (hslash : d ≠ ch '/') : d ∉ r.path version name := by
  have hdigit : isdigit d = false := by
    simp only [unreserved, isalnum, Bool.or_eq_false_iff] at hd
    exact hd.1.1.1.1.1.1
  have hdot : d ≠ ch '.' := by
    rintro rfl
    exact absurd hd (by decide)
  have hword : ∀ word : Bytes, (∀ c ∈ word, unreserved c = true) → d ∉ word := by
    intro word hall hmem
    rw [hall d hmem] at hd
    cases hd
  intro hmem
  obtain ⟨s, hs, hmem⟩ := List.mem_flatMap.1 hmem
  have hmem : d ∈ s := (List.mem_cons.1 hmem).resolve_left hslash
  rcases List.mem_append.1 hs with hs | hs
  · simp only [containersSegments, List.mem_cons, List.not_mem_nil, or_false] at hs
    rcases hs with rfl | rfl | rfl
    · rcases List.mem_append.1 hmem with hmem | hmem
      · exact hword "v" (by decide +kernel) hmem
      · exact hv.notMem hdigit hdot hmem
    · exact hword "libpod" (by decide +kernel) hmem
    · exact hword "containers" (by decide +kernel) hmem
  · rcases List.mem_cons.1 hs with rfl | hs
    · exact notMem_urlEncodeComponent hd hpercent name hmem
    · cases r with
      | start =>
          obtain rfl := List.mem_singleton.1 hs
          exact hword _ (by decide +kernel) hmem
      | stop timeoutSeconds =>
          obtain rfl := List.mem_singleton.1 hs
          exact hword _ (by decide +kernel) hmem
      | remove force => cases hs

/-- A query starts with a question mark and holds neither a number sign nor a NUL byte. -/
theorem ContainerRequest.query_spec (r : ContainerRequest) :
    (r.query = [] ∨ r.query.head? = some (ch '?')) ∧ ch '#' ∉ r.query ∧ 0 ∉ r.query := by
  cases r with
  | start => exact ⟨.inl rfl, by decide, by decide⟩
  | stop timeoutSeconds =>
      have hdigits : ∀ d : UInt8, d.toNat < 48 → d ∉ ofString "?timeout=" →
          d ∉ query (stop timeoutSeconds) := by
        intro d hd hword hmem
        rcases List.mem_append.1 hmem with hmem | hmem
        · exact hword hmem
        · have := digit_of_mem_decimal hmem
          omega
      exact ⟨.inr rfl, hdigits _ (by decide) (by decide), hdigits _ (by decide) (by decide)⟩
  | remove force => cases force <;> exact ⟨.inr rfl, by decide, by decide⟩

/-- What is sent of the path and the query of a request. -/
theorem ContainerRequest.requestTarget_path {version : Bytes} (hv : ApiVersion version)
    (name : Bytes) (r : ContainerRequest) :
    requestTarget (r.path version name ++ r.query) =
      removeDotSegments (r.path version name) ++ r.query := by
  obtain ⟨hquery, hfragment, -⟩ := r.query_spec
  refine requestTarget_append (r.notMem_path hv name (by decide) (by decide) (by decide)) ?_ hquery
  rw [List.mem_append, not_or]
  exact ⟨r.notMem_path hv name (by decide) (by decide) (by decide), hfragment⟩

/-- The request of a client goes to its own endpoint exactly when its path does. -/
theorem keepsEndpoint_iff_path {target : PodmanTarget} (hv : ApiVersion target.apiVersion)
    (name : Bytes) (r : ContainerRequest) :
    KeepsEndpoint target name r ↔ ∃ component, component ≠ [] ∧ Segment component ∧
      ch '?' ∉ component ∧ urlDecodeComponent false component = .ok name ∧
      removeDotSegments (r.path target.apiVersion name) =
        segmentsText (containersSegments target.apiVersion ++ component :: r.action) := by
  obtain ⟨transfer, hurl, hcalls⟩ := r.send_calls hv name
  have hnul : 0 ∉ baseUrl ++ (r.path target.apiVersion name ++ r.query) := by
    rw [List.mem_append, List.mem_append, not_or, not_or]
    exact ⟨by decide, r.notMem_path hv name (by decide) (by decide) (by decide), r.query_spec.2.2⟩
  rw [cStr_eq_self hnul] at hurl
  have htext : ∀ component : Bytes,
      ofString "/v" ++ target.apiVersion ++ ofString "/libpod/containers/" ++ component ++
          segmentsText r.action ++ r.query =
        segmentsText (containersSegments target.apiVersion ++ component :: r.action) ++
          r.query := by
    intro component
    simp [containersSegments, ofString, ch]
  rw [KeepsEndpoint, hcalls]
  constructor
  · rintro ⟨transfer', url, component, htransfer, hurl', hne, hsegment, hmark, hdecode, htarget⟩
    obtain rfl : transfer = transfer' := Sys.curl.inj htransfer
    obtain rfl : r.path target.apiVersion name ++ r.query = url :=
      List.append_cancel_left (hurl.symm.trans hurl')
    rw [r.requestTarget_path hv, htext] at htarget
    exact ⟨component, hne, hsegment, hmark, hdecode, List.append_cancel_right htarget⟩
  · rintro ⟨component, hne, hsegment, hmark, hdecode, hpath⟩
    refine ⟨transfer, _, component, rfl, hurl, hne, hsegment, hmark, hdecode, ?_⟩
    rw [r.requestTarget_path hv, htext, hpath]

theorem length_slashBefore_le (s : Bytes) : (slashBefore s).length ≤ 1 + s.length := by
  unfold slashBefore
  split
  · rw [List.length_singleton]
    omega
  · omega

section

variable {target : PodmanTarget}

/-- The name `.` is removed from the path. -/
theorem not_keepsEndpoint_dot (hv : ApiVersion target.apiVersion) (r : ContainerRequest) :
    ¬ KeepsEndpoint target "." r := by
  rw [keepsEndpoint_iff_path hv]
  rintro ⟨component, hne, -, -, -, hpath⟩
  have hdot : r.path target.apiVersion (ofString ".") =
      segmentsText (containersSegments target.apiVersion ++ ofString "." :: r.action) := rfl
  rw [hdot, removeDots_dot (plain_containersSegments hv) (plain_action r)] at hpath
  -- what is left is shorter than the endpoint
  have hshort := congrArg List.length hpath
  have hlen := length_slashBefore_le (segmentsText r.action)
  have hpos := List.length_pos_iff.2 hne
  simp only [segmentsText, List.flatMap_append, List.flatMap_cons, List.length_append,
    List.length_cons] at hshort hlen
  omega

/-- The name `..` is removed from the path, and the path of the containers with it. -/
theorem not_keepsEndpoint_dotdot (hv : ApiVersion target.apiVersion) (r : ContainerRequest) :
    ¬ KeepsEndpoint target ".." r := by
  rw [keepsEndpoint_iff_path hv]
  rintro ⟨component, hne, -, -, -, hpath⟩
  have hdotdot : r.path target.apiVersion (ofString "..") =
      segmentsText ([ofString "v" ++ target.apiVersion, "libpod"] ++
        ofString "containers" :: ofString ".." :: r.action) := rfl
  have hplain := plain_containersSegments hv
  have hfront : ∀ s ∈ [ofString "v" ++ target.apiVersion, "libpod"], Plain s := by
    intro s hs
    have hmem := List.mem_append_left [ofString "containers"] hs
    exact hplain s hmem
  rw [hdotdot, removeDots_dotdot hfront (hplain _ (by simp [containersSegments]))
    (plain_action r)] at hpath
  have hshort := congrArg List.length hpath
  have hlen := length_slashBefore_le (segmentsText r.action)
  have hpos := List.length_pos_iff.2 hne
  simp only [containersSegments, segmentsText, List.flatMap_append, List.flatMap_cons,
    List.length_append, List.length_cons] at hshort hlen
  omega

/-- **A container name stays one segment of the path exactly when it is neither `.` nor `..`.** -/
theorem keepsEndpoint_iff (hv : ApiVersion target.apiVersion) {name : Bytes} (hname : name ≠ [])
    (r : ContainerRequest) : KeepsEndpoint target name r ↔ name ≠ "." ∧ name ≠ ".." := by
  constructor
  · intro h
    refine ⟨?_, ?_⟩
    · rintro rfl
      exact not_keepsEndpoint_dot hv r h
    · rintro rfl
      exact not_keepsEndpoint_dotdot hv r h
  · rintro ⟨hdot, hdotdot⟩
    rw [keepsEndpoint_iff_path hv]
    refine ⟨urlEncodeComponent name, urlEncodeComponent_ne_nil hname,
      notMem_urlEncodeComponent (by decide) (by decide) name,
      notMem_urlEncodeComponent (by decide) (by decide) name,
      urlDecodeComponent_urlEncodeComponent false name, ?_⟩
    refine removeDotSegments_plain fun s hs => ?_
    rcases List.mem_append.1 hs with hs | hs
    · exact plain_containersSegments hv s hs
    · rcases List.mem_cons.1 hs with rfl | hs
      · exact plain_urlEncodeComponent hdot hdotdot
      · exact plain_action r s hs

end

/-- A target with the default version of the interface. -/
def exampleTarget : PodmanTarget := makeTarget 1000 "user" {} "5.0.0"

theorem apiVersion_exampleTarget : ApiVersion exampleTarget.apiVersion := by
  have hblocks : exampleTarget.apiVersion.splitOn (ch '.') = ["5", "0", "0"] := by decide +kernel
  rw [ApiVersion, hblocks]
  decide +kernel

theorem keepsEndpoint_web : KeepsEndpoint exampleTarget "web/../1" (.stop 10) :=
  (keepsEndpoint_iff apiVersion_exampleTarget (by decide) _).2 ⟨by decide, by decide⟩

/-- Starting the container `..` asks for `/v5.0.0/libpod/start`. -/
theorem dotdot_changes_endpoint :
    ¬ ∀ (target : PodmanTarget) (name : Bytes) (r : ContainerRequest),
      ApiVersion target.apiVersion → name ≠ [] → KeepsEndpoint target name r := by
  intro h
  exact not_keepsEndpoint_dotdot apiVersion_exampleTarget .start
    (h exampleTarget ".." .start apiVersion_exampleTarget (by decide))

/-! ### Label filters -/

/-- A byte of a filter in the text of `filters_query`. -/
def filterEscape (c : UInt8) : Bytes := if c = ch '"' ∨ c = ch '\\' then [ch '\\', c] else [c]

/-- The loop of `filters_query` over the filters. -/
def appendFilters : Bool → List Bytes → Bytes
  | _, [] => []
  | first, filter :: filters =>
    (if first then [] else [ch ',']) ++ [ch '"'] ++ filter.flatMap filterEscape ++ [ch '"'] ++
      appendFilters false filters

/-- The JSON text of `filters_query`. -/
def filtersJson (labelFilters : List Bytes) : Bytes :=
  ofString "\x7b\"label\":[" ++ appendFilters true labelFilters ++ ofString "]\x7d"

/-- `filters_query`. -/
def filtersQuery (labelFilters : List Bytes) : Bytes :=
  if labelFilters = [] then []
  else ofString "&filters=" ++ urlEncodeComponent (filtersJson labelFilters)

/-- `PodmanClient::list_containers`. -/
def listContainers (target : PodmanTarget) (all : Bool) (labelFilters : List Bytes) :
    Action HttpResponse := do
  let response ← request target
    { method := "GET"
      path := versionedPath target "/libpod/containers/json" ++
        ofString (if all then "?all=true" else "?all=false") ++ filtersQuery labelFilters }
  done (requireSuccess response "list containers")

/-- The object whose only member is the list of the filters. -/
def filtersObject (labelFilters : List Bytes) : Json :=
  .obj [("label", stringsJson labelFilters)]

/-- The filters are read back as they were given: behind `&filters=` stands a component that is
decoded to the JSON text of their object. -/
def FiltersArrive (labelFilters : List Bytes) : Prop :=
  ∃ component text, filtersQuery labelFilters = ofString "&filters=" ++ component ∧
    (∀ plusAsSpace, urlDecodeComponent plusAsSpace component = .ok text) ∧
    Json.parse text = some (filtersObject labelFilters)

/-- The two writers of JSON strings agree on all bytes but the control characters. -/
theorem filterEscape_eq_jsonEscape {c : UInt8} (hc : ¬ c < 0x20) :
    filterEscape c = jsonEscape c := by
  have hne : ∀ d : UInt8, d < 0x20 → c ≠ d := by
    rintro d hd rfl
    exact hc hd
  unfold filterEscape jsonEscape
  by_cases hquote : c = ch '"'
  · subst hquote
    rfl
  · by_cases hbackslash : c = ch '\\'
    · subst hbackslash
      rfl
    · rw [if_neg (by simp [hquote, hbackslash]), if_neg hquote, if_neg hbackslash,
        if_neg (hne _ (by decide)), if_neg (hne _ (by decide)), if_neg (hne _ (by decide)),
        if_neg (hne _ (by decide)), if_neg (hne _ (by decide)), if_neg hc]

/-- The list of the filters, by the writer of the container specifications. -/
theorem appendFilters_eq {labelFilters : List Bytes}
    (h : ∀ filter ∈ labelFilters, ∀ c ∈ filter, ¬ c < 0x20) :
    appendFilters true labelFilters = Json.renderElements jsonEscape (labelFilters.map .str) ∧
      (labelFilters ≠ [] → appendFilters false labelFilters =
        ch ',' :: Json.renderElements jsonEscape (labelFilters.map .str)) := by
  have hescape : ∀ filter ∈ labelFilters,
      [ch '"'] ++ filter.flatMap filterEscape ++ [ch '"'] = Json.quote jsonEscape filter := by
    intro filter hfilter
    have hmap : filter.flatMap filterEscape = filter.flatMap jsonEscape :=
      List.flatMap_congr fun c hc => filterEscape_eq_jsonEscape (h filter hfilter c hc)
    rw [hmap, Json.quote]
    rfl
  induction labelFilters with
  | nil => exact ⟨rfl, fun hne => absurd rfl hne⟩
  | cons filter filters ih =>
      have ih := ih (fun f hf => h f (by simp [hf])) fun f hf => hescape f (by simp [hf])
      -- what follows a filter is read with the comma in front
      have hrest : Json.quote jsonEscape filter ++ appendFilters false filters =
          Json.renderElements jsonEscape ((filter :: filters).map .str) := by
        cases filters with
        | nil =>
            rw [appendFilters, List.append_nil]
            rfl
        | cons f fs =>
            rw [ih.2 (by simp)]
            rfl
      have hquote := hescape filter (by simp)
      refine ⟨?_, fun _ => ?_⟩
      · rw [appendFilters, ← hrest, ← hquote]
        rfl
      · rw [appendFilters, ← hrest, ← hquote]
        rfl

/-- Filters without control characters are written as the writer of the container specifications
writes them. -/
theorem filtersJson_eq_render {labelFilters : List Bytes}
    (h : ∀ filter ∈ labelFilters, ∀ c ∈ filter, ¬ c < 0x20) :
    filtersJson labelFilters = Json.render jsonEscape (filtersObject labelFilters) := by
  have hlabel : Json.quote jsonEscape (ofString "label") = ofString "\"label\"" := rfl
  rw [filtersJson, (appendFilters_eq h).1, filtersObject, stringsJson]
  simp only [Json.render, Json.renderMembers, hlabel]
  simp [ofString, ch]

/-- A control character ends the reading of a string. -/
theorem parseChars_control {s : Bytes} (h : ∃ c ∈ s, c < 0x20) (rest : Bytes) :
    Json.parseChars (s.flatMap filterEscape ++ rest) = none := by
  induction s with
  | nil => simp at h
  | cons c s ih =>
      rw [List.flatMap_cons, List.append_assoc]
      by_cases hc : c < 0x20
      · have hquote : c ≠ ch '"' := by
          rintro rfl
          exact absurd hc (by decide)
        have hbackslash : c ≠ ch '\\' := by
          rintro rfl
          exact absurd hc (by decide)
        rw [filterEscape, if_neg (by simp [hquote, hbackslash]), List.singleton_append,
          Json.parseChars.eq_def]
        dsimp only
        rw [if_neg hquote, if_neg hbackslash, if_pos hc]
      · obtain ⟨d, hd, hlt⟩ := h
        have hmem : d ∈ s := by
          refine (List.mem_cons.1 hd).resolve_left ?_
          rintro rfl
          exact hc hlt
        rw [filterEscape_eq_jsonEscape hc, jsonEscape_escapes c, ih ⟨d, hmem, hlt⟩]
        rfl

/-- A list with a filter that holds a control character is not read. -/
theorem parseElements_control {labelFilters : List Bytes}
    (h : ∃ filter ∈ labelFilters, ∃ c ∈ filter, c < 0x20) (n : ℕ) (rest : Bytes) :
    Json.parseElements n (appendFilters true labelFilters ++ rest) = none := by
  induction labelFilters generalizing n with
  | nil => simp at h
  | cons filter filters ih =>
      have htext : appendFilters true (filter :: filters) ++ rest =
          ch '"' :: (filter.flatMap filterEscape ++
            ch '"' :: (appendFilters false filters ++ rest)) := by
        simp [appendFilters]
      rw [htext]
      cases n with
      | zero => rfl
      | succ n =>
          have hws : ∀ s : Bytes, Json.skipWs (ch '"' :: s) = ch '"' :: s := fun _ => rfl
          rw [Json.parseElements, hws]
          cases n with
          | zero => rfl
          | succ n =>
              rw [Json.parseValue, if_pos rfl]
              by_cases hfilter : ∃ c ∈ filter, c < 0x20
              · rw [parseChars_control hfilter]
                rfl
              · -- the first filter is read, and the list goes on behind a comma
                have hescape : filter.flatMap filterEscape = filter.flatMap jsonEscape :=
                  List.flatMap_congr fun c hc =>
                    filterEscape_eq_jsonEscape fun hlt => hfilter ⟨c, hc, hlt⟩
                rw [hescape, Json.parseChars_quote jsonEscape_escapes]
                obtain ⟨f, hf, hcontrol⟩ := h
                have hf : f ∈ filters := by
                  refine (List.mem_cons.1 hf).resolve_left ?_
                  rintro rfl
                  exact hfilter hcontrol
                obtain ⟨f', fs, rfl⟩ := List.exists_cons_of_ne_nil (List.ne_nil_of_mem hf)
                have hcomma : appendFilters false (f' :: fs) =
                    ch ',' :: appendFilters true (f' :: fs) := rfl
                have hskip : ∀ s : Bytes, Json.skipWs (ch ',' :: s) = ch ',' :: s := fun _ => rfl
                rw [hcomma, List.cons_append]
                dsimp only [Option.map_some]
                rw [hskip]
                dsimp only
                rw [if_neg (by decide), if_pos rfl, ih ⟨f, hf, hcontrol⟩]
                rfl

/-- The text of filters with a control character is not JSON. -/
theorem parse_filtersJson_control {labelFilters : List Bytes}
    (h : ∃ filter ∈ labelFilters, ∃ c ∈ filter, c < 0x20) :
    Json.parse (filtersJson labelFilters) = none := by
  obtain ⟨f, fs, rfl⟩ : ∃ f fs, labelFilters = f :: fs := by
    obtain ⟨filter, hfilter, -⟩ := h
    exact List.exists_cons_of_ne_nil (List.ne_nil_of_mem hfilter)
  generalize hlist : f :: fs = labelFilters at h
  have hhead : ∃ t, appendFilters true labelFilters = ch '"' :: t := by
    rw [← hlist]
    exact ⟨_, rfl⟩
  obtain ⟨t, ht⟩ := hhead
  have hquote : ∀ s : Bytes, Json.skipWs (ch '"' :: s) = ch '"' :: s := fun _ => rfl
  -- the list of the filters is not read
  have hvalue : ∀ (n : ℕ) (rest : Bytes),
      Json.parseValue n (ch '[' :: (appendFilters true labelFilters ++ rest)) = none := by
    intro n rest
    cases n with
    | zero => rfl
    | succ n =>
        have hskip : (Json.skipWs (appendFilters true labelFilters ++ rest)).head? ≠
            some (ch ']') := by
          rw [ht, List.cons_append, hquote]
          simp [ch]
        rw [Json.parseValue, if_neg (by decide), if_pos rfl, if_neg hskip,
          parseElements_control h]
        rfl
  -- so neither is the object that it is the only member of
  have hobject : ∀ n : ℕ, Json.parseValue n (filtersJson labelFilters) = none := by
    intro n
    have htext : filtersJson labelFilters =
        ch '\x7b' :: (Json.quote jsonEscape (ofString "label") ++
          ch ':' :: ch '[' :: (appendFilters true labelFilters ++ ofString "]\x7d")) := by
      have hlabel : Json.quote jsonEscape (ofString "label") = ofString "\"label\"" := rfl
      rw [filtersJson, hlabel]
      simp [ofString, ch]
    rw [htext]
    cases n with
    | zero => rfl
    | succ n =>
        have hskip : ∀ s : Bytes, (Json.skipWs (Json.quote jsonEscape (ofString "label") ++
            s)).head? ≠ some (ch '\x7d') := by
          intro s
          rw [Json.quote, List.cons_append, hquote]
          simp [ch]
        have hmember := Json.parseMembers_value_none jsonEscape_escapes (ofString "label")
          (s := ch '[' :: (appendFilters true labelFilters ++ ofString "]\x7d"))
          (fun n => hvalue n _) n
        rw [Json.parseValue, if_neg (by decide), if_neg (by decide), if_pos rfl, if_neg (hskip _),
          hmember]
        rfl
  rw [Json.parse]
  have hskip : Json.skipWs (filtersJson labelFilters) = filtersJson labelFilters := rfl
  rw [hskip, hobject]

theorem not_filtersArrive_control {labelFilters : List Bytes}
    (h : ∃ filter ∈ labelFilters, ∃ c ∈ filter, c < 0x20) : ¬ FiltersArrive labelFilters := by
  rintro ⟨component, text, hquery, hdecode, hparse⟩
  have hne : labelFilters ≠ [] := by
    obtain ⟨filter, hfilter, -⟩ := h
    exact List.ne_nil_of_mem hfilter
  rw [filtersQuery, if_neg hne] at hquery
  have htext := hdecode false
  rw [← List.append_cancel_left hquery, urlDecodeComponent_urlEncodeComponent] at htext
  rw [← Except.ok.inj htext, parse_filtersJson_control h] at hparse
  cases hparse

/-- **The label filters arrive exactly when none of them holds a control character.** -/
theorem filtersArrive_iff {labelFilters : List Bytes} (hne : labelFilters ≠ []) :
    FiltersArrive labelFilters ↔ ∀ filter ∈ labelFilters, ∀ c ∈ filter, ¬ c < 0x20 := by
  constructor
  · intro harrive filter hfilter c hc hlt
    exact not_filtersArrive_control ⟨filter, hfilter, c, hc, hlt⟩ harrive
  · intro h
    refine ⟨urlEncodeComponent (filtersJson labelFilters), filtersJson labelFilters, ?_,
      fun plusAsSpace => urlDecodeComponent_urlEncodeComponent plusAsSpace _, ?_⟩
    · rw [filtersQuery, if_neg hne]
    · rw [filtersJson_eq_render h]
      exact Json.parse_render jsonEscape_escapes _

theorem filtersArrive_quotes : FiltersArrive ["app=\"web\"", "tier=a\\b"] :=
  (filtersArrive_iff (by decide)).2 (by decide +kernel)

/-- A filter with a line feed makes a text that is not JSON. -/
theorem line_feed_does_not_arrive :
    ¬ ∀ labelFilters, labelFilters ≠ [] → FiltersArrive labelFilters := by
  intro h
  refine not_filtersArrive_control ⟨"a=\n", ?_, 10, ?_, ?_⟩ (h ["a=\n"] (by decide))
  · simp
  · decide
  · decide

end PodInstaller
