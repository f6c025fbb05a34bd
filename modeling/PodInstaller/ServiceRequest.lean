/-
**The requests of the example service.**

The service reads the first line of a request and takes its target apart: what stands before the
first question mark is the path, and the parameters behind it are separated by `&`, each a key and a
value with percent escapes.  A key may come several times; all of its values are kept, in their
order.

Main definitions:

* `PodInstaller.parseRequestLine`, `PodInstaller.parseQuery`, `PodInstaller.Query.one` — the code;
* `PodInstaller.paramOf`, `PodInstaller.valuesOf` — what one part of a query says, and what the
  parts say about a key;
* `PodInstaller.requestText` — a request as a client writes it.

Main results:

* `PodInstaller.parseQuery_grammar` — **which targets are accepted**, and what is read from them;
* `PodInstaller.request_arrives` — **a request that is written is read back**.
-/

import PodInstaller.ContainerRequests
import Std.Data.TreeMap
import Std.Data.TreeMap.Lemmas
import Mathlib.Data.List.Forall2

set_option relaxedAutoImplicit false
set_option autoImplicit false

namespace PodInstaller

open Bytes

/-! ### The request line -/

/-- `HttpRequestLine`. -/
structure HttpRequestLine where
  method : Bytes
  target : Bytes

/-- What stands before the first CRLF: `substr(0, find("\r\n"))`. -/
def beforeCrlf : Bytes → Option Bytes
  | [] => none
  | c :: rest =>
    if c = ch '\r' ∧ rest.head? = some (ch '\n') then some []
    else (beforeCrlf rest).map (c :: ·)

/-- `in >> word`, with what is left of the stream.  A stream that is used up leaves the word
empty. -/
def readWord (s : Bytes) : Bytes × Bytes :=
  ((s.dropWhile isspace).takeWhile (!isspace ·), (s.dropWhile isspace).dropWhile (!isspace ·))

/-- `parse_request_line`. -/
def parseRequestLine (request : Bytes) : Result HttpRequestLine := do
  match beforeCrlf request with
  | none => throw (makeError .invalidArgument "request line is missing CRLF")
  | some line =>
    let method := readWord line
    let target := readWord method.2
    let version := readWord target.2
    reject (method.1 = [] ∨ target.1 = [] ∨ ¬ ofString "HTTP/" <+: version.1)
      (makeError .invalidArgument "malformed HTTP request line")
    return ⟨method.1, target.1⟩

/-! ### The query -/

/-- `Query`. -/
structure Query where
  path : Bytes
  params : Std.TreeMap Bytes (List Bytes) := ∅

/-- `Query::one`. -/
def Query.one (query : Query) (key : Bytes) : Option Bytes :=
  match query.params[key]? with
  | none => none
  | some values => values.head?

/-- `query.params[key].push_back(value)`. -/
def Query.push (query : Query) (param : Bytes × Bytes) : Query :=
  { query with
    params := query.params.alter param.1 fun values => some (values.getD [] ++ [param.2]) }

/-- What one part of a query says.  A part without an equals sign has an empty value. -/
def paramOf (part : Bytes) : Result (Bytes × Bytes) := do
  let key ← urlDecodeComponent true (before (ch '=') part)
  let value ← urlDecodeComponent true (after (ch '=') part)
  return (key, value)

/-- `parse_query`.  The loop takes off one part after another; nothing is left behind a last
ampersand. -/
def parseQuery (target : Bytes) : Result Query :=
  let query : Query := { path := before (ch '?') target }
  if ch '?' ∉ target then return query
  else (pieces (ch '&') (after (ch '?') target)).foldlM
    (fun query part => return query.push (← paramOf part)) query

/-! ### What is read from a query -/

/-- What parts that were read say about a key. -/
def valuesOf (params : List (Bytes × Bytes)) (key : Bytes) : List Bytes :=
  (params.filter fun param => param.1 == key).map (·.2)

section

variable {target : Bytes} {query : Query} {params : List (Bytes × Bytes)} {key : Bytes}
variable {parts : List Bytes}

theorem Query.getElem?_push (query : Query) (param : Bytes × Bytes) (key : Bytes) :
    (query.push param).params[key]? = if param.1 = key then
      some ((query.params[key]?).getD [] ++ [param.2]) else query.params[key]? := by
  simp only [Query.push, Std.TreeMap.getElem?_alter, Std.LawfulEqCmp.compare_eq_iff_eq]
  by_cases h : param.1 = key
  · subst h
    simp
  · simp [h]

/-- The values of a key, none if it is not there. -/
theorem Query.getD_push (query : Query) (params : List (Bytes × Bytes)) (key : Bytes) :
    ((params.foldl Query.push query).params[key]?).getD [] =
      (query.params[key]?).getD [] ++ valuesOf params key := by
  induction params generalizing query with
  | nil => simp [valuesOf]
  | cons param params ih =>
      rw [List.foldl_cons, ih, Query.getElem?_push, valuesOf, valuesOf]
      by_cases h : param.1 = key
      · simp [h]
      · simp [h]

/-- The parameter that counts is the first one with a key. -/
theorem Query.one_eq (query : Query) (key : Bytes) :
    query.one key = ((query.params[key]?).getD []).head? := by
  rw [Query.one]
  cases query.params[key]? <;> rfl

theorem head?_valuesOf (params : List (Bytes × Bytes)) (key : Bytes) :
    (valuesOf params key).head? = (params.find? fun param => param.1 == key).map (·.2) := by
  rw [valuesOf, List.head?_map, List.head?_filter]

/-- The loop, over the parts that are left. -/
theorem foldlM_push_eq_ok {start : Query} :
    parts.foldlM (fun query part => return query.push (← paramOf part)) start =
        (.ok query : Result Query) ↔
      ∃ params, List.Forall₂ (fun part param => paramOf part = .ok param) parts params ∧
        query = params.foldl Query.push start := by
  induction parts generalizing start with
  | nil =>
      constructor
      · intro h
        exact ⟨[], .nil, (Except.ok.inj h).symm⟩
      · intro h
        obtain ⟨params, hparams, rfl⟩ := h
        cases hparams
        rfl
  | cons part parts ih =>
      rw [List.foldlM_cons]
      constructor
      · intro h
        obtain ⟨next, hnext, hrest⟩ := bind_eq_ok.1 h
        obtain ⟨param, hparam, hpush⟩ := bind_eq_ok.1 hnext
        obtain rfl := Except.ok.inj hpush
        obtain ⟨params, hparams, rfl⟩ := ih.1 hrest
        exact ⟨param :: params, .cons hparam hparams, rfl⟩
      · intro h
        obtain ⟨params, hparams, rfl⟩ := h
        cases hparams with
        | cons hparam hparams =>
            refine bind_eq_ok.2 ⟨start.push _, ?_, ih.2 ⟨_, hparams, rfl⟩⟩
            rw [hparam]
            rfl

/-- What comes out of `parse_query`. -/
theorem parseQuery_eq_ok : parseQuery target = .ok query ↔
    ∃ params, List.Forall₂ (fun part param => paramOf part = .ok param)
        (pieces (ch '&') (after (ch '?') target)) params ∧
      query = params.foldl Query.push { path := before (ch '?') target } := by
  rw [parseQuery]
  split
  · rename_i hnone
    -- without a question mark there are no parts
    rw [after_of_notMem hnone, pieces_nil]
    constructor
    · intro h
      exact ⟨[], .nil, (Except.ok.inj h).symm⟩
    · intro h
      obtain ⟨params, hparams, rfl⟩ := h
      cases hparams
      rfl
  · exact foldlM_push_eq_ok

theorem path_foldl_push (query : Query) (params : List (Bytes × Bytes)) :
    (params.foldl Query.push query).path = query.path := by
  induction params generalizing query with
  | nil => rfl
  | cons param params ih => exact ih (query.push param)

theorem paramOf_eq_ok {part : Bytes} {param : Bytes × Bytes} : paramOf part = .ok param ↔
    urlDecodeComponent true (before (ch '=') part) = .ok param.1 ∧
      urlDecodeComponent true (after (ch '=') part) = .ok param.2 := by
  rw [paramOf, bind_eq_ok]
  constructor
  · intro h
    obtain ⟨key, hkey, hrest⟩ := h
    obtain ⟨value, hvalue, hparam⟩ := bind_eq_ok.1 hrest
    rw [← Except.ok.inj hparam]
    exact ⟨hkey, hvalue⟩
  · intro h
    exact ⟨param.1, h.1, bind_eq_ok.2 ⟨param.2, h.2, rfl⟩⟩

/-- A part that can be read. -/
def ReadablePart (part : Bytes) : Prop :=
  EscapesComplete (before (ch '=') part) ∧ EscapesComplete (after (ch '=') part)

theorem readablePart_iff {part : Bytes} :
    ReadablePart part ↔ ∃ param, paramOf part = .ok param := by
  have hcomplete : ∀ {t : Bytes},
      EscapesComplete t ↔ ∃ s, urlDecodeComponent true t = .ok s := urlDecodeComponent_succeeds.symm
  rw [ReadablePart, hcomplete, hcomplete]
  constructor
  · intro h
    obtain ⟨⟨key, hkey⟩, value, hvalue⟩ := h
    exact ⟨(key, value), paramOf_eq_ok.2 ⟨hkey, hvalue⟩⟩
  · intro h
    obtain ⟨param, hparam⟩ := h
    obtain ⟨hkey, hvalue⟩ := paramOf_eq_ok.1 hparam
    exact ⟨⟨_, hkey⟩, _, hvalue⟩

theorem exists_params_iff : (∃ params, List.Forall₂ (fun part param => paramOf part = .ok param)
    parts params) ↔ ∀ part ∈ parts, ReadablePart part := by
  induction parts with
  | nil => exact ⟨fun _ _ h => (by cases h), fun _ => ⟨[], .nil⟩⟩
  | cons part parts ih =>
      rw [List.forall_mem_cons, ← ih, readablePart_iff]
      constructor
      · intro h
        obtain ⟨params, hparams⟩ := h
        cases hparams with
        | cons hparam hparams => exact ⟨⟨_, hparam⟩, _, hparams⟩
      · intro h
        obtain ⟨⟨param, hparam⟩, params, hparams⟩ := h
        exact ⟨param :: params, .cons hparam hparams⟩

/-- **Which targets are accepted**: those all of whose escapes are complete, in keys and in values.
What is read from them is the path, and for each key the values of the parts with this key, in their
order, of which the first one counts. -/
theorem parseQuery_grammar (target : Bytes) :
    ((∃ query, parseQuery target = .ok query) ↔
      ∀ part ∈ pieces (ch '&') (after (ch '?') target), ReadablePart part) ∧
    ∀ query, parseQuery target = .ok query → query.path = before (ch '?') target ∧
      ∃ params, List.Forall₂ (fun part param => paramOf part = .ok param)
          (pieces (ch '&') (after (ch '?') target)) params ∧
        ∀ key, (query.params[key]?).getD [] = valuesOf params key ∧
          query.one key = (valuesOf params key).head? := by
  constructor
  · rw [← exists_params_iff]
    constructor
    · intro h
      obtain ⟨query, hquery⟩ := h
      obtain ⟨params, hparams, -⟩ := parseQuery_eq_ok.1 hquery
      exact ⟨params, hparams⟩
    · intro h
      obtain ⟨params, hparams⟩ := h
      exact ⟨_, parseQuery_eq_ok.2 ⟨params, hparams, rfl⟩⟩
  · intro query hquery
    obtain ⟨params, hparams, rfl⟩ := parseQuery_eq_ok.1 hquery
    refine ⟨path_foldl_push _ _, params, hparams, fun key => ?_⟩
    have hvalues := Query.getD_push { path := before (ch '?') target } params key
    rw [Query.one_eq, hvalues]
    simp

end

/-! ### Requests that are written -/

/-- A parameter as a client writes it. -/
def paramText (param : Bytes × Bytes) : Bytes :=
  urlEncodeComponent param.1 ++ ch '=' :: urlEncodeComponent param.2

/-- A target as a client writes it. -/
def targetText (path : Bytes) (params : List (Bytes × Bytes)) : Bytes :=
  path ++ ch '?' :: [ch '&'].intercalate (params.map paramText)

/-- A request as a client writes it. -/
def requestText (method path : Bytes) (params : List (Bytes × Bytes)) (version rest : Bytes) :
    Bytes :=
  method ++ ch ' ' :: (targetText path params ++ ch ' ' :: (version ++ ch '\r' :: ch '\n' :: rest))

/-- A text without white space. -/
def IsWord (s : Bytes) : Prop := s ≠ [] ∧ ∀ c ∈ s, isspace c = false

section

variable {s method path version rest : Bytes} {params : List (Bytes × Bytes)}

theorem notMem_paramText {d : UInt8} (hd : unreserved d = false) (hpercent : d ≠ ch '%')
    (heq : d ≠ ch '=') (param : Bytes × Bytes) : d ∉ paramText param := by
  rw [paramText, List.mem_append, List.mem_cons]
  rintro (h | h | h)
  · exact notMem_urlEncodeComponent hd hpercent _ h
  · exact heq h
  · exact notMem_urlEncodeComponent hd hpercent _ h

theorem paramOf_paramText (param : Bytes × Bytes) : paramOf (paramText param) = .ok param := by
  have hkey : ch '=' ∉ urlEncodeComponent param.1 :=
    notMem_urlEncodeComponent (by decide) (by decide) _
  rw [paramOf_eq_ok, paramText, before_append_cons hkey, after_append_cons hkey]
  exact ⟨urlDecodeComponent_urlEncodeComponent _ _, urlDecodeComponent_urlEncodeComponent _ _⟩

/-- Pieces that are put together with their separator. -/
theorem pieces_intercalate {d : UInt8} {blocks : List Bytes}
    (h : ∀ block ∈ blocks, d ∉ block ∧ block ≠ []) :
    pieces d ([d].intercalate blocks) = blocks := by
  have hsingle : ∀ {block : Bytes}, d ∉ block → block ≠ [] → pieces d block = [block] := by
    intro block hd hne
    induction block with
    | nil => exact absurd rfl hne
    | cons c block ih =>
        rw [List.mem_cons, not_or] at hd
        rw [pieces, if_neg (Ne.symm hd.1)]
        cases block with
        | nil => rfl
        | cons c' block => rw [ih hd.2 (List.cons_ne_nil _ _)]
  have hcons : ∀ {block : Bytes} (rest : Bytes), d ∉ block →
      pieces d (block ++ d :: rest) = block :: pieces d rest := by
    intro block rest hd
    induction block with
    | nil => exact pieces_cons_self d rest
    | cons c block ih =>
        rw [List.mem_cons, not_or] at hd
        rw [List.cons_append, pieces, if_neg (Ne.symm hd.1), ih hd.2]
  induction blocks with
  | nil => rfl
  | cons block blocks ih =>
      obtain ⟨hd, hne⟩ := h block List.mem_cons_self
      have ih := ih fun b hb => h b (List.mem_cons_of_mem _ hb)
      cases blocks with
      | nil => simpa using hsingle hd hne
      | cons next blocks =>
          rw [List.intercalate_cons_cons, List.append_assoc, List.singleton_append,
            hcons _ hd, ih]

theorem notMem_intercalate {c d : UInt8} (hcd : c ≠ d) {blocks : List Bytes}
    (h : ∀ block ∈ blocks, c ∉ block) : c ∉ [d].intercalate blocks := by
  induction blocks with
  | nil => simp
  | cons block blocks ih =>
      have ih := ih fun b hb => h b (List.mem_cons_of_mem _ hb)
      cases blocks with
      | nil => simpa using h block List.mem_cons_self
      | cons next blocks =>
          rw [List.intercalate_cons_cons]
          simp [hcd, h block List.mem_cons_self, ih]

/-- **A target that is written is read back.** -/
theorem parseQuery_targetText (params : List (Bytes × Bytes)) (hpath : ch '?' ∉ path) :
    ∃ query, parseQuery (targetText path params) = .ok query ∧ query.path = path ∧
      ∀ key, (query.params[key]?).getD [] = valuesOf params key := by
  have hparts : pieces (ch '&') (after (ch '?') (targetText path params)) =
      params.map paramText := by
    rw [targetText, after_append_cons hpath]
    refine pieces_intercalate fun block hblock => ?_
    obtain ⟨param, -, rfl⟩ := List.mem_map.1 hblock
    exact ⟨notMem_paramText (by decide) (by decide) (by decide) param, by simp [paramText]⟩
  refine ⟨params.foldl Query.push { path := before (ch '?') (targetText path params) },
    parseQuery_eq_ok.2 ⟨params, ?_, rfl⟩, ?_, fun key => ?_⟩
  · rw [hparts, List.forall₂_map_left_iff, List.forall₂_same]
    exact fun param _ => paramOf_paramText param
  · rw [path_foldl_push, targetText, before_append_cons hpath]
  · rw [Query.getD_push]
    simp

/-- The words of a line. -/
theorem readWord_append (hs : IsWord s) (hrest : ∀ c ∈ rest.head?, isspace c = true) :
    readWord (s ++ rest) = (s, rest) := by
  have hhead : (s ++ rest).dropWhile isspace = s ++ rest := by
    cases s with
    | nil => exact absurd rfl hs.1
    | cons c s => rw [List.cons_append, List.dropWhile_cons_of_neg (by simp [hs.2 c])]
  have hall : ∀ c ∈ s, (!isspace c) = true := by
    intro c hc
    simp [hs.2 c hc]
  have htake : rest.takeWhile (!isspace ·) = [] ∧ rest.dropWhile (!isspace ·) = rest := by
    cases rest with
    | nil => exact ⟨rfl, rfl⟩
    | cons c rest => simp [hrest c rfl]
  rw [readWord, hhead, List.takeWhile_append_of_pos hall, List.dropWhile_append_of_pos hall,
    htake.1, htake.2, List.append_nil]

/-- A word behind a space. -/
theorem readWord_space (s : Bytes) : readWord (ch ' ' :: s) = readWord s := by
  have hspace : isspace (ch ' ') = true := by decide
  rw [readWord, readWord, List.dropWhile_cons_of_pos hspace]

theorem beforeCrlf_append {line : Bytes} (h : ch '\r' ∉ line) (rest : Bytes) :
    beforeCrlf (line ++ ch '\r' :: ch '\n' :: rest) = some line := by
  induction line with
  | nil => simp [beforeCrlf]
  | cons c line ih =>
      rw [List.mem_cons, not_or] at h
      rw [List.cons_append, beforeCrlf, if_neg fun hc => h.1 hc.1.symm, ih h.2]
      rfl

theorem isWord_targetText (params : List (Bytes × Bytes)) (hpath : IsWord path) :
    IsWord (targetText path params) := by
  refine ⟨by simp [targetText], fun c hc => ?_⟩
  rw [targetText, List.mem_append, List.mem_cons] at hc
  rcases hc with hc | rfl | hc
  · exact hpath.2 c hc
  · decide
  · -- the text of the parameters has no white space
    by_contra hspace
    rw [Bool.not_eq_false] at hspace
    have hlt : c.toNat < 33 := by
      simp only [isspace, Bool.or_eq_true, beq_iff_eq, Bool.and_eq_true, decide_eq_true_eq,
        UInt8.le_iff_toNat_le] at hspace
      rcases hspace with rfl | h
      · decide
      · exact Nat.lt_of_le_of_lt h.2 (by decide)
    have hall : ∀ n : Fin 33, isspace (UInt8.ofNat n.val) = true →
        unreserved (UInt8.ofNat n.val) = false ∧ UInt8.ofNat n.val ≠ ch '%' ∧
        UInt8.ofNat n.val ≠ ch '=' ∧ UInt8.ofNat n.val ≠ ch '&' := by decide
    have hfacts := hall ⟨c.toNat, hlt⟩
    rw [UInt8.ofNat_toNat] at hfacts
    obtain ⟨hreserved, hpercent, heq, hand⟩ := hfacts hspace
    refine notMem_intercalate hand (fun block hblock => ?_) hc
    obtain ⟨param, -, rfl⟩ := List.mem_map.1 hblock
    exact notMem_paramText hreserved hpercent heq param

/-- **A request that is written is read back**: its method, its path, and for each key the values it
was given, of which the first one counts.  What stands behind the line makes no difference. -/
theorem request_arrives (params : List (Bytes × Bytes)) (hmethod : IsWord method)
    (hpath : IsWord path) (hquestion : ch '?' ∉ path) (hversion : IsWord version)
    (hhttp : ofString "HTTP/" <+: version) (rest : Bytes) :
    ∃ line query, parseRequestLine (requestText method path params version rest) = .ok line ∧
      line.method = method ∧ parseQuery line.target = .ok query ∧ query.path = path ∧
      ∀ key, (query.params[key]?).getD [] = valuesOf params key ∧
        query.one key = (params.find? fun param => param.1 == key).map (·.2) := by
  obtain ⟨query, hquery, hquerypath, hvalues⟩ := parseQuery_targetText params hquestion
  have hword : ∀ {s : Bytes}, IsWord s → ch '\r' ∉ s := by
    intro s hs hmem
    have := hs.2 _ hmem
    revert this
    decide
  have htarget := isWord_targetText params hpath
  have hline : beforeCrlf (requestText method path params version rest) =
      some (method ++ ch ' ' :: (targetText path params ++ ch ' ' :: version)) := by
    rw [← beforeCrlf_append ?_ rest]
    · simp [requestText]
    · have hspace : ch '\r' ≠ ch ' ' := by decide
      simp [hword hmethod, hword htarget, hword hversion, hspace]
  have hspace : ∀ s : Bytes, ∀ c ∈ (ch ' ' :: s).head?, isspace c = true := by
    intro s c hc
    obtain rfl := Option.some.inj hc
    decide
  have hlast : readWord version = (version, []) := by
    have hend : ∀ c ∈ ([] : Bytes).head?, isspace c = true := by
      intro c hc
      cases hc
    have hread := readWord_append hversion hend
    rwa [List.append_nil] at hread
  refine ⟨⟨method, targetText path params⟩, query, ?_, rfl, hquery, hquerypath, fun key => ?_⟩
  · rw [parseRequestLine, hline]
    simp only [readWord_append hmethod (hspace _), readWord_space,
      readWord_append htarget (hspace _), hlast]
    rw [reject, if_neg]
    · rfl
    · rw [not_or, not_or, not_not]
      exact ⟨hmethod.1, htarget.1, hhttp⟩
  · refine ⟨hvalues key, ?_⟩
    rw [Query.one_eq, hvalues, head?_valuesOf]

/-- A value with separators in it arrives, and so does a key that is there twice. -/
theorem request_arrives_deploy : ∃ line query, parseRequestLine (requestText "POST"
      "/v1/deploy-bundle" [("user", "app"), ("quadletPath", "a&b/web.container"), ("user", "root")]
      "HTTP/1.1" "Host: localhost\r\n\r\n") = .ok line ∧ parseQuery line.target = .ok query ∧
    query.one "user" = some (ofString "app") ∧
    query.one "quadletPath" = some (ofString "a&b/web.container") := by
  have hmethod : IsWord "POST" := ⟨by decide, by decide +kernel⟩
  have hpath : IsWord "/v1/deploy-bundle" := ⟨by decide, by decide +kernel⟩
  have hversion : IsWord "HTTP/1.1" := ⟨by decide, by decide +kernel⟩
  obtain ⟨line, query, hline, -, hquery, -, hvalues⟩ := request_arrives
    [("user", "app"), ("quadletPath", "a&b/web.container"), ("user", "root")] hmethod hpath
    (by decide) hversion (by decide) "Host: localhost\r\n\r\n"
  refine ⟨line, query, hline, hquery, ?_, ?_⟩
  · rw [(hvalues "user").2]
    decide +kernel
  · rw [(hvalues "quadletPath").2]
    decide +kernel

end

end PodInstaller
