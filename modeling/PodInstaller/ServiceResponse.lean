/-
**The responses of the example service.**

A response is a status line, three headers and a body, which is a JSON object that is put together
by hand.  The length of the body is among the headers, so that a client knows where the body ends
whatever it contains.  The functions with which the Podman client of the library reads headers are
at hand here: what they read from a response is what was put in.

The bodies are escaped by a function of their own, which knows the line break, the carriage return
and the tabulator, and leaves other control characters as they are.  The grammar of JSON does not
allow them, so that a text with such a character makes a body that cannot be read.

Main definitions:

* `PodInstaller.Service.jsonEscape`, `PodInstaller.Service.response`,
  `PodInstaller.Service.errorBody`, `PodInstaller.Service.deployedBody` — the code of the service;
* `PodInstaller.trimHeaderValue`, `PodInstaller.writeHeader`, `PodInstaller.HttpResponse.header` —
  the code of the client;
* `PodInstaller.receive` — how a response is read;
* `PodInstaller.Service.Clean` — the texts that the grammar of JSON allows when they are escaped so.

Main results:

* `PodInstaller.Service.receive_response` — **a response is read back**;
* `PodInstaller.Service.parse_flatObject` — a flat object can be read if its texts are clean;
* `PodInstaller.Service.bodies_readable_iff` — **which bodies can be read**.
-/

import PodInstaller.Syscalls
import PodInstaller.CreateBody

set_option relaxedAutoImplicit false
set_option autoImplicit false

namespace PodInstaller

open Bytes

/-! ### The service -/

namespace Service

/-- What `json_escape` writes for a byte. -/
def escapeByte (c : UInt8) : Bytes :=
  if c = ch '"' ∨ c = ch '\\' then [ch '\\', c]
  else if c = ch '\n' then "\\n"
  else if c = ch '\r' then "\\r"
  else if c = ch '\t' then "\\t"
  else [c]

/-- `json_escape`. -/
def jsonEscape (value : Bytes) : Bytes := ch '"' :: (value.flatMap escapeByte ++ [ch '"'])

/-- The reason phrase of `response`. -/
def reason (status : ℕ) : Bytes :=
  if status = 202 then "Accepted"
  else if status = 400 then "Bad Request"
  else if status = 404 then "Not Found"
  else if status = 500 then "Internal Server Error"
  else "OK"

/-- The end of a line. -/
def crlf : Bytes := [ch '\r', ch '\n']

/-- `response`. -/
def response (status : ℕ) (body : Bytes) (contentType : Bytes := "application/json") : Bytes :=
  ofString "HTTP/1.1 " ++ decimal status ++ ch ' ' :: reason status ++ crlf ++
    (ofString "Content-Type: " ++ contentType ++ crlf ++
      (ofString "Content-Length: " ++ decimal body.length ++ crlf ++
        (ofString "Connection: close" ++ crlf ++ (crlf ++ body))))

/-- The body of a response to a request that has failed. -/
def errorBody (message : Bytes) : Bytes :=
  ofString "\x7b\"error\":" ++ jsonEscape message ++ ofString "\x7d\n"

/-- The body of a response to a deployment. -/
def deployedBody (dryRun : Bool) (targetUser installedQuadletPath systemdUnit jobPath
    statusError : Bytes) : Bytes :=
  ofString "\x7b\"dryRun\":" ++ (if dryRun then ofString "true" else ofString "false") ++
    ofString ",\"targetUser\":" ++ jsonEscape targetUser ++
    ofString ",\"installedQuadletPath\":" ++ jsonEscape installedQuadletPath ++
    ofString ",\"systemdUnit\":" ++ jsonEscape systemdUnit ++
    ofString ",\"jobPath\":" ++ jsonEscape jobPath ++
    ofString ",\"statusError\":" ++ jsonEscape statusError ++ ofString "\x7d\n"

end Service

/-! ### The client -/

/-- `trim_header_value`. -/
def trimHeaderValue (value : Bytes) : Bytes :=
  (value.dropWhile fun c => c == ch ' ' || c == ch '\t').rdropWhile fun c =>
    c == ch '\r' || c == ch '\n' || c == ch ' ' || c == ch '\t'

/-- `write_header`: a line without a colon, such as the status line, is left out. -/
def writeHeader (headers : List (Bytes × Bytes)) (line : Bytes) : List (Bytes × Bytes) :=
  if ch ':' ∈ line then
    headers ++ [(before (ch ':') line, trimHeaderValue (after (ch ':') line))]
  else headers

/-- `HttpResponse::header`: the first header with this name, in either case. -/
def HttpResponse.header (response : HttpResponse) (name : Bytes) : Option Bytes :=
  (response.headers.find? fun header => lower header.1 == lower name).map (·.2)

/-! ### How a response is read -/

/-- The lines up to the first empty one, each with its end, and what comes behind that. -/
def headerLines : ℕ → Bytes → Option (List Bytes × Bytes)
  | 0, _ => none
  | n + 1, s =>
    if ch '\n' ∉ s then none
    else
      let line := before (ch '\n') s
      let rest := after (ch '\n') s
      if line = [ch '\r'] then some ([], rest)
      else if line.getLast? = some (ch '\r') then
        (headerLines n rest).map fun out => ((line ++ [ch '\n']) :: out.1, out.2)
      else none

/-- The status in a status line. -/
def statusOf (line : Bytes) : ℕ :=
  Json.ofDigits ((line.drop (ofString "HTTP/1.1 ").length).takeWhile isdigit)

/-- A response as a client reads it: the headers as `write_header` collects them, and of the body as
much as its length says. -/
def receive (text : Bytes) : Option HttpResponse := do
  let lines ← headerLines text.length text
  let status ← lines.1.head?
  let headers := lines.1.foldl writeHeader []
  let length ← ({ headers := headers } : HttpResponse).header "content-length"
  if lines.2.length < Json.ofDigits length then none
  else return {
    status := statusOf status
    body := lines.2.take (Json.ofDigits length)
    headers := headers }

section

variable {line rest : Bytes} {n : ℕ}

/-- A line, and what comes behind it. -/
theorem headerLines_cons (hline : line ≠ []) (hbreak : ch '\n' ∉ line) :
    headerLines (n + 1) (line ++ Service.crlf ++ rest) =
      (headerLines n rest).map fun out => ((line ++ Service.crlf) :: out.1, out.2) := by
  have htext : line ++ Service.crlf ++ rest = (line ++ [ch '\r']) ++ ch '\n' :: rest := by
    simp [Service.crlf]
  have hnone : ch '\n' ∉ line ++ [ch '\r'] := by
    have hne : ch '\n' ≠ ch '\r' := by decide
    simp [hbreak, hne]
  have hne : line ++ [ch '\r'] ≠ [ch '\r'] := by simpa using hline
  rw [htext, headerLines, if_neg (by simp)]
  simp only [before_append_cons hnone, after_append_cons hnone, if_neg hne]
  rw [if_pos (by simp)]
  simp [Service.crlf]

/-- The empty line. -/
theorem headerLines_nil : headerLines (n + 1) (Service.crlf ++ rest) = some ([], rest) := by
  have htext : Service.crlf ++ rest = [ch '\r'] ++ ch '\n' :: rest := rfl
  have hnone : ch '\n' ∉ [ch '\r'] := by decide
  rw [htext, headerLines, if_neg (by simp)]
  simp only [before_append_cons hnone, after_append_cons hnone, if_true]

/-- A header that has white space around its value. -/
theorem writeHeader_append {headers : List (Bytes × Bytes)} {name value : Bytes}
    (hname : ch ':' ∉ name) : writeHeader headers (name ++ ch ':' :: value) =
      headers ++ [(name, trimHeaderValue value)] := by
  rw [writeHeader, if_pos (by simp), before_append_cons hname, after_append_cons hname]

theorem trimHeaderValue_space (value : Bytes) :
    trimHeaderValue (ch ' ' :: value) = trimHeaderValue value := by
  simp [trimHeaderValue]

/-- The end of the line is trimmed off. -/
theorem trimHeaderValue_crlf (value : Bytes) :
    trimHeaderValue (value ++ Service.crlf) = trimHeaderValue value := by
  have htail : ∀ s : Bytes, (s ++ Service.crlf).rdropWhile (fun c =>
      c == ch '\r' || c == ch '\n' || c == ch ' ' || c == ch '\t') = s.rdropWhile fun c =>
      c == ch '\r' || c == ch '\n' || c == ch ' ' || c == ch '\t' := by
    intro s
    have htext : s ++ Service.crlf = (s ++ [ch '\r']) ++ [ch '\n'] := by simp [Service.crlf]
    rw [htext, List.rdropWhile_concat_pos _ _ _ (by decide),
      List.rdropWhile_concat_pos _ _ _ (by decide)]
  rw [trimHeaderValue, trimHeaderValue]
  by_cases hall : ∀ c ∈ value, (c == ch ' ' || c == ch '\t') = true
  · -- nothing but white space: what is left is the end of the line
    have hnil : value.dropWhile (fun c => c == ch ' ' || c == ch '\t') = [] :=
      List.dropWhile_eq_nil_iff.2 hall
    rw [List.dropWhile_append_of_pos hall, hnil]
    have hkeep : Service.crlf.dropWhile (fun c => c == ch ' ' || c == ch '\t') = Service.crlf := by
      decide
    rw [hkeep]
    exact htail []
  · have hne : value.dropWhile (fun c => c == ch ' ' || c == ch '\t') ≠ [] := by
      intro hnil
      exact hall (List.dropWhile_eq_nil_iff.1 hnil)
    rw [List.dropWhile_append, if_neg (by simpa using hne), htail]

end

namespace Service

/-- The first line of a response. -/
def statusLine (status : ℕ) : Bytes :=
  ofString "HTTP/1.1 " ++ decimal status ++ ch ' ' :: reason status

/-- The lines of a response up to the empty one, each with its end. -/
def responseLines (status length : ℕ) (contentType : Bytes) : List Bytes :=
  [statusLine status ++ crlf, ofString "Content-Type: " ++ contentType ++ crlf,
    ofString "Content-Length: " ++ decimal length ++ crlf, ofString "Connection: close" ++ crlf]

/-- What a client finds in the headers of a response. -/
def responseHeaders (length : ℕ) (contentType : Bytes) : List (Bytes × Bytes) :=
  [("Content-Type", trimHeaderValue contentType), ("Content-Length", decimal length),
    ("Connection", "close")]

theorem notMem_decimal (n : ℕ) {d : UInt8} (hd : isdigit d = false) : d ∉ decimal n := by
  intro hmem
  rw [isdigit_of_mem_decimal hmem] at hd
  cases hd

/-- The status line is one line, and no header. -/
theorem notMem_statusLine (status : ℕ) {d : UInt8} (hd : d = ch '\n' ∨ d = ch ':') :
    d ∉ statusLine status := by
  have hreason : d ∉ reason status := by
    unfold reason
    rcases hd with rfl | rfl <;> split_ifs <;> decide
  have hdecimal : d ∉ decimal status :=
    notMem_decimal status (by rcases hd with rfl | rfl <;> decide)
  have hfront : d ∉ ofString "HTTP/1.1 " := by rcases hd with rfl | rfl <;> decide
  have hspace : d ≠ ch ' ' := by rcases hd with rfl | rfl <;> decide
  simp [statusLine, hfront, hdecimal, hspace, hreason]

/-- The status is read from the status line. -/
theorem statusOf_statusLine (status : ℕ) : statusOf (statusLine status ++ crlf) = status := by
  have hspace : ∀ c ∈ (ch ' ' :: reason status ++ crlf).head?, isdigit c = false := by
    intro c hc
    obtain rfl := Option.some.inj hc
    decide
  rw [statusOf, statusLine, List.append_assoc, List.append_assoc, List.drop_left' rfl,
    (Json.takeWhile_decimal hspace).1, Json.ofDigits_decimal]

/-- The lines of a response end at the empty one. -/
theorem headerLines_response (status : ℕ) (body rest : Bytes) {contentType : Bytes}
    (hbreak : ch '\n' ∉ contentType) (n : ℕ) :
    headerLines (n + 5) (response status body contentType ++ rest) =
      some (responseLines status body.length contentType, body ++ rest) := by
  have htype : ch '\n' ∉ ofString "Content-Type: " ++ contentType := by
    have hname : ch '\n' ∉ ofString "Content-Type: " := by decide
    simp [hname, hbreak]
  have hlength : ch '\n' ∉ ofString "Content-Length: " ++ decimal body.length := by
    have hname : ch '\n' ∉ ofString "Content-Length: " := by decide
    simp [hname, notMem_decimal body.length (d := ch '\n') (by decide)]
  have htext : response status body contentType ++ rest =
      statusLine status ++ crlf ++
        (ofString "Content-Type: " ++ contentType ++ crlf ++
          (ofString "Content-Length: " ++ decimal body.length ++ crlf ++
            (ofString "Connection: close" ++ crlf ++ (crlf ++ (body ++ rest))))) := by
    simp only [response, statusLine, List.append_assoc]
  rw [htext, headerLines_cons (by simp [statusLine]) (notMem_statusLine status (.inl rfl)),
    headerLines_cons (by simp [ofString]) htype, headerLines_cons (by simp [ofString]) hlength,
    headerLines_cons (by decide) (by decide), headerLines_nil]
  rfl

theorem trimHeaderValue_decimal (n : ℕ) : trimHeaderValue (decimal n) = decimal n := by
  have hdigit : ∀ c ∈ decimal n, c ≠ ch ' ' ∧ c ≠ ch '\t' ∧ c ≠ ch '\r' ∧ c ≠ ch '\n' := by
    intro c hc
    have hne : ∀ d : UInt8, isdigit d = false → c ≠ d := fun d hd heq =>
      notMem_decimal n hd (heq ▸ hc)
    exact ⟨hne _ (by decide), hne _ (by decide), hne _ (by decide), hne _ (by decide)⟩
  have hfront : (decimal n).dropWhile (fun c => c == ch ' ' || c == ch '\t') = decimal n := by
    cases hdecimal : decimal n with
    | nil => rfl
    | cons c rest =>
        have hc := hdigit c (by rw [hdecimal]; exact List.mem_cons_self)
        exact List.dropWhile_cons_of_neg (by simp [hc])
  rw [trimHeaderValue, hfront, List.rdropWhile_eq_self_iff]
  intro hne
  have hc := hdigit _ (List.getLast_mem hne)
  simp [hc]

/-- A header line with a space behind its colon. -/
theorem writeHeader_line (headers : List (Bytes × Bytes)) (name : Bytes) {full : Bytes}
    (value : Bytes) (hname : ch ':' ∉ name) (hfull : full = name ++ [ch ':', ch ' ']) :
    writeHeader headers (full ++ value ++ crlf) = headers ++ [(name, trimHeaderValue value)] := by
  rw [hfull, List.append_assoc, List.append_assoc, List.cons_append, writeHeader_append hname]
  simp [trimHeaderValue_space, trimHeaderValue_crlf]

/-- The headers that are collected from the lines of a response. -/
theorem foldl_writeHeader_responseLines (status length : ℕ) (contentType : Bytes) :
    (responseLines status length contentType).foldl writeHeader [] =
      responseHeaders length contentType := by
  -- the status line has no colon
  have hskip : writeHeader [] (statusLine status ++ crlf) = [] := by
    rw [writeHeader, if_neg]
    rw [List.mem_append, not_or]
    exact ⟨notMem_statusLine status (.inr rfl), by decide⟩
  have hsplit : ofString "Connection: close" = ofString "Connection: " ++ ofString "close" := by
    decide
  have hclose : trimHeaderValue (ofString "close") = ofString "close" := by decide
  rw [responseLines, List.foldl_cons, hskip, List.foldl_cons,
    writeHeader_line _ "Content-Type" _ (by decide) (by decide), List.foldl_cons,
    writeHeader_line _ "Content-Length" _ (by decide) (by decide), List.foldl_cons,
    List.foldl_nil, hsplit, writeHeader_line _ "Connection" _ (by decide) (by decide),
    trimHeaderValue_decimal, hclose]
  rfl

theorem header_contentLength (length : ℕ) (contentType : Bytes) :
    ({ headers := responseHeaders length contentType } : HttpResponse).header "content-length" =
      some (decimal length) := by
  have htype : (lower (ofString "Content-Type") == lower (ofString "content-length")) = false := by
    decide
  have hlength :
      (lower (ofString "Content-Length") == lower (ofString "content-length")) = true := by
    decide
  simp [HttpResponse.header, responseHeaders, htype, hlength]

/-- **A response is read back**: its status, its headers and its body, whatever the body contains
and whatever comes behind it. -/
theorem receive_response (status : ℕ) (body rest : Bytes) {contentType : Bytes}
    (hbreak : ch '\n' ∉ contentType) :
    receive (response status body contentType ++ rest) = some {
      status := status
      body := body
      headers := responseHeaders body.length contentType } := by
  have hlen : 5 ≤ (response status body contentType ++ rest).length := by
    have : 5 ≤ (ofString "HTTP/1.1 ").length := by decide
    simp only [response, List.length_append]
    omega
  obtain ⟨n, hn⟩ := Nat.exists_eq_add_of_le' hlen
  rw [receive, hn, headerLines_response status body rest hbreak]
  simp only [Option.bind_eq_bind, Option.bind_some, foldl_writeHeader_responseLines,
    header_contentLength, Json.ofDigits_decimal, List.take_left', List.length_append]
  rw [responseLines, List.head?_cons, Option.bind_some, if_neg (by omega), statusOf_statusLine]
  rfl

/-! ### Which bodies can be read -/

/-- A text all of whose control characters are escaped in a body. -/
def Clean (text : Bytes) : Prop :=
  ∀ c ∈ text, c < 0x20 → c = ch '\n' ∨ c = ch '\r' ∨ c = ch '\t'

instance (text : Bytes) : Decidable (Clean text) :=
  inferInstanceAs (Decidable (∀ c ∈ text, c < 0x20 → c = ch '\n' ∨ c = ch '\r' ∨ c = ch '\t'))

/-- The value of a field in a body. -/
def fieldJson : Bool ⊕ Bytes → Json
  | .inl b => .bool b
  | .inr text => .str text

/-- The members of a flat object. -/
def flatMembers (fields : List (Bytes × (Bool ⊕ Bytes))) : List (Bytes × Json) :=
  fields.map fun field => (field.1, fieldJson field.2)

/-- The texts of a field are clean. -/
def CleanField (value : Bool ⊕ Bytes) : Prop := ∀ text, value = .inr text → Clean text

instance : (value : Bool ⊕ Bytes) → Decidable (CleanField value)
  | .inl _ => isTrue fun _ htext => nomatch htext
  | .inr text => decidable_of_iff (Clean text)
      ⟨fun h _ htext => Sum.inr.inj htext ▸ h, fun h => h text rfl⟩

theorem cleanField_text {text : Bytes} : CleanField (.inr text) ↔ Clean text := by
  constructor
  · intro h
    exact h text rfl
  · intro h other hother
    obtain rfl := Sum.inr.inj hother
    exact h

theorem cleanField_bool (b : Bool) : CleanField (.inl b) := by
  intro text htext
  cases htext

/-- Where it is right, the escaper does what the one of the library does. -/
theorem escapeByte_clean {c : UInt8} (h : c < 0x20 → c = ch '\n' ∨ c = ch '\r' ∨ c = ch '\t') :
    escapeByte c = PodInstaller.jsonEscape c := by
  by_cases hlow : c < 0x20
  · obtain rfl | rfl | rfl := h hlow <;> decide
  · have hne : ∀ d : UInt8, d < 0x20 → c ≠ d := by
      intro d hd heq
      exact hlow (heq ▸ hd)
    by_cases hquote : c = ch '"'
    · rw [hquote]
      decide
    by_cases hslash : c = ch '\\'
    · rw [hslash]
      decide
    rw [escapeByte, PodInstaller.jsonEscape, if_neg (by tauto), if_neg (hne _ (by decide)),
      if_neg (hne _ (by decide)), if_neg (hne _ (by decide)), if_neg hquote, if_neg hslash,
      if_neg (hne _ (by decide)), if_neg (hne _ (by decide)), if_neg (hne _ (by decide)),
      if_neg (hne _ (by decide)), if_neg (hne _ (by decide)), if_neg hlow]

/-- A clean text is written as the library would write it. -/
theorem quote_clean {text : Bytes} (h : Clean text) :
    Json.quote escapeByte text = Json.quote PodInstaller.jsonEscape text := by
  have hflat : text.flatMap escapeByte = text.flatMap PodInstaller.jsonEscape := by
    induction text with
    | nil => rfl
    | cons c text ih =>
        rw [List.flatMap_cons, List.flatMap_cons, escapeByte_clean (h c List.mem_cons_self),
          ih fun d hd => h d (List.mem_cons_of_mem c hd)]
  rw [Json.quote, Json.quote, hflat]

theorem render_clean {value : Bool ⊕ Bytes} (h : CleanField value) :
    Json.render escapeByte (fieldJson value) = Json.render PodInstaller.jsonEscape
      (fieldJson value) := by
  cases value with
  | inl b => rw [fieldJson, Json.render, Json.render]
  | inr text => rw [fieldJson, Json.render, Json.render, quote_clean (h text rfl)]

/-- A string is not read if its text is not clean. -/
theorem parseChars_unclean {text rest : Bytes} (h : ¬ Clean text) :
    Json.parseChars (text.flatMap escapeByte ++ rest) = none := by
  induction text with
  | nil =>
      exact absurd (fun c hc => absurd hc List.not_mem_nil) h
  | cons c text ih =>
      rw [List.flatMap_cons, List.append_assoc]
      by_cases hc : c < 0x20 → c = ch '\n' ∨ c = ch '\r' ∨ c = ch '\t'
      · -- the character is read, and the rest of the text is not
        have htail : ¬ Clean text := by
          intro hclean
          apply h
          intro d hd
          obtain rfl | hd := List.mem_cons.1 hd
          · exact hc
          · exact hclean d hd
        rw [escapeByte_clean hc, jsonEscape_escapes, ih htail]
        rfl
      · obtain ⟨hlow, hnone⟩ := Classical.not_imp.1 hc
        obtain ⟨hn, hr, ht⟩ := not_or.1 hnone |>.imp_right not_or.1
        have hquote : c ≠ ch '"' := by
          rintro rfl
          exact absurd hlow (by decide)
        have hslash : c ≠ ch '\\' := by
          rintro rfl
          exact absurd hlow (by decide)
        rw [escapeByte, if_neg (by tauto), if_neg hn, if_neg hr, if_neg ht, List.singleton_append]
        unfold Json.parseChars
        rw [if_neg hquote, if_neg hslash, if_pos hlow]

/-- A value is not read if its text is not clean. -/
theorem parseValue_unclean {value : Bool ⊕ Bytes} (h : ¬ CleanField value) (rest : Bytes) (n : ℕ) :
    Json.parseValue n (Json.skipWs (Json.render escapeByte (fieldJson value) ++ rest)) = none := by
  cases value with
  | inl b => exact absurd (cleanField_bool b) h
  | inr text =>
      rw [Json.skipWs_render, fieldJson, Json.render, Json.quote]
      cases n with
      | zero => rfl
      | succ n =>
          rw [List.cons_append, Json.parseValue, if_pos rfl, List.append_assoc,
            parseChars_unclean (mt cleanField_text.2 h)]
          rfl

/-- A value that is read, in front of other text. -/
theorem parseValue_clean (value : Bool ⊕ Bytes) (rest : Bytes) (n : ℕ) :
    Json.parseValue (n + 1) (Json.render PodInstaller.jsonEscape (fieldJson value) ++ rest) =
      some (fieldJson value, rest) := by
  cases value with
  | inl b =>
      cases b with
      | true => exact congrArg (Option.map _) (Json.eat_append "rue" rest)
      | false => exact congrArg (Option.map _) (Json.eat_append "alse" rest)
  | inr text =>
      rw [fieldJson, Json.render, Json.quote, List.cons_append, Json.parseValue, if_pos rfl,
        List.append_assoc, List.singleton_append, Json.parseChars_quote jsonEscape_escapes]
      rfl

section

variable {fields : List (Bytes × (Bool ⊕ Bytes))}

/-- A clean object is written as the library would write it. -/
theorem renderMembers_clean (hkeys : ∀ field ∈ fields, Clean field.1)
    (hclean : ∀ field ∈ fields, CleanField field.2) :
    Json.renderMembers escapeByte (flatMembers fields) =
      Json.renderMembers PodInstaller.jsonEscape (flatMembers fields) := by
  induction fields with
  | nil => rfl
  | cons field fields ih =>
      have hquote := quote_clean (hkeys field List.mem_cons_self)
      have hvalue := render_clean (hclean field List.mem_cons_self)
      have hrest := ih (fun f hf => hkeys f (List.mem_cons_of_mem _ hf))
        fun f hf => hclean f (List.mem_cons_of_mem _ hf)
      cases fields with
      | nil =>
          simp only [flatMembers, List.map_cons, List.map_nil, Json.renderMembers, hquote, hvalue]
      | cons field' fields =>
          simp only [flatMembers, List.map_cons] at hrest ⊢
          simp only [Json.renderMembers, hquote, hvalue, hrest]

/-- An object is not read if one of its texts is not clean. -/
theorem parseMembers_unclean (hkeys : ∀ field ∈ fields, Clean field.1)
    (hunclean : ∃ field ∈ fields, ¬ CleanField field.2) (n : ℕ) (rest : Bytes) :
    Json.parseMembers n (Json.renderMembers escapeByte (flatMembers fields) ++ rest) = none := by
  induction fields generalizing n with
  | nil =>
      obtain ⟨field, hmem, -⟩ := hunclean
      exact absurd hmem List.not_mem_nil
  | cons field fields ih =>
      have hquote := quote_clean (hkeys field List.mem_cons_self)
      by_cases hfield : CleanField field.2
      · -- this member is read, and the next ones are not
        obtain ⟨other, hmem, hother⟩ := hunclean
        have htail : ∃ f ∈ fields, ¬ CleanField f.2 := by
          obtain rfl | hmem := List.mem_cons.1 hmem
          · exact absurd hfield hother
          · exact ⟨other, hmem, hother⟩
        cases fields with
        | nil =>
            obtain ⟨f, hf, -⟩ := htail
            exact absurd hf List.not_mem_nil
        | cons field' fields =>
            have hrest := fun n => ih (fun f hf => hkeys f (List.mem_cons_of_mem _ hf)) htail n
            simp only [flatMembers, List.map_cons] at hrest ⊢
            cases n with
            | zero => rfl
            | succ n =>
                rw [Json.renderMembers, List.append_assoc, List.cons_append, List.append_assoc,
                  List.cons_append, hquote, render_clean hfield, Json.parseMembers,
                  Json.parseMember_quote jsonEscape_escapes]
                dsimp only
                rw [Json.skipWs_cons (by decide), show (":" : Bytes) = [ch ':'] by rfl,
                  Json.eat_cons, Option.bind_eq_bind, Option.bind_some, Json.skipWs_render]
                cases n with
                | zero => rfl
                | succ n =>
                    rw [parseValue_clean]
                    dsimp only
                    rw [Json.skipWs_cons (by decide)]
                    dsimp only
                    rw [if_neg (by decide), if_pos rfl, hrest]
                    rfl
      · have hvalue := fun rest => parseValue_unclean hfield rest
        cases fields with
        | nil =>
            simp only [flatMembers, List.map_cons, List.map_nil, Json.renderMembers, hquote,
              List.append_assoc, List.cons_append]
            exact Json.parseMembers_value_none jsonEscape_escapes _ (hvalue rest) n
        | cons field' fields =>
            simp only [flatMembers, List.map_cons, Json.renderMembers, hquote, List.append_assoc,
              List.cons_append]
            exact Json.parseMembers_value_none jsonEscape_escapes _ (hvalue _) n

/-- **A flat object can be read just when its texts are clean**, and then it is what was written. -/
theorem parse_flatObject (hkeys : ∀ field ∈ fields, Clean field.1) (hne : fields ≠ []) :
    Json.parse (ch '{' :: (Json.renderMembers escapeByte (flatMembers fields) ++
        ofString "\x7d\n")) =
      if ∀ field ∈ fields, CleanField field.2 then some (.obj (flatMembers fields)) else none := by
  split_ifs with hclean
  · have htext : ch '{' :: (Json.renderMembers PodInstaller.jsonEscape (flatMembers fields) ++
        ofString "\x7d\n") =
        Json.render PodInstaller.jsonEscape (.obj (flatMembers fields)) ++ [ch '\n'] := by
      rw [Json.render, List.cons_append, List.append_assoc]
      rfl
    have hend : Json.NumberEnd [ch '\n'] := by
      intro c hc
      obtain rfl := Option.some.inj hc
      decide
    rw [renderMembers_clean hkeys hclean, htext, Json.parse, Json.skipWs_render,
      Json.parseValue_render jsonEscape_escapes _ _ _ (by simp; omega) hend]
    rfl
  · have hunclean : ∃ field ∈ fields, ¬ CleanField field.2 := by
      by_contra hnone
      apply hclean
      intro field hmem
      by_contra hfield
      exact hnone ⟨field, hmem, hfield⟩
    have hbrace : Json.isWs (ch '{') = false := by decide
    obtain ⟨field, rest, rfl⟩ := List.exists_cons_of_ne_nil hne
    -- the object has a member, so that its text goes on with a quote
    obtain ⟨t, ht⟩ := Json.exists_renderMembers_cons escapeByte (field.1, fieldJson field.2)
      (flatMembers rest)
    have hopen : (Json.skipWs (Json.renderMembers escapeByte (flatMembers (field :: rest)) ++
        ofString "\x7d\n")).head? ≠ some (ch '}') := by
      rw [flatMembers, List.map_cons, ← flatMembers, ht, List.cons_append,
        Json.skipWs_cons (by decide), List.head?_cons]
      decide
    rw [Json.parse, Json.skipWs_cons hbrace, Json.parseValue, if_neg (by decide),
      if_neg (by decide), if_pos rfl, if_neg hopen, parseMembers_unclean hkeys hunclean]
    rfl

end

/-- **Which bodies can be read.**  A client of the service reads the message of a failed request, or
what a deployment has done, just when the texts have no control characters but those that the
service escapes: a message with another one makes a body that is no JSON. -/
theorem bodies_readable_iff :
    (∀ message, Json.parse (errorBody message) =
      if Clean message then some (.obj [("error", .str message)]) else none) ∧
    ∀ dryRun targetUser installedQuadletPath systemdUnit jobPath statusError,
      Json.parse (deployedBody dryRun targetUser installedQuadletPath systemdUnit jobPath
          statusError) =
        if ∀ text ∈ [targetUser, installedQuadletPath, systemdUnit, jobPath, statusError],
            Clean text then
          some (.obj [("dryRun", .bool dryRun), ("targetUser", .str targetUser),
            ("installedQuadletPath", .str installedQuadletPath), ("systemdUnit", .str systemdUnit),
            ("jobPath", .str jobPath), ("statusError", .str statusError)])
        else none := by
  have hkey : ∀ (keys : List Bytes) {fields : List (Bytes × (Bool ⊕ Bytes))},
      fields.map Prod.fst = keys → (∀ key ∈ keys, Clean key) → ∀ field ∈ fields, Clean field.1 := by
    intro keys fields hkeys hclean field hmem
    exact hclean field.1 (hkeys ▸ List.mem_map_of_mem hmem)
  constructor
  · intro message
    have htext : errorBody message = ch '{' :: (Json.renderMembers escapeByte
        (flatMembers [("error", .inr message)]) ++ ofString "\x7d\n") := by
      have hfirst : ofString "\x7b\"error\":" =
          ch '{' :: (Json.quote escapeByte "error" ++ [ch ':']) := by decide
      simp only [errorBody, hfirst, flatMembers, List.map_cons, List.map_nil, Json.renderMembers,
        fieldJson, Json.render, List.append_assoc, List.cons_append, List.nil_append]
      rfl
    rw [htext, parse_flatObject (hkey ["error"] rfl (by decide +kernel)) (List.cons_ne_nil _ _)]
    simp only [List.forall_mem_cons, cleanField_text, List.not_mem_nil, false_implies, implies_true,
      and_true]
    rfl
  · intro dryRun targetUser installedQuadletPath systemdUnit jobPath statusError
    -- each key stands between the comma and the colon
    have htext : deployedBody dryRun targetUser installedQuadletPath systemdUnit jobPath
        statusError = ch '{' :: (Json.renderMembers escapeByte (flatMembers
          [("dryRun", .inl dryRun), ("targetUser", .inr targetUser),
            ("installedQuadletPath", .inr installedQuadletPath), ("systemdUnit", .inr systemdUnit),
            ("jobPath", .inr jobPath), ("statusError", .inr statusError)]) ++
          ofString "\x7d\n") := by
      have hfirst : ofString "\x7b\"dryRun\":" =
          ch '{' :: (Json.quote escapeByte "dryRun" ++ [ch ':']) := by decide
      have h₁ : ofString ",\"targetUser\":" =
          ch ',' :: (Json.quote escapeByte "targetUser" ++ [ch ':']) := by decide
      have h₂ : ofString ",\"installedQuadletPath\":" =
          ch ',' :: (Json.quote escapeByte "installedQuadletPath" ++ [ch ':']) := by decide
      have h₃ : ofString ",\"systemdUnit\":" =
          ch ',' :: (Json.quote escapeByte "systemdUnit" ++ [ch ':']) := by decide
      have h₄ : ofString ",\"jobPath\":" =
          ch ',' :: (Json.quote escapeByte "jobPath" ++ [ch ':']) := by decide
      have h₅ : ofString ",\"statusError\":" =
          ch ',' :: (Json.quote escapeByte "statusError" ++ [ch ':']) := by decide
      simp only [deployedBody, hfirst, h₁, h₂, h₃, h₄, h₅, flatMembers, List.map_cons, List.map_nil,
        Json.renderMembers, fieldJson, Json.render, List.append_assoc, List.cons_append,
        List.nil_append]
      cases dryRun <;> rfl
    rw [htext, parse_flatObject (hkey ["dryRun", "targetUser", "installedQuadletPath",
      "systemdUnit", "jobPath", "statusError"] rfl (by decide +kernel)) (List.cons_ne_nil _ _)]
    simp only [List.forall_mem_cons, cleanField_text, cleanField_bool, List.not_mem_nil,
      false_implies, implies_true, and_true, true_and]
    rfl

end Service

end PodInstaller
