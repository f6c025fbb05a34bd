/-
**The line grammar of Quadlet files.**

`PodInstaller.parseQuadlet` accepts a text when every line of it is acceptable where it stands: a
blank line or a comment, a header with a name, or an assignment below some header.  When it fails,
its message names the first line that is not; when it succeeds, the map it returns holds the
assignments of the text and nothing else.  A text that was written out from sections and
assignments, with white space, comments and line endings as one likes, therefore parses back to
what it was written from.

The last part of the module is about headers alone.  A header below which no assignment stands
leaves no trace in the map, so the table of supported sections is never asked about it.

Main definitions:

* `PodInstaller.LineFits` — the lines that are acceptable below given lines;
* `PodInstaller.SourceLine`, `PodInstaller.sourceText` — texts that are written out;
* `PodInstaller.HeaderLine`, `PodInstaller.BareHeader` — headers, and headers without assignments.

Main results:

* `PodInstaller.parseLines_error` — which line is named;
* `PodInstaller.readLine_bytes` — a line that is written out reads back;
* `PodInstaller.parseQuadlet_grammar` — **the parser accepts its grammar and loses nothing**;
* `PodInstaller.accepted_headers_iff` — **when the headers of an accepted Quadlet are supported**.
-/

import PodInstaller.QuadletText
import Mathlib.Data.List.Forall2

set_option relaxedAutoImplicit false
set_option autoImplicit false

namespace PodInstaller

open Bytes

/-! ### Lines where they stand -/

/-- Some line is a header. -/
def HasHeader (lines : List Bytes) : Prop :=
  ∃ line ∈ lines, ∃ name, readLine line = some (.header name)

/-- A line that is acceptable below the lines `above`: it is well formed, and an assignment has a
header somewhere above it. -/
def LineFits (above : List Bytes) (line : Bytes) : Prop :=
  ∃ said, readLine line = some said ∧
    ∀ key value, said = .assignment key value → HasHeader above

/-- Every line is acceptable where it stands. -/
def LinesFit (lines : List Bytes) : Prop :=
  ∀ above line below, lines = above ++ line :: below → LineFits above line

theorem hasHeader_append_singleton {lines : List Bytes} {line : Bytes} :
    HasHeader (lines ++ [line]) ↔
      HasHeader lines ∨ ∃ name, readLine line = some (.header name) := by
  simp only [HasHeader, List.mem_append, List.mem_singleton]
  constructor
  · rintro ⟨l, hl | rfl, hname⟩
    · exact .inl ⟨l, hl, hname⟩
    · exact .inr hname
  · rintro (⟨l, hl, hname⟩ | hname)
    · exact ⟨l, .inl hl, hname⟩
    · exact ⟨line, .inr rfl, hname⟩

/-- All lines below given ones are acceptable when the first one is and the others are below it. -/
theorem linesFit_cons {above : List Bytes} {line : Bytes} {rest : List Bytes} :
    (∀ done l below, line :: rest = done ++ l :: below → LineFits (above ++ done) l) ↔
      LineFits above line ∧
        ∀ done l below, rest = done ++ l :: below → LineFits (above ++ [line] ++ done) l := by
  constructor
  · intro h
    refine ⟨by simpa using h [] line rest rfl, fun done l below heq => ?_⟩
    have := h (line :: done) l below (by rw [heq, List.cons_append])
    simpa using this
  · rintro ⟨hline, hrest⟩ done l below heq
    cases done with
    | nil =>
        obtain ⟨rfl, -⟩ := List.cons_eq_cons.1 heq
        simpa using hline
    | cons d done =>
        obtain ⟨rfl, rfl⟩ := List.cons_eq_cons.1 heq
        have := hrest done l below rfl
        simpa using this

/-- An empty line at the end is acceptable. -/
theorem linesFit_append_nil {lines : List Bytes} : LinesFit (lines ++ [[]]) ↔ LinesFit lines := by
  constructor
  · intro h above line below heq
    exact h above line (below ++ [[]]) (by rw [heq]; simp)
  · intro h above line below heq
    rcases List.eq_nil_or_concat below with rfl | ⟨below, last, rfl⟩
    · obtain ⟨-, rfl⟩ := List.append_singleton_inj.1 heq
      exact ⟨.ignored, rfl, fun key value h => by cases h⟩
    · rw [List.concat_eq_append, ← List.cons_append, ← List.append_assoc] at heq
      exact h above line below (List.append_singleton_inj.1 heq).1

/-! ### Which texts are accepted -/

/-- The flat list of a text exists exactly when every line is acceptable. -/
theorem readLines_isSome {lines above : List Bytes} {sec : Option Bytes}
    (hsec : sec ≠ none ↔ HasHeader above) :
    (∃ as, readLines sec lines = some as) ↔
      ∀ done line below, lines = done ++ line :: below → LineFits (above ++ done) line := by
  induction lines generalizing above sec with
  | nil => simp [readLines]
  | cons line rest ih =>
      rw [linesFit_cons, readLines]
      cases hline : readLine line with
      | none =>
          simp only [reduceCtorEq, exists_false, false_iff, not_and]
          rintro ⟨said, hsaid, -⟩
          rw [hline] at hsaid
          cases hsaid
      | some said =>
          -- only an assignment asks for a header above it
          have hfits : LineFits above line ↔
              ∀ key value, said = .assignment key value → HasHeader above := by
            constructor
            · rintro ⟨said', hsaid, h⟩
              rw [hline, Option.some.injEq] at hsaid
              exact hsaid ▸ h
            · exact fun h => ⟨said, hline, h⟩
          rw [hfits]
          cases said with
          | ignored =>
              have hsame : HasHeader (above ++ [line]) ↔ HasHeader above := by
                simp [hasHeader_append_singleton, hline]
              simp [ih (hsec.trans hsame.symm)]
          | header name =>
              have hnow : HasHeader (above ++ [line]) :=
                hasHeader_append_singleton.2 (.inr ⟨name, hline⟩)
              have hrest := @ih (above ++ [line]) (some name) (by simp [hnow])
              simp [hrest]
          | assignment key value =>
              cases sec with
              | none =>
                  have hnone : ¬ HasHeader above := fun h => hsec.2 h rfl
                  simp [hnone]
              | some name =>
                  have habove : HasHeader above := hsec.1 (by simp)
                  have hsame : HasHeader (above ++ [line]) :=
                    hasHeader_append_singleton.2 (.inl habove)
                  have hrest := @ih (above ++ [line]) (some name) (by simp [hsame])
                  simpa [habove, Option.bind_eq_some_iff] using hrest

/-- **Which line is named**: the first one that is not acceptable where it stands. -/
theorem parseLines_error {lines above : List Bytes} {sec : Option Bytes} (hne : sec ≠ some [])
    (hsec : sec ≠ none ↔ HasHeader above) {parsed : ParsedQuadlet} {e : Error}
    (h : parseLines above.length (sec.getD []) parsed lines = .error e) :
    ∃ done line below, lines = done ++ line :: below ∧
      (∀ done' l below', done = done' ++ l :: below' → LineFits (above ++ done') l) ∧
      ¬ LineFits (above ++ done) line ∧ IsLineError (above.length + done.length + 1) e := by
  induction lines generalizing above sec parsed with
  | nil => cases h
  | cons line rest ih =>
      -- a later line: the lines above it are `above` and this one
      have hlater : LineFits above line → ∀ {sec : Option Bytes} {parsed : ParsedQuadlet},
          sec ≠ some [] → (sec ≠ none ↔ HasHeader (above ++ [line])) →
          parseLines (above.length + 1) (sec.getD []) parsed rest = .error e →
          ∃ done l below, line :: rest = done ++ l :: below ∧
            (∀ done' l' below', done = done' ++ l' :: below' → LineFits (above ++ done') l') ∧
            ¬ LineFits (above ++ done) l ∧ IsLineError (above.length + done.length + 1) e := by
        intro hfits sec parsed hne hsec h
        obtain ⟨done, l, below, rfl, hdone, hl, herror⟩ :=
          @ih (above ++ [line]) sec hne hsec parsed (by simpa using h)
        refine ⟨line :: done, l, below, rfl, linesFit_cons.2 ⟨hfits, hdone⟩, by simpa using hl, ?_⟩
        have hlen : (above ++ [line]).length + done.length + 1 =
            above.length + (line :: done).length + 1 := by
          simp only [List.length_append, List.length_cons, List.length_nil]
          omega
        rwa [← hlen]
      have hround := parseLines_round above.length (sec.getD []) parsed line rest
      rw [h] at hround
      -- the line that is refused is this one
      have hhere : ¬ LineFits above line → IsLineError (above.length + 1) e →
          ∃ done l below, line :: rest = done ++ l :: below ∧
            (∀ done' l' below', done = done' ++ l' :: below' → LineFits (above ++ done') l') ∧
            ¬ LineFits (above ++ done) l ∧ IsLineError (above.length + done.length + 1) e :=
        fun hnot herror => ⟨[], line, rest, rfl, fun done' l below' heq => by simp at heq,
          by rwa [List.append_nil], herror⟩
      generalize hr : Except.error e = r at hround
      cases hround with
      | ignored hline =>
          refine hlater ⟨_, hline, fun key value h => by cases h⟩ hne ?_ hr.symm
          rw [hsec, hasHeader_append_singleton]
          simp [hline]
      | @header name hline =>
          refine hlater ⟨_, hline, fun key value h => by cases h⟩
            (show some name ≠ some [] by simpa using readLine_header hline) ?_ hr.symm
          rw [hasHeader_append_singleton]
          simp [hline]
      | assignment hline hname =>
          have habove : HasHeader above := hsec.1 (by rintro rfl; exact hname rfl)
          refine hlater ⟨_, hline, fun _ _ _ => habove⟩ hne ?_ hr.symm
          rw [hsec, hasHeader_append_singleton]
          simp [hline]
      | malformed hline herror =>
          obtain rfl := Except.error.inj hr
          refine hhere ?_ herror
          rintro ⟨said, hsaid, -⟩
          rw [hline] at hsaid
          cases hsaid
      | outside hline hnil herror =>
          obtain rfl := Except.error.inj hr
          refine hhere ?_ herror
          rintro ⟨said, hsaid, hassigns⟩
          rw [hline, Option.some.injEq] at hsaid
          have hsome := hsec.2 (hassigns _ _ hsaid.symm)
          cases sec with
          | none => exact hsome rfl
          | some name => exact hne (congrArg some hnil)

/-! ### Writing a text -/

/-- White space that stays on one line. -/
def Pad (pad : Bytes) : Prop := (∀ c ∈ pad, isspace c = true) ∧ ch '\n' ∉ pad

/-- A name, key or value that can be written on a line: it neither starts nor ends with white space
and has no line feed. -/
def Field (s : Bytes) : Prop := trim s = s ∧ ch '\n' ∉ s

/-- A line as it is written: its parts with the white space between them. -/
inductive SourceLine
  | blank (pad : Bytes)
  | comment (pad : Bytes) (mark : UInt8) (text : Bytes)
  | header (left inner name inner' right : Bytes)
  | assignment (left key beforeEq afterEq value right : Bytes)

namespace SourceLine

/-- The bytes of a line, without its ending. -/
def bytes : SourceLine → Bytes
  | blank pad => pad
  | comment pad mark text => pad ++ mark :: text
  | header left inner name inner' right =>
      left ++ (ch '[' :: (inner ++ name ++ inner') ++ [ch ']']) ++ right
  | assignment left key beforeEq afterEq value right =>
      left ++ (key ++ beforeEq ++ ch '=' :: (afterEq ++ value)) ++ right

/-- What the line says. -/
def meaning : SourceLine → Line
  | blank _ => .ignored
  | comment _ _ _ => .ignored
  | header _ _ name _ _ => .header name
  | assignment _ key _ _ value _ => .assignment key value

/-- The parts are what they are meant to be. -/
def Valid : SourceLine → Prop
  | blank pad => Pad pad
  | comment pad mark text => Pad pad ∧ (mark = ch '#' ∨ mark = ch ';') ∧ ch '\n' ∉ text
  | header left inner name inner' right =>
      (Pad left ∧ Pad inner ∧ Pad inner' ∧ Pad right) ∧ Field name ∧ name ≠ []
  | assignment left key beforeEq afterEq value right =>
      (Pad left ∧ Pad beforeEq ∧ Pad afterEq ∧ Pad right) ∧ Field value ∧ Field key ∧ key ≠ [] ∧
        ch '=' ∉ key ∧ ∀ c ∈ key.head?, c ≠ ch '[' ∧ c ≠ ch '#' ∧ c ≠ ch ';'

end SourceLine

/-- White space at the end of a text is not seen behind a byte that is none. -/
theorem rdropWhile_append_cons {x y : Bytes} {d : UInt8} (hd : isspace d = false) :
    (x ++ d :: y).rdropWhile isspace = x ++ d :: y.rdropWhile isspace := by
  have hrev : (x ++ d :: y).reverse = y.reverse ++ d :: x.reverse := by simp
  rw [List.rdropWhile, List.rdropWhile, hrev, List.dropWhile_append]
  split
  · rename_i hempty
    rw [List.isEmpty_iff] at hempty
    rw [hempty, List.dropWhile_cons_of_neg (by simp [hd])]
    simp
  · simp

theorem trim_rdropWhile (s : Bytes) : trim (s.rdropWhile isspace) = trim s := by
  have hspace : ∀ c ∈ s.rtakeWhile isspace, isspace c = true := by
    intro c hc
    rw [List.rtakeWhile, List.mem_reverse] at hc
    exact List.mem_takeWhile_imp hc
  rw [← trim_append_space hspace (s.rdropWhile isspace), List.rdropWhile_append_rtakeWhile]

/-- What a line says depends on its trimmed text only. -/
theorem readLine_congr {line line' : Bytes} (h : trim line = trim line') :
    readLine line = readLine line' := by
  rw [readLine, readLine, h]

theorem head_field {s : Bytes} (h : Field s) : ∀ c ∈ s.head?, isspace c = false := by
  intro c hc
  rw [← h.1] at hc
  exact head_trim c hc

/-- **A line that is written out reads back.** -/
theorem readLine_bytes {line : SourceLine} (h : line.Valid) :
    readLine line.bytes = some line.meaning := by
  cases line with
  | blank pad =>
      have hnil : trim pad = [] := trim_eq_nil.2 h.1
      rw [SourceLine.bytes, readLine, hnil]
      rfl
  | comment pad mark text =>
      obtain ⟨hpad, hmark, -⟩ := h
      have hspace : isspace mark = false := by
        rcases hmark with rfl | rfl <;> rfl
      have hcons : trim (mark :: text) = mark :: text.rdropWhile isspace := by
        rw [trim, List.dropWhile_cons_of_neg (by simp [hspace])]
        exact rdropWhile_append_cons (x := []) hspace
      rw [SourceLine.bytes, readLine, trim_space_append hpad.1, hcons]
      dsimp only
      rw [if_pos hmark]
      rfl
  | header left inner name inner' right =>
      obtain ⟨⟨hleft, hinner, hinner', hright⟩, hname, hne⟩ := h
      have htrim : trim (ch '[' :: (inner ++ name ++ inner') ++ [ch ']']) =
          ch '[' :: (inner ++ name ++ inner') ++ [ch ']'] := by
        refine trim_eq_self ?_ ?_
        · intro c hc
          obtain rfl : ch '[' = c := by simpa using hc
          rfl
        · intro c hc
          rw [List.getLast?_append_of_ne_nil _ (by simp)] at hc
          obtain rfl : ch ']' = c := by simpa using hc
          rfl
      have hinside : trim (inner ++ name ++ inner') = name := by
        rw [trim_append_space hinner'.1, trim_space_append hinner.1, hname.1]
      rw [SourceLine.bytes, readLine, trim_append_space hright.1, trim_space_append hleft.1, htrim,
        List.cons_append]
      dsimp only
      rw [if_neg (by decide), if_pos ⟨rfl, by simp⟩, List.dropLast_concat, hinside]
      cases name with
      | nil => exact absurd rfl hne
      | cons c name => rfl
  | assignment left key beforeEq afterEq value right =>
      obtain ⟨⟨hleft, hbefore, hafter, hright⟩, hvalue, hkey, hne, hnoEq, hfirst⟩ := h
      obtain ⟨c, key, rfl⟩ := List.exists_cons_of_ne_nil hne
      obtain ⟨hbracket, hcomment⟩ := hfirst c rfl
      have hnoEq' : ch '=' ∉ c :: key ++ beforeEq := by
        rw [List.mem_append, not_or]
        refine ⟨hnoEq, fun hmem => ?_⟩
        have := hbefore.1 _ hmem
        exact absurd this (by decide)
      -- of the text behind the `=`, trimming the line can only take white space at the end
      have htrim : trim (c :: key ++ beforeEq ++ ch '=' :: (afterEq ++ value)) =
          c :: key ++ beforeEq ++ ch '=' :: (afterEq ++ value).rdropWhile isspace := by
        have hspace : isspace c = false := head_field hkey c rfl
        have hdrop : (c :: key ++ beforeEq ++ ch '=' :: (afterEq ++ value)).dropWhile isspace =
            c :: key ++ beforeEq ++ ch '=' :: (afterEq ++ value) :=
          List.dropWhile_cons_of_neg (by simp [hspace])
        rw [trim, hdrop]
        exact rdropWhile_append_cons (by decide)
      have hmem : ch '=' ∈ c :: (key ++ beforeEq ++ ch '=' ::
          (afterEq ++ value).rdropWhile isspace) :=
        by simp
      have hvalue' : trim ((afterEq ++ value).rdropWhile isspace) = value := by
        rw [trim_rdropWhile, trim_space_append hafter.1, hvalue.1]
      have hkey' : trim (c :: key ++ beforeEq) = c :: key := by
        rw [trim_append_space hbefore.1, hkey.1]
      rw [SourceLine.bytes, readLine, trim_append_space hright.1, trim_space_append hleft.1, htrim]
      simp only [List.cons_append]
      rw [if_neg (by tauto), if_neg (fun h => hbracket h.1), if_pos hmem,
        ← List.cons_append, ← List.cons_append, before_append_cons hnoEq',
        after_append_cons hnoEq', hkey', hvalue']
      rfl

/-- The ending of a line. -/
inductive LineEnd
  | lf
  | crlf

/-- What an ending leaves on its line when the text is cut at the line feeds. -/
def LineEnd.carriageReturn : LineEnd → Bytes
  | lf => []
  | crlf => [ch '\r']

/-- A text: lines with their endings, and a last line without one. -/
def sourceText (lines : List (SourceLine × LineEnd)) (last : SourceLine) : Bytes :=
  lines.flatMap (fun l => l.1.bytes ++ (l.2.carriageReturn ++ [ch '\n'])) ++ last.bytes

theorem newline_notMem_bytes {line : SourceLine} (h : line.Valid) : ch '\n' ∉ line.bytes := by
  cases line with
  | blank pad => exact h.2
  | comment pad mark text =>
      obtain ⟨hpad, hmark, htext⟩ := h
      have hne : ch '\n' ≠ mark := by
        rcases hmark with rfl | rfl <;> decide
      simp [SourceLine.bytes, hpad.2, htext, hne]
  | header left inner name inner' right =>
      obtain ⟨⟨hleft, hinner, hinner', hright⟩, hname, -⟩ := h
      have hopen : ch '\n' ≠ ch '[' := by decide
      have hclose : ch '\n' ≠ ch ']' := by decide
      simp [SourceLine.bytes, hleft.2, hinner.2, hinner'.2, hright.2, hname.2, hopen, hclose]
  | assignment left key beforeEq afterEq value right =>
      obtain ⟨⟨hleft, hbefore, hafter, hright⟩, hvalue, hkey, -⟩ := h
      have heq : ch '\n' ≠ ch '=' := by decide
      simp [SourceLine.bytes, hleft.2, hbefore.2, hafter.2, hright.2, hvalue.2, hkey.2, heq]

theorem splitOn_sourceText {lines : List (SourceLine × LineEnd)} {last : SourceLine}
    (hlines : ∀ l ∈ lines, l.1.Valid) (hlast : last.Valid) :
    (sourceText lines last).splitOn (ch '\n') =
      lines.map (fun l => l.1.bytes ++ l.2.carriageReturn) ++ [last.bytes] := by
  induction lines with
  | nil => exact List.splitOn_eq_singleton (newline_notMem_bytes hlast)
  | cons l lines ih =>
      obtain ⟨line, ending⟩ := l
      have hnot : ch '\n' ∉ line.bytes ++ ending.carriageReturn := by
        rw [List.mem_append, not_or]
        refine ⟨newline_notMem_bytes (hlines _ List.mem_cons_self), ?_⟩
        cases ending <;> decide
      have htext : sourceText ((line, ending) :: lines) last =
          (line.bytes ++ ending.carriageReturn) ++ ch '\n' :: sourceText lines last := by
        simp [sourceText]
      rw [htext, List.splitOn_append_cons_self_of_not_mem hnot,
        ih fun l hl => hlines l (List.mem_cons_of_mem _ hl)]
      rfl

/-- A carriage return at the end of a line is not seen. -/
theorem readLine_carriageReturn {line : SourceLine} (h : line.Valid) (ending : LineEnd) :
    readLine (line.bytes ++ ending.carriageReturn) = some line.meaning := by
  have htrim : trim (line.bytes ++ ending.carriageReturn) = trim line.bytes := by
    refine trim_append_space (fun c hc => ?_) _
    cases ending with
    | lf => cases hc
    | crlf =>
        obtain rfl : c = ch '\r' := List.mem_singleton.1 hc
        decide
  rw [readLine_congr htrim, readLine_bytes h]

/-- A line that is neither blank nor a comment. -/
def Line.speaks : Line → Bool
  | .ignored => false
  | _ => true

@[simp] theorem Line.speaks_ignored : Line.ignored.speaks = false := rfl

@[simp] theorem Line.speaks_header (name : Bytes) : (Line.header name).speaks = true := rfl

@[simp] theorem Line.speaks_assignment (key value : Bytes) :
    (Line.assignment key value).speaks = true := rfl

/-- What a text is written from: sections with their assignments, in their order. -/
abbrev Document := List (Bytes × List (Bytes × Bytes))

/-- What the lines of a document say. -/
def Document.lines (doc : Document) : List Line :=
  doc.flatMap fun e => .header e.1 :: e.2.map fun a => .assignment a.1 a.2

/-- The assignments of a document. -/
def Document.assignments (doc : Document) : List Assignment :=
  doc.flatMap fun e => e.2.map fun a => ⟨e.1, a.1, a.2⟩

/-- The values that a document gives a key of a section. -/
def Document.values (doc : Document) (sec key : Bytes) : List Bytes :=
  doc.flatMap fun e => if e.1 = sec then (e.2.filter fun a => a.1 == key).map (·.2) else []

/-- The assignments that lines make below the header `sec`. -/
def assignmentsBelow (sec : Bytes) : List Line → List Assignment
  | [] => []
  | .ignored :: rest => assignmentsBelow sec rest
  | .header name :: rest => assignmentsBelow name rest
  | .assignment key value :: rest => ⟨sec, key, value⟩ :: assignmentsBelow sec rest

theorem readLines_below {lines : List Bytes} {said : List Line}
    (h : List.Forall₂ (fun line l => readLine line = some l) lines said) (sec : Bytes) :
    readLines (some sec) lines = some (assignmentsBelow sec said) := by
  induction h generalizing sec with
  | nil => rfl
  | @cons line l lines said hline _ ih =>
      rw [readLines, hline]
      cases l with
      | ignored => exact ih sec
      | header name => exact ih name
      | assignment key value =>
          simp only [ih sec]
          rfl

theorem assignmentsBelow_filter (sec : Bytes) (said : List Line) :
    assignmentsBelow sec (said.filter (·.speaks)) = assignmentsBelow sec said := by
  induction said generalizing sec with
  | nil => rfl
  | cons l said ih => cases l <;> simp [assignmentsBelow, List.filter_cons, ih]

theorem assignmentsBelow_lines (sec : Bytes) (doc : Document) :
    assignmentsBelow sec doc.lines = doc.assignments := by
  have hmap : ∀ (name : Bytes) (as : List (Bytes × Bytes)) (rest : List Line),
      assignmentsBelow name (as.map (fun a => .assignment a.1 a.2) ++ rest) =
        as.map (fun a => ⟨name, a.1, a.2⟩) ++ assignmentsBelow name rest := by
    intro name as rest
    induction as with
    | nil => rfl
    | cons a as ih => simp [assignmentsBelow, ih]
  induction doc generalizing sec with
  | nil => rfl
  | cons e doc ih =>
      have hcons : Document.lines (e :: doc) =
          .header e.1 :: (e.2.map (fun a => .assignment a.1 a.2) ++ Document.lines doc) := by
        simp [Document.lines]
      rw [hcons, assignmentsBelow, hmap, ih]
      simp [Document.assignments]

/-- Lines that are written from a document read back to its assignments. -/
theorem readLines_document {lines : List Bytes} {said : List Line} {doc : Document}
    (h : List.Forall₂ (fun line l => readLine line = some l) lines said)
    (hdoc : said.filter (·.speaks) = doc.lines) :
    readLines none lines = some doc.assignments := by
  induction h with
  | nil =>
      cases doc with
      | nil => rfl
      | cons e doc => simp [Document.lines] at hdoc
  | @cons line l lines said hline hrest ih =>
      rw [readLines, hline]
      cases l with
      | ignored => exact ih (by simpa using hdoc)
      | header name =>
          dsimp only
          rw [readLines_below hrest, ← assignmentsBelow_filter, ← assignmentsBelow_lines name,
            ← hdoc]
          simp [assignmentsBelow, List.filter_cons]
      | assignment key value =>
          -- a document starts with a header
          cases doc with
          | nil => simp [Document.lines, List.filter_cons] at hdoc
          | cons e doc => simp [Document.lines, List.filter_cons] at hdoc

theorem values_assignments (doc : Document) (sec key : Bytes) :
    ((doc.assignments.filter fun a => sec == a.sec && key == a.key).map (·.value)) =
      doc.values sec key := by
  rw [Document.assignments, Document.values, List.filter_flatMap, List.map_flatMap]
  refine List.flatMap_congr fun e _ => ?_
  rw [List.filter_map, List.map_map]
  by_cases hsec : e.1 = sec
  · subst hsec
    simp only [Function.comp_def, beq_self_eq_true, Bool.true_and, if_true]
    congr 1
    refine List.filter_congr fun a _ => ?_
    exact BEq.comm
  · have hne : (sec == e.1) = false := by simpa using fun h : sec = e.1 => hsec h.symm
    simp [Function.comp_def, hne, hsec]

/-- A text of valid lines that are written from a document. -/
theorem readText_sourceText {lines : List (SourceLine × LineEnd)} {last : SourceLine}
    {doc : Document} (hlines : ∀ l ∈ lines, l.1.Valid) (hlast : last.Valid)
    (hdoc : (lines.map (·.1.meaning) ++ [last.meaning]).filter (·.speaks) = doc.lines) :
    readText (sourceText lines last) = some doc.assignments := by
  rw [readText, splitOn_sourceText hlines hlast]
  refine readLines_document ?_ hdoc
  refine List.rel_append ?_ (.cons (readLine_bytes hlast) .nil)
  rw [List.forall₂_map_left_iff, List.forall₂_map_right_iff, List.forall₂_same]
  intro l hl
  exact readLine_carriageReturn (hlines l hl) l.2

/-! ### The grammar -/

theorem linesFit_pieces (contents : Bytes) :
    LinesFit (contents.splitOn (ch '\n')) ↔ LinesFit (pieces (ch '\n') contents) := by
  rcases splitOn_eq_pieces (ch '\n') contents with h | h
  · rw [h]
  · rw [h, linesFit_append_nil]

theorem parseQuadlet_isOk (contents : Bytes) :
    (∃ parsed, parseQuadlet contents = .ok parsed) ↔ LinesFit (contents.splitOn (ch '\n')) := by
  have hnone : (none : Option Bytes) ≠ none ↔ HasHeader [] := by simp [HasHeader]
  have hfits : (∃ as, readLines none (pieces (ch '\n') contents) = some as) ↔
      LinesFit (pieces (ch '\n') contents) := readLines_isSome hnone
  simp only [parseQuadlet_eq_ok, readText_eq]
  rw [linesFit_pieces, ← hfits]
  constructor
  · rintro ⟨parsed, as, has, -⟩
    exact ⟨as, has⟩
  · rintro ⟨as, has⟩
    exact ⟨_, as, has, rfl⟩

/-- Which line the error of a text names. -/
theorem parseQuadlet_error {contents : Bytes} {e : Error} (h : parseQuadlet contents = .error e) :
    ∃ above line below, contents.splitOn (ch '\n') = above ++ line :: below ∧ LinesFit above ∧
      ¬ LineFits above line ∧ IsLineError (above.length + 1) e := by
  have hnone : (none : Option Bytes) ≠ none ↔ HasHeader [] := by simp [HasHeader]
  obtain ⟨above, line, below, hlines, habove, hline, herror⟩ :=
    parseLines_error (show (none : Option Bytes) ≠ some [] by simp) hnone
      (by simpa [parseQuadlet] using h)
  have hfit : LinesFit above := by
    intro done l rest heq
    simpa using habove done l rest heq
  have hline' : ¬ LineFits above line := by simpa using hline
  have herror' : IsLineError (above.length + 1) e := by simpa using herror
  rcases splitOn_eq_pieces (ch '\n') contents with hsplit | hsplit
  · exact ⟨above, line, below, hsplit.trans hlines, hfit, hline', herror'⟩
  · refine ⟨above, line, below ++ [[]], ?_, hfit, hline', herror'⟩
    rw [hsplit, hlines]
    simp

/-- The map that the parser returns. -/
theorem parseQuadlet_map {contents : Bytes} {parsed : ParsedQuadlet} {as : List Assignment}
    (hparsed : parseQuadlet contents = .ok parsed) (has : readText contents = some as)
    (sec key : Bytes) :
    parsed.values sec key =
        (as.filter fun a => sec == a.sec && key == a.key).map (·.value) ∧
      (parsed.hasKey sec key ↔ ∃ a ∈ as, a.sec = sec ∧ a.key = key) := by
  obtain ⟨as', has', rfl⟩ := parseQuadlet_eq_ok.1 hparsed
  obtain rfl : as = as' := Option.some.inj (has.symm.trans has')
  constructor
  · rw [values_record, ParsedQuadlet.values_empty, List.nil_append]
  · rw [hasKey_record]
    simp

/-- **The parser accepts its grammar and loses nothing**: it fails at the first line that is not
acceptable where it stands, it returns the assignments of the text and no others, and a text that
was written from a document parses back to the values of the document. -/
theorem parseQuadlet_grammar (contents : Bytes) :
    ((∃ parsed, parseQuadlet contents = .ok parsed) ↔ LinesFit (contents.splitOn (ch '\n'))) ∧
    (∀ e, parseQuadlet contents = .error e → ∃ above line below,
      contents.splitOn (ch '\n') = above ++ line :: below ∧ LinesFit above ∧
        ¬ LineFits above line ∧ IsLineError (above.length + 1) e) ∧
    (∀ parsed, parseQuadlet contents = .ok parsed → ∃ as, readText contents = some as ∧
      ∀ sec key, parsed.values sec key =
          (as.filter fun a => sec == a.sec && key == a.key).map (·.value) ∧
        (parsed.hasKey sec key ↔ ∃ a ∈ as, a.sec = sec ∧ a.key = key)) ∧
    ∀ lines last doc, contents = sourceText lines last → (∀ l ∈ lines, l.1.Valid) → last.Valid →
      (lines.map (·.1.meaning) ++ [last.meaning]).filter (·.speaks) = Document.lines doc →
      ∃ parsed, parseQuadlet contents = .ok parsed ∧
        ∀ sec key, parsed.values sec key = doc.values sec key ∧
          (parsed.hasKey sec key ↔ doc.values sec key ≠ []) := by
  refine ⟨parseQuadlet_isOk contents, fun e => parseQuadlet_error, ?_, ?_⟩
  · intro parsed hparsed
    obtain ⟨as, has, -⟩ := parseQuadlet_eq_ok.1 hparsed
    exact ⟨as, has, parseQuadlet_map hparsed has⟩
  · rintro lines last doc rfl hlines hlast hdoc
    have has := readText_sourceText hlines hlast hdoc
    have hparsed := parseQuadlet_eq_ok.2 ⟨_, has, rfl⟩
    refine ⟨_, hparsed, fun sec key => ?_⟩
    obtain ⟨hvalues, hkey⟩ := parseQuadlet_map hparsed has sec key
    rw [values_assignments] at hvalues
    refine ⟨hvalues, hkey.trans ?_⟩
    rw [← values_assignments, Ne, List.map_eq_nil_iff, List.filter_eq_nil_iff]
    simp only [not_forall, Bool.and_eq_true, beq_iff_eq, not_not, exists_prop]
    simp only [eq_comm]

/-! ### Headers without assignments -/

/-- A header line: its trimmed text starts with `[` and ends with `]`; the name is what stands
between them. -/
def HeaderLine (line name : Bytes) : Prop :=
  (trim line).head? = some (ch '[') ∧ (trim line).getLast? = some (ch ']') ∧
    name = trim (trim line).tail.dropLast

/-- The sections that are supported. -/
def supportedSections : List Bytes := ["Unit", "Container", "Service", "Install"]

/-- No assignment stands below a header before the next one: the first of the lines below that says
anything is no assignment. -/
def BareHeader (below : List Bytes) : Prop :=
  ∀ key value, (below.filterMap readLine).find? (·.speaks) ≠ some (.assignment key value)

theorem readLine_of_headerLine {line name : Bytes} (h : HeaderLine line name) (hname : name ≠ []) :
    readLine line = some (.header name) := by
  obtain ⟨hfirst, hlast, rfl⟩ := h
  rw [readLine]
  cases ht : trim line with
  | nil =>
      rw [ht] at hfirst
      simp at hfirst
  | cons c text =>
      rw [ht] at hfirst hlast hname
      obtain rfl : c = ch '[' := by simpa using hfirst
      have htext : text.getLast? = some (ch ']') := by
        cases text with
        | nil => exact absurd hlast (by decide)
        | cons d text => simpa [List.getLast?_cons_cons] using hlast
      dsimp only
      rw [if_neg (by decide), if_pos ⟨rfl, htext⟩]
      rw [List.tail_cons] at hname ⊢
      cases hinside : trim text.dropLast with
      | nil => exact absurd hinside hname
      | cons d inside => rfl

/-- A header line of a well-formed text has a name. -/
theorem headerLine_ne_nil {line name : Bytes} {said : Line} (hline : readLine line = some said)
    (h : HeaderLine line name) : name ≠ [] := by
  obtain ⟨hfirst, hlast, rfl⟩ := h
  intro hnil
  rw [readLine] at hline
  cases ht : trim line with
  | nil =>
      rw [ht] at hfirst
      simp at hfirst
  | cons c text =>
      rw [ht] at hfirst hlast hnil hline
      obtain rfl : c = ch '[' := by simpa using hfirst
      have htext : text.getLast? = some (ch ']') := by
        cases text with
        | nil => exact absurd hlast (by decide)
        | cons d text => simpa [List.getLast?_cons_cons] using hlast
      rw [List.tail_cons] at hnil
      dsimp only at hline
      rw [if_neg (by decide), if_pos ⟨rfl, htext⟩, hnil] at hline
      cases hline

/-- Where a header stands in a well-formed text, its lines below are read under its name. -/
theorem readLines_header {above below : List Bytes} {line name : Bytes} {sec : Option Bytes}
    {as : List Assignment} (hline : readLine line = some (.header name))
    (h : readLines sec (above ++ line :: below) = some as) :
    ∃ as₁ as₂, readLines (some name) below = some as₂ ∧ as = as₁ ++ as₂ := by
  induction above generalizing sec as with
  | nil =>
      rw [List.nil_append, readLines, hline] at h
      exact ⟨[], as, h, rfl⟩
  | cons l above ih =>
      rw [List.cons_append, readLines] at h
      cases hl : readLine l with
      | none =>
          rw [hl] at h
          cases h
      | some said =>
          rw [hl] at h
          cases said with
          | ignored => exact ih h
          | header other => exact ih h
          | assignment key value =>
              cases sec with
              | none => cases h
              | some cur =>
                  obtain ⟨rest, hrest, rfl⟩ : ∃ rest,
                      readLines (some cur) (above ++ line :: below) = some rest ∧
                        ⟨cur, key, value⟩ :: rest = as := by
                    simpa [Option.bind_eq_some_iff] using h
                  obtain ⟨as₁, as₂, hbelow, rfl⟩ := ih hrest
                  exact ⟨_ :: as₁, as₂, hbelow, rfl⟩

/-- An assignment that stands below a header, before the next one, is recorded under its name. -/
theorem mem_of_not_bareHeader {below : List Bytes} {name key value : Bytes} {as : List Assignment}
    (h : readLines (some name) below = some as)
    (hfind : (below.filterMap readLine).find? (·.speaks) = some (.assignment key value)) :
    ⟨name, key, value⟩ ∈ as := by
  induction below generalizing as with
  | nil => simp at hfind
  | cons l below ih =>
      rw [readLines] at h
      cases hl : readLine l with
      | none =>
          rw [hl] at h
          cases h
      | some said =>
          rw [hl] at h
          rw [List.filterMap_cons, hl] at hfind
          cases said with
          | ignored => exact ih h (by simpa [List.find?_cons] using hfind)
          | header other => simp [List.find?_cons] at hfind
          | assignment key' value' =>
              obtain ⟨rfl, rfl⟩ : key' = key ∧ value' = value := by
                simpa [List.find?_cons] using hfind
              obtain ⟨rest, -, rfl⟩ : ∃ rest, readLines (some name) below = some rest ∧
                  ⟨name, key', value'⟩ :: rest = as := by
                simpa [Option.bind_eq_some_iff] using h
              exact List.mem_cons_self

theorem mem_supportedSections {sec key : Bytes} (h : KeyAllowed sec key) :
    sec ∈ supportedSections := by
  obtain ⟨keys, hmem, -⟩ := h
  have hall : ∀ e ∈ allowedKeys, e.1 ∈ supportedSections := by decide
  exact hall _ hmem

/-- **When the headers of an accepted Quadlet are supported**: exactly when those are below which
no assignment stands. -/
theorem accepted_headers_iff {quadlet : QuadletFile} {policy : QuadletPolicy}
    (hok : validateQuadletPolicy quadlet policy = .ok ()) :
    (∀ line ∈ quadlet.contents.splitOn (ch '\n'), ∀ name, HeaderLine line name →
        name ∈ supportedSections) ↔
      ∀ above line below, quadlet.contents.splitOn (ch '\n') = above ++ line :: below →
        ∀ name, HeaderLine line name → BareHeader below → name ∈ supportedSections := by
  obtain ⟨-, -, -, as, has, hpolicy⟩ :=
    (validateQuadletPolicy_iff_acceptable quadlet policy).1 hok
  constructor
  · intro h above line below hlines name hheader _
    exact h line (by simp [hlines]) name hheader
  · intro h line hmem name hheader
    obtain ⟨above, below, hlines⟩ := List.append_of_mem hmem
    by_cases hbare : BareHeader below
    · exact h above line below hlines name hheader hbare
    · obtain ⟨key, value, hfind⟩ : ∃ key value,
          (below.filterMap readLine).find? (·.speaks) = some (.assignment key value) := by
        simpa [BareHeader] using hbare
      have hfit : LineFits above line := by
        have hparsed := parseQuadlet_eq_ok.2 ⟨as, has, rfl⟩
        exact (parseQuadlet_isOk _).1 ⟨_, hparsed⟩ above line below hlines
      obtain ⟨said, hsaid, -⟩ := hfit
      have hline := readLine_of_headerLine hheader (headerLine_ne_nil hsaid hheader)
      rw [readText, hlines] at has
      obtain ⟨as₁, as₂, hbelow, rfl⟩ := readLines_header hline has
      have hassign := mem_of_not_bareHeader hbelow hfind
      exact mem_supportedSections (hpolicy.keys _ (List.mem_append_right _ hassign))

/-- A managed Quadlet, with a header at the end that no assignment follows. -/
def trailingHeaderQuadlet (header : Bytes) : QuadletFile where
  fileName := "web.container"
  contents := ofString "[Container]\nImage=busybox\n" ++
    ofString "Label=com.example.pod-installer.managed=true\n" ++ header

/-- A supported header at the end. -/
theorem accepted_headers_install :
    validateQuadletPolicy (trailingHeaderQuadlet "[Install]\n") {} = .ok () ∧
      ((∀ line ∈ (trailingHeaderQuadlet "[Install]\n").contents.splitOn (ch '\n'), ∀ name,
          HeaderLine line name → name ∈ supportedSections) ↔
        ∀ above line below, (trailingHeaderQuadlet "[Install]\n").contents.splitOn (ch '\n') =
          above ++ line :: below →
            ∀ name, HeaderLine line name → BareHeader below → name ∈ supportedSections) := by
  have hok : validateQuadletPolicy (trailingHeaderQuadlet "[Install]\n") {} = .ok () := by
    decide +kernel
  exact ⟨hok, accepted_headers_iff hok⟩

/-- An unsupported header at the end is not noticed. -/
theorem unsupported_header_accepted :
    validateQuadletPolicy (trailingHeaderQuadlet "[Timer]\n") {} = .ok () ∧
      ∃ line ∈ (trailingHeaderQuadlet "[Timer]\n").contents.splitOn (ch '\n'), ∃ name,
        HeaderLine line name ∧ name ∉ supportedSections := by
  refine ⟨by decide +kernel, ("[Timer]" : Bytes), by decide +kernel, "Timer", ?_, by decide⟩
  exact ⟨by decide, by decide, by decide⟩

end PodInstaller
