/-
**What the Quadlet policy accepts, line by line.**

`PodInstaller.parseQuadlet` collects the assignments of a Quadlet in a nested map and
`PodInstaller.validateQuadletPolicy` runs over that map with one loop per key.  The policy itself
is simpler to say over the text: every line is blank, a comment, a header or an assignment below a
header, and the assignments — taken as a flat list, each with the nearest header above it — meet a
handful of conditions.  This module writes that reading down and proves that the code decides it.

Main definitions:

* `PodInstaller.Line`, `PodInstaller.readLine` — one line on its own;
* `PodInstaller.Assignment`, `PodInstaller.readText` — the flat list of the assignments of a text;
* `PodInstaller.ContainerRule`, `PodInstaller.FlatPolicy`, `PodInstaller.Acceptable` — the policy
  over that list.

Main results:

* `PodInstaller.parseLines_round` — one round of the loop of the parser;
* `PodInstaller.parseQuadlet_eq_ok` — **the parser reads the flat list**: it succeeds exactly when
  every line is well formed, and the map is what recording the assignments one by one gives;
* `PodInstaller.values_record`, `PodInstaller.hasKey_record` — what that map then holds;
* `PodInstaller.validateQuadletPolicy_iff_acceptable` — **the verdict is the flat policy**;
* `PodInstaller.exists_line_of_append` — the lines behind a place in the flat list.
-/

import PodInstaller.QuadletPolicy

set_option relaxedAutoImplicit false
set_option autoImplicit false

namespace PodInstaller

open Bytes

/-! ### Lines -/

/-- What a well-formed line says. -/
inductive Line
  | ignored
  | header (name : Bytes)
  | assignment (key value : Bytes)
  deriving DecidableEq

/-- A line on its own, without the white space around it: blank lines and comments say nothing,
a line in brackets is a header and must have a name, any other line must assign to a key. -/
def readLine (line : Bytes) : Option Line :=
  match trim line with
  | [] => some .ignored
  | c :: text =>
    if c = ch '#' ∨ c = ch ';' then some .ignored
    else if c = ch '[' ∧ text.getLast? = some (ch ']') then
      match trim text.dropLast with
      | [] => none
      | name => some (.header name)
    else if ch '=' ∈ c :: text then
      match trim (before (ch '=') (c :: text)) with
      | [] => none
      | key => some (.assignment key (trim (after (ch '=') (c :: text))))
    else none

/-- The carriage return of a CRLF ending is white space, so dropping it changes nothing. -/
theorem trim_dropCarriageReturn (line : Bytes) : trim (dropCarriageReturn line) = trim line := by
  unfold dropCarriageReturn
  split
  · rename_i h
    obtain ⟨front, hfront⟩ := List.getLast?_eq_some_iff.1 h
    rw [hfront, List.dropLast_concat, trim_append_space]
    intro c hc
    obtain rfl : c = ch '\r' := by simpa using hc
    decide
  · rfl

/-- A header has a name. -/
theorem readLine_header {line name : Bytes} (h : readLine line = some (.header name)) :
    name ≠ [] := by
  unfold readLine at h
  split at h
  · simp at h
  split at h
  · simp at h
  split at h
  · split at h <;> simp_all
  split at h
  · split at h <;> simp at h
  · simp at h

/-! ### The flat list of assignments -/

/-- An assignment of a text: the name of the nearest header above it, its key and its value. -/
structure Assignment where
  sec : Bytes
  key : Bytes
  value : Bytes
  deriving DecidableEq

/-- The assignments of a list of lines that stand below the header `sec`, or below none; nothing
if some line is malformed. -/
def readLines (sec : Option Bytes) : List Bytes → Option (List Assignment)
  | [] => some []
  | line :: rest =>
    match readLine line with
    | none => none
    | some .ignored => readLines sec rest
    | some (.header name) => readLines (some name) rest
    | some (.assignment key value) => do
      let name ← sec
      let as ← readLines sec rest
      return ⟨name, key, value⟩ :: as

/-- The assignments of a text, in their order. -/
def readText (contents : Bytes) : Option (List Assignment) :=
  readLines none (contents.splitOn (ch '\n'))

/-- The header that is in force below a list of lines, when `sec` is in force above them. -/
def sectionAfter (sec : Option Bytes) : List Bytes → Option Bytes
  | [] => sec
  | line :: rest =>
    match readLine line with
    | some (.header name) => sectionAfter (some name) rest
    | _ => sectionAfter sec rest

/-- Lines are read one after the other, the lower ones below the header that the upper ones
leave. -/
theorem readLines_append (sec : Option Bytes) (above below : List Bytes) :
    readLines sec (above ++ below) =
      (readLines sec above).bind fun as₁ =>
        (readLines (sectionAfter sec above) below).map fun as₂ => as₁ ++ as₂ := by
  induction above generalizing sec with
  | nil => simp [readLines, sectionAfter]
  | cons line above ih =>
      rw [List.cons_append, readLines, readLines, sectionAfter]
      cases hline : readLine line with
      | none => rfl
      | some l =>
          cases l with
          | ignored => exact ih sec
          | header name => exact ih (some name)
          | assignment key value =>
              cases sec with
              | none => rfl
              | some name =>
                  simp only [ih]
                  cases readLines (some name) above with
                  | none => rfl
                  | some as₁ =>
                      cases readLines (sectionAfter (some name) above) below <;> rfl

/-- An empty line at the end says nothing. -/
theorem readLines_append_nil (sec : Option Bytes) (lines : List Bytes) :
    readLines sec (lines ++ [[]]) = readLines sec lines := by
  have hempty : ∀ sec, readLines sec [[]] = some [] := fun _ => rfl
  rw [readLines_append]
  simp [hempty]

/-- So it does not matter whether the text is cut into lines by the loop or at every line feed. -/
theorem readText_eq (contents : Bytes) :
    readText contents = readLines none (pieces (ch '\n') contents) := by
  rcases splitOn_eq_pieces (ch '\n') contents with h | h
  · rw [readText, h]
  · rw [readText, h, readLines_append_nil]

/-! ### The parser reads the flat list -/

/-- The map after recording a list of assignments. -/
def record (parsed : ParsedQuadlet) (as : List Assignment) : ParsedQuadlet :=
  as.foldl (fun parsed a => parsed.add a.sec a.key a.value) parsed

/-- The messages about a line, up to its number. -/
def lineErrors : List Bytes :=
  ["empty section name in Quadlet at line ", "expected key=value in Quadlet at line ",
    "Quadlet key appears before any section at line ", "empty key in Quadlet at line "]

/-- The error for the line with the given number. -/
def IsLineError (lineNo : ℕ) (e : Error) : Prop :=
  ∃ reason ∈ lineErrors, e = makeError .invalidArgument (reason ++ decimal lineNo)

/-- A round of the loop, in terms of what the line says on its own, and the result that it leads to.
The loop codes "no header yet" as an empty section name. -/
inductive LineRound (lineNo : ℕ) (sec : Bytes) (parsed : ParsedQuadlet) (line : Bytes)
    (rest : List Bytes) : Result ParsedQuadlet → Prop
  | ignored (h : readLine line = some .ignored) :
      LineRound lineNo sec parsed line rest (parseLines (lineNo + 1) sec parsed rest)
  | header {name : Bytes} (h : readLine line = some (.header name)) :
      LineRound lineNo sec parsed line rest (parseLines (lineNo + 1) name parsed rest)
  | assignment {key value : Bytes} (h : readLine line = some (.assignment key value))
      (hsec : sec ≠ []) :
      LineRound lineNo sec parsed line rest
        (parseLines (lineNo + 1) sec (parsed.add sec key value) rest)
  | malformed {e : Error} (h : readLine line = none) (he : IsLineError (lineNo + 1) e) :
      LineRound lineNo sec parsed line rest (.error e)
  | outside {e : Error} {key value : Bytes} (h : readLine line = some (.assignment key value))
      (hsec : sec = []) (he : IsLineError (lineNo + 1) e) :
      LineRound lineNo sec parsed line rest (.error e)

/-- **One round of the loop.** -/
theorem parseLines_round (lineNo : ℕ) (sec : Bytes) (parsed : ParsedQuadlet) (line : Bytes)
    (rest : List Bytes) :
    LineRound lineNo sec parsed line rest (parseLines lineNo sec parsed (line :: rest)) := by
  have hreason : ∀ reason ∈ lineErrors,
      IsLineError (lineNo + 1) (makeError .invalidArgument (reason ++ decimal (lineNo + 1))) :=
    fun reason hmem => ⟨reason, hmem, rfl⟩
  rw [parseLines, trim_dropCarriageReturn]
  cases ht : trim line with
  | nil =>
      rw [if_pos (.inl rfl)]
      exact .ignored (by rw [readLine, ht])
  | cons c text =>
      dsimp only
      by_cases hcomment : c = ch '#' ∨ c = ch ';'
      · rw [if_pos (by simpa using hcomment)]
        exact .ignored (by rw [readLine, ht]; exact if_pos hcomment)
      rw [if_neg (by simpa using hcomment)]
      by_cases hheader : c = ch '[' ∧ text.getLast? = some (ch ']')
      · -- a line in brackets has something after its first byte
        have hlast : (c :: text).head? = some (ch '[') ∧ (c :: text).getLast? = some (ch ']') := by
          refine ⟨by simp [hheader.1], ?_⟩
          rw [List.getLast?_cons, hheader.2]
          rfl
        rw [if_pos hlast, List.tail_cons]
        cases hname : trim text.dropLast with
        | nil =>
            rw [if_pos rfl]
            exact .malformed (by simp only [readLine, ht, if_neg hcomment, if_pos hheader, hname])
              (hreason _ (by simp [lineErrors]))
        | cons d name =>
            rw [if_neg (by simp)]
            exact .header (by simp only [readLine, ht, if_neg hcomment, if_pos hheader, hname])
      · have hlast : ¬ ((c :: text).head? = some (ch '[') ∧
            (c :: text).getLast? = some (ch ']')) := by
          rintro ⟨h₁, h₂⟩
          obtain rfl : c = ch '[' := by simpa using h₁
          cases text with
          | nil => revert h₂; decide
          | cons d text => exact hheader ⟨rfl, by simpa [List.getLast?_cons_cons] using h₂⟩
        rw [if_neg hlast]
        by_cases heq : ch '=' ∈ c :: text
        · rw [if_neg (not_not.2 heq)]
          have hline : readLine line = match trim (before (ch '=') (c :: text)) with
              | [] => none
              | key => some (.assignment key (trim (after (ch '=') (c :: text)))) := by
            simp only [readLine, ht, if_neg hcomment, if_neg hheader, if_pos heq]
          cases hkey : trim (before (ch '=') (c :: text)) with
          | nil =>
              rw [hkey] at hline
              -- with an empty key the header above is asked for first
              split
              · exact .malformed hline (hreason _ (by simp [lineErrors]))
              · rw [if_pos rfl]
                exact .malformed hline (hreason _ (by simp [lineErrors]))
          | cons d key =>
              rw [hkey] at hline
              split
              · rename_i hsec
                exact .outside hline hsec (hreason _ (by simp [lineErrors]))
              · rename_i hsec
                rw [if_neg (by simp)]
                exact .assignment hline hsec
        · rw [if_pos heq]
          refine .malformed ?_ (hreason _ (by simp [lineErrors]))
          simp only [readLine, ht, if_neg hcomment, if_neg hheader, if_neg heq]

/-- The loop succeeds exactly when the lines are well formed, with their assignments recorded in
their order. -/
theorem parseLines_eq_ok {lines : List Bytes} {lineNo : ℕ} {sec : Option Bytes}
    (hsec : sec ≠ some []) {parsed p : ParsedQuadlet} :
    parseLines lineNo (sec.getD []) parsed lines = .ok p ↔
      ∃ as, readLines sec lines = some as ∧ p = record parsed as := by
  induction lines generalizing lineNo sec parsed with
  | nil =>
      simp only [parseLines, readLines, Except.ok.injEq, Option.some.injEq, exists_eq_left', record,
        List.foldl_nil]
      exact eq_comm
  | cons line rest ih =>
      have hround := parseLines_round lineNo (sec.getD []) parsed line rest
      generalize parseLines lineNo (sec.getD []) parsed (line :: rest) = r at hround ⊢
      rw [readLines]
      cases hround with
      | ignored hline => simp [hline, ih hsec]
      | @header name hline =>
          have hname := readLine_header hline
          have := @ih (lineNo + 1) (some name) (by simpa using hname) parsed
          rw [Option.getD_some] at this
          simp [hline, this]
      | @assignment key value hline hne =>
          cases sec with
          | none => exact absurd rfl hne
          | some name =>
              have := @ih (lineNo + 1) (some name) hsec (parsed.add name key value)
              rw [Option.getD_some] at this ⊢
              simp [hline, this, record, Option.bind_eq_some_iff]
      | malformed hline => simp [hline]
      | outside hline hnil =>
          cases sec with
          | none => simp [hline]
          | some name => exact absurd (congrArg some hnil) hsec

/-- **The parser reads the flat list**: it succeeds exactly when every line is well formed. -/
theorem parseQuadlet_eq_ok {contents : Bytes} {parsed : ParsedQuadlet} :
    parseQuadlet contents = .ok parsed ↔
      ∃ as, readText contents = some as ∧ parsed = record {} as := by
  rw [parseQuadlet, readText_eq]
  exact parseLines_eq_ok (show (none : Option Bytes) ≠ some [] by simp)

/-- The values of a key are those of its assignments, in their order, over all the sections of
that name. -/
theorem values_record (p : ParsedQuadlet) (as : List Assignment) (sec key : Bytes) :
    (record p as).values sec key =
      p.values sec key ++ (as.filter fun a => sec == a.sec && key == a.key).map (·.value) := by
  induction as generalizing p with
  | nil => simp [record]
  | cons a as ih =>
      have hcons : record p (a :: as) = record (p.add a.sec a.key a.value) as := rfl
      rw [hcons, ih, ParsedQuadlet.values_add, List.append_assoc, List.filter_cons]
      congr 1
      by_cases h : a.sec = sec ∧ a.key = key
      · simp [h.1, h.2]
      · have : (sec == a.sec && key == a.key) = false := by
          simpa using fun h₁ h₂ => h ⟨h₁.symm, h₂.symm⟩
        simp [h, this]

theorem hasSection_record (p : ParsedQuadlet) (as : List Assignment) (sec : Bytes) :
    (record p as).hasSection sec = true ↔
      p.hasSection sec = true ∨ ∃ a ∈ as, a.sec = sec := by
  induction as generalizing p with
  | nil => simp [record]
  | cons a as ih =>
      have hcons : record p (a :: as) = record (p.add a.sec a.key a.value) as := rfl
      rw [hcons, ih, ParsedQuadlet.hasSection_add, List.exists_mem_cons_iff]
      tauto

theorem hasKey_record (p : ParsedQuadlet) (as : List Assignment) (sec key : Bytes) :
    (record p as).hasKey sec key ↔
      p.hasKey sec key ∨ ∃ a ∈ as, a.sec = sec ∧ a.key = key := by
  induction as generalizing p with
  | nil => simp [record]
  | cons a as ih =>
      have hcons : record p (a :: as) = record (p.add a.sec a.key a.value) as := rfl
      rw [hcons, ih, ParsedQuadlet.hasKey_add, List.exists_mem_cons_iff]
      tauto

/-! ### The policy over the flat list -/

/-- The rule for an assignment below `[Container]`, by its key. -/
structure ContainerRule (policy : QuadletPolicy) (key value : Bytes) : Prop where
  network : key = "Network" → policy.allowHostNetwork = false → lower (trim value) ≠ "host"
  pid : key = "PID" → policy.allowHostPid = false → lower (trim value) ≠ "host"
  userNS : key = "UserNS" → policy.allowHostUserns = false → lower (trim value) ≠ "host"
  ipcHost : key = "IPCHost" → policy.allowHostIpc = false → truthy value = false
  device : key = "Device" ∨ key = "AddDevice" → policy.allowDevices = false → trim value = []
  rootfs : key = "Rootfs" → policy.allowRootMount = false → trim value = []
  volume : key = "Volume" → policy.allowRootMount = false → hostPathVolume value = false
  mount : key = "Mount" → policy.allowRootMount = false → hostPathMount value = false
  podmanArgs : key = "PodmanArgs" →
    policy.allowPodmanArgs = true ∧ deniedPodmanArg value policy = false

/-- A `[Container]` label with the managed key. -/
def Assignment.isManagedLabel (policy : QuadletPolicy) (a : Assignment) : Bool :=
  a.sec == "Container" && a.key == "Label" && labelKey a.value == policy.managedLabelKey

/-- The policy over the flat list of the assignments of a text. -/
structure FlatPolicy (policy : QuadletPolicy) (as : List Assignment) : Prop where
  container : policy.requireContainerSection = true → ∃ a ∈ as, a.sec = "Container"
  image : policy.requireImage = true → ∃ a ∈ as, a.sec = "Container" ∧ a.key = "Image"
  keys : ∀ a ∈ as, KeyAllowed a.sec a.key
  label : policy.requireManagedLabel = true →
    ∃ a, as.filter (·.isManagedLabel policy) = [a] ∧ labelValue a.value = policy.managedLabelValue
  rules : ∀ a ∈ as, a.sec = "Container" → ContainerRule policy a.key a.value

/-- The Quadlets that the policy, said over the text, allows. -/
structure Acceptable (quadlet : QuadletFile) (policy : QuadletPolicy) : Prop where
  fileName : validateQuadletFileName quadlet.fileName = .ok ()
  nonempty : quadlet.contents ≠ []
  noNul : 0 ∉ quadlet.contents
  text : ∃ as, readText quadlet.contents = some as ∧ FlatPolicy policy as

section Map

variable {as : List Assignment} {policy : QuadletPolicy}

/-- A loop over the values of a `[Container]` key is a loop over the assignments to it. -/
theorem forall_values_record {key : Bytes} {P : Bytes → Prop} :
    (∀ value ∈ (record {} as).values "Container" key, P value) ↔
      ∀ a ∈ as, a.sec = "Container" → a.key = key → P a.value := by
  simp only [values_record, ParsedQuadlet.values_empty, List.nil_append, List.forall_mem_map,
    List.mem_filter, Bool.and_eq_true, beq_iff_eq]
  constructor
  · exact fun h a ha hs hk => h a ⟨ha, hs.symm, hk.symm⟩
  · exact fun h a ha => h a ha.1 ha.2.1.symm ha.2.2.symm

theorem values_record_ne_nil {key : Bytes} :
    (record {} as).values "Container" key ≠ [] ↔
      ∃ a ∈ as, a.sec = "Container" ∧ a.key = key := by
  rw [← not_iff_not, not_not, List.eq_nil_iff_forall_not_mem,
    forall_values_record (P := fun _ => False)]
  simp

/-- Every section of the map has a key, so the table of supported keys is looked up for each
assignment. -/
theorem validateAllowedKeys_record :
    validateAllowedKeys (record {} as) = .ok () ↔ ∀ a ∈ as, KeyAllowed a.sec a.key := by
  rw [validateAllowedKeys_eq_ok]
  · simp only [hasKey_record, ParsedQuadlet.not_hasKey_empty, false_or]
    constructor
    · exact fun h a ha => h _ _ ⟨a, ha, rfl, rfl⟩
    · rintro h sec key ⟨a, ha, rfl, rfl⟩
      exact h a ha
  · simp only [hasSection_record, hasKey_record, ParsedQuadlet.hasSection_empty,
      ParsedQuadlet.not_hasKey_empty, Bool.false_eq_true, false_or]
    rintro sec ⟨a, ha, rfl⟩
    exact ⟨a.key, a, ha, rfl, rfl⟩

/-- Counting over the values of `Label` is counting over the assignments. -/
theorem validateManagedLabel_record :
    validateManagedLabel (record {} as) policy = .ok () ↔
      ∃ a, as.filter (·.isManagedLabel policy) = [a] ∧
        labelValue a.value = policy.managedLabelValue := by
  have hlabels : managedLabels policy ((record {} as).values "Container" "Label") =
      (as.filter (·.isManagedLabel policy)).map (·.value) := by
    rw [values_record, ParsedQuadlet.values_empty, List.nil_append, managedLabels,
      List.filter_map, List.filter_filter]
    congr 1
    refine List.filter_congr fun a _ => ?_
    simp only [Function.comp_apply, Assignment.isManagedLabel, BEq.comm (a := a.sec),
      BEq.comm (a := a.key)]
    exact Bool.and_comm _ _
  rw [validateManagedLabel_eq_ok, hlabels]
  constructor
  · rintro ⟨label, hlabel, hvalue⟩
    obtain ⟨a, ha, rfl⟩ := List.map_eq_singleton_iff.1 hlabel
    exact ⟨a, ha, hvalue⟩
  · rintro ⟨a, ha, hvalue⟩
    exact ⟨a.value, by rw [ha, List.map_singleton], hvalue⟩

end Map

/-- **The verdict is the flat policy.** -/
theorem validateQuadletPolicy_iff_acceptable (quadlet : QuadletFile) (policy : QuadletPolicy) :
    validateQuadletPolicy quadlet policy = .ok () ↔ Acceptable quadlet policy := by
  have hequals : ∀ value : Bytes,
      equalsKey value "host" = false ↔ lower (trim value) ≠ "host" := by
    intro value
    rw [equalsKey, show lower ("host" : Bytes) = "host" by decide, beq_eq_false_iff_ne]
  rw [validateQuadletPolicy_eq_ok]
  constructor
  · rintro ⟨hname, hne, hnul, parsed, hparsed, hcontainer, himage, hkeys, hlabel, hrules⟩
    obtain ⟨as, has, rfl⟩ := parseQuadlet_eq_ok.1 hparsed
    simp only [forall_values_record, hequals] at hrules
    obtain ⟨network, pid, ipcHost, userNS, device, addDevice, volume, mount, rootfs, podmanArgs⟩ :=
      hrules
    refine ⟨hname, hne, hnul, as, has, ?_, ?_, validateAllowedKeys_record.1 hkeys,
      fun h => validateManagedLabel_record.1 (hlabel h), fun a ha hsec => ?_⟩
    · exact fun h => by simpa [hasSection_record] using hcontainer h
    · exact fun h => values_record_ne_nil.1 (himage h)
    · exact
        { network := network a ha hsec
          pid := pid a ha hsec
          userNS := userNS a ha hsec
          ipcHost := ipcHost a ha hsec
          device := fun h => h.elim (device a ha hsec) (addDevice a ha hsec)
          rootfs := rootfs a ha hsec
          volume := volume a ha hsec
          mount := mount a ha hsec
          podmanArgs := podmanArgs a ha hsec }
  · rintro ⟨hname, hne, hnul, as, has, hcontainer, himage, hkeys, hlabel, hrules⟩
    refine ⟨hname, hne, hnul, record {} as, parseQuadlet_eq_ok.2 ⟨as, has, rfl⟩, ?_, ?_,
      validateAllowedKeys_record.2 hkeys, fun h => validateManagedLabel_record.2 (hlabel h), ?_⟩
    · exact fun h => by simpa [hasSection_record] using hcontainer h
    · exact fun h => values_record_ne_nil.2 (himage h)
    simp only [forall_values_record, hequals]
    exact ⟨fun a ha hs => (hrules a ha hs).network, fun a ha hs => (hrules a ha hs).pid,
      fun a ha hs => (hrules a ha hs).ipcHost, fun a ha hs => (hrules a ha hs).userNS,
      fun a ha hs hk => (hrules a ha hs).device (.inl hk),
      fun a ha hs hk => (hrules a ha hs).device (.inr hk),
      fun a ha hs => (hrules a ha hs).volume, fun a ha hs => (hrules a ha hs).mount,
      fun a ha hs => (hrules a ha hs).rootfs, fun a ha hs => (hrules a ha hs).podmanArgs⟩

/-! ### One line of a text -/

theorem sectionAfter_append (sec : Option Bytes) (above below : List Bytes) :
    sectionAfter sec (above ++ below) = sectionAfter (sectionAfter sec above) below := by
  induction above generalizing sec with
  | nil => rfl
  | cons line above ih =>
      rw [List.cons_append, sectionAfter, sectionAfter]
      split
      · exact ih _
      · exact ih _

/-- A line has one assignment or none. -/
theorem readLines_singleton {sec : Option Bytes} {line : Bytes} {as : List Assignment}
    (h : readLines sec [line] = some as) :
    as = [] ∨ ∃ a, as = [a] ∧ sec = some a.sec ∧ sectionAfter sec [line] = some a.sec ∧
      readLine line = some (.assignment a.key a.value) := by
  rw [readLines] at h
  cases hline : readLine line with
  | none =>
      rw [hline] at h
      cases h
  | some l =>
      rw [hline] at h
      cases l with
      | ignored => exact .inl (Option.some.inj h).symm
      | header name => exact .inl (Option.some.inj h).symm
      | assignment key value =>
          cases sec with
          | none => cases h
          | some name =>
              refine .inr ⟨⟨name, key, value⟩, (Option.some.inj h).symm, rfl, ?_, rfl⟩
              rw [sectionAfter, hline]
              rfl

/-- **The lines behind a place in the flat list.** -/
theorem exists_line_of_append {sec : Option Bytes} {lines : List Bytes} {as₁ as₂ : List Assignment}
    {a : Assignment} (h : readLines sec lines = some (as₁ ++ a :: as₂)) :
    ∃ above line below, lines = above ++ line :: below ∧ readLines sec above = some as₁ ∧
      sectionAfter sec above = some a.sec ∧ readLine line = some (.assignment a.key a.value) ∧
      readLines (some a.sec) below = some as₂ := by
  induction lines generalizing sec as₁ with
  | nil =>
      rw [readLines] at h
      cases as₁ <;> cases h
  | cons line lines ih =>
      rw [← List.singleton_append, readLines_append] at h
      obtain ⟨bs, hbs, h⟩ := Option.bind_eq_some_iff.1 h
      obtain ⟨cs, hcs, h⟩ := Option.map_eq_some_iff.1 h
      -- the place is in what the lines below say, or it is all that this line says
      have hplace : (∃ t, as₁ = bs ++ t ∧ cs = t ++ a :: as₂) ∨
          as₁ = [] ∧ bs = [a] ∧ cs = as₂ := by
        rcases readLines_singleton hbs with rfl | ⟨b, rfl, -⟩
        · exact .inl ⟨as₁, rfl, h⟩
        · cases as₁ with
          | nil =>
              obtain ⟨rfl, rfl⟩ := List.cons.inj h
              exact .inr ⟨rfl, rfl, rfl⟩
          | cons b' as₁ =>
              obtain ⟨rfl, rfl⟩ := List.cons.inj h
              exact .inl ⟨as₁, rfl, rfl⟩
      rcases hplace with ⟨t, rfl, rfl⟩ | ⟨rfl, rfl, rfl⟩
      · obtain ⟨above, line', below, rfl, habove, hsec, hline, hbelow⟩ := ih hcs
        refine ⟨line :: above, line', below, rfl, ?_, ?_, hline, hbelow⟩
        · rw [← List.singleton_append, readLines_append, hbs, Option.bind_some, habove]
          rfl
        · rw [← List.singleton_append, sectionAfter_append, hsec]
      · rcases readLines_singleton hbs with hnil | ⟨b, hb, hsec, hafter, hline⟩
        · cases hnil
        · obtain rfl : a = b := List.head_eq_of_cons_eq hb
          rw [hafter] at hcs
          exact ⟨[], line, lines, rfl, rfl, hsec, hline, hcs⟩

/-- An assignment on a line of its own, among the assignments of the whole. -/
theorem readLines_assignment {above below : List Bytes} {line key value : Bytes}
    {sec : Option Bytes} {as : List Assignment}
    (hline : readLine line = some (.assignment key value)) :
    readLines sec (above ++ line :: below) = some as ↔
      ∃ name as₁ as₂, sectionAfter sec above = some name ∧ readLines sec above = some as₁ ∧
        readLines (some name) below = some as₂ ∧ as = as₁ ++ ⟨name, key, value⟩ :: as₂ := by
  rw [readLines_append, readLines, hline]
  cases habove : readLines sec above with
  | none => simp
  | some as₁ =>
      cases hsec : sectionAfter sec above with
      | none => simp
      | some name =>
          cases hbelow : readLines (some name) below with
          | none => simp [hbelow]
          | some as₂ =>
              simp only [hbelow, Option.bind_some, Option.bind_eq_bind, Option.pure_def,
                Option.map_some, Option.some.injEq, exists_eq_left', exists_and_left]
              exact eq_comm

/-- The bytes of a key and its value are bytes of the line. -/
theorem mem_of_readLine {line key value : Bytes} {c : UInt8}
    (hline : readLine line = some (.assignment key value)) (hc : isspace c = false)
    (heq : c ≠ ch '=') : c ∈ line ↔ c ∈ key ∨ c ∈ value := by
  rw [← mem_trim_iff hc]
  rw [readLine] at hline
  cases ht : trim line with
  | nil =>
      rw [ht] at hline
      cases hline
  | cons d text =>
      rw [ht] at hline
      dsimp only at hline
      split_ifs at hline with hcomment hheader hmem
      · cases hline
      · split at hline <;> cases hline
      · obtain ⟨left, right, htext, hleft⟩ := exists_of_mem hmem
        rw [htext, before_append_cons hleft, after_append_cons hleft] at hline
        cases hkey : trim left with
        | nil => simp [hkey] at hline
        | cons k key' =>
            simp only [hkey, Option.some.injEq, Line.assignment.injEq] at hline
            obtain ⟨rfl, rfl⟩ := hline
            rw [htext, ← hkey, mem_trim_iff hc, mem_trim_iff hc]
            simp [heq]

/-- A value has no white space around it. -/
theorem trim_of_readLine {line key value : Bytes}
    (hline : readLine line = some (.assignment key value)) : trim value = value := by
  rw [readLine] at hline
  split at hline
  · cases hline
  · split_ifs at hline
    · cases hline
    · split at hline <;> cases hline
    · split at hline <;> simp only [Option.some.injEq, Line.assignment.injEq, reduceCtorEq] at hline
      rw [← hline.2, trim_trim]

/-- **One assignment in another's place**: in an accepted flat list, an assignment below
`[Container]` to neither `Image` nor `Label` can be exchanged for another one that meets its own
rule, and for no other. -/
theorem FlatPolicy.exchange {policy : QuadletPolicy} {as₁ as₂ : List Assignment} {a b : Assignment}
    (h : FlatPolicy policy (as₁ ++ a :: as₂)) (hb : b.sec = "Container")
    (haImage : a.key ≠ "Image") (haLabel : a.key ≠ "Label") (hbImage : b.key ≠ "Image")
    (hbLabel : b.key ≠ "Label") (hallowed : KeyAllowed b.sec b.key) :
    FlatPolicy policy (as₁ ++ b :: as₂) ↔ ContainerRule policy b.key b.value := by
  constructor
  · intro hpolicy
    exact hpolicy.rules b (by simp) hb
  · intro hrule
    -- the assignments around it are the same
    have hother : ∀ o ∈ as₁ ++ as₂, o ∈ as₁ ++ a :: as₂ := by
      intro o ho
      rw [List.mem_append] at ho ⊢
      exact ho.imp_right (List.mem_cons_of_mem a)
    have hmem : ∀ o ∈ as₁ ++ b :: as₂, o = b ∨ o ∈ as₁ ++ as₂ := by
      intro o ho
      simp only [List.mem_append, List.mem_cons] at ho ⊢
      tauto
    refine ⟨fun _ => ⟨b, by simp, hb⟩, fun himage => ?_, fun o ho => ?_, fun hlabel => ?_,
      fun o ho hsec => ?_⟩
    · obtain ⟨o, ho, hsec, hkey⟩ := h.image himage
      have hne : o ≠ a := fun heq => haImage (heq ▸ hkey)
      simp only [List.mem_append, List.mem_cons, hne, false_or] at ho
      exact ⟨o, by simp only [List.mem_append, List.mem_cons]; tauto, hsec, hkey⟩
    · rcases hmem o ho with rfl | ho
      · exact hallowed
      · exact h.keys o (hother o ho)
    · have hmanaged : ∀ o : Assignment, o.key ≠ "Label" → o.isManagedLabel policy = false := by
        intro o hkey
        simp [Assignment.isManagedLabel, hkey]
      have := h.label hlabel
      rw [List.filter_append, List.filter_cons_of_neg (by simp [hmanaged a haLabel])] at this
      rwa [List.filter_append, List.filter_cons_of_neg (by simp [hmanaged b hbLabel])]
    · rcases hmem o ho with rfl | ho
      · exact hrule
      · exact h.rules o (hother o ho) hsec

end PodInstaller
