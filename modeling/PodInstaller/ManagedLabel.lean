/-
**The managed label, as the consumer reads it.**

`PodInstaller.validateManagedLabel` counts one label per `Label=` line, and the parser cuts the text
at line feeds only.  The consumer of an installed Quadlet reads unit text otherwise: an assignment
line that ends in a backslash goes on in the next line, and the value of a `Label=` assignment is a
list of words with a label each.  This module writes that reading down and compares the two.

The line that the check counts is found again by the consumer if it stands alone, that is, if it is
neither drawn into the assignment above it nor goes on in the line below it, and if the lines above
it, once they are joined, leave the same header in force.  Then everything else depends on two
things: how the label is written, and whether a word of another value carries the managed key.

Main definitions:

* `PodInstaller.JoinState`, `PodInstaller.joinLines` — the lines of a text, with continuation;
* `PodInstaller.podmanLabels`, `PodInstaller.labelWords` — the labels of a text;
* `PodInstaller.CountedAt` — the line that the check counts;
* `PodInstaller.StandsAlone` — a line that both readings see.

Main results:

* `PodInstaller.exists_countedAt` — an accepted Quadlet has a counted line;
* `PodInstaller.managedWords_value` — the managed words of the counted value;
* `PodInstaller.managed_label_iff` — **when the managed label is read once, with its value**;
* `PodInstaller.managed_label_contradicted` — an accepted Quadlet with two values for the label.
-/

import PodInstaller.QuadletText

set_option relaxedAutoImplicit false
set_option autoImplicit false

namespace PodInstaller

open Bytes

/-! ### Lines with continuation -/

/-- A line that ends in a backslash, its carriage return apart. -/
def continues (line : Bytes) : Bool := (dropCarriageReturn line).getLast? == some (ch '\\')

/-- A line that assigns to a key. -/
def isAssignment (line : Bytes) : Bool :=
  match readLine line with
  | some (.assignment _ _) => true
  | _ => false

/-- The lines that are complete so far, and the text of an assignment that goes on. -/
structure JoinState where
  done : List Bytes := []
  pending : Option Bytes := none

/-- The next line of a text: a backslash at its end becomes a space, and the text goes on. -/
def JoinState.step (s : JoinState) (line : Bytes) : JoinState :=
  let open' := (dropCarriageReturn line).dropLast ++ [ch ' ']
  match s.pending with
  | none =>
    if isAssignment line ∧ continues line then ⟨s.done, some open'⟩ else ⟨s.done ++ [line], none⟩
  | some text =>
    if continues line then ⟨s.done, some (text ++ open')⟩ else ⟨s.done ++ [text ++ line], none⟩

/-- The lines of a text after joining. -/
def joinLines (lines : List Bytes) : List Bytes :=
  let s := lines.foldl JoinState.step {}
  s.done ++ s.pending.toList

theorem JoinState.foldl_done (lines : List Bytes) (s : JoinState) :
    (lines.foldl JoinState.step s).done =
      s.done ++ (lines.foldl JoinState.step ⟨[], s.pending⟩).done ∧
    (lines.foldl JoinState.step s).pending =
      (lines.foldl JoinState.step ⟨[], s.pending⟩).pending := by
  induction lines generalizing s with
  | nil => simp
  | cons line lines ih =>
      obtain ⟨done', hdone, hpending⟩ : ∃ done', (s.step line).done = s.done ++ done' ∧
          JoinState.step ⟨[], s.pending⟩ line = ⟨done', (s.step line).pending⟩ := by
        unfold JoinState.step
        cases s.pending with
        | none =>
            dsimp only
            split_ifs
            · exact ⟨[], by simp, rfl⟩
            · exact ⟨[line], rfl, rfl⟩
        | some text =>
            dsimp only
            split_ifs
            · exact ⟨[], by simp, rfl⟩
            · exact ⟨[text ++ line], rfl, rfl⟩
      rw [List.foldl_cons, List.foldl_cons, (ih (s.step line)).1, (ih (s.step line)).2, hdone,
        hpending, (ih ⟨done', _⟩).1, (ih ⟨done', _⟩).2, List.append_assoc]
      exact ⟨rfl, rfl⟩

/-- A line that is neither drawn in nor goes on is a line of the joined text. -/
theorem joinLines_alone {above below : List Bytes} {line : Bytes}
    (habove : (above.foldl JoinState.step {}).pending = none) (hline : continues line = false) :
    joinLines (above ++ line :: below) =
      (above.foldl JoinState.step {}).done ++ line :: joinLines below := by
  have hstep : (above.foldl JoinState.step {}).step line =
      ⟨(above.foldl JoinState.step {}).done ++ [line], none⟩ := by
    rw [JoinState.step, habove]
    simp [hline]
  rw [joinLines, List.foldl_append, List.foldl_cons, hstep]
  rw [(JoinState.foldl_done below _).1, (JoinState.foldl_done below _).2]
  simp [joinLines]

/-! ### Labels -/

/-- The values of the `Label=` assignments below `[Container]`, for the lines below `sec`. -/
def podmanLabels (sec : Option Bytes) : List Bytes → List Bytes
  | [] => []
  | line :: rest =>
    match readLine line with
    | some (.header name) => podmanLabels (some name) rest
    | some (.assignment key value) =>
      if sec = some "Container" ∧ key = "Label" then value :: podmanLabels sec rest
      else podmanLabels sec rest
    | _ => podmanLabels sec rest

/-- The words of a value. -/
def labelWords (value : Bytes) : List Bytes := (value.splitOnP isspace).filter (· != [])

/-- The words with the managed key among the labels of a text. -/
def managedWords (policy : QuadletPolicy) (values : List Bytes) : List Bytes :=
  (values.flatMap labelWords).filter fun word => before (ch '=') word == policy.managedLabelKey

/-- The labels of a text, as the consumer reads them. -/
def consumerLabels (contents : Bytes) : List Bytes :=
  podmanLabels none (joinLines (contents.splitOn (ch '\n')))

theorem podmanLabels_append (sec : Option Bytes) (above below : List Bytes) :
    podmanLabels sec (above ++ below) =
      podmanLabels sec above ++ podmanLabels (sectionAfter sec above) below := by
  induction above generalizing sec with
  | nil => rfl
  | cons line above ih =>
      rw [List.cons_append, podmanLabels, podmanLabels, sectionAfter]
      cases readLine line with
      | none => exact ih sec
      | some l =>
          cases l with
          | ignored => exact ih sec
          | header name => exact ih (some name)
          | assignment key value =>
              dsimp only
              rw [ih]
              split_ifs <;> rfl

theorem managedWords_append (policy : QuadletPolicy) (xs ys : List Bytes) :
    managedWords policy (xs ++ ys) = managedWords policy xs ++ managedWords policy ys := by
  simp [managedWords]

/-- A word in front of white space. -/
theorem labelWords_append {word : Bytes} (hword : ∀ c ∈ word, isspace c = false)
    (hne : word ≠ []) {c : UInt8} (hc : isspace c = true) (rest : Bytes) :
    labelWords (word ++ c :: rest) = word :: labelWords rest := by
  rw [labelWords, List.splitOnP_append_cons_of_forall_mem hword c hc,
    List.filter_cons_of_pos (by simpa using hne)]
  rfl

/-- A word on its own. -/
theorem labelWords_word {word : Bytes} (hword : ∀ c ∈ word, isspace c = false)
    (hne : word ≠ []) : labelWords word = [word] := by
  rw [labelWords, List.splitOnP_eq_singleton hword]
  simp [hne]

/-! ### The counted line -/

/-- The line that `validate_managed_label` counts: a label with the managed key, below
`[Container]`. -/
def CountedAt (policy : QuadletPolicy) (contents : Bytes) (above below : List Bytes)
    (line value : Bytes) : Prop :=
  contents.splitOn (ch '\n') = above ++ line :: below ∧ sectionAfter none above = some "Container" ∧
    readLine line = some (.assignment "Label" value) ∧ labelKey value = policy.managedLabelKey

/-- A line that the consumer reads as a line of its own below `[Container]`. -/
def StandsAlone (above : List Bytes) (line : Bytes) : Prop :=
  (above.foldl JoinState.step {}).pending = none ∧ continues line = false ∧
    sectionAfter none (above.foldl JoinState.step {}).done = some "Container"

/-- The label is written as one word, or its value is empty. -/
def WrittenTight (policy : QuadletPolicy) (value : Bytes) : Prop :=
  value = policy.managedLabelKey ++ ch '=' :: policy.managedLabelValue ∨
    policy.managedLabelValue = []

theorem labelWords_space {s : Bytes} (hs : ∀ c ∈ s, isspace c = true) (rest : Bytes) :
    labelWords (s ++ rest) = labelWords rest := by
  induction s with
  | nil => rfl
  | cons c s ih =>
      rw [List.forall_mem_cons] at hs
      rw [List.cons_append, labelWords, List.splitOnP_cons_eq_if_modifyHead, if_pos hs.1,
        List.filter_cons_of_neg (by simp)]
      exact ih hs.2

/-- White space in front of a value would have been trimmed away. -/
theorem eq_nil_of_trim_front {value t rest : Bytes} (htrim : trim value = value)
    (h : value = t ++ rest) (ht : ∀ c ∈ t, isspace c = true) : t = [] := by
  cases t with
  | nil => rfl
  | cons c t =>
      have hhead : isspace c = false := by
        refine head_trim (s := value) c ?_
        rw [htrim, h]
        rfl
      rw [ht c List.mem_cons_self] at hhead
      cases hhead

/-- So would white space behind it. -/
theorem eq_nil_of_trim_back {value t rest : Bytes} (htrim : trim value = value)
    (h : value = rest ++ t) (ht : ∀ c ∈ t, isspace c = true) : t = [] := by
  rcases List.eq_nil_or_concat t with rfl | ⟨t', c, rfl⟩
  · rfl
  · have hlast : isspace c = false := by
      refine getLast_trim (s := value) c ?_
      rw [htrim, h]
      simp
    rw [ht c (by simp)] at hlast
    cases hlast

/-- A trimmed value around its first `=`. -/
theorem value_parts {value : Bytes} (htrim : trim value = value) (heq : ch '=' ∈ value) :
    ∃ s₁ s₂ : Bytes, value = labelKey value ++ s₁ ++ ch '=' :: (s₂ ++ labelValue value) ∧
      ch '=' ∉ labelKey value ∧ (∀ c ∈ s₁, isspace c = true) ∧ (∀ c ∈ s₂, isspace c = true) ∧
      (labelKey value = [] → s₁ = []) ∧ (labelValue value = [] → s₂ = []) := by
  obtain ⟨l, r, hvalue, hl⟩ := exists_of_mem heq
  have hkey : labelKey value = trim l := by
    rw [labelKey, hvalue, before_append_cons hl]
  have hval : labelValue value = trim r := by
    rw [labelValue, hvalue, after_append_cons hl]
  obtain ⟨a, s₁, hl', ha, hs₁⟩ := exists_trim_append l
  obtain ⟨s₂, b, hr', hs₂, hb⟩ := exists_trim_append r
  have hfront : value = a ++ (trim l ++ s₁ ++ ch '=' :: r) := by
    rw [hvalue]
    conv_lhs => rw [hl']
    simp
  have hback : value = (l ++ ch '=' :: (s₂ ++ trim r)) ++ b := by
    rw [hvalue]
    conv_lhs => rw [hr']
    simp
  obtain rfl : a = [] := eq_nil_of_trim_front htrim hfront ha
  obtain rfl : b = [] := eq_nil_of_trim_back htrim hback hb
  rw [List.nil_append] at hl'
  rw [List.append_nil] at hr'
  refine ⟨s₁, s₂, ?_, ?_, hs₁, hs₂, ?_, ?_⟩
  · rw [hkey, hval, ← hl', ← hr', hvalue]
  · rw [hkey]
    exact fun h => hl (mem_of_mem_trim h)
  · intro hnil
    rw [hkey] at hnil
    rw [hnil, List.nil_append] at hl'
    exact eq_nil_of_trim_front htrim (show value = s₁ ++ ch '=' :: r by rw [hvalue, hl']) hs₁
  · intro hnil
    rw [hval] at hnil
    rw [hnil, List.append_nil] at hr'
    have hlast : value = (l ++ [ch '=']) ++ s₂ := by
      rw [hvalue, hr']
      simp
    exact eq_nil_of_trim_back htrim hlast hs₂

section

variable {policy : QuadletPolicy} {value : Bytes}

/-- The words of one value that carry the managed key. -/
theorem managedWords_of_words {words : List Bytes} (h : labelWords value = words) :
    managedWords policy [value] =
      words.filter fun word => before (ch '=') word == policy.managedLabelKey := by
  rw [managedWords, List.flatMap_singleton, h]

/-- A label that is written as one word is its only word. -/
theorem managedWords_tight (hnoEq : ch '=' ∉ policy.managedLabelKey)
    (hkeySpace : ∀ c ∈ policy.managedLabelKey, isspace c = false)
    (hvalueSpace : ∀ c ∈ policy.managedLabelValue, isspace c = false)
    (htight : value = policy.managedLabelKey ++ ch '=' :: policy.managedLabelValue) :
    managedWords policy [value] = [value] := by
  have heqSpace : isspace (ch '=') = false := by decide
  have hall : ∀ c ∈ value, isspace c = false := by
    intro c hc
    rw [htight, List.mem_append, List.mem_cons] at hc
    rcases hc with hc | rfl | hc
    · exact hkeySpace c hc
    · exact heqSpace
    · exact hvalueSpace c hc
  have hbefore : before (ch '=') value = policy.managedLabelKey := by
    rw [htight, before_append_cons hnoEq]
  rw [managedWords_of_words (labelWords_word hall (by simp [htight]))]
  simp [hbefore]

/-- White space behind the `=` ends the word before the value starts. -/
theorem managedWords_spaceAfter (hnoEq : ch '=' ∉ policy.managedLabelKey)
    (hkeySpace : ∀ c ∈ policy.managedLabelKey, isspace c = false) {c : UInt8} {rest : Bytes}
    (hc : isspace c = true) (hvalue : value = policy.managedLabelKey ++ ch '=' :: c :: rest) :
    policy.managedLabelKey ++ [ch '='] ∈ managedWords policy [value] := by
  have heqSpace : isspace (ch '=') = false := by decide
  have hword : ∀ d ∈ policy.managedLabelKey ++ [ch '='], isspace d = false := by
    intro d hd
    rcases List.mem_append.1 hd with hd | hd
    · exact hkeySpace d hd
    · rwa [List.mem_singleton.1 hd]
  have hwords : labelWords value = (policy.managedLabelKey ++ [ch '=']) :: labelWords rest := by
    rw [hvalue, ← labelWords_append hword (by simp) hc]
    simp
  have hbefore : before (ch '=') (policy.managedLabelKey ++ [ch '=']) = policy.managedLabelKey :=
    before_append_cons hnoEq []
  rw [managedWords_of_words hwords]
  simp [hbefore]

/-- White space in front of the `=` ends the word with the key alone. -/
theorem managedWords_spaceBefore (hnoEq : ch '=' ∉ policy.managedLabelKey)
    (hkeySpace : ∀ c ∈ policy.managedLabelKey, isspace c = false)
    (hne : policy.managedLabelKey ≠ []) {c : UInt8} {rest : Bytes} (hc : isspace c = true)
    (hvalue : value = policy.managedLabelKey ++ c :: rest) :
    managedWords policy [value] = policy.managedLabelKey ::
      (labelWords rest).filter fun word => before (ch '=') word == policy.managedLabelKey := by
  have hwords : labelWords value = policy.managedLabelKey :: labelWords rest := by
    rw [hvalue, labelWords_append hkeySpace hne hc]
  rw [managedWords_of_words hwords, List.filter_cons_of_pos]
  rw [before_of_notMem hnoEq]
  exact beq_self_eq_true _

/-- **The managed words of the counted value**: one of them has the managed value exactly if the
label is written tight, and then it is the only one. -/
theorem managedWords_value (htrim : trim value = value) (hne : value ≠ [])
    (hkey : labelKey value = policy.managedLabelKey)
    (hvalue : labelValue value = policy.managedLabelValue)
    (hkeySpace : ∀ c ∈ policy.managedLabelKey, isspace c = false)
    (hvalueSpace : ∀ c ∈ policy.managedLabelValue, isspace c = false) :
    ∃ word ∈ managedWords policy [value],
      (after (ch '=') word = policy.managedLabelValue ↔ WrittenTight policy value) ∧
      (WrittenTight policy value → managedWords policy [value] = [word]) := by
  by_cases heq : ch '=' ∈ value
  · obtain ⟨s₁, s₂, hparts, hnoEq, hs₁, hs₂, hs₁nil, hs₂nil⟩ := value_parts htrim heq
    rw [hkey] at hparts hnoEq hs₁nil
    rw [hvalue] at hparts hs₂nil
    have heqSpace : isspace (ch '=') = false := by decide
    -- white space around the `=` makes the value different from the tight one
    have hspace : ∀ c ∈ s₁ ++ s₂,
        value ≠ policy.managedLabelKey ++ ch '=' :: policy.managedLabelValue := by
      intro c hc htight
      have hlen := congrArg List.length (hparts.symm.trans htight)
      have hpos := List.length_pos_of_mem hc
      simp only [List.length_append, List.length_cons] at hlen hpos
      omega
    cases s₁ with
    | nil =>
        rw [List.append_nil] at hparts
        cases s₂ with
        | nil =>
            have hwords := managedWords_tight hnoEq hkeySpace hvalueSpace hparts
            refine ⟨value, by simp [hwords], iff_of_true ?_ (.inl hparts), fun _ => hwords⟩
            rw [hparts, List.nil_append, after_append_cons hnoEq]
        | cons c s₂ =>
            have hvalueNe : policy.managedLabelValue ≠ [] := fun h => by simpa using hs₂nil h
            have hloose : ¬ WrittenTight policy value := by
              rintro (htight | hnil)
              · exact hspace c (by simp) htight
              · exact hvalueNe hnil
            have hmem := managedWords_spaceAfter hnoEq hkeySpace (hs₂ c List.mem_cons_self) hparts
            refine ⟨_, hmem, iff_of_false ?_ hloose, fun h => absurd h hloose⟩
            rw [after_append_cons hnoEq]
            exact fun h => hvalueNe h.symm
    | cons c s₁ =>
        have hkeyNe : policy.managedLabelKey ≠ [] := fun h => by simpa using hs₁nil h
        have hcons : value = policy.managedLabelKey ++
            c :: (s₁ ++ ch '=' :: (s₂ ++ policy.managedLabelValue)) := by
          rw [hparts, List.append_assoc]
          rfl
        have hwords :=
          managedWords_spaceBefore hnoEq hkeySpace hkeyNe (hs₁ c List.mem_cons_self) hcons
        have htight : WrittenTight policy value ↔ policy.managedLabelValue = [] :=
          or_iff_right (hspace c (by simp))
        refine ⟨policy.managedLabelKey, by simp [hwords], ?_, fun h => ?_⟩
        · rw [after_of_notMem hnoEq, htight, eq_comm]
        · have hnil := htight.1 h
          rw [hwords, hs₂nil hnil, hnil, labelWords_space fun d hd => hs₁ d (by simp [hd]),
            labelWords_word (by simp [heqSpace]) (by simp)]
          simp [hkeyNe.symm, before]
  · -- a value without `=` is the key
    have hself : value = policy.managedLabelKey := by
      rw [← hkey, labelKey, before_of_notMem heq, htrim]
    have hvalueNil : policy.managedLabelValue = [] := by
      rw [← hvalue, labelValue, after_of_notMem heq, trim_nil]
    have hwords : managedWords policy [value] = [value] := by
      rw [managedWords_of_words (labelWords_word (hself ▸ hkeySpace) hne), List.filter_cons_of_pos,
        List.filter_nil]
      rw [before_of_notMem heq, hself]
      exact beq_self_eq_true _
    refine ⟨value, by simp [hwords], iff_of_true ?_ (.inr hvalueNil), fun _ => hwords⟩
    rw [after_of_notMem heq, hvalueNil]

end

/-! ### The two readings -/

/-- An accepted Quadlet has a counted line, and its label has the managed value. -/
theorem exists_countedAt {quadlet : QuadletFile} {policy : QuadletPolicy}
    (hok : validateQuadletPolicy quadlet policy = .ok ())
    (hrequire : policy.requireManagedLabel = true) :
    ∃ above below line value, CountedAt policy quadlet.contents above below line value := by
  obtain ⟨-, -, -, as, has, hpolicy⟩ := (validateQuadletPolicy_iff_acceptable _ _).1 hok
  obtain ⟨a, ha, -⟩ := hpolicy.label hrequire
  have hmem : a ∈ as.filter (·.isManagedLabel policy) := by
    rw [ha]
    exact List.mem_singleton_self a
  obtain ⟨hin, hmanaged⟩ := List.mem_filter.1 hmem
  simp only [Assignment.isManagedLabel, Bool.and_eq_true, beq_iff_eq] at hmanaged
  obtain ⟨as₁, as₂, rfl⟩ := List.append_of_mem hin
  obtain ⟨above, line, below, hlines, -, hsec, hline, -⟩ := exists_line_of_append has
  rw [hmanaged.1.1] at hsec
  rw [hmanaged.1.2] at hline
  exact ⟨above, below, line, a.value, hlines, hsec, hline, hmanaged.2⟩

theorem CountedAt.labelValue_eq {quadlet : QuadletFile} {policy : QuadletPolicy}
    (hok : validateQuadletPolicy quadlet policy = .ok ())
    (hrequire : policy.requireManagedLabel = true) {above below : List Bytes} {line value : Bytes}
    (hcounted : CountedAt policy quadlet.contents above below line value) :
    labelValue value = policy.managedLabelValue := by
  obtain ⟨-, -, -, as, has, hpolicy⟩ := (validateQuadletPolicy_iff_acceptable _ _).1 hok
  obtain ⟨a, ha, hvalue⟩ := hpolicy.label hrequire
  obtain ⟨hlines, hsec, hline, hkey⟩ := hcounted
  rw [readText, hlines] at has
  obtain ⟨name, as₁, as₂, hname, -, -, rfl⟩ := (readLines_assignment hline).1 has
  obtain rfl : ofString "Container" = name := by
    rw [hsec] at hname
    exact Option.some.inj hname
  have hmem : (⟨"Container", "Label", value⟩ : Assignment) ∈
      (as₁ ++ ⟨"Container", "Label", value⟩ :: as₂).filter (·.isManagedLabel policy) := by
    rw [List.mem_filter]
    refine ⟨by simp, ?_⟩
    simp [Assignment.isManagedLabel, hkey]
  rw [ha, List.mem_singleton] at hmem
  rw [← hvalue, ← hmem]

/-- The labels of a text whose counted line stands alone. -/
theorem consumerLabels_alone {contents : Bytes} {policy : QuadletPolicy} {above below : List Bytes}
    {line value : Bytes} (hcounted : CountedAt policy contents above below line value)
    (halone : StandsAlone above line) :
    consumerLabels contents = podmanLabels none (above.foldl JoinState.step {}).done ++
      value :: podmanLabels (some "Container") (joinLines below) := by
  obtain ⟨hlines, -, hline, -⟩ := hcounted
  obtain ⟨habove, hends, hsec⟩ := halone
  rw [consumerLabels, hlines, joinLines_alone habove hends, podmanLabels_append, hsec, podmanLabels,
    hline]
  simp

/-- **When the managed label is read once, with its value**: an accepted Quadlet has a counted line,
and where the line stands alone, it is read so exactly when the label is written tight and no word
of another label has the managed key. -/
theorem managed_label_iff {quadlet : QuadletFile} {policy : QuadletPolicy}
    (hok : validateQuadletPolicy quadlet policy = .ok ())
    (hrequire : policy.requireManagedLabel = true)
    (hkeySpace : ∀ c ∈ policy.managedLabelKey, isspace c = false)
    (hvalueSpace : ∀ c ∈ policy.managedLabelValue, isspace c = false) :
    (∃ above below line value, CountedAt policy quadlet.contents above below line value) ∧
      ∀ above below line value, CountedAt policy quadlet.contents above below line value →
        StandsAlone above line → value ≠ [] →
        ((∃ word, managedWords policy (consumerLabels quadlet.contents) = [word] ∧
            after (ch '=') word = policy.managedLabelValue) ↔
          WrittenTight policy value ∧
            managedWords policy (podmanLabels none (above.foldl JoinState.step {}).done ++
              podmanLabels (some "Container") (joinLines below)) = []) := by
  refine ⟨exists_countedAt hok hrequire, ?_⟩
  intro above below line value hcounted halone hne
  have htrim : trim value = value := trim_of_readLine hcounted.2.2.1
  obtain ⟨word, hword, hvalue, htight⟩ := managedWords_value htrim hne hcounted.2.2.2
    (hcounted.labelValue_eq hok hrequire) hkeySpace hvalueSpace
  have hall : managedWords policy (consumerLabels quadlet.contents) =
      managedWords policy (podmanLabels none (above.foldl JoinState.step {}).done) ++
        managedWords policy [value] ++
        managedWords policy (podmanLabels (some "Container") (joinLines below)) := by
    rw [consumerLabels_alone hcounted halone, List.append_cons, managedWords_append,
      managedWords_append]
  rw [hall, managedWords_append, List.append_eq_nil_iff]
  constructor
  · rintro ⟨word', hwords, hafter⟩
    -- the counted value has a managed word of its own, so it is the only one
    have hmem : word ∈ [word'] := by
      rw [← hwords]
      simp [hword]
    obtain rfl : word = word' := List.mem_singleton.1 hmem
    have hwritten := hvalue.1 hafter
    rw [htight hwritten] at hwords
    have hlen := congrArg List.length hwords
    simp only [List.length_append, List.length_singleton] at hlen
    exact ⟨hwritten, List.length_eq_zero_iff.1 (by omega), List.length_eq_zero_iff.1 (by omega)⟩
  · rintro ⟨hwritten, habove, hbelow⟩
    refine ⟨word, ?_, hvalue.2 hwritten⟩
    rw [habove, hbelow, htight hwritten]
    rfl

/-- A managed Quadlet whose managed label stands below an assignment that goes on. -/
def continuedQuadlet : QuadletFile where
  fileName := "web.container"
  contents := ofString ("[Container]\nImage=busybox\nEnvironment=A=1 \\\nEnvironment=B=2\n" ++
    "Label=com.example.pod-installer.managed=true\n")

/-- On this Quadlet the two readings agree. -/
theorem managed_label_continued :
    (∃ word, managedWords {} (consumerLabels continuedQuadlet.contents) = [word] ∧
        after (ch '=') word = ({} : QuadletPolicy).managedLabelValue) ↔
      WrittenTight {} "com.example.pod-installer.managed=true" ∧
        managedWords {} (podmanLabels none (List.foldl JoinState.step {}
            ["[Container]", "Image=busybox", "Environment=A=1 \\", "Environment=B=2"]).done ++
          podmanLabels (some "Container") (joinLines [[]])) = [] := by
  have hok : validateQuadletPolicy continuedQuadlet {} = .ok () := by decide +kernel
  have hcounted : CountedAt {} continuedQuadlet.contents
      ["[Container]", "Image=busybox", "Environment=A=1 \\", "Environment=B=2"] [[]]
      "Label=com.example.pod-installer.managed=true" "com.example.pod-installer.managed=true" :=
    ⟨by decide +kernel, by decide, by decide +kernel, by decide +kernel⟩
  have halone : StandsAlone
      ["[Container]", "Image=busybox", "Environment=A=1 \\", "Environment=B=2"]
      "Label=com.example.pod-installer.managed=true" :=
    ⟨by decide +kernel, by decide +kernel, by decide +kernel⟩
  obtain ⟨-, hiff⟩ := managed_label_iff hok rfl (by decide +kernel) (by decide +kernel)
  exact hiff _ _ _ _ hcounted halone (by decide)

/-- A managed Quadlet with the managed key a second time, behind another label of its line. -/
def contradictedQuadlet : QuadletFile where
  fileName := "web.container"
  contents := ofString ("[Container]\nImage=busybox\n" ++
    "Label=com.example.pod-installer.managed=true\n" ++
    "Label=tier=web com.example.pod-installer.managed=false\n")

/-- The Quadlet is accepted, but its labels give the managed key two values. -/
theorem managed_label_contradicted :
    validateQuadletPolicy contradictedQuadlet {} = .ok () ∧
      (∀ c ∈ ({} : QuadletPolicy).managedLabelKey, isspace c = false) ∧
      (∀ c ∈ ({} : QuadletPolicy).managedLabelValue, isspace c = false) ∧
      managedWords {} (consumerLabels contradictedQuadlet.contents) =
        ["com.example.pod-installer.managed=true", "com.example.pod-installer.managed=false"] ∧
      ¬ ∃ word, managedWords {} (consumerLabels contradictedQuadlet.contents) = [word] ∧
        after (ch '=') word = ({} : QuadletPolicy).managedLabelValue := by
  have hwords : managedWords {} (consumerLabels contradictedQuadlet.contents) =
      ["com.example.pod-installer.managed=true", "com.example.pod-installer.managed=false"] := by
    decide +kernel
  refine ⟨by decide +kernel, by decide +kernel, by decide +kernel, hwords, ?_⟩
  rintro ⟨word, hword, -⟩
  have hlen := congrArg List.length (hwords.symm.trans hword)
  simp at hlen

end PodInstaller
