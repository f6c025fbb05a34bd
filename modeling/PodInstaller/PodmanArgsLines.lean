/-
**`PodmanArgs=` over several lines.**

Podman appends the words of successive `PodmanArgs=` lines into one argument list, while
`PodInstaller.validateQuadletPolicy` looks at each line on its own: a word and its successor are
never compared across the end of a line.  This module settles when that makes a difference.  The
single lines being accepted, the joined list is denied exactly when some line ends in an option
that awaits a value and the next word, which starts a later line, is `host`.

Main definitions:

* `PodInstaller.SplitAcross` — an option and its value on two lines.

Main results:

* `PodInstaller.deniedWords_flatMap` — the deny rules of the joined words of several lines;
* `PodInstaller.podmanArgs_joined_iff` — **when the check by lines is the check of the joined
  list**;
* `PodInstaller.podmanArgs_joined_denied` — an accepted Quadlet whose joined list is denied.
-/

import PodInstaller.QuadletPolicy

set_option relaxedAutoImplicit false
set_option autoImplicit false

namespace PodInstaller

open Bytes

/-- Some value ends in an option that awaits `host`, and the next word — the first one of a later
value, with no words between them — is `host`. -/
def SplitAcross (policy : QuadletPolicy) (values : List Bytes) : Prop :=
  ∃ above value blank below later, values = above ++ value :: (blank ++ below :: later) ∧
    (∀ v ∈ blank, splitPodmanArgs v = []) ∧
    (∃ part ∈ (splitPodmanArgs value).getLast?, awaitsHost policy part = true) ∧
    ∃ next ∈ (splitPodmanArgs below).head?, isHost next = true

/-- The first word of several values is the first word of the first value that has one. -/
theorem mem_head?_flatMap {values : List Bytes} {next : Bytes} :
    next ∈ (values.flatMap splitPodmanArgs).head? ↔
      ∃ blank below later, values = blank ++ below :: later ∧
        (∀ v ∈ blank, splitPodmanArgs v = []) ∧ next ∈ (splitPodmanArgs below).head? := by
  induction values with
  | nil => simp
  | cons value values ih =>
      rw [List.flatMap_cons]
      cases hwords : splitPodmanArgs value with
      | nil =>
          -- a value without words is one of the blank ones
          rw [List.nil_append, ih]
          constructor
          · rintro ⟨blank, below, later, rfl, hblank, hnext⟩
            refine ⟨value :: blank, below, later, rfl, ?_, hnext⟩
            simpa [hwords] using hblank
          · rintro ⟨blank, below, later, heq, hblank, hnext⟩
            cases blank with
            | nil =>
                obtain ⟨rfl, rfl⟩ := List.cons_eq_cons.1 heq
                simp [hwords] at hnext
            | cons v blank =>
                obtain ⟨rfl, rfl⟩ := List.cons_eq_cons.1 heq
                exact ⟨blank, below, later, rfl, fun v hv => hblank v (by simp [hv]), hnext⟩
      | cons word words =>
          constructor
          · intro hnext
            exact ⟨[], value, values, rfl, by simp, by simpa [hwords] using hnext⟩
          · rintro ⟨blank, below, later, heq, hblank, hnext⟩
            cases blank with
            | nil =>
                obtain ⟨rfl, rfl⟩ := List.cons_eq_cons.1 heq
                simpa [hwords] using hnext
            | cons v blank =>
                obtain ⟨rfl, rfl⟩ := List.cons_eq_cons.1 heq
                simp [hwords] at hblank

theorem splitAcross_cons {policy : QuadletPolicy} {value : Bytes} {values : List Bytes} :
    SplitAcross policy (value :: values) ↔
      SplitAcross policy values ∨
        (∃ part ∈ (splitPodmanArgs value).getLast?, awaitsHost policy part = true) ∧
          ∃ next ∈ (values.flatMap splitPodmanArgs).head?, isHost next = true := by
  constructor
  · rintro ⟨above, value', blank, below, later, heq, hblank, hpart, next, hnext, hhost⟩
    cases above with
    | nil =>
        obtain ⟨rfl, rfl⟩ := List.cons_eq_cons.1 heq
        exact .inr ⟨hpart, next, mem_head?_flatMap.2 ⟨blank, below, later, rfl, hblank, hnext⟩,
          hhost⟩
    | cons v above =>
        obtain ⟨rfl, rfl⟩ := List.cons_eq_cons.1 heq
        exact .inl ⟨above, value', blank, below, later, rfl, hblank, hpart, next, hnext, hhost⟩
  · rintro (⟨above, value', blank, below, later, rfl, h⟩ | ⟨hpart, next, hnext, hhost⟩)
    · exact ⟨value :: above, value', blank, below, later, rfl, h⟩
    · obtain ⟨blank, below, later, rfl, hblank, hnext⟩ := mem_head?_flatMap.1 hnext
      exact ⟨[], value, blank, below, later, rfl, hblank, hpart, next, hnext, hhost⟩

/-- **The joined words of several lines** are denied when some line is denied on its own, or when
an option and its value stand on two lines. -/
theorem deniedWords_flatMap (policy : QuadletPolicy) (values : List Bytes) :
    deniedWords policy (values.flatMap splitPodmanArgs) = true ↔
      (∃ value ∈ values, deniedPodmanArg value policy = true) ∨ SplitAcross policy values := by
  induction values with
  | nil => simp [deniedWords, SplitAcross]
  | cons value values ih =>
      rw [List.flatMap_cons, deniedWords_append, ih, splitAcross_cons, List.exists_mem_cons_iff,
        deniedPodmanArg]
      simp only [or_assoc]

/-- **When the check by lines is the check of the joined list**: for an accepted Quadlet, the
concatenation of the words of its `PodmanArgs=` values is not denied exactly when no option and
its value `host` stand on two lines. -/
theorem podmanArgs_joined_iff {quadlet : QuadletFile} {policy : QuadletPolicy}
    {parsed : ParsedQuadlet} (hok : validateQuadletPolicy quadlet policy = .ok ())
    (hparsed : parseQuadlet quadlet.contents = .ok parsed) :
    deniedWords policy ((parsed.values "Container" "PodmanArgs").flatMap splitPodmanArgs) = false ↔
      ¬ SplitAcross policy (parsed.values "Container" "PodmanArgs") := by
  obtain ⟨-, -, -, parsed', hparsed', hrest⟩ := validateQuadletPolicy_eq_ok.1 hok
  obtain rfl : parsed = parsed' := by
    rw [hparsed] at hparsed'
    exact Except.ok.inj hparsed'
  obtain ⟨-, -, -, -, -, -, -, -, -, -, -, -, -, hvalues⟩ := hrest
  have halone : ¬ ∃ value ∈ parsed.values "Container" "PodmanArgs",
      deniedPodmanArg value policy = true := by
    rintro ⟨value, hvalue, hdenied⟩
    rw [(hvalues value hvalue).2] at hdenied
    exact Bool.false_ne_true hdenied
  rw [← Bool.not_eq_true, deniedWords_flatMap, or_iff_right halone]

/-- A policy that allows `PodmanArgs=` and nothing else. -/
def podmanArgsPolicy : QuadletPolicy := { allowPodmanArgs := true }

/-- A managed Quadlet whose lines end in an option that awaits `host`, and whose next words are
others. -/
def bridgeNetworkQuadlet : QuadletFile where
  fileName := "web.container"
  contents := ofString ("[Container]\nImage=busybox\n" ++
    "Label=com.example.pod-installer.managed=true\nPodmanArgs=--cap-drop all --network\n" ++
    "PodmanArgs=bridge --ipc\nPodmanArgs=private\n")

/-- On the three lines of this Quadlet the two checks agree. -/
theorem podmanArgs_joined_bridge :
    ∃ parsed, parseQuadlet bridgeNetworkQuadlet.contents = .ok parsed ∧
      (parsed.values "Container" "PodmanArgs").length = 3 ∧
      (deniedWords podmanArgsPolicy
          ((parsed.values "Container" "PodmanArgs").flatMap splitPodmanArgs) = false ↔
        ¬ SplitAcross podmanArgsPolicy (parsed.values "Container" "PodmanArgs")) := by
  have hok : validateQuadletPolicy bridgeNetworkQuadlet podmanArgsPolicy = .ok () := by
    decide +kernel
  obtain ⟨-, -, -, parsed, hparsed, -⟩ := validateQuadletPolicy_eq_ok.1 hok
  have hlines : (parseQuadlet bridgeNetworkQuadlet.contents).map
      (fun parsed => (parsed.values "Container" "PodmanArgs").length) = .ok 3 := by
    decide +kernel
  rw [hparsed] at hlines
  exact ⟨parsed, hparsed, Except.ok.inj hlines, podmanArgs_joined_iff hok hparsed⟩

/-- A managed Quadlet with the option `--network` on one line and `host` on the next. -/
def splitNetworkQuadlet : QuadletFile where
  fileName := "web.container"
  contents := ofString ("[Container]\nImage=busybox\n" ++
    "Label=com.example.pod-installer.managed=true\nPodmanArgs=--network\nPodmanArgs=host\n")

/-- The Quadlet is accepted, but the joined list of its words is denied. -/
theorem podmanArgs_joined_denied :
    podmanArgsPolicy.allowPodmanArgs = true ∧
      validateQuadletPolicy splitNetworkQuadlet podmanArgsPolicy = .ok () ∧
      (parseQuadlet splitNetworkQuadlet.contents).map (fun parsed =>
        deniedWords podmanArgsPolicy
          ((parsed.values "Container" "PodmanArgs").flatMap splitPodmanArgs)) = .ok true := by
  decide +kernel

end PodInstaller
