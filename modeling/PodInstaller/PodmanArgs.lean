/-
**`PodmanArgs=` values: word splitting and denied arguments.**

A `PodmanArgs=` value is a shell-like list of words.  `PodInstaller.splitPodmanArgs` takes it apart
with a state machine of three flags, and `PodInstaller.deniedPodmanArg` looks each word up, together
with the word after it, among the options that would give the container access to the host.

Main definitions:

* `PodInstaller.QuadletPolicy` — the policy flags;
* `PodInstaller.SplitState`, `PodInstaller.SplitState.step`, `PodInstaller.splitPodmanArgs`;
* `PodInstaller.deniedWord`, `PodInstaller.deniedWords`, `PodInstaller.deniedPodmanArg` — the deny
  rules for one word and its successor, for a list of words, and for a value.

Main results:

* `PodInstaller.deniedWords_append` — the deny rules of a concatenation of word lists.
-/

import PodInstaller.ErrorModel

set_option relaxedAutoImplicit false
set_option autoImplicit false

namespace PodInstaller

open Bytes

/-! ### The policy -/

/-- `QuadletPolicy` with its defaults. -/
structure QuadletPolicy where
  requireContainerSection : Bool := true
  requireImage : Bool := true
  requireManagedLabel : Bool := true
  managedLabelKey : Bytes := "com.example.pod-installer.managed"
  managedLabelValue : Bytes := "true"
  allowPrivileged : Bool := false
  allowHostNetwork : Bool := false
  allowHostPid : Bool := false
  allowHostIpc : Bool := false
  allowHostUserns : Bool := false
  allowDevices : Bool := false
  allowRootMount : Bool := false
  allowPodmanArgs : Bool := false

/-! ### Splitting a value into words -/

/-- The variables of the loop of `split_podman_args`. -/
structure SplitState where
  tokens : List Bytes := []
  current : Bytes := []
  inSingle : Bool := false
  inDouble : Bool := false
  escaped : Bool := false

/-- One round of the loop of `split_podman_args`. -/
def SplitState.step (s : SplitState) (c : UInt8) : SplitState :=
  if s.escaped then { s with current := s.current ++ [c], escaped := false }
  else if c = ch '\\' ∧ ¬ s.inSingle then { s with escaped := true }
  else if c = ch '\'' ∧ ¬ s.inDouble then { s with inSingle := !s.inSingle }
  else if c = ch '"' ∧ ¬ s.inSingle then { s with inDouble := !s.inDouble }
  else if isspace c ∧ ¬ s.inSingle ∧ ¬ s.inDouble then
    if s.current ≠ [] then { s with tokens := s.tokens ++ [s.current], current := [] } else s
  else { s with current := s.current ++ [c] }

/-- What follows the loop of `split_podman_args`. -/
def SplitState.finish (s : SplitState) : List Bytes :=
  let current := if s.escaped then s.current ++ [ch '\\'] else s.current
  if current ≠ [] then s.tokens ++ [current] else s.tokens

/-- `split_podman_args`. -/
def splitPodmanArgs (value : Bytes) : List Bytes := (value.foldl SplitState.step {}).finish

/-! ### Denied arguments -/

/-- `starts_with_option_assignment`. -/
def startsWithOptionAssignment (value option : Bytes) : Bool :=
  option.length < value.length && option.isPrefixOf value &&
    value[option.length]? == some (ch '=')

/-- `option_value`. -/
def optionValue (token option : Bytes) : Bytes :=
  if startsWithOptionAssignment token option then token.drop (option.length + 1) else []

/-- `token_has_value`. -/
def tokenHasValue (token next option deniedValue : Bytes) : Bool :=
  let assigned := lower (optionValue token option)
  if assigned ≠ [] then assigned == lower deniedValue
  else lower token == lower option && lower next == lower deniedValue

/-- A word that is the option or assigns it: the test of the value-independent options. -/
def namesOption (part option : Bytes) : Bool :=
  lower part == option || startsWithOptionAssignment (lower part) option

/-- The body of the loop of `denied_podman_arg`: one word and the word after it (empty after the
last word). -/
def deniedWord (policy : QuadletPolicy) (part next : Bytes) : Bool :=
  if part = [] then false
  else
    (!policy.allowPrivileged && namesOption part "--privileged") ||
    (!policy.allowHostNetwork &&
      (tokenHasValue part next "--network" "host" || tokenHasValue part next "--net" "host")) ||
    (!policy.allowHostPid && tokenHasValue part next "--pid" "host") ||
    (!policy.allowHostIpc && tokenHasValue part next "--ipc" "host") ||
    (!policy.allowHostUserns && tokenHasValue part next "--userns" "host") ||
    (!policy.allowDevices && namesOption part "--device") ||
    (!policy.allowRootMount && (namesOption part "--volume" || namesOption part "-v" ||
      namesOption part "--mount"))

/-- The loop of `denied_podman_arg`, over the words of a value. -/
def deniedWords (policy : QuadletPolicy) : List Bytes → Bool
  | [] => false
  | part :: rest => deniedWord policy part (rest.headD []) || deniedWords policy rest

/-- `denied_podman_arg`. -/
def deniedPodmanArg (value : Bytes) (policy : QuadletPolicy) : Bool :=
  deniedWords policy (splitPodmanArgs value)

/-! ### The options whose value decides -/

/-- The options that are denied only with the value `host`, each with the flag that allows it. -/
def hostOptions (policy : QuadletPolicy) : List (Bytes × Bool) :=
  [("--network", policy.allowHostNetwork), ("--net", policy.allowHostNetwork),
    ("--pid", policy.allowHostPid), ("--ipc", policy.allowHostIpc),
    ("--userns", policy.allowHostUserns)]

/-- A word that is, in some spelling of its letters, a host option that the policy does not
allow: the word after it decides. -/
def awaitsHost (policy : QuadletPolicy) (part : Bytes) : Bool :=
  (hostOptions policy).any fun o => !o.2 && lower part == o.1

/-- The word `host`, in some spelling of its letters. -/
def isHost (word : Bytes) : Bool := lower word == "host"

/-- An option that carries its value in the same word does not look at the next one. -/
theorem tokenHasValue_eq (token next option : Bytes) (hopt : lower option = option) :
    tokenHasValue token next option "host" =
      (tokenHasValue token [] option "host" || (lower token == option && isHost next)) := by
  have hhost : lower ("host" : Bytes) = "host" := by decide
  unfold tokenHasValue
  simp only [hopt, hhost, isHost]
  by_cases ha : lower (optionValue token option) = []
  · simp [ha, show (([] : Bytes) == ("host" : Bytes)) = false by decide]
  · -- a word that assigns the option is longer than the option, so it is not the option itself
    have hne : lower token ≠ option := by
      intro h
      have hlen : token.length = option.length := by rw [← h]; simp [lower]
      apply ha
      unfold optionValue startsWithOptionAssignment
      simp [hlen]
    simp [ha, hne]

/-- **What the next word adds**: a word is denied with its successor when it is denied alone, or
when it awaits a value and the successor is `host`. -/
theorem deniedWord_eq (policy : QuadletPolicy) (part next : Bytes) :
    deniedWord policy part next =
      (deniedWord policy part [] || (awaitsHost policy part && isHost next)) := by
  by_cases hp : part = []
  · subst hp
    have : awaitsHost policy [] = false := by
      simp only [awaitsHost, hostOptions, List.any_cons, List.any_nil, lower_nil,
        show ∀ s : Bytes, ([] == s) = s.isEmpty from fun s => by cases s <;> rfl]
      simp [ofString]
    simp [deniedWord, this]
  · have hvalue := tokenHasValue_eq part next
    simp only [deniedWord, if_neg hp, awaitsHost, hostOptions, List.any_cons, List.any_nil,
      hvalue "--network" (by decide), hvalue "--net" (by decide), hvalue "--pid" (by decide),
      hvalue "--ipc" (by decide), hvalue "--userns" (by decide), Bool.or_false]
    cases isHost next with
    | false => simp only [Bool.and_false, Bool.or_false]
    | true =>
        simp only [Bool.and_true, Bool.and_or_distrib_left]
        ac_rfl

/-- **The deny rules of a concatenation**: besides the words of the two parts, what is denied is an
option at the end of the first part that awaits the `host` at the start of the second. -/
theorem deniedWords_append (policy : QuadletPolicy) (xs ys : List Bytes) :
    deniedWords policy (xs ++ ys) = true ↔
      deniedWords policy xs = true ∨ deniedWords policy ys = true ∨
        (∃ part ∈ xs.getLast?, awaitsHost policy part = true) ∧
          ∃ next ∈ ys.head?, isHost next = true := by
  induction xs with
  | nil => simp [deniedWords]
  | cons part xs ih =>
      rw [List.cons_append, deniedWords, deniedWords, Bool.or_eq_true, Bool.or_eq_true, ih]
      cases xs with
      | nil =>
          rw [List.nil_append, deniedWord_eq policy part (ys.headD [])]
          cases ys with
          | nil => simp [deniedWords, show isHost [] = false by decide]
          | cons next ys =>
              simp only [deniedWords, List.headD_cons, List.headD_nil, Bool.or_eq_true,
                Bool.and_eq_true, List.getLast?_singleton, List.head?_cons, Option.mem_def,
                Option.some.injEq,
                exists_eq_left', Bool.false_eq_true, false_or, or_false, List.getLast?_nil,
                reduceCtorEq, false_and, exists_false]
              tauto
      | cons part' xs =>
          rw [List.cons_append, List.headD_cons, List.headD_cons, List.getLast?_cons_cons,
            or_assoc]

end PodInstaller
