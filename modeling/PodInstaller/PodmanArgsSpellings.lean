/-
**Spellings of denied arguments.**

The same access to the host can be asked for in several ways: as a key of the Quadlet or as an
option in `PodmanArgs=`, and an option can carry its value in the next word, behind `=`, or, if it
has one letter only, right behind the letter.  This module compares the ways.

What `PodInstaller.deniedWord` looks for is at the start of a word, so a word that starts with a
text that is neither a beginning nor a continuation of any option of the rules is not denied,
whatever follows in it.  Two ways of asking for the host start so: the volume option with its value
attached, and the option for another root file system.

Main definitions:

* `PodInstaller.Apart` — texts that cannot begin the same word;
* `PodInstaller.mountSpellings` — the ways to write a volume or mount option;
* `PodInstaller.HostAccess`, `PodInstaller.optionWords` — the keys with their options;
* `PodInstaller.AssignsAt` — texts that agree up to one `[Container]` assignment.

Main results:

* `PodInstaller.deniedWord_of_apart` — words that no rule looks at;
* `PodInstaller.deniedPodmanArg_mount_iff` — **which spellings of a volume option are denied**;
* `PodInstaller.podmanArgs_counterpart_iff` — **when an option is rejected where its key is**.
-/

import PodInstaller.QuadletGrammar
import PodInstaller.PodmanArgsLines

set_option relaxedAutoImplicit false
set_option autoImplicit false

namespace PodInstaller

open Bytes

/-! ### Words that no rule looks at -/

/-- Neither text is the beginning of the other. -/
def Apart (p option : Bytes) : Prop := ¬ p <+: option ∧ ¬ option <+: p

instance (p option : Bytes) : Decidable (Apart p option) :=
  inferInstanceAs (Decidable (_ ∧ _))

section

variable {p option rest next : Bytes} {policy : QuadletPolicy}

theorem Apart.not_prefix (h : Apart p option) : ¬ option <+: p ++ rest := by
  intro hpre
  rcases List.prefix_or_prefix_of_prefix hpre (List.prefix_append p rest) with h' | h'
  · exact h.2 h'
  · exact h.1 h'

theorem Apart.ne (h : Apart p option) : p ++ rest ≠ option := by
  intro heq
  have hpre : option <+: p ++ rest := by rw [heq]
  exact h.not_prefix hpre

theorem Apart.not_assignment (h : Apart p option) :
    startsWithOptionAssignment (p ++ rest) option = false := by
  have hpre : option.isPrefixOf (p ++ rest) = false := by
    rw [Bool.eq_false_iff]
    intro htrue
    exact h.not_prefix (List.isPrefixOf_iff_prefix.1 htrue)
  simp [startsWithOptionAssignment, hpre]

theorem lower_append (s t : Bytes) : lower (s ++ t) = lower s ++ lower t := List.map_append

theorem namesOption_of_apart (hp : lower p = p) (h : Apart p option) :
    namesOption (p ++ rest) option = false := by
  have hne : p ++ lower rest ≠ option := h.ne
  rw [namesOption, lower_append, hp, h.not_assignment, beq_false_of_ne hne, Bool.or_false]

theorem tokenHasValue_of_apart (hp : lower p = p) (hoption : lower option = option)
    (h : Apart p option) {denied : Bytes} :
    tokenHasValue (p ++ rest) next option denied = false := by
  have hne : p ++ lower rest ≠ option := h.ne
  have hnone : optionValue (p ++ rest) option = [] := by
    rw [optionValue, h.not_assignment, if_neg Bool.false_ne_true]
  simp only [tokenHasValue, hnone, lower_nil, ne_eq, not_true_eq_false, if_false, hoption,
    lower_append, hp, beq_false_of_ne hne, Bool.false_and]

/-- The options that the rules look for, apart from `-v`. -/
def longOptions : List Bytes :=
  ["--privileged", "--network", "--net", "--pid", "--ipc", "--userns", "--device", "--volume",
    "--mount"]

/-- What is left of the rules for a word that starts apart from the long options. -/
theorem deniedWord_of_apart_long (hne : p ≠ []) (hp : lower p = p)
    (h : ∀ option ∈ longOptions, Apart p option) :
    deniedWord policy (p ++ rest) next =
      (!policy.allowRootMount && namesOption (p ++ rest) "-v") := by
  have hnames : ∀ option ∈ longOptions, namesOption (p ++ rest) option = false :=
    fun option hmem => namesOption_of_apart hp (h option hmem)
  have hvalue : ∀ option ∈ longOptions, lower option = option →
      tokenHasValue (p ++ rest) next option "host" = false :=
    fun option hmem hoption => tokenHasValue_of_apart hp hoption (h option hmem)
  have hnil : ¬ p ++ rest = [] := by simp [hne]
  simp only [deniedWord, if_neg hnil, hnames "--privileged" (by decide),
    hnames "--device" (by decide), hnames "--volume" (by decide), hnames "--mount" (by decide),
    hvalue "--network" (by decide) (by decide), hvalue "--net" (by decide) (by decide),
    hvalue "--pid" (by decide) (by decide), hvalue "--ipc" (by decide) (by decide),
    hvalue "--userns" (by decide) (by decide), Bool.and_false, Bool.or_false, Bool.false_or]

/-- **Words that no rule looks at** are not denied. -/
theorem deniedWord_of_apart (hne : p ≠ []) (hp : lower p = p)
    (h : ∀ option ∈ longOptions, Apart p option) (hshort : Apart p "-v") :
    deniedWord policy (p ++ rest) next = false := by
  rw [deniedWord_of_apart_long hne hp h, namesOption_of_apart hp hshort, Bool.and_false]

/-- A word that is denied whatever the next word is. -/
theorem deniedWords_of_mem {words : List Bytes} {part : Bytes} (hmem : part ∈ words)
    (h : ∀ next, deniedWord policy part next = true) : deniedWords policy words = true := by
  induction words with
  | nil => simp at hmem
  | cons word words ih =>
      rw [deniedWords, Bool.or_eq_true]
      rcases List.mem_cons.1 hmem with rfl | hmem
      · exact .inl (h _)
      · exact .inr (ih hmem)

/-- A word that is not denied, whatever the next one is, and that is not `host`, decides nothing
for the words around it. -/
theorem deniedWords_insert {pre post : List Bytes} {word : Bytes}
    (hword : ∀ next, deniedWord policy word next = false) (hhost : isHost word = false) :
    deniedWords policy (pre ++ word :: post) = true ↔
      deniedWords policy pre = true ∨ deniedWords policy post = true := by
  rw [deniedWords_append, deniedWords, hword, Bool.false_or]
  simp [hhost]

end

/-! ### Volume and mount options -/

/-- The ways to write the options for volumes and mounts with a value, as lists of words. -/
def mountSpellings (value : Bytes) : List (List Bytes) :=
  [["-v", value], [ofString "-v=" ++ value], [ofString "-v" ++ value], ["--volume", value],
    [ofString "--volume=" ++ value], ["--mount", value], [ofString "--mount=" ++ value]]

/-- An option in a word of its own, or with a value behind `=`. -/
theorem namesOption_self {option : Bytes} (hoption : lower option = option) :
    namesOption option option = true := by
  rw [namesOption, hoption, beq_self_eq_true, Bool.true_or]

theorem startsWithOptionAssignment_equals (option word : Bytes) :
    startsWithOptionAssignment (option ++ ch '=' :: word) option = true := by
  have hpre : option.isPrefixOf (option ++ ch '=' :: word) = true := by
    rw [List.isPrefixOf_iff_prefix]
    exact List.prefix_append _ _
  simp [startsWithOptionAssignment, hpre]

theorem namesOption_equals (option : Bytes) (hoption : lower option = option) (value : Bytes) :
    namesOption (option ++ ch '=' :: value) option = true := by
  have hlower : lower (option ++ ch '=' :: value) = option ++ ch '=' :: lower value := by
    rw [lower_append, hoption]
    rfl
  rw [namesOption, hlower, startsWithOptionAssignment_equals, Bool.or_true]

theorem deniedWord_of_namesMount {policy : QuadletPolicy} (hmount : policy.allowRootMount = false)
    {part next : Bytes} (h : namesOption part "-v" = true ∨ namesOption part "--volume" = true ∨
      namesOption part "--mount" = true) : deniedWord policy part next = true := by
  have hne : part ≠ [] := by
    rintro rfl
    revert h
    decide
  rw [deniedWord, if_neg hne]
  rcases h with h | h | h <;> simp [h, hmount]

/-- The attached spelling is denied only if it is the one with `=`. -/
theorem namesOption_attached (value : Bytes) :
    namesOption (ofString "-v" ++ value) "-v" = true ↔
      value = [] ∨ value.head? = some (ch '=') := by
  have hlower : lower (ofString "-v" ++ value) = ofString "-v" ++ lower value := by
    rw [lower_append]
    rfl
  have hself : (ofString "-v" ++ lower value == ("-v" : Bytes)) = true ↔ value = [] := by
    rw [beq_iff_eq]
    constructor
    · intro h
      have hnil : lower value = [] := List.append_right_eq_self.1 h
      exact List.map_eq_nil_iff.1 hnil
    · rintro rfl
      rfl
  rw [namesOption, hlower, Bool.or_eq_true, hself]
  refine or_congr_right ?_
  cases value with
  | nil => simp [startsWithOptionAssignment]
  | cons c value =>
      have hpre : (ofString "-v").isPrefixOf (ofString "-v" ++ lower (c :: value)) = true := by
        rw [List.isPrefixOf_iff_prefix]
        exact List.prefix_append _ _
      have heq : tolower c = ch '=' ↔ c = ch '=' := tolower_eq_iff (by decide)
      have hindex : (ofString "-v" ++ lower (c :: value))[(ofString "-v").length]? =
          some (tolower c) := by
        rw [List.getElem?_append_right (le_refl _)]
        simp
      unfold startsWithOptionAssignment
      rw [hpre, hindex]
      simp [heq]

/-- A spelling that is not the attached one has a word that names the option. -/
theorem exists_namesMount {value : Bytes} {words : List Bytes}
    (hwords : words ∈ mountSpellings value) (hattached : words ≠ [ofString "-v" ++ value]) :
    ∃ part ∈ words, namesOption part "-v" = true ∨ namesOption part "--volume" = true ∨
      namesOption part "--mount" = true := by
  simp only [mountSpellings, List.mem_cons, List.not_mem_nil, or_false] at hwords
  rcases hwords with rfl | rfl | rfl | rfl | rfl | rfl | rfl
  · exact ⟨"-v", by simp, .inl (by decide)⟩
  · exact ⟨ofString "-v=" ++ value, by simp, .inl (namesOption_equals "-v" (by decide) value)⟩
  · exact absurd rfl hattached
  · exact ⟨"--volume", by simp, .inr (.inl (by decide))⟩
  · exact ⟨ofString "--volume=" ++ value, by simp,
      .inr (.inl (namesOption_equals "--volume" (by decide) value))⟩
  · exact ⟨"--mount", by simp, .inr (.inr (by decide))⟩
  · exact ⟨ofString "--mount=" ++ value, by simp,
      .inr (.inr (namesOption_equals "--mount" (by decide) value))⟩

/-- **Which spellings of a volume or mount option are denied**: all but the attached one, which is
denied only if its value starts with `=` or if the words around it are denied. -/
theorem deniedPodmanArg_mount_iff {policy : QuadletPolicy} (hmount : policy.allowRootMount = false)
    {args value : Bytes} {pre words post : List Bytes} (hvalue : value ≠ [])
    (hwords : words ∈ mountSpellings value) (hargs : splitPodmanArgs args = pre ++ words ++ post) :
    deniedPodmanArg args policy = true ↔
      words ≠ [ofString "-v" ++ value] ∨ value.head? = some (ch '=') ∨
        deniedWords policy pre = true ∨ deniedWords policy post = true := by
  rw [deniedPodmanArg, hargs]
  by_cases hattached : words = [ofString "-v" ++ value]
  · -- only the rule for `-v` looks at the word
    have hlong : ∀ option ∈ longOptions, Apart (ofString "-v") option := by decide
    have hword : ∀ next, deniedWord policy (ofString "-v" ++ value) next =
        namesOption (ofString "-v" ++ value) "-v" := by
      intro next
      rw [deniedWord_of_apart_long (by decide) (by decide) hlong, hmount]
      rfl
    by_cases hassign : value.head? = some (ch '=')
    · have hdenied : ∀ next, deniedWord policy (ofString "-v" ++ value) next = true := by
        intro next
        rw [hword, namesOption_attached]
        exact .inr hassign
      have hall : deniedWords policy (pre ++ words ++ post) = true :=
        deniedWords_of_mem (by simp [hattached]) hdenied
      rw [hall]
      simp [hassign]
    · have hnot : ∀ next, deniedWord policy (ofString "-v" ++ value) next = false := by
        intro next
        rw [hword, Bool.eq_false_iff, Ne, namesOption_attached]
        simp [hvalue, hassign]
      have hhost : isHost (ofString "-v" ++ value) = false := by
        have hne : ofString "-v" ++ lower value ≠ "host" :=
          Apart.ne (show Apart (ofString "-v") "host" by decide)
        rw [isHost, lower_append]
        exact beq_false_of_ne hne
      rw [hattached, List.append_assoc, List.singleton_append, deniedWords_insert hnot hhost]
      simp [hassign]
  · obtain ⟨part, hpart, hnames⟩ := exists_namesMount hwords hattached
    have hdenied : deniedWords policy (pre ++ words ++ post) = true :=
      deniedWords_of_mem (show part ∈ _ by simp [hpart]) fun next =>
        deniedWord_of_namesMount hmount hnames
    rw [hdenied]
    simp [hattached]

/-- The two-word spelling between other arguments. -/
theorem deniedPodmanArg_mount_words :
    deniedPodmanArg "--pull never -v '/etc':/x --tty" podmanArgsPolicy = true ↔
      ([ofString "-v", ofString "/etc:/x"] : List Bytes) ≠ [ofString "-v" ++ ofString "/etc:/x"] ∨
        (ofString "/etc:/x").head? = some (ch '=') ∨
        deniedWords podmanArgsPolicy ["--pull", "never"] = true ∨
        deniedWords podmanArgsPolicy ["--tty"] = true :=
  have hvalue : ofString "/etc:/x" ≠ [] := by decide
  have hwords : [ofString "-v", ofString "/etc:/x"] ∈ mountSpellings "/etc:/x" := by decide
  have hargs : splitPodmanArgs "--pull never -v '/etc':/x --tty" =
      [ofString "--pull", ofString "never"] ++ [ofString "-v", ofString "/etc:/x"] ++
        [ofString "--tty"] := by decide
  deniedPodmanArg_mount_iff rfl hvalue hwords hargs

/-- The attached spelling of the host root is not denied. -/
theorem attached_volume_not_denied :
    podmanArgsPolicy.allowPodmanArgs = true ∧ podmanArgsPolicy.allowRootMount = false ∧
      splitPodmanArgs "-v/:/host" = [] ++ [ofString "-v" ++ ("/:/host" : Bytes)] ++ [] ∧
      [ofString "-v" ++ ("/:/host" : Bytes)] ∈ mountSpellings "/:/host" ∧
      deniedPodmanArg "-v/:/host" podmanArgsPolicy = false := by
  decide

/-! ### Keys and options -/

/-- The bytes that the loop of `split_podman_args` has kept so far. -/
def SplitState.kept (s : SplitState) : Bytes := s.tokens.flatten ++ s.current

theorem SplitState.kept_step {s : SplitState} {b c : UInt8} (h : c ∈ (s.step b).kept) :
    c ∈ s.kept ∨ c = b := by
  unfold SplitState.step at h
  simp only [SplitState.kept, List.mem_append] at h ⊢
  split_ifs at h
  · simpa [or_assoc] using h
  · exact .inl h
  · exact .inl h
  · exact .inl h
  · exact .inl (by simpa using h)
  · exact .inl h
  · simpa [or_assoc] using h

theorem SplitState.kept_foldl {args : Bytes} {s : SplitState} {c : UInt8}
    (h : c ∈ (args.foldl SplitState.step s).kept) : c ∈ s.kept ∨ c ∈ args := by
  induction args generalizing s with
  | nil => exact .inl h
  | cons b args ih =>
      rcases ih h with hstep | hargs
      · rcases SplitState.kept_step hstep with hkept | rfl
        · exact .inl hkept
        · exact .inr List.mem_cons_self
      · exact .inr (List.mem_cons_of_mem b hargs)

theorem SplitState.mem_finish {s : SplitState} {word : Bytes} (h : word ∈ s.finish) :
    word ∈ s.tokens ∨ word = s.current ∨ word = s.current ++ [ch '\\'] := by
  unfold SplitState.finish at h
  cases hesc : s.escaped with
  | false =>
      by_cases hcur : s.current = []
      · rw [hesc] at h
        exact .inl (by simpa [hcur] using h)
      · have hmem : word ∈ s.tokens ++ [s.current] := by simpa [hesc, hcur] using h
        rw [List.mem_append, List.mem_singleton] at hmem
        exact hmem.imp_right .inl
  | true =>
      have hmem : word ∈ s.tokens ++ [s.current ++ [ch '\\']] := by simpa [hesc] using h
      rw [List.mem_append, List.mem_singleton] at hmem
      exact hmem.imp_right .inr

/-- The words of a value are made of its bytes. -/
theorem mem_of_mem_splitPodmanArgs {args word : Bytes} {c : UInt8}
    (hword : word ∈ splitPodmanArgs args) (hc : c ∈ word) (hne : c ≠ ch '\\') : c ∈ args := by
  have hkept : c ∈ (args.foldl SplitState.step {}).kept := by
    rw [SplitState.kept, List.mem_append, List.mem_flatten]
    rcases SplitState.mem_finish hword with htokens | rfl | rfl
    · exact .inl ⟨word, htokens, hc⟩
    · exact .inr hc
    · simp only [List.mem_append, List.mem_singleton, hne, or_false] at hc
      exact .inr hc
  rcases SplitState.kept_foldl hkept with h | h
  · simp [SplitState.kept] at h
  · exact h

/-- The keys that reach into the host, with the options of the same effect. -/
def hostKeys : List (Bytes × Bytes) :=
  [("Network", "--network"), ("Network", "--net"), ("PID", "--pid"), ("UserNS", "--userns"),
    ("Device", "--device"), ("AddDevice", "--device"), ("Volume", "--volume"), ("Volume", "-v"),
    ("Mount", "--mount"), ("Rootfs", "--rootfs")]

/-- A key with a value, and the option and its value that ask for the same access. -/
inductive HostAccess : Bytes → Bytes → Bytes → Bytes → Prop
  | sameValue {key option : Bytes} (value : Bytes) (h : (key, option) ∈ hostKeys) :
      HostAccess key value option value
  | ipcHost {value : Bytes} (h : truthy value = true) :
      HostAccess "IPCHost" value "--ipc" "host"

/-- The ways to write an option with a value, as lists of words. -/
def optionWords (option word : Bytes) : List (List Bytes) :=
  [[option, word], [option ++ ch '=' :: word]]

/-- A text with an assignment below `[Container]` between the lines `above` and `below`. -/
def AssignsAt (above below : List Bytes) (contents key value : Bytes) : Prop :=
  sectionAfter none above = some "Container" ∧
    ∃ line, contents.splitOn (ch '\n') = above ++ line :: below ∧
      readLine line = some (.assignment key value)

section

variable {above below : List Bytes} {contents contents₀ key key₀ value value₀ : Bytes}
variable {policy : QuadletPolicy}

theorem AssignsAt.trim_value (h : AssignsAt above below contents key value) :
    trim value = value := by
  obtain ⟨-, line, -, hline⟩ := h
  exact trim_of_readLine hline

/-- A line that assigns to a key which is allowed has a NUL byte exactly if its value has one. -/
theorem nul_mem_line_iff {line : Bytes} (hline : readLine line = some (.assignment key value))
    (hallowed : KeyAllowed "Container" key) : 0 ∈ line ↔ 0 ∈ value := by
  have hkeyNul : 0 ∉ key := by
    have hall : ∀ e ∈ allowedKeys, ∀ k ∈ e.2, 0 ∉ k := by decide
    obtain ⟨keys, hmem, hk⟩ := hallowed
    exact hall _ hmem key hk
  rw [mem_of_readLine hline (by decide) (by decide), or_iff_right hkeyNul]

/-- The NUL bytes of a text, when those of another one are known that differs in one line. -/
theorem nul_mem_iff_of_lines {line₀ line : Bytes} (hnul₀ : 0 ∉ contents₀)
    (hlines₀ : contents₀.splitOn (ch '\n') = above ++ line₀ :: below)
    (hlines : contents.splitOn (ch '\n') = above ++ line :: below) :
    0 ∈ contents ↔ 0 ∈ line := by
  have hne : (0 : UInt8) ≠ ch '\n' := by decide
  have hothers : ∀ l ∈ above ++ below, 0 ∉ l := by
    intro l hl h0
    refine hnul₀ ((mem_splitOn hne contents₀).2 ⟨l, ?_, h0⟩)
    rw [hlines₀]
    simp only [List.mem_append, List.mem_cons] at hl ⊢
    tauto
  rw [mem_splitOn hne, hlines]
  constructor
  · rintro ⟨l, hl, h0⟩
    by_cases heq : l = line
    · rwa [← heq]
    · refine absurd h0 (hothers l ?_)
      simpa [heq] using hl
  · exact fun h0 => ⟨line, by simp, h0⟩

/-- **Two texts that differ in one assignment**: when one of them is accepted, the other one is
exactly when its own assignment is allowed. -/
theorem accepted_exchange {fileName : Bytes}
    (hok : validateQuadletPolicy ⟨fileName, contents₀⟩ policy = .ok ())
    (h₀ : AssignsAt above below contents₀ key₀ value₀)
    (h : AssignsAt above below contents key value)
    (hkey₀ : key₀ ≠ "Image" ∧ key₀ ≠ "Label") (hkey : key ≠ "Image" ∧ key ≠ "Label")
    (hallowed : KeyAllowed "Container" key) :
    validateQuadletPolicy ⟨fileName, contents⟩ policy = .ok () ↔
      0 ∉ value ∧ ContainerRule policy key value := by
  obtain ⟨hname, -, hnul₀, as, has, hpolicy⟩ :=
    (validateQuadletPolicy_iff_acceptable _ policy).1 hok
  obtain ⟨hsec, line₀, hlines₀, hline₀⟩ := h₀
  obtain ⟨-, line, hlines, hline⟩ := h
  simp only [readText, hlines₀] at has
  obtain ⟨name, as₁, as₂, hname₀, habove, hbelow, rfl⟩ := (readLines_assignment hline₀).1 has
  obtain rfl : ofString "Container" = name := by
    rw [hsec] at hname₀
    exact Option.some.inj hname₀
  have htext : readText contents = some (as₁ ++ ⟨"Container", key, value⟩ :: as₂) := by
    rw [readText, hlines, readLines_assignment hline]
    exact ⟨_, as₁, as₂, hsec, habove, hbelow, rfl⟩
  -- the other lines are the same, and no NUL was in them
  have hnul : 0 ∈ contents ↔ 0 ∈ value :=
    (nul_mem_iff_of_lines hnul₀ hlines₀ hlines).trans (nul_mem_line_iff hline hallowed)
  have hne : contents ≠ [] := by
    rintro rfl
    have hlen : above = [] ∧ line = [] ∧ below = [] := by
      cases above with
      | nil => simpa [eq_comm] using hlines
      | cons l above => simp at hlines
    rw [hlen.2.1] at hline
    simp [readLine] at hline
  rw [validateQuadletPolicy_iff_acceptable]
  constructor
  · rintro ⟨-, -, h0, as', has', hpolicy'⟩
    obtain rfl : _ = as' := Option.some.inj (htext.symm.trans has')
    exact ⟨fun h => h0 (hnul.2 h), (hpolicy.exchange rfl hkey₀.1 hkey₀.2 hkey.1 hkey.2 hallowed).1
      hpolicy'⟩
  · rintro ⟨h0, hrule⟩
    exact ⟨hname, hne, fun h => h0 (hnul.1 h), _, htext,
      (hpolicy.exchange rfl hkey₀.1 hkey₀.2 hkey.1 hkey.2 hallowed).2 hrule⟩

/-- For `PodmanArgs`, where the policy allows the key, only the words decide. -/
theorem containerRule_podmanArgs (hpolicy : policy.allowPodmanArgs = true) :
    ContainerRule policy "PodmanArgs" value ↔ deniedPodmanArg value policy = false := by
  constructor
  · exact fun h => (h.podmanArgs rfl).2
  · intro hargs
    exact
      { network := fun h => absurd h (by decide)
        pid := fun h => absurd h (by decide)
        userNS := fun h => absurd h (by decide)
        ipcHost := fun h => absurd h (by decide)
        device := fun h => absurd h (by decide)
        rootfs := fun h => absurd h (by decide)
        volume := fun h => absurd h (by decide)
        mount := fun h => absurd h (by decide)
        podmanArgs := fun _ => ⟨hpolicy, hargs⟩ }

/-- Why an assignment to one of the keys for host access is not allowed. -/
theorem not_containerRule (h : ¬ ContainerRule policy key value) (hkey : key ≠ "PodmanArgs") :
    (key = "Network" ∧ policy.allowHostNetwork = false ∧ lower (trim value) = "host") ∨
    (key = "PID" ∧ policy.allowHostPid = false ∧ lower (trim value) = "host") ∨
    (key = "UserNS" ∧ policy.allowHostUserns = false ∧ lower (trim value) = "host") ∨
    (key = "IPCHost" ∧ policy.allowHostIpc = false) ∨
    ((key = "Device" ∨ key = "AddDevice") ∧ policy.allowDevices = false) ∨
    ((key = "Rootfs" ∨ key = "Volume" ∨ key = "Mount") ∧ policy.allowRootMount = false) := by
  by_contra hnot
  simp only [not_or, not_and] at hnot
  obtain ⟨network, pid, userNS, ipcHost, device, mount⟩ := hnot
  exact h
    { network := network
      pid := pid
      userNS := userNS
      ipcHost := fun hk hp => absurd hp (ipcHost hk)
      device := fun hk hp => absurd hp (device hk)
      rootfs := fun hk hp => absurd hp (mount (.inl hk))
      volume := fun hk hp => absurd hp (mount (.inr (.inl hk)))
      mount := fun hk hp => absurd hp (mount (.inr (.inr hk)))
      podmanArgs := fun hk => absurd hk hkey }

variable {option word : Bytes} {pre words post : List Bytes}

/-- An option that the policy does not allow with the value `host` is denied with it. -/
theorem deniedWords_hostOption (hoption : (option, false) ∈ hostOptions policy)
    (hword : isHost word = true) (hwords : words ∈ optionWords option word) :
    deniedWords policy (pre ++ words ++ post) = true := by
  have hlower : ∀ o ∈ hostOptions policy, lower o.1 = o.1 := by
    intro o ho
    simp only [hostOptions, List.mem_cons, List.not_mem_nil, or_false] at ho
    rcases ho with rfl | rfl | rfl | rfl | rfl <;> rfl
  simp only [optionWords, List.mem_cons, List.not_mem_nil, or_false] at hwords
  rcases hwords with rfl | rfl
  · have hsplit : pre ++ [option, word] ++ post = (pre ++ [option]) ++ (word :: post) := by simp
    have hawaits : awaitsHost policy option = true := by
      rw [awaitsHost, List.any_eq_true]
      exact ⟨_, hoption, by simp [hlower _ hoption]⟩
    rw [hsplit, deniedWords_append]
    exact .inr (.inr ⟨⟨option, by simp, hawaits⟩, word, rfl, hword⟩)
  · have hvalue : ∀ next, tokenHasValue (option ++ ch '=' :: word) next option "host" = true := by
      intro next
      have hhost : lower word = "host" := beq_iff_eq.1 hword
      rw [tokenHasValue, optionValue, startsWithOptionAssignment_equals]
      have hne : ofString "host" ≠ [] := by decide
      simp [hhost, show lower ("host" : Bytes) = "host" by decide, hne]
    refine deniedWords_of_mem (show option ++ ch '=' :: word ∈ _ by simp) fun next => ?_
    rw [deniedWord, if_neg (by simp)]
    simp only [hostOptions, List.mem_cons, Prod.mk.injEq, List.not_mem_nil, or_false] at hoption
    rcases hoption with ⟨rfl, h⟩ | ⟨rfl, h⟩ | ⟨rfl, h⟩ | ⟨rfl, h⟩ | ⟨rfl, h⟩ <;>
      simp [hvalue, ← h]

/-- An option that the policy does not allow with any value is denied in both spellings. -/
theorem deniedWords_option (hlower : lower option = option)
    (hdenied : ∀ part next, namesOption part option = true → deniedWord policy part next = true)
    (hwords : words ∈ optionWords option word) :
    deniedWords policy (pre ++ words ++ post) = true := by
  simp only [optionWords, List.mem_cons, List.not_mem_nil, or_false] at hwords
  rcases hwords with rfl | rfl
  · refine deniedWords_of_mem (show option ∈ _ by simp) fun next => ?_
    exact hdenied option next (namesOption_self hlower)
  · refine deniedWords_of_mem (show option ++ ch '=' :: word ∈ _ by simp) fun next => ?_
    exact hdenied _ next (namesOption_equals option hlower word)

theorem HostAccess.key_mem (hpair : HostAccess key value option word) :
    key = "IPCHost" ∨ key ∈ hostKeys.map Prod.fst := by
  cases hpair with
  | sameValue value h => exact .inr (List.mem_map_of_mem h)
  | ipcHost h => exact .inl rfl

/-- A key that is not allowed with its value is denied as an option, unless it is the key for
another root file system. -/
theorem deniedWords_of_hostAccess (hpair : HostAccess key value option word)
    (htrim : trim value = value) (hrule : ¬ ContainerRule policy key value)
    (hrootfs : option ≠ "--rootfs") (hwords : words ∈ optionWords option word) :
    deniedWords policy (pre ++ words ++ post) = true := by
  cases hpair with
  | ipcHost htruthy =>
      have hpolicy : policy.allowHostIpc = false := by
        rcases not_containerRule hrule (by decide) with h | h | h | h | h | h
        · exact absurd h.1 (by decide)
        · exact absurd h.1 (by decide)
        · exact absurd h.1 (by decide)
        · exact h.2
        · exact absurd h.1 (by decide)
        · exact absurd h.1 (by decide)
      exact deniedWords_hostOption (by simp [hostOptions, hpolicy]) (by decide) hwords
  | sameValue value hmem =>
      -- which options stand for a key with the same value
      have hkeys : ∀ e ∈ hostKeys, e.1 ≠ "PodmanArgs" ∧ e.1 ≠ "IPCHost" ∧
          (e.1 = "Network" → e.2 = "--network" ∨ e.2 = "--net") ∧ (e.1 = "PID" → e.2 = "--pid") ∧
          (e.1 = "UserNS" → e.2 = "--userns") ∧
          (e.1 = "Device" ∨ e.1 = "AddDevice" → e.2 = "--device") ∧
          (e.1 = "Rootfs" ∨ e.1 = "Volume" ∨ e.1 = "Mount" →
            e.2 = "--rootfs" ∨ e.2 = "-v" ∨ e.2 = "--volume" ∨ e.2 = "--mount") := by decide
      obtain ⟨hargs, hipc, hnetwork, hpid, huserNS, hdevice, hmount⟩ := hkeys _ hmem
      have hhost : lower (trim value) = "host" → isHost value = true := by
        intro h
        rw [htrim] at h
        exact beq_iff_eq.2 h
      rcases not_containerRule hrule hargs with h | h | h | h | h | h
      · refine deniedWords_hostOption ?_ (hhost h.2.2) hwords
        rcases hnetwork h.1 with ho | ho <;> dsimp only at ho <;> simp [hostOptions, ho, h.2.1]
      · have ho := hpid h.1
        dsimp only at ho
        exact deniedWords_hostOption (by simp [hostOptions, ho, h.2.1]) (hhost h.2.2) hwords
      · have ho := huserNS h.1
        dsimp only at ho
        exact deniedWords_hostOption (by simp [hostOptions, ho, h.2.1]) (hhost h.2.2) hwords
      · exact absurd h.1 hipc
      · obtain rfl : option = "--device" := hdevice h.1
        refine deniedWords_option (by decide) (fun part next hnames => ?_) hwords
        have hne : part ≠ [] := by
          rintro rfl
          exact absurd hnames (by decide)
        simp [deniedWord, hne, hnames, h.2]
      · rcases hmount h.1 with ho | rfl | rfl | rfl
        · exact absurd ho hrootfs
        · exact deniedWords_option (by decide)
            (fun part next hnames => deniedWord_of_namesMount h.2 (.inl hnames)) hwords
        · exact deniedWords_option (by decide)
            (fun part next hnames => deniedWord_of_namesMount h.2 (.inr (.inl hnames))) hwords
        · exact deniedWords_option (by decide)
            (fun part next hnames => deniedWord_of_namesMount h.2 (.inr (.inr hnames))) hwords

/-- The option for another root file system decides nothing. -/
theorem deniedWords_rootfs (hwords : words ∈ optionWords "--rootfs" word) :
    deniedWords policy (pre ++ words ++ post) = true ↔
      deniedWords policy pre = true ∨ deniedWords policy (words.tail ++ post) = true := by
  have hword : ∀ rest next, deniedWord policy (ofString "--rootfs" ++ rest) next = false :=
    fun rest next => deniedWord_of_apart (by decide) (by decide) (by decide) (by decide)
  have hhost : ∀ rest, isHost (ofString "--rootfs" ++ rest) = false := by
    intro rest
    have hne : ofString "--rootfs" ++ lower rest ≠ "host" :=
      Apart.ne (show Apart (ofString "--rootfs") "host" by decide)
    rw [isHost, lower_append]
    exact beq_false_of_ne hne
  simp only [optionWords, List.mem_cons, List.not_mem_nil, or_false] at hwords
  rcases hwords with rfl | rfl
  · rw [List.append_assoc, List.cons_append]
    exact deniedWords_insert (hword []) (hhost [])
  · rw [List.append_assoc, List.cons_append]
    exact deniedWords_insert (hword (ch '=' :: word)) (hhost (ch '=' :: word))

theorem truthy_noNul (h : truthy value = true) : 0 ∉ value := by
  intro h0
  have hmem : (0 : UInt8) ∈ lower (trim value) :=
    List.mem_map.2 ⟨0, (mem_trim_iff (by decide)).2 h0, rfl⟩
  simp only [truthy, Bool.or_eq_true, beq_iff_eq] at h
  rcases h with ((h | h) | h) | h <;> rw [h] at hmem <;> exact absurd hmem (by decide)

/-- A NUL byte in the value of the key is one in the value of the option. -/
theorem nul_mem_args {args : Bytes} (hpair : HostAccess key value option word) (h0 : 0 ∈ value)
    (hargs : splitPodmanArgs args = pre ++ words ++ post)
    (hwords : words ∈ optionWords option word) :
    0 ∈ args := by
  cases hpair with
  | ipcHost htruthy => exact absurd h0 (truthy_noNul htruthy)
  | sameValue value hmem =>
      simp only [optionWords, List.mem_cons, List.not_mem_nil, or_false] at hwords
      rcases hwords with rfl | rfl
      · exact mem_of_mem_splitPodmanArgs (show value ∈ _ by simp [hargs]) h0 (by decide)
      · have hmem : option ++ ch '=' :: value ∈ splitPodmanArgs args := by simp [hargs]
        exact mem_of_mem_splitPodmanArgs hmem (by simp [h0]) (by decide)

/-- **When an option is rejected where its key is**: always, but for `--rootfs`, which is rejected
only for something else in the value. -/
theorem podmanArgs_counterpart_iff {fileName args contents' : Bytes}
    (hpolicy : policy.allowPodmanArgs = true) (hpair : HostAccess key value option word)
    (h : AssignsAt above below contents key value)
    (hrejected : validateQuadletPolicy ⟨fileName, contents⟩ policy ≠ .ok ())
    (h₀ : AssignsAt above below contents₀ key value₀)
    (hok : validateQuadletPolicy ⟨fileName, contents₀⟩ policy = .ok ())
    (h' : AssignsAt above below contents' "PodmanArgs" args)
    (hargs : splitPodmanArgs args = pre ++ words ++ post)
    (hwords : words ∈ optionWords option word) :
    validateQuadletPolicy ⟨fileName, contents'⟩ policy ≠ .ok () ↔
      option ≠ "--rootfs" ∨ 0 ∈ args ∨ deniedWords policy pre = true ∨
        deniedWords policy (words.tail ++ post) = true := by
  have hkey : (key ≠ "Image" ∧ key ≠ "Label") ∧ KeyAllowed "Container" key := by
    have hall : ∀ key ∈ ofString "IPCHost" :: hostKeys.map Prod.fst,
        (key ≠ "Image" ∧ key ≠ "Label") ∧ ∃ e ∈ allowedKeys, e.1 = "Container" ∧ key ∈ e.2 := by
      decide
    obtain ⟨hne, ⟨sec, keys⟩, he, rfl, hmem⟩ := hall key (List.mem_cons.2 hpair.key_mem)
    exact ⟨hne, keys, he, hmem⟩
  have hargsKey : KeyAllowed "Container" "PodmanArgs" := by
    have hall : ∃ e ∈ allowedKeys, e.1 = "Container" ∧ ofString "PodmanArgs" ∈ e.2 := by decide
    obtain ⟨⟨sec, keys⟩, he, rfl, hmem⟩ := hall
    exact ⟨keys, he, hmem⟩
  rw [Ne, accepted_exchange hok h₀ h' hkey.1 (by decide) hargsKey,
    containerRule_podmanArgs hpolicy, deniedPodmanArg, hargs, not_and_or, not_not,
    Bool.not_eq_false]
  by_cases hrootfs : option = "--rootfs"
  · subst hrootfs
    rw [deniedWords_rootfs hwords]
    simp
  · -- what the key was refused for, the option is refused for too
    have hdenied : 0 ∈ args ∨ deniedWords policy (pre ++ words ++ post) = true := by
      rw [Ne, accepted_exchange hok h₀ h hkey.1 hkey.1 hkey.2, not_and_or, not_not] at hrejected
      rcases hrejected with h0 | hrule
      · exact .inl (nul_mem_args hpair h0 hargs hwords)
      · exact .inr (deniedWords_of_hostAccess hpair h.trim_value hrule hrootfs hwords)
    simp only [hdenied, hrootfs, ne_eq, not_false_eq_true, true_or]

end

/-- A managed Quadlet whose last line is `line`. -/
def lastLineText (line : Bytes) : Bytes :=
  ofString "[Container]\nImage=busybox\nLabel=com.example.pod-installer.managed=true\n" ++ line

/-- The lines above the last one. -/
def lastLineAbove : List Bytes :=
  ["[Container]", "Image=busybox", "Label=com.example.pod-installer.managed=true"]

theorem lastLineText_assigns {line key value : Bytes} (hnl : ch '\n' ∉ line)
    (hline : readLine line = some (.assignment key value)) :
    AssignsAt lastLineAbove [] (lastLineText line) key value := by
  refine ⟨by decide, line, ?_, hline⟩
  obtain ⟨block, rest, hs, hlast⟩ := exists_splitOn_append_right hnl
    "[Container]\nImage=busybox\nLabel=com.example.pod-installer.managed=true\n"
  have hlines : (ofString
      "[Container]\nImage=busybox\nLabel=com.example.pod-installer.managed=true\n").splitOn
        (ch '\n') = lastLineAbove ++ [[]] := by decide
  rw [hlines] at hs
  obtain ⟨rfl, hnil⟩ := List.append_inj' hs rfl
  obtain rfl : rest = [] := (List.cons.inj hnil).1.symm
  simpa [lastLineText] using hlast

/-- The host network, as a key and as an option among others. -/
theorem podmanArgs_counterpart_network :
    validateQuadletPolicy
        ⟨"web.container", lastLineText "PodmanArgs=--tty --network=host -d"⟩ podmanArgsPolicy
          ≠ .ok () ↔
      ofString "--network" ≠ "--rootfs" ∨ 0 ∈ ofString "--tty --network=host -d" ∨
        deniedWords podmanArgsPolicy ["--tty"] = true ∨
        deniedWords podmanArgsPolicy ([ofString "--network=host"].tail ++ [ofString "-d"]) =
          true := by
  have hpair : HostAccess "Network" "host" "--network" "host" := .sameValue "host" (by decide)
  have h : AssignsAt lastLineAbove [] (lastLineText "Network=host") "Network" "host" :=
    lastLineText_assigns (by decide) (by decide)
  have h₀ : AssignsAt lastLineAbove [] (lastLineText "Network=bridge") "Network" "bridge" :=
    lastLineText_assigns (by decide) (by decide)
  have h' : AssignsAt lastLineAbove [] (lastLineText "PodmanArgs=--tty --network=host -d")
      "PodmanArgs" "--tty --network=host -d" := lastLineText_assigns (by decide) (by decide)
  exact podmanArgs_counterpart_iff rfl hpair h (by decide +kernel) h₀ (by decide +kernel) h'
    (by decide) (by decide)

/-- Another root file system is rejected as a key and accepted as an option. -/
theorem rootfs_option_accepted :
    podmanArgsPolicy.allowPodmanArgs = true ∧
      HostAccess "Rootfs" "/srv" "--rootfs" "/srv" ∧
      AssignsAt lastLineAbove [] (lastLineText "Rootfs=/srv") "Rootfs" "/srv" ∧
      validateQuadletPolicy ⟨"web.container", lastLineText "Rootfs=/srv"⟩ podmanArgsPolicy
        ≠ .ok () ∧
      AssignsAt lastLineAbove [] (lastLineText "Rootfs=") "Rootfs" [] ∧
      validateQuadletPolicy ⟨"web.container", lastLineText "Rootfs="⟩ podmanArgsPolicy = .ok () ∧
      AssignsAt lastLineAbove [] (lastLineText "PodmanArgs=--rootfs /srv") "PodmanArgs"
        "--rootfs /srv" ∧
      splitPodmanArgs "--rootfs /srv" = [] ++ [ofString "--rootfs", ofString "/srv"] ++ [] ∧
      [ofString "--rootfs", ofString "/srv"] ∈ optionWords "--rootfs" "/srv" ∧
      validateQuadletPolicy ⟨"web.container", lastLineText "PodmanArgs=--rootfs /srv"⟩
        podmanArgsPolicy = .ok () := by
  refine ⟨rfl, .sameValue _ (by decide), lastLineText_assigns (by decide) (by decide),
    by decide +kernel, lastLineText_assigns (by decide) (by decide), by decide +kernel,
    lastLineText_assigns (by decide) (by decide), by decide, by decide, by decide +kernel⟩

end PodInstaller
