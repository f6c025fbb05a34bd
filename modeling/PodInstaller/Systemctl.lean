/-
**The command lines of systemctl.**

The controllers for the systemd managers run `systemctl`.  This module is about the words that they
pass to it and about the text that it prints: what a policy for the slice of a user becomes, what
becomes of a command to the manager of a user, and how the status of a unit is read.

A process gets its words as C strings, so that what counts is what is left of them in front of their
first NUL byte.  `systemctl` takes the words that start with a dash for options, wherever they
stand.

Main definitions:

* `PodInstaller.UserSlicePolicy`, `PodInstaller.validateUserSlicePolicy`,
  `PodInstaller.buildSystemctlSetPropertyArgs` — the policy of a slice and its words;
* `PodInstaller.buildSystemctlUserArgs` — a command to the manager of a user;
* `PodInstaller.parseShowStatus` — the status of a unit;
* `PodInstaller.readCommand`, `PodInstaller.readPolicy` — what the words say;
* `PodInstaller.lastValue` — what lines say about a property.

Main results:

* `PodInstaller.readPolicy_setProperty` — **a policy can be read back** from its words;
* `PodInstaller.parseShowStatus_eq` — the last line about a property counts;
* `PodInstaller.parseShowStatus_render` — a status that is printed is read back.
-/

import PodInstaller.DerivedNames
import PodInstaller.Json

set_option relaxedAutoImplicit false
set_option autoImplicit false

namespace PodInstaller

open Bytes

/-! ### The policy of a slice -/

/-- `safe_systemd_value`. -/
def safeSystemdValue (value : Bytes) : Bool :=
  !value.isEmpty && value.all fun c => !(c < 0x20 || c == 0x7f)

/-- `UserSlicePolicy`. -/
structure UserSlicePolicy where
  uid : UInt32
  cpuQuota : Option Bytes := none
  cpuWeight : Option UInt64 := none
  memoryMax : Option Bytes := none
  tasksMax : Option UInt64 := none
  allowedCpus : Option Bytes := none
  deriving DecidableEq

/-- `validate_user_slice_policy`. -/
def validateUserSlicePolicy (policy : UserSlicePolicy) : Result Unit := do
  reject (policy.cpuQuota = none ∧ policy.cpuWeight = none ∧ policy.memoryMax = none ∧
      policy.tasksMax = none ∧ policy.allowedCpus = none)
    (makeError .policy "user slice policy contains no properties")
  reject (∃ value ∈ policy.cpuQuota, safeSystemdValue value = false)
    (makeError .policy "CPUQuota value is empty or contains control chars")
  reject (∃ weight ∈ policy.cpuWeight, weight < 1 ∨ 10000 < weight)
    (makeError .policy "CPUWeight must be between 1 and 10000")
  reject (∃ value ∈ policy.memoryMax, safeSystemdValue value = false)
    (makeError .policy "MemoryMax value is empty or contains control chars")
  reject (∃ tasks ∈ policy.tasksMax, tasks = 0)
    (makeError .policy "TasksMax must be positive")
  reject (∃ value ∈ policy.allowedCpus, safeSystemdValue value = false)
    (makeError .policy "AllowedCPUs value is empty or contains control chars")

/-- `name=value`. -/
def assign (name value : Bytes) : Bytes := name ++ ch '=' :: value

/-- An assignment, if there is a value. -/
def assignment (name : Bytes) (value : Option Bytes) : List Bytes :=
  (value.map (assign name)).toList

/-- `std::to_string` of a number of the policy. -/
def numberText (n : UInt64) : Bytes := decimal n.toNat

/-- The name of the slice of a user. -/
def sliceName (uid : UInt32) : Bytes := ofString "user-" ++ uidString uid ++ ofString ".slice"

/-- The assignments of a policy. -/
def UserSlicePolicy.assignments (policy : UserSlicePolicy) : List Bytes :=
  assignment "CPUQuota" policy.cpuQuota ++
    assignment "CPUWeight" (policy.cpuWeight.map numberText) ++
    assignment "MemoryMax" policy.memoryMax ++
    assignment "TasksMax" (policy.tasksMax.map numberText) ++
    assignment "AllowedCPUs" policy.allowedCpus

/-- `build_systemctl_set_property_args`. -/
def buildSystemctlSetPropertyArgs (policy : UserSlicePolicy) : Result (List Bytes) := do
  validateUserSlicePolicy policy
  return [ofString "systemctl", ofString "set-property", ofString "--runtime",
    sliceName policy.uid] ++ policy.assignments

/-! ### Commands to the manager of a user -/

/-- A unit name, if there is one, is checked. -/
def checkUnit : Option Bytes → Result Unit
  | some unit => validateSystemdUnitName unit
  | none => .ok ()

/-- The word that names the manager of a user. -/
def machineArg (userName : Bytes) : Bytes := ofString "--machine=" ++ userName ++ ofString "@.host"

/-- The words of a command to the manager of a user. -/
def userWords (userName command : Bytes) (unit : Option Bytes) : List Bytes :=
  [ofString "systemctl", ofString "--user", machineArg userName, command] ++ unit.toList

/-- `build_systemctl_user_args`. -/
def buildSystemctlUserArgs (target : PodmanTarget) (command : Bytes) (unit : Option Bytes := none) :
    Result (List Bytes) := do
  reject (target.userName = [])
    (makeError .invalidArgument "systemctl user commands require target user_name")
  reject (safeSystemdValue command = false)
    (makeError .invalidArgument "invalid systemctl command")
  checkUnit unit
  return userWords target.userName command unit

/-! ### The status of a unit -/

/-- What `parse_show_status` does with a line. -/
def showLine (status : UnitStatus) (line : Bytes) : UnitStatus :=
  if ch '=' ∉ line then status
  else
    let key := before (ch '=') line
    let value := after (ch '=') line
    if key = ofString "LoadState" then { status with loadState := value }
    else if key = ofString "ActiveState" then { status with activeState := value }
    else if key = ofString "SubState" then { status with subState := value }
    else status

/-- `parse_show_status`. -/
def parseShowStatus (unit output : Bytes) : UnitStatus :=
  (pieces (ch '\n') output).foldl showLine { unit := unit }

/-! ### What the words say -/

/-- A word that `systemctl` takes for an option. -/
def isOption (word : Bytes) : Bool := word.head? == some (ch '-')

/-- The words of a command: its options, and the rest. -/
structure CommandLine where
  options : List Bytes
  arguments : List Bytes
  deriving DecidableEq

/-- What `systemctl` makes of the words that follow its own name. -/
def readCommand (words : List Bytes) : CommandLine :=
  ⟨words.tail.filter isOption, words.tail.filter fun word => !isOption word⟩

/-- The value that is assigned to a property. -/
def readProperty (assignments : List Bytes) (name : Bytes) : Option Bytes :=
  (assignments.find? fun a => before (ch '=') a == name).map (after (ch '='))

/-- The user whose slice has a name. -/
def readSlice (slice : Bytes) : UInt32 :=
  UInt32.ofNat (Json.ofDigits ((slice.drop 5).takeWhile isdigit))

/-- The policy that the words of `systemctl set-property` stand for. -/
def readPolicy (words : List Bytes) : Option UserSlicePolicy :=
  match (readCommand words).arguments with
  | command :: slice :: assignments =>
    if command = ofString "set-property" then
      let number (name : Bytes) : Option UInt64 :=
        (readProperty assignments name).map fun v => UInt64.ofNat (Json.ofDigits v)
      some {
        uid := readSlice slice
        cpuQuota := readProperty assignments "CPUQuota"
        cpuWeight := number "CPUWeight"
        memoryMax := readProperty assignments "MemoryMax"
        tasksMax := number "TasksMax"
        allowedCpus := readProperty assignments "AllowedCPUs" }
    else none
  | _ => none

/-- What lines say about a property: the value in the last one that assigns to it. -/
def lastValue (name : Bytes) (lines : List Bytes) : Bytes :=
  ((lines.filter fun line => decide (ch '=' ∈ line ∧ before (ch '=') line = name)).getLast?.map
    (after (ch '='))).getD []

/-! ### Words without a NUL byte -/

theorem nul_notMem_of_safeSystemdValue {value : Bytes} (h : safeSystemdValue value = true) :
    0 ∉ value := by
  intro hmem
  rw [safeSystemdValue, Bool.and_eq_true, List.all_eq_true] at h
  have hzero := h.2 0 hmem
  revert hzero
  decide

theorem nul_notMem_decimal (n : ℕ) : 0 ∉ decimal n := by
  intro hmem
  have hdigit := digit_of_mem_decimal hmem
  revert hdigit
  decide

theorem map_cStr_eq_self {words : List Bytes} (h : ∀ word ∈ words, 0 ∉ word) :
    words.map cStr = words := by
  rw [List.map_congr_left fun word hword => cStr_eq_self (h word hword), List.map_id']

/-! ### Reading a policy back -/

section

variable {policy : UserSlicePolicy} {args : List Bytes} {name name' : Bytes}

theorem mem_assignment {word : Bytes} {value : Option Bytes} :
    word ∈ assignment name value ↔ ∃ v, value = some v ∧ word = assign name v := by
  cases value <;> simp [assignment]

theorem before_assign (hname : ch '=' ∉ name) (value : Bytes) :
    before (ch '=') (assign name value) = name := before_append_cons hname value

theorem after_assign (hname : ch '=' ∉ name) (value : Bytes) :
    after (ch '=') (assign name value) = value := after_append_cons hname value

theorem mem_assign (name value : Bytes) : ch '=' ∈ assign name value := by simp [assign]

/-- A property among assignments that are made one after another. -/
theorem readProperty_append (as bs : List Bytes) (name : Bytes) :
    readProperty (as ++ bs) name = (readProperty as name).or (readProperty bs name) := by
  rw [readProperty, List.find?_append]
  cases h : as.find? fun a => before (ch '=') a == name <;> simp [readProperty, h]

/-- What one assignment says. -/
theorem readProperty_assignment (hname : ch '=' ∉ name) (value : Option Bytes) :
    readProperty (assignment name value) name' = if name = name' then value else none := by
  cases value with
  | none => simp [assignment, readProperty]
  | some v =>
      have hbefore := before_assign hname v
      have hafter := after_assign hname v
      by_cases hsame : name = name'
      · subst hsame
        simp [assignment, readProperty, hbefore, hafter]
      · simp [assignment, readProperty, hbefore, hsame]

/-- **What the assignments of a policy say.** -/
theorem readProperty_assignments (policy : UserSlicePolicy) :
    readProperty policy.assignments "CPUQuota" = policy.cpuQuota ∧
      readProperty policy.assignments "CPUWeight" = policy.cpuWeight.map numberText ∧
      readProperty policy.assignments "MemoryMax" = policy.memoryMax ∧
      readProperty policy.assignments "TasksMax" = policy.tasksMax.map numberText ∧
      readProperty policy.assignments "AllowedCPUs" = policy.allowedCpus := by
  simp only [UserSlicePolicy.assignments, readProperty_append]
  have h₁ : ch '=' ∉ ofString "CPUQuota" := by decide
  have h₂ : ch '=' ∉ ofString "CPUWeight" := by decide
  have h₃ : ch '=' ∉ ofString "MemoryMax" := by decide
  have h₄ : ch '=' ∉ ofString "TasksMax" := by decide
  have h₅ : ch '=' ∉ ofString "AllowedCPUs" := by decide
  -- the names differ, so that each of them is found in its own place
  simp only [readProperty_assignment h₁, readProperty_assignment h₂, readProperty_assignment h₃,
    readProperty_assignment h₄, readProperty_assignment h₅]
  refine ⟨?_, ?_, ?_, ?_, ?_⟩ <;> simp [ofString]

theorem readSlice_sliceName (uid : UInt32) : readSlice (sliceName uid) = uid := by
  have hdigits : ∀ c ∈ uidString uid, isdigit c = true := fun c hc =>
    isdigit_of_mem_decimal hc
  have hrest : (ofString ".slice").takeWhile isdigit = [] := by decide
  have hdrop : (sliceName uid).drop 5 = uidString uid ++ ofString ".slice" := by
    rw [sliceName, List.append_assoc]
    exact List.drop_left' rfl
  rw [readSlice, hdrop, List.takeWhile_append_of_pos hdigits, hrest, List.append_nil, uidString,
    Json.ofDigits_decimal, UInt32.ofNat_toNat]

theorem ofNat_numberText (n : UInt64) : UInt64.ofNat (Json.ofDigits (numberText n)) = n := by
  rw [numberText, Json.ofDigits_decimal, UInt64.ofNat_toNat]

/-- What an accepted policy is like. -/
theorem validateUserSlicePolicy_eq_ok (h : validateUserSlicePolicy policy = .ok ()) :
    (∀ v, policy.cpuQuota = some v → safeSystemdValue v = true) ∧
      (∀ v, policy.memoryMax = some v → safeSystemdValue v = true) ∧
      ∀ v, policy.allowedCpus = some v → safeSystemdValue v = true := by
  simp only [validateUserSlicePolicy, bind_eq_ok, reject_eq_ok] at h
  obtain ⟨-, -, -, hquota, -, -, -, hmemory, -, -, hcpus⟩ := h
  refine ⟨fun v hv => ?_, fun v hv => ?_, fun v hv => ?_⟩
  · exact Bool.of_not_eq_false fun hfalse => hquota ⟨v, hv, hfalse⟩
  · exact Bool.of_not_eq_false fun hfalse => hmemory ⟨v, hv, hfalse⟩
  · exact Bool.of_not_eq_false fun hfalse => hcpus ⟨v, hv, hfalse⟩

/-- An assignment starts with its name. -/
theorem not_isOption_assignment {c : UInt8} {rest : Bytes} (hname : name = c :: rest)
    (hc : c ≠ ch '-') {word : Bytes} {value : Option Bytes} (h : word ∈ assignment name value) :
    isOption word = false := by
  obtain ⟨v, -, rfl⟩ := mem_assignment.1 h
  rw [hname]
  simpa [isOption, assign] using hc

/-- The assignments of an accepted policy are C strings, and no options. -/
theorem assignments_plain (h : validateUserSlicePolicy policy = .ok ()) :
    ∀ word ∈ policy.assignments, 0 ∉ word ∧ isOption word = false := by
  obtain ⟨hquota, hmemory, hcpus⟩ := validateUserSlicePolicy_eq_ok h
  have hnul : ∀ {name v : Bytes}, 0 ∉ name → 0 ∉ v → 0 ∉ name ++ ch '=' :: v := by
    intro name v hname hv hmem
    rcases List.mem_append.1 hmem with hmem | hmem
    · exact hname hmem
    · rcases List.mem_cons.1 hmem with heq | hmem
      · revert heq
        decide
      · exact hv hmem
  have hvalue : ∀ {name c rest} {value : Option Bytes}, name = c :: rest → c ≠ ch '-' →
      0 ∉ name → (∀ v, value = some v → 0 ∉ v) →
      ∀ word ∈ assignment name value, 0 ∉ word ∧ isOption word = false := by
    intro name c rest value hname hc hno hv word hword
    refine ⟨?_, not_isOption_assignment hname hc hword⟩
    obtain ⟨v, hsome, rfl⟩ := mem_assignment.1 hword
    exact hnul hno (hv v hsome)
  have hnumber : ∀ {n : Option UInt64} (v), n.map numberText = some v → 0 ∉ v := by
    intro n v hv
    obtain ⟨m, -, rfl⟩ := Option.map_eq_some_iff.1 hv
    exact nul_notMem_decimal _
  have hsafe : ∀ {value : Option Bytes}, (∀ v, value = some v → safeSystemdValue v = true) →
      ∀ v, value = some v → 0 ∉ v := fun h v hv => nul_notMem_of_safeSystemdValue (h v hv)
  simp only [UserSlicePolicy.assignments, List.forall_mem_append]
  refine ⟨⟨⟨⟨?_, ?_⟩, ?_⟩, ?_⟩, ?_⟩
  · exact hvalue rfl (by decide) (by decide) (hsafe hquota)
  · exact hvalue rfl (by decide) (by decide) hnumber
  · exact hvalue rfl (by decide) (by decide) (hsafe hmemory)
  · exact hvalue rfl (by decide) (by decide) hnumber
  · exact hvalue rfl (by decide) (by decide) (hsafe hcpus)

/-- The words of a policy, as the process gets them. -/
theorem setProperty_words (h : buildSystemctlSetPropertyArgs policy = .ok args) :
    args.map cStr = args ∧ readCommand args = ⟨[ofString "--runtime"],
      ofString "set-property" :: sliceName policy.uid :: policy.assignments⟩ := by
  obtain ⟨u, hvalid, hargs⟩ := bind_eq_ok.1 h
  obtain rfl := Except.ok.inj hargs
  have hplain := assignments_plain hvalid
  have hslice : 0 ∉ sliceName policy.uid := by
    have h₁ : 0 ∉ ofString "user-" := by decide
    have h₂ : 0 ∉ ofString ".slice" := by decide
    simp [sliceName, h₁, h₂, nul_notMem_uidString]
  constructor
  · refine map_cStr_eq_self ?_
    rw [List.forall_mem_append]
    refine ⟨?_, fun word hword => (hplain word hword).1⟩
    simp only [List.forall_mem_cons, List.not_mem_nil, false_imp_iff, implies_true, and_true]
    exact ⟨by decide, by decide, by decide, hslice⟩
  · have hnone : policy.assignments.filter isOption = [] := by
      rw [List.filter_eq_nil_iff]
      intro word hword
      simp [(hplain word hword).2]
    have hall : policy.assignments.filter (fun word => !isOption word) = policy.assignments := by
      rw [List.filter_eq_self]
      intro word hword
      simp [(hplain word hword).2]
    have h₁ : isOption (ofString "set-property") = false := by decide
    have h₂ : isOption (ofString "--runtime") = true := by decide
    have h₃ : isOption (sliceName policy.uid) = false := rfl
    simp [readCommand, h₁, h₂, h₃, hnone, hall]

/-- **A policy can be read back** from the words that are built for it. -/
theorem readPolicy_setProperty (h : buildSystemctlSetPropertyArgs policy = .ok args) :
    readPolicy (args.map cStr) = some policy := by
  obtain ⟨hself, hwords⟩ := setProperty_words h
  obtain ⟨hquota, hweight, hmemory, htasks, hcpus⟩ := readProperty_assignments policy
  have hnumber : ∀ n : Option UInt64,
      (n.map numberText).map (fun v => UInt64.ofNat (Json.ofDigits v)) = n := by
    intro n
    cases n with
    | none => rfl
    | some n => simp [ofNat_numberText]
  rw [hself, readPolicy, hwords]
  simp only [if_true, readSlice_sliceName, hquota, hweight, hmemory, htasks, hcpus, hnumber]

end

/-! ### Commands to the manager of a user -/

section

variable {target : PodmanTarget} {command : Bytes} {unit : Option Bytes} {args : List Bytes}

theorem checkUnit_eq_ok : checkUnit unit = .ok () ↔ ∀ u ∈ unit, safeSystemdUnit u = true := by
  cases unit with
  | none => simp [checkUnit]
  | some u => simp [checkUnit, validateSystemdUnitName]

theorem buildSystemctlUserArgs_eq_ok : buildSystemctlUserArgs target command unit = .ok args ↔
    target.userName ≠ [] ∧ safeSystemdValue command = true ∧
      (∀ u ∈ unit, safeSystemdUnit u = true) ∧
      args = userWords target.userName command unit := by
  simp only [buildSystemctlUserArgs, bind_eq_ok, reject_eq_ok]
  constructor
  · intro h
    obtain ⟨-, huser, -, hcommand, u, hunit, hargs⟩ := h
    exact ⟨huser, Bool.of_not_eq_false hcommand, checkUnit_eq_ok.1 hunit,
      (Except.ok.inj hargs).symm⟩
  · intro h
    obtain ⟨huser, hcommand, hunits, hargs⟩ := h
    subst hargs
    exact ⟨(), huser, (), by simp [hcommand], (), checkUnit_eq_ok.2 hunits, rfl⟩

end

/-! ### What is read from the output -/

/-- A further line about a property counts. -/
theorem lastValue_snoc (name : Bytes) (lines : List Bytes) (line : Bytes) :
    lastValue name (lines ++ [line]) =
      if ch '=' ∈ line ∧ before (ch '=') line = name then after (ch '=') line
      else lastValue name lines := by
  by_cases h : ch '=' ∈ line ∧ before (ch '=') line = name
  · simp [lastValue, List.filter_append, h]
  · have hfalse : decide (ch '=' ∈ line ∧ before (ch '=') line = name) = false := by simpa using h
    simp only [lastValue, List.filter_append, List.filter_cons, hfalse, Bool.false_eq_true,
      if_false, List.filter_nil, List.append_nil, if_neg h]

/-- **The last line about a property counts**, and other lines do not. -/
theorem parseShowStatus_eq (unit output : Bytes) :
    parseShowStatus unit output = {
      unit := unit
      loadState := lastValue "LoadState" (pieces (ch '\n') output)
      activeState := lastValue "ActiveState" (pieces (ch '\n') output)
      subState := lastValue "SubState" (pieces (ch '\n') output) } := by
  rw [parseShowStatus]
  generalize pieces (ch '\n') output = lines
  -- the lines that were read so far, from the last one on
  induction lines using List.reverseRecOn with
  | nil => rfl
  | append_singleton lines line ih =>
      rw [List.foldl_append, ih, List.foldl_cons, List.foldl_nil, showLine]
      simp only [lastValue_snoc]
      have h₁ : ofString "LoadState" ≠ ofString "ActiveState" := by decide
      have h₂ : ofString "LoadState" ≠ ofString "SubState" := by decide
      have h₃ : ofString "ActiveState" ≠ ofString "SubState" := by decide
      by_cases heq : ch '=' ∈ line
      · rw [if_neg (not_not.2 heq)]
        by_cases hload : before (ch '=') line = ofString "LoadState"
        · simp [heq, hload, h₁, h₂]
        by_cases hactive : before (ch '=') line = ofString "ActiveState"
        · simp [heq, hactive, h₁.symm, h₃]
        by_cases hsub : before (ch '=') line = ofString "SubState"
        · simp [heq, hsub, h₂.symm, h₃.symm]
        · simp [heq, hload, hactive, hsub]
      · simp [heq]

/-- What `systemctl show` prints about the properties that it is asked for. -/
def renderStatus (status : UnitStatus) : Bytes :=
  assign "LoadState" status.loadState ++ ch '\n' ::
    (assign "ActiveState" status.activeState ++ ch '\n' ::
      (assign "SubState" status.subState ++ [ch '\n']))

/-- A line, and what comes after it. -/
theorem pieces_append_cons {d : UInt8} {line : Bytes} (h : d ∉ line) (rest : Bytes) :
    pieces d (line ++ d :: rest) = line :: pieces d rest := by
  induction line with
  | nil => exact pieces_cons_self d rest
  | cons c line ih =>
      rw [List.mem_cons, not_or] at h
      rw [List.cons_append, pieces, if_neg (Ne.symm h.1), ih h.2]

theorem notMem_assign {d : UInt8} (hd : d ≠ ch '=') {name value : Bytes} (hname : d ∉ name)
    (hvalue : d ∉ value) : d ∉ assign name value := by
  simp [assign, hd, hname, hvalue]

/-- **A status that is printed is read back**, if no state has a line break in it. -/
theorem parseShowStatus_render {status : UnitStatus} (hload : ch '\n' ∉ status.loadState)
    (hactive : ch '\n' ∉ status.activeState) (hsub : ch '\n' ∉ status.subState) :
    parseShowStatus status.unit (renderStatus status) = status := by
  have hne : ch '\n' ≠ ch '=' := by decide
  have h₁ : ch '=' ∉ ofString "LoadState" := by decide
  have h₂ : ch '=' ∉ ofString "ActiveState" := by decide
  have h₃ : ch '=' ∉ ofString "SubState" := by decide
  -- each of the lines sets its own field
  have hshow : ∀ {s : UnitStatus} {name value : Bytes}, ch '=' ∉ name →
      showLine s (assign name value) =
        if name = ofString "LoadState" then { s with loadState := value }
        else if name = ofString "ActiveState" then { s with activeState := value }
        else if name = ofString "SubState" then { s with subState := value } else s := by
    intro s name value hname
    rw [showLine, if_neg (not_not.2 (mem_assign name value)), before_assign hname,
      after_assign hname]
  rw [parseShowStatus, renderStatus,
    pieces_append_cons (notMem_assign hne (by decide) hload),
    pieces_append_cons (notMem_assign hne (by decide) hactive),
    pieces_append_cons (notMem_assign hne (by decide) hsub), pieces_nil]
  simp only [List.foldl_cons, List.foldl_nil, hshow h₁, hshow h₂, hshow h₃]
  simp [ofString]

end PodInstaller
