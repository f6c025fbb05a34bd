/-
**Container specifications and the body of the create request.**

A container specification is checked by `PodInstaller.validateContainerSpec` and then written as a
JSON object by `PodInstaller.toPodmanCreateJson`, with a flag by hand for the commas of each object
and array and an escaper that goes through a string byte by byte.  This module translates that
code; what the text says is `PodInstaller/CreateBody.lean`.

Main definitions:

* `PodInstaller.ContainerSpec`, `PodInstaller.StringMap` — the data;
* `PodInstaller.validateContainerSpec` — the checks;
* `PodInstaller.jsonEscape`, `PodInstaller.JsonOut`, `PodInstaller.toPodmanCreateJson` — the text.
-/

import PodInstaller.ErrorModel

set_option relaxedAutoImplicit false
set_option autoImplicit false

namespace PodInstaller

open Bytes

/-! ### The data -/

/-- `std::map<std::string, std::string>`: pairs with growing keys. -/
structure StringMap where
  entries : List (Bytes × Bytes) := []
  sorted : entries.Pairwise fun a b => a.1 < b.1 := by decide

/-- `CpuLimits`. -/
structure CpuLimits where
  period : Option Int64 := none
  quota : Option Int64 := none
  shares : Option Int64 := none
  cpus : Option Bytes := none

/-- `MemoryLimits`. -/
structure MemoryLimits where
  limit : Option Int64 := none
  swap : Option Int64 := none

/-- `PidsLimits`. -/
structure PidsLimits where
  limit : Option Int64 := none

/-- `ResourceLimits`. -/
structure ResourceLimits where
  cpu : Option CpuLimits := none
  memory : Option MemoryLimits := none
  pids : Option PidsLimits := none

/-- `ContainerSpec` with its defaults. -/
structure ContainerSpec where
  name : Bytes
  image : Bytes
  command : List Bytes := []
  env : StringMap := {}
  labels : StringMap := {}
  readOnlyFilesystem : Bool := true
  capDrop : List Bytes := ["ALL"]
  securityOpt : List Bytes := ["no-new-privileges"]
  resourceLimits : Option ResourceLimits := none

/-! ### The checks -/

/-- `has_control`. -/
def hasControl (value : Bytes) : Bool := value.any (· < 0x20)

/-- `valid_container_name`. -/
def validContainerName (value : Bytes) : Bool :=
  match value with
  | [] => false
  | first :: rest =>
    decide (value.length ≤ 128) && isalnum first &&
      rest.all fun c => isalnum c || c == ch '_' || c == ch '.' || c == ch '-'

/-- `valid_key`. -/
def validKey (value : Bytes) : Bool := value != [] && !hasControl value

/-- `valid_cpuset`. -/
def validCpuset (value : Bytes) : Bool :=
  value != [] && value.all fun c => isdigit c || c == ch ',' || c == ch '-'

/-- `require_positive`. -/
def requirePositive (value : Option Int64) (field : Bytes) : Result Unit :=
  reject (∃ n ∈ value, n ≤ 0) (makeError .policy (field ++ ofString " must be positive"))

/-- The checks of `validate_container_spec` on the processor limits. -/
def validateCpu (cpu : CpuLimits) : Result Unit := do
  requirePositive cpu.period "cpu.period"
  requirePositive cpu.quota "cpu.quota"
  requirePositive cpu.shares "cpu.shares"
  reject (∃ cpus ∈ cpu.cpus, validCpuset cpus = false)
    (makeError .policy "cpu.cpus must contain only digits, commas, and dashes")

/-- The checks of `validate_container_spec` on the memory limits. -/
def validateMemory (memory : MemoryLimits) : Result Unit := do
  requirePositive memory.limit "memory.limit"
  requirePositive memory.swap "memory.swap"

/-- The checks of `validate_container_spec` on the limits that are present. -/
def validateLimits (limits : ResourceLimits) : Result Unit := do
  limits.cpu.forM validateCpu
  limits.memory.forM validateMemory
  limits.pids.forM fun pids => requirePositive pids.limit "pids.limit"

/-- `validate_container_spec`. -/
def validateContainerSpec (spec : ContainerSpec) : Result Unit := do
  reject (validContainerName spec.name = false)
    (makeError .invalidArgument "container name must match [A-Za-z0-9][A-Za-z0-9_.-]\x7b0,127\x7d")
  reject (spec.image = [] ∨ hasControl spec.image = true)
    (makeError .invalidArgument
      "container image must be non-empty and contain no control characters")
  spec.env.entries.forM fun (key, _) => reject (validKey key = false)
    (makeError .invalidArgument
      "environment keys must be non-empty and contain no control characters")
  spec.labels.entries.forM fun (key, _) => reject (validKey key = false)
    (makeError .invalidArgument "label keys must be non-empty and contain no control characters")
  spec.resourceLimits.forM validateLimits

/-! ### The text -/

/-- A digit of a number in hexadecimal, as `std::hex` prints it. -/
def hexDigit (n : UInt8) : UInt8 := if n < 10 then 48 + n else 87 + n

/-- The `switch` of `append_json_string`; control characters without a letter of their own are
printed in hexadecimal, filled up with zeros to four digits. -/
def jsonEscape (c : UInt8) : Bytes :=
  if c = ch '"' then "\\\""
  else if c = ch '\\' then "\\\\"
  else if c = 8 then "\\b"
  else if c = 12 then "\\f"
  else if c = 10 then "\\n"
  else if c = 13 then "\\r"
  else if c = 9 then "\\t"
  else if c < 0x20 then ofString "\\u00" ++ [hexDigit (c / 16), hexDigit (c % 16)]
  else [c]

/-- `append_json_string`. -/
def appendJsonString (out value : Bytes) : Bytes :=
  value.foldl (fun out c => out ++ jsonEscape c) (out ++ [ch '"']) ++ [ch '"']

/-- The variables `out` and `first` of an object or array that is being written. -/
structure JsonOut where
  out : Bytes
  first : Bool := true

/-- `if (!first) out.push_back(','); first = false;`. -/
def JsonOut.separate (s : JsonOut) : Bytes := if s.first then s.out else s.out ++ [ch ',']

/-- `append_field`. -/
def appendField (s : JsonOut) (name rawValue : Bytes) : JsonOut where
  out := appendJsonString s.separate name ++ ch ':' :: rawValue
  first := false

/-- `append_field` for a member that may be missing. -/
def appendPresent (s : JsonOut) (name : Bytes) : Option Bytes → JsonOut
  | none => s
  | some rawValue => appendField s name rawValue

/-- `json_string`. -/
def jsonString (value : Bytes) : Bytes := appendJsonString [] value

/-- `json_string_array`. -/
def jsonStringArray (values : List Bytes) : Bytes :=
  (values.foldl (fun (s : JsonOut) value => ⟨appendJsonString s.separate value, false⟩)
    ⟨[ch '['], true⟩).out ++ [ch ']']

/-- `json_string_map`. -/
def jsonStringMap (values : StringMap) : Bytes :=
  (values.entries.foldl (fun (s : JsonOut) (e : Bytes × Bytes) =>
    ⟨appendJsonString (appendJsonString s.separate e.1 ++ [ch ':']) e.2, false⟩)
    ⟨[ch '\x7b'], true⟩).out ++ [ch '\x7d']

/-- `std::to_string` of an `int64_t`. -/
def int64ToString (n : Int64) : Bytes := decimalInt n.toInt

/-- The text of the processor limits in `resource_limits_json`. -/
def cpuLimitsJson (limits : CpuLimits) : Bytes :=
  let cpu : JsonOut := ⟨[ch '\x7b'], true⟩
  let cpu := appendPresent cpu "period" (limits.period.map int64ToString)
  let cpu := appendPresent cpu "quota" (limits.quota.map int64ToString)
  let cpu := appendPresent cpu "shares" (limits.shares.map int64ToString)
  let cpu := appendPresent cpu "cpus" (limits.cpus.map jsonString)
  cpu.out ++ [ch '\x7d']

/-- The text of the memory limits in `resource_limits_json`. -/
def memoryLimitsJson (limits : MemoryLimits) : Bytes :=
  let memory : JsonOut := ⟨[ch '\x7b'], true⟩
  let memory := appendPresent memory "limit" (limits.limit.map int64ToString)
  let memory := appendPresent memory "swap" (limits.swap.map int64ToString)
  memory.out ++ [ch '\x7d']

/-- The text of the process limits in `resource_limits_json`. -/
def pidsLimitsJson (limits : PidsLimits) : Bytes :=
  let pids : JsonOut := ⟨[ch '\x7b'], true⟩
  let pids := appendPresent pids "limit" (limits.limit.map int64ToString)
  pids.out ++ [ch '\x7d']

/-- `resource_limits_json`. -/
def resourceLimitsJson (limits : ResourceLimits) : Bytes :=
  let s : JsonOut := ⟨[ch '\x7b'], true⟩
  let s := appendPresent s "cpu" (limits.cpu.map cpuLimitsJson)
  let s := appendPresent s "memory" (limits.memory.map memoryLimitsJson)
  let s := appendPresent s "pids" (limits.pids.map pidsLimitsJson)
  s.out ++ [ch '\x7d']

/-- The raw value of a field that is left out when its list or map is empty. -/
def unlessEmpty {α : Type} (values : List α) (rawValue : Bytes) : Option Bytes :=
  if values = [] then none else some rawValue

/-- `to_podman_create_json`. -/
def toPodmanCreateJson (spec : ContainerSpec) : Result Bytes := do
  validateContainerSpec spec
  let s : JsonOut := ⟨[ch '\x7b'], true⟩
  let s := appendField s "name" (jsonString spec.name)
  let s := appendField s "image" (jsonString spec.image)
  let s := appendPresent s "command" (unlessEmpty spec.command (jsonStringArray spec.command))
  let s := appendPresent s "env" (unlessEmpty spec.env.entries (jsonStringMap spec.env))
  let s := appendPresent s "labels" (unlessEmpty spec.labels.entries (jsonStringMap spec.labels))
  let s := appendField s "read_only_filesystem"
    (if spec.readOnlyFilesystem then "true" else "false")
  let s := appendPresent s "cap_drop" (unlessEmpty spec.capDrop (jsonStringArray spec.capDrop))
  let s := appendPresent s "security_opt"
    (unlessEmpty spec.securityOpt (jsonStringArray spec.securityOpt))
  let s := appendPresent s "resource_limits" (spec.resourceLimits.map resourceLimitsJson)
  return s.out ++ [ch '\x7d']

end PodInstaller
