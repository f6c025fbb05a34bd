/-
**The body of the create request.**

`PodInstaller.toPodmanCreateJson` puts the text of a JSON object together by hand.  This module
proves that nothing is lost on the way: the text is the JSON text of a value that depends on the
specification alone, the grammar of RFC 8259 reads that value back, and from the value the
specification can be decoded.

Main definitions:

* `PodInstaller.present` — the members of an object that are there;
* `PodInstaller.specJson`, `PodInstaller.decodeSpec` — the value, and how to decode it;
* `PodInstaller.CreateBody` — a text from which a specification comes back.

Main results:

* `PodInstaller.jsonEscape_escapes` — **the escaper is undone by the grammar** for every byte;
* `PodInstaller.toPodmanCreateJson_eq` — the text is the text of the value;
* `PodInstaller.decodeSpec_specJson` — the specification comes back from the value;
* `PodInstaller.uniqueKeys_specJson` — no object of the value has a key twice;
* `PodInstaller.toPodmanCreateJson_roundTrip` — **the create body decodes back to the
  specification**.
-/

import PodInstaller.ContainerSpec
import PodInstaller.Json

set_option relaxedAutoImplicit false
set_option autoImplicit false

namespace PodInstaller

open Bytes

/-! ### The escaper -/

/-- **The escaper is undone by the grammar**, byte by byte. -/
theorem jsonEscape_escapes : Json.Escapes jsonEscape := by
  intro c rest
  have hletter : ∀ e b : UInt8, e ≠ ch 'u' → Json.simpleEscape e = some b →
      Json.parseChars (ch '\\' :: e :: rest) = Json.prepend [b] (Json.parseChars rest) := by
    intro e b hu he
    rw [Json.parseChars.eq_def]
    dsimp only
    rw [if_neg (by decide), if_pos rfl, if_neg hu, he]
  unfold jsonEscape
  split_ifs with h₁ h₂ h₃ h₄ h₅ h₆ h₇ h₈
  · subst h₁
    exact hletter _ _ (by decide) (by decide)
  · subst h₂
    exact hletter _ _ (by decide) (by decide)
  · subst h₃
    exact hletter _ _ (by decide) (by decide)
  · subst h₄
    exact hletter _ _ (by decide) (by decide)
  · subst h₅
    exact hletter _ _ (by decide) (by decide)
  · subst h₆
    exact hletter _ _ (by decide) (by decide)
  · subst h₇
    exact hletter _ _ (by decide) (by decide)
  · -- a control character: four digits, of which the first two are zero
    have hall : ∀ n : Fin 32, Json.codeUnit (ch '0') (ch '0')
          (hexDigit (UInt8.ofNat n.val / 16)) (hexDigit (UInt8.ofNat n.val % 16)) = some n.val ∧
        Json.utf8 n.val = [UInt8.ofNat n.val] := by decide
    have hlt : c.toNat < 32 := UInt8.lt_iff_toNat_lt.1 h₈
    obtain ⟨hunit, hutf⟩ := hall ⟨c.toNat, hlt⟩
    rw [UInt8.ofNat_toNat] at hunit hutf
    have hcons : ofString "\\u00" ++ [hexDigit (c / 16), hexDigit (c % 16)] ++ rest =
        ch '\\' :: ch 'u' :: ch '0' :: ch '0' :: hexDigit (c / 16) :: hexDigit (c % 16) :: rest :=
      rfl
    rw [hcons, Json.parseChars.eq_def]
    dsimp only
    rw [if_neg (by decide), if_pos rfl, if_pos rfl, hunit]
    dsimp only
    rw [if_neg (by omega), if_neg (by omega), hutf]
  · rw [List.singleton_append, Json.parseChars.eq_def]
    dsimp only
    rw [if_neg h₁, if_neg h₂, if_neg h₈]

/-! ### The value of a specification -/

/-- The members of an object that are present. -/
def present (fields : List (Bytes × Option Json)) : List (Bytes × Json) :=
  fields.filterMap fun f => f.2.map fun v => (f.1, v)

def stringsJson (values : List Bytes) : Json := .arr (values.map .str)

def mapJson (values : StringMap) : Json := .obj (values.entries.map fun e => (e.1, .str e.2))

def intJson (n : Int64) : Json := .num ⟨n.toInt, 0⟩

def cpuFields (limits : CpuLimits) : List (Bytes × Option Json) :=
  [("period", limits.period.map intJson), ("quota", limits.quota.map intJson),
    ("shares", limits.shares.map intJson), ("cpus", limits.cpus.map .str)]

def memoryFields (limits : MemoryLimits) : List (Bytes × Option Json) :=
  [("limit", limits.limit.map intJson), ("swap", limits.swap.map intJson)]

def pidsFields (limits : PidsLimits) : List (Bytes × Option Json) :=
  [("limit", limits.limit.map intJson)]

def limitsFields (limits : ResourceLimits) : List (Bytes × Option Json) :=
  [("cpu", limits.cpu.map fun cpu => .obj (present (cpuFields cpu))),
    ("memory", limits.memory.map fun memory => .obj (present (memoryFields memory))),
    ("pids", limits.pids.map fun pids => .obj (present (pidsFields pids)))]

def specFields (spec : ContainerSpec) : List (Bytes × Option Json) :=
  [("name", some (.str spec.name)), ("image", some (.str spec.image)),
    ("command", if spec.command = [] then none else some (stringsJson spec.command)),
    ("env", if spec.env.entries = [] then none else some (mapJson spec.env)),
    ("labels", if spec.labels.entries = [] then none else some (mapJson spec.labels)),
    ("read_only_filesystem", some (.bool spec.readOnlyFilesystem)),
    ("cap_drop", if spec.capDrop = [] then none else some (stringsJson spec.capDrop)),
    ("security_opt", if spec.securityOpt = [] then none else some (stringsJson spec.securityOpt)),
    ("resource_limits",
      spec.resourceLimits.map fun limits => .obj (present (limitsFields limits)))]

/-- The value that the create body is the text of. -/
def specJson (spec : ContainerSpec) : Json := .obj (present (specFields spec))

/-! ### The text is the text of the value -/

theorem appendJsonString_eq (out value : Bytes) :
    appendJsonString out value = out ++ Json.quote jsonEscape value := by
  have hfold : ∀ out : Bytes,
      value.foldl (fun out c => out ++ jsonEscape c) out = out ++ value.flatMap jsonEscape := by
    induction value with
    | nil => simp
    | cons c value ih => exact fun out => by rw [List.foldl_cons, ih]; simp
  rw [appendJsonString, hfold, Json.quote]
  simp

theorem jsonString_eq (value : Bytes) : jsonString value = Json.render jsonEscape (.str value) := by
  rw [jsonString, appendJsonString_eq, List.nil_append, Json.render]

/-- What has been written of an object after some of its members. -/
def writtenMembers (ms : List (Bytes × Json)) : JsonOut :=
  ⟨ch '\x7b' :: Json.renderMembers jsonEscape ms, ms.isEmpty⟩

/-- What has been written of an array after some of its elements. -/
def writtenElements (vs : List Json) : JsonOut :=
  ⟨ch '[' :: Json.renderElements jsonEscape vs, vs.isEmpty⟩

theorem renderElements_append (vs : List Json) (v : Json) :
    Json.renderElements jsonEscape (vs ++ [v]) =
      (if vs.isEmpty then [] else Json.renderElements jsonEscape vs ++ [ch ',']) ++
        Json.render jsonEscape v := by
  induction vs with
  | nil => simp [Json.renderElements]
  | cons w vs ih =>
      cases vs with
      | nil => simp [Json.renderElements]
      | cons w' vs =>
          rw [List.cons_append] at ih
          rw [List.cons_append, List.cons_append, Json.renderElements, ih, Json.renderElements]
          simp

theorem renderMembers_append (ms : List (Bytes × Json)) (k : Bytes) (v : Json) :
    Json.renderMembers jsonEscape (ms ++ [(k, v)]) =
      (if ms.isEmpty then [] else Json.renderMembers jsonEscape ms ++ [ch ',']) ++
        (Json.quote jsonEscape k ++ ch ':' :: Json.render jsonEscape v) := by
  induction ms with
  | nil => simp [Json.renderMembers]
  | cons m ms ih =>
      cases ms with
      | nil => simp [Json.renderMembers]
      | cons m' ms =>
          rw [List.cons_append] at ih
          rw [List.cons_append, List.cons_append, Json.renderMembers, ih, Json.renderMembers]
          simp

/-- `append_field` writes one more member. -/
theorem appendField_written (ms : List (Bytes × Json)) (name : Bytes) (v : Json) :
    appendField (writtenMembers ms) name (Json.render jsonEscape v) =
      writtenMembers (ms ++ [(name, v)]) := by
  rw [appendField, writtenMembers, writtenMembers, renderMembers_append, JsonOut.separate,
    appendJsonString_eq]
  cases ms <;> simp [Json.renderMembers]

theorem appendPresent_written (fields : List (Bytes × Option Json)) (name : Bytes)
    (v : Option Json) :
    appendPresent (writtenMembers (present fields)) name (v.map (Json.render jsonEscape)) =
      writtenMembers (present (fields ++ [(name, v)])) := by
  rw [present, present, List.filterMap_append]
  cases v with
  | none => simp [appendPresent]
  | some v => exact appendField_written _ name v

theorem jsonStringArray_eq (values : List Bytes) :
    jsonStringArray values = Json.render jsonEscape (stringsJson values) := by
  have hfold : ∀ (vs : List Json), values.foldl (fun (s : JsonOut) value =>
      ⟨appendJsonString s.separate value, false⟩) (writtenElements vs) =
        writtenElements (vs ++ values.map .str) := by
    induction values with
    | nil => simp
    | cons value values ih =>
        intro vs
        have hone : (⟨appendJsonString (writtenElements vs).separate value, false⟩ : JsonOut) =
            writtenElements (vs ++ [.str value]) := by
          rw [writtenElements, writtenElements, renderElements_append, JsonOut.separate,
            appendJsonString_eq, Json.render]
          cases vs <;> simp [Json.renderElements]
        rw [List.foldl_cons, hone, ih]
        simp
  have h := congrArg JsonOut.out (hfold [])
  rw [jsonStringArray, stringsJson, Json.render]
  exact congrArg (· ++ [ch ']']) h

theorem jsonStringMap_eq (values : StringMap) :
    jsonStringMap values = Json.render jsonEscape (mapJson values) := by
  have hfold : ∀ (entries : List (Bytes × Bytes)) (ms : List (Bytes × Json)),
      entries.foldl (fun (s : JsonOut) (e : Bytes × Bytes) =>
        ⟨appendJsonString (appendJsonString s.separate e.1 ++ [ch ':']) e.2, false⟩)
        (writtenMembers ms) = writtenMembers (ms ++ entries.map fun e => (e.1, .str e.2)) := by
    intro entries
    induction entries with
    | nil => simp
    | cons e entries ih =>
        intro ms
        have hone : (⟨appendJsonString (appendJsonString (writtenMembers ms).separate e.1 ++
            [ch ':']) e.2, false⟩ : JsonOut) = writtenMembers (ms ++ [(e.1, .str e.2)]) := by
          rw [← appendField_written, appendField, Json.render, appendJsonString_eq]
          simp
        rw [List.foldl_cons, hone, ih]
        simp
  have h := congrArg JsonOut.out (hfold values.entries [])
  rw [jsonStringMap, mapJson, Json.render]
  exact congrArg (· ++ [ch '\x7d']) h

theorem int64ToString_eq (n : Int64) : int64ToString n = Json.render jsonEscape (intJson n) := by
  rw [int64ToString, intJson, Json.render, Json.renderNumber]
  simp

/-- An object is written member by member. -/
theorem writtenMembers_close (fields : List (Bytes × Option Json)) :
    (writtenMembers (present fields)).out ++ [ch '\x7d'] =
      Json.render jsonEscape (.obj (present fields)) := by
  rw [writtenMembers, Json.render]
  rfl

theorem map_eq_render {α : Type} (o : Option α) {f : α → Bytes} {g : α → Json}
    (h : ∀ x, f x = Json.render jsonEscape (g x)) :
    o.map f = (o.map g).map (Json.render jsonEscape) := by
  rw [Option.map_map]
  exact congrArg (Option.map · o) (funext h)

theorem cpuLimitsJson_eq (limits : CpuLimits) :
    cpuLimitsJson limits = Json.render jsonEscape (.obj (present (cpuFields limits))) := by
  rw [cpuLimitsJson, show (⟨[ch '\x7b'], true⟩ : JsonOut) = writtenMembers (present []) from rfl,
    map_eq_render limits.period int64ToString_eq, map_eq_render limits.quota int64ToString_eq,
    map_eq_render limits.shares int64ToString_eq, map_eq_render limits.cpus jsonString_eq,
    appendPresent_written, appendPresent_written, appendPresent_written, appendPresent_written,
    writtenMembers_close]
  rfl

theorem memoryLimitsJson_eq (limits : MemoryLimits) :
    memoryLimitsJson limits = Json.render jsonEscape (.obj (present (memoryFields limits))) := by
  rw [memoryLimitsJson, show (⟨[ch '\x7b'], true⟩ : JsonOut) = writtenMembers (present []) from rfl,
    map_eq_render limits.limit int64ToString_eq, map_eq_render limits.swap int64ToString_eq,
    appendPresent_written, appendPresent_written, writtenMembers_close]
  rfl

theorem pidsLimitsJson_eq (limits : PidsLimits) :
    pidsLimitsJson limits = Json.render jsonEscape (.obj (present (pidsFields limits))) := by
  rw [pidsLimitsJson, show (⟨[ch '\x7b'], true⟩ : JsonOut) = writtenMembers (present []) from rfl,
    map_eq_render limits.limit int64ToString_eq, appendPresent_written, writtenMembers_close]
  rfl

theorem resourceLimitsJson_eq (limits : ResourceLimits) :
    resourceLimitsJson limits = Json.render jsonEscape (.obj (present (limitsFields limits))) := by
  rw [resourceLimitsJson,
    show (⟨[ch '\x7b'], true⟩ : JsonOut) = writtenMembers (present []) from rfl,
    map_eq_render limits.cpu cpuLimitsJson_eq, map_eq_render limits.memory memoryLimitsJson_eq,
    map_eq_render limits.pids pidsLimitsJson_eq, appendPresent_written, appendPresent_written,
    appendPresent_written, writtenMembers_close]
  rfl

theorem unlessEmpty_eq {α : Type} (values : List α) (v : Json) :
    unlessEmpty values (Json.render jsonEscape v) =
      (if values = [] then none else some v).map (Json.render jsonEscape) := by
  rw [unlessEmpty]
  split_ifs <;> rfl

/-- A member that is always there. -/
theorem appendField_present (fields : List (Bytes × Option Json)) (name : Bytes) (v : Json) :
    appendField (writtenMembers (present fields)) name (Json.render jsonEscape v) =
      writtenMembers (present (fields ++ [(name, some v)])) :=
  appendPresent_written fields name (some v)

/-- **The text is the text of the value**, for every specification that is accepted. -/
theorem toPodmanCreateJson_eq {spec : ContainerSpec} (hok : validateContainerSpec spec = .ok ()) :
    toPodmanCreateJson spec = .ok (Json.render jsonEscape (specJson spec)) := by
  have hbool : (if spec.readOnlyFilesystem then ofString "true" else ofString "false") =
      Json.render jsonEscape (.bool spec.readOnlyFilesystem) := by rw [Json.render]
  rw [toPodmanCreateJson, hok]
  simp only [bind, Except.bind, pure, Except.pure, Except.ok.injEq]
  rw [show (⟨[ch '\x7b'], true⟩ : JsonOut) = writtenMembers (present []) from rfl, hbool,
    jsonString_eq, jsonString_eq, jsonStringArray_eq, jsonStringArray_eq, jsonStringArray_eq,
    jsonStringMap_eq, jsonStringMap_eq, unlessEmpty_eq, unlessEmpty_eq, unlessEmpty_eq,
    unlessEmpty_eq, unlessEmpty_eq, map_eq_render _ resourceLimitsJson_eq, appendField_present,
    appendField_present, appendPresent_written, appendPresent_written, appendPresent_written,
    appendField_present, appendPresent_written, appendPresent_written, appendPresent_written,
    writtenMembers_close]
  rfl

/-! ### Decoding -/

def decodeString : Json → Option Bytes
  | .str s => some s
  | _ => none

def decodeBool : Json → Option Bool
  | .bool b => some b
  | _ => none

/-- An integer that fits. -/
def decodeInt64 : Json → Option Int64
  | .num n =>
    let m := Int64.ofInt n.mantissa
    if n.exponent = 0 ∧ m.toInt = n.mantissa then some m else none
  | _ => none

def decodeStrings : Json → Option (List Bytes)
  | .arr vs => vs.mapM decodeString
  | _ => none

/-- The pairs in the order of their keys, if no key stands twice. -/
def StringMap.ofEntries (entries : List (Bytes × Bytes)) : Option StringMap :=
  let entries := entries.mergeSort fun a b => decide (a.1 ≤ b.1)
  if h : entries.Pairwise fun a b => a.1 < b.1 then some ⟨entries, h⟩ else none

def decodeMap : Json → Option StringMap
  | .obj ms => ms.mapM (fun m => (decodeString m.2).map fun s => (m.1, s)) >>= StringMap.ofEntries
  | _ => none

/-- A member that must be there. -/
def requireField {α : Type} (ms : List (Bytes × Json)) (name : Bytes) (decode : Json → Option α) :
    Option α :=
  ms.lookup name >>= decode

/-- A member that may be missing. -/
def decodeField {α : Type} (ms : List (Bytes × Json)) (name : Bytes) (decode : Json → Option α) :
    Option (Option α) :=
  match ms.lookup name with
  | none => some none
  | some v => (decode v).map some

def decodeCpu : Json → Option CpuLimits
  | .obj ms => do
    let period ← decodeField ms "period" decodeInt64
    let quota ← decodeField ms "quota" decodeInt64
    let shares ← decodeField ms "shares" decodeInt64
    let cpus ← decodeField ms "cpus" decodeString
    return ⟨period, quota, shares, cpus⟩
  | _ => none

def decodeMemory : Json → Option MemoryLimits
  | .obj ms => do
    let limit ← decodeField ms "limit" decodeInt64
    let swap ← decodeField ms "swap" decodeInt64
    return ⟨limit, swap⟩
  | _ => none

def decodePids : Json → Option PidsLimits
  | .obj ms => do
    let limit ← decodeField ms "limit" decodeInt64
    return ⟨limit⟩
  | _ => none

def decodeLimits : Json → Option ResourceLimits
  | .obj ms => do
    let cpu ← decodeField ms "cpu" decodeCpu
    let memory ← decodeField ms "memory" decodeMemory
    let pids ← decodeField ms "pids" decodePids
    return ⟨cpu, memory, pids⟩
  | _ => none

/-- A specification from a create body: what is missing is empty. -/
def decodeSpec : Json → Option ContainerSpec
  | .obj ms => do
    let name ← requireField ms "name" decodeString
    let image ← requireField ms "image" decodeString
    let command ← decodeField ms "command" decodeStrings
    let env ← decodeField ms "env" decodeMap
    let labels ← decodeField ms "labels" decodeMap
    let readOnly ← requireField ms "read_only_filesystem" decodeBool
    let capDrop ← decodeField ms "cap_drop" decodeStrings
    let securityOpt ← decodeField ms "security_opt" decodeStrings
    let limits ← decodeField ms "resource_limits" decodeLimits
    return ⟨name, image, command.getD [], env.getD {}, labels.getD {}, readOnly, capDrop.getD [],
      securityOpt.getD [], limits⟩
  | _ => none

theorem present_cons (name : Bytes) (v : Option Json) (fields : List (Bytes × Option Json)) :
    present ((name, v) :: fields) = (v.map fun v => (name, v)).toList ++ present fields := by
  cases v <;> rfl

theorem mem_keys_of_mem_present {fields : List (Bytes × Option Json)} {m : Bytes × Json}
    (h : m ∈ present fields) : (m.1, some m.2) ∈ fields := by
  obtain ⟨⟨k, w⟩, hf, hm⟩ := List.mem_filterMap.1 h
  obtain ⟨v, hv, rfl⟩ := Option.map_eq_some_iff.1 hm
  dsimp only at hv
  rwa [← hv]

/-- What is present is found under its name. -/
theorem lookup_present {fields : List (Bytes × Option Json)} (hkeys : (fields.map Prod.fst).Nodup)
    {name : Bytes} {v : Option Json} (hmem : (name, v) ∈ fields) :
    (present fields).lookup name = v := by
  induction fields with
  | nil => cases hmem
  | cons f fields ih =>
      obtain ⟨k, w⟩ := f
      rw [List.map_cons, List.nodup_cons] at hkeys
      rw [present_cons]
      rcases List.mem_cons.1 hmem with heq | htail
      · obtain ⟨rfl, rfl⟩ := Prod.mk.inj heq
        cases v with
        | some v => simp
        | none =>
            simp only [Option.map_none, Option.toList_none, List.nil_append]
            rw [List.lookup_eq_none_iff]
            intro m hm
            rw [bne_iff_ne]
            rintro rfl
            exact hkeys.1 (List.mem_map.2 ⟨_, mem_keys_of_mem_present hm, rfl⟩)
      · have hne : name ≠ k := by
          rintro rfl
          exact hkeys.1 (List.mem_map.2 ⟨_, htail, rfl⟩)
        have hrest := ih hkeys.2 htail
        cases w with
        | none => exact hrest
        | some w => simpa [List.lookup_cons, beq_false_of_ne hne] using hrest

section

variable {fields : List (Bytes × Option Json)} (hkeys : (fields.map Prod.fst).Nodup)
variable {α : Type} {name : Bytes} {decode : Json → Option α}

include hkeys

theorem decodeField_present {v : Option α} {encode : α → Json}
    (hmem : (name, v.map encode) ∈ fields) (h : ∀ x, decode (encode x) = some x) :
    decodeField (present fields) name decode = some v := by
  rw [decodeField, lookup_present hkeys hmem]
  cases v with
  | none => rfl
  | some x => exact congrArg (Option.map some) (h x)

theorem requireField_present {x : α} {encode : α → Json} (hmem : (name, some (encode x)) ∈ fields)
    (h : ∀ x, decode (encode x) = some x) : requireField (present fields) name decode = some x := by
  rw [requireField, lookup_present hkeys hmem]
  exact h x

/-- A list or map that is left out when it is empty. -/
theorem decodeField_unlessEmpty {β : Type} {values : List β} {x : α} {encode : α → Json}
    (hmem : (name, if values = [] then none else some (encode x)) ∈ fields)
    (h : ∀ x, decode (encode x) = some x) :
    decodeField (present fields) name decode =
      some (if values = [] then none else some x) := by
  rw [decodeField, lookup_present hkeys hmem]
  split_ifs
  · rfl
  · exact congrArg (Option.map some) (h x)

end

theorem decodeString_str (s : Bytes) : decodeString (.str s) = some s := rfl

theorem decodeBool_bool (b : Bool) : decodeBool (.bool b) = some b := rfl

theorem decodeInt64_intJson (n : Int64) : decodeInt64 (intJson n) = some n := by
  simp [decodeInt64, intJson]

theorem decodeStrings_stringsJson (values : List Bytes) :
    decodeStrings (stringsJson values) = some values := by
  rw [stringsJson, decodeStrings]
  induction values with
  | nil => rfl
  | cons value values ih =>
      rw [List.map_cons, List.mapM_cons, ih]
      rfl

theorem decodeMap_mapJson (values : StringMap) : decodeMap (mapJson values) = some values := by
  have hread : ∀ entries : List (Bytes × Bytes), (entries.map fun e => (e.1, Json.str e.2)).mapM
      (fun m => (decodeString m.2).map fun s => (m.1, s)) = some entries := by
    intro entries
    induction entries with
    | nil => rfl
    | cons e entries ih =>
        rw [List.map_cons, List.mapM_cons, ih]
        rfl
  have hsort : values.entries.mergeSort (fun a b => decide (a.1 ≤ b.1)) = values.entries := by
    refine List.mergeSort_of_pairwise (values.sorted.imp fun hlt => ?_)
    exact decide_eq_true (List.le_of_lt hlt)
  rw [mapJson, decodeMap, hread]
  simp [StringMap.ofEntries, hsort, values.sorted]

theorem decodeCpu_fields (limits : CpuLimits) :
    decodeCpu (.obj (present (cpuFields limits))) = some limits := by
  have hkeys : ((cpuFields limits).map Prod.fst).Nodup := by
    show ([ofString "period", ofString "quota", ofString "shares", ofString "cpus"]).Nodup
    decide
  have hperiod : decodeField (present (cpuFields limits)) "period" decodeInt64 =
      some limits.period := decodeField_present hkeys (by simp [cpuFields]) decodeInt64_intJson
  have hquota : decodeField (present (cpuFields limits)) "quota" decodeInt64 =
      some limits.quota := decodeField_present hkeys (by simp [cpuFields]) decodeInt64_intJson
  have hshares : decodeField (present (cpuFields limits)) "shares" decodeInt64 =
      some limits.shares := decodeField_present hkeys (by simp [cpuFields]) decodeInt64_intJson
  have hcpus : decodeField (present (cpuFields limits)) "cpus" decodeString =
      some limits.cpus := decodeField_present hkeys (by simp [cpuFields]) decodeString_str
  rw [decodeCpu, hperiod, hquota, hshares, hcpus]
  rfl

theorem decodeMemory_fields (limits : MemoryLimits) :
    decodeMemory (.obj (present (memoryFields limits))) = some limits := by
  have hkeys : ((memoryFields limits).map Prod.fst).Nodup := by
    show ([ofString "limit", ofString "swap"]).Nodup
    decide
  have hlimit : decodeField (present (memoryFields limits)) "limit" decodeInt64 =
      some limits.limit := decodeField_present hkeys (by simp [memoryFields]) decodeInt64_intJson
  have hswap : decodeField (present (memoryFields limits)) "swap" decodeInt64 =
      some limits.swap := decodeField_present hkeys (by simp [memoryFields]) decodeInt64_intJson
  rw [decodeMemory, hlimit, hswap]
  rfl

theorem decodePids_fields (limits : PidsLimits) :
    decodePids (.obj (present (pidsFields limits))) = some limits := by
  have hkeys : ((pidsFields limits).map Prod.fst).Nodup := by simp [pidsFields]
  have hlimit : decodeField (present (pidsFields limits)) "limit" decodeInt64 =
      some limits.limit := decodeField_present hkeys (by simp [pidsFields]) decodeInt64_intJson
  rw [decodePids, hlimit]
  rfl

theorem decodeLimits_fields (limits : ResourceLimits) :
    decodeLimits (.obj (present (limitsFields limits))) = some limits := by
  have hkeys : ((limitsFields limits).map Prod.fst).Nodup := by
    show ([ofString "cpu", ofString "memory", ofString "pids"]).Nodup
    decide
  have hcpu : decodeField (present (limitsFields limits)) "cpu" decodeCpu = some limits.cpu :=
    decodeField_present hkeys (by simp [limitsFields]) decodeCpu_fields
  have hmemory : decodeField (present (limitsFields limits)) "memory" decodeMemory =
      some limits.memory := decodeField_present hkeys (by simp [limitsFields]) decodeMemory_fields
  have hpids : decodeField (present (limitsFields limits)) "pids" decodePids = some limits.pids :=
    decodeField_present hkeys (by simp [limitsFields]) decodePids_fields
  rw [decodeLimits, hcpu, hmemory, hpids]
  rfl

/-- The names of the members of a create body. -/
def specKeys : List Bytes :=
  ["name", "image", "command", "env", "labels", "read_only_filesystem", "cap_drop", "security_opt",
    "resource_limits"]

theorem specFields_keys (spec : ContainerSpec) : (specFields spec).map Prod.fst = specKeys := rfl

/-- **The specification comes back from the value.** -/
theorem decodeSpec_specJson (spec : ContainerSpec) : decodeSpec (specJson spec) = some spec := by
  have hkeys : ((specFields spec).map Prod.fst).Nodup := by
    rw [specFields_keys]
    decide
  have hname : requireField (present (specFields spec)) "name" decodeString = some spec.name :=
    requireField_present hkeys (by simp [specFields]) decodeString_str
  have himage : requireField (present (specFields spec)) "image" decodeString = some spec.image :=
    requireField_present hkeys (by simp [specFields]) decodeString_str
  have hreadOnly : requireField (present (specFields spec)) "read_only_filesystem" decodeBool =
      some spec.readOnlyFilesystem :=
    requireField_present hkeys (by simp [specFields]) decodeBool_bool
  have hcommand : decodeField (present (specFields spec)) "command" decodeStrings =
      some (if spec.command = [] then none else some spec.command) :=
    decodeField_unlessEmpty hkeys (by simp [specFields]) decodeStrings_stringsJson
  have hcapDrop : decodeField (present (specFields spec)) "cap_drop" decodeStrings =
      some (if spec.capDrop = [] then none else some spec.capDrop) :=
    decodeField_unlessEmpty hkeys (by simp [specFields]) decodeStrings_stringsJson
  have hsecurityOpt : decodeField (present (specFields spec)) "security_opt" decodeStrings =
      some (if spec.securityOpt = [] then none else some spec.securityOpt) :=
    decodeField_unlessEmpty hkeys (by simp [specFields]) decodeStrings_stringsJson
  have henv : decodeField (present (specFields spec)) "env" decodeMap =
      some (if spec.env.entries = [] then none else some spec.env) :=
    decodeField_unlessEmpty hkeys (by simp [specFields]) decodeMap_mapJson
  have hlabels : decodeField (present (specFields spec)) "labels" decodeMap =
      some (if spec.labels.entries = [] then none else some spec.labels) :=
    decodeField_unlessEmpty hkeys (by simp [specFields]) decodeMap_mapJson
  have hlimits : decodeField (present (specFields spec)) "resource_limits" decodeLimits =
      some spec.resourceLimits :=
        decodeField_present hkeys (by simp [specFields]) decodeLimits_fields
  rw [specJson, decodeSpec, hname, himage, hcommand, henv, hlabels, hreadOnly, hcapDrop,
    hsecurityOpt, hlimits]
  -- what the body leaves out is read as empty
  have hlist : ∀ values : List Bytes,
      (if values = [] then none else some values).getD [] = values := by
    intro values
    split_ifs with h
    · exact h.symm
    · rfl
  have hmap : ∀ values : StringMap,
      (if values.entries = [] then none else some values).getD {} = values := by
    rintro ⟨entries, hsorted⟩
    split_ifs with h
    · dsimp only at h
      subst h
      rfl
    · rfl
  simp only [Option.bind_eq_bind, Option.bind_some, Option.pure_def, hlist, hmap]

/-! ### No key twice -/

theorem keys_present (fields : List (Bytes × Option Json)) :
    List.Sublist ((present fields).map Prod.fst) (fields.map Prod.fst) := by
  induction fields with
  | nil => exact List.Sublist.refl _
  | cons f fields ih =>
      obtain ⟨k, v⟩ := f
      rw [present_cons]
      cases v with
      | none => exact List.Sublist.cons k ih
      | some v => exact List.Sublist.cons_cons k ih

theorem uniqueKeys_present {fields : List (Bytes × Option Json)}
    (hkeys : (fields.map Prod.fst).Nodup) (h : ∀ f ∈ fields, ∀ v ∈ f.2, Json.UniqueKeys v) :
    Json.UniqueKeys (.obj (present fields)) := by
  rw [Json.UniqueKeys, Json.uniqueMembers_iff]
  refine ⟨hkeys.sublist (keys_present fields), fun m hm => ?_⟩
  exact h _ (mem_keys_of_mem_present hm) m.2 rfl

theorem uniqueKeys_stringsJson (values : List Bytes) : Json.UniqueKeys (stringsJson values) := by
  rw [stringsJson, Json.UniqueKeys, Json.uniqueElements_iff]
  intro v hv
  obtain ⟨s, -, rfl⟩ := List.mem_map.1 hv
  trivial

theorem uniqueKeys_mapJson (values : StringMap) : Json.UniqueKeys (mapJson values) := by
  rw [mapJson, Json.UniqueKeys, Json.uniqueMembers_iff]
  constructor
  · rw [List.map_map, List.Nodup, List.pairwise_map]
    refine values.sorted.imp fun hlt heq => ?_
    dsimp only [Function.comp_apply] at heq
    rw [heq] at hlt
    exact List.lt_irrefl _ hlt
  · intro m hm
    obtain ⟨e, -, rfl⟩ := List.mem_map.1 hm
    trivial

theorem uniqueKeys_limits (limits : ResourceLimits) :
    Json.UniqueKeys (.obj (present (limitsFields limits))) := by
  have hints : ∀ (o : Option Int64), ∀ v ∈ o.map intJson, Json.UniqueKeys v := by
    intro o v hv
    obtain ⟨n, -, rfl⟩ := Option.map_eq_some_iff.1 hv
    trivial
  refine uniqueKeys_present ?_ ?_
  · show ([ofString "cpu", ofString "memory", ofString "pids"]).Nodup
    decide
  · simp only [limitsFields, List.forall_mem_cons, List.not_mem_nil, false_implies, implies_true,
      and_true]
    refine ⟨fun v hv => ?_, fun v hv => ?_, fun v hv => ?_⟩
    · obtain ⟨cpu, -, rfl⟩ := Option.map_eq_some_iff.1 hv
      refine uniqueKeys_present ?_ ?_
      · show ([ofString "period", ofString "quota", ofString "shares", ofString "cpus"]).Nodup
        decide
      · simp only [cpuFields, List.forall_mem_cons, List.not_mem_nil, false_implies, implies_true,
          and_true]
        refine ⟨hints _, hints _, hints _, fun v hv => ?_⟩
        obtain ⟨s, -, rfl⟩ := Option.map_eq_some_iff.1 hv
        trivial
    · obtain ⟨memory, -, rfl⟩ := Option.map_eq_some_iff.1 hv
      refine uniqueKeys_present ?_ ?_
      · show ([ofString "limit", ofString "swap"]).Nodup
        decide
      · simp only [memoryFields, List.forall_mem_cons, List.not_mem_nil, false_implies,
          implies_true, and_true]
        exact ⟨hints _, hints _⟩
    · obtain ⟨pids, -, rfl⟩ := Option.map_eq_some_iff.1 hv
      refine uniqueKeys_present (by simp [pidsFields]) ?_
      simp only [pidsFields, List.forall_mem_cons, List.not_mem_nil, false_implies, implies_true,
        and_true]
      exact hints _

theorem uniqueKeys_specJson (spec : ContainerSpec) : Json.UniqueKeys (specJson spec) := by
  have hstrings : ∀ values : List Bytes,
      ∀ v ∈ if values = [] then none else some (stringsJson values), Json.UniqueKeys v := by
    intro values v hv
    split_ifs at hv
    · cases hv
    · obtain rfl := Option.some.inj hv
      exact uniqueKeys_stringsJson values
  have hmaps : ∀ values : StringMap,
      ∀ v ∈ if values.entries = [] then none else some (mapJson values), Json.UniqueKeys v := by
    intro values v hv
    split_ifs at hv
    · cases hv
    · obtain rfl := Option.some.inj hv
      exact uniqueKeys_mapJson values
  have hconst : ∀ v ∈ some (Json.str spec.name), Json.UniqueKeys v := by
    rintro v ⟨⟩
    trivial
  refine uniqueKeys_present (by rw [specFields_keys]; decide) ?_
  simp only [specFields, List.forall_mem_cons, List.not_mem_nil, false_implies, implies_true,
    and_true]
  refine ⟨?_, ?_, hstrings _, hmaps _, hmaps _, ?_, hstrings _, hstrings _, fun v hv => ?_⟩
  · rintro v ⟨⟩
    trivial
  · rintro v ⟨⟩
    trivial
  · rintro v ⟨⟩
    trivial
  · obtain ⟨limits, -, rfl⟩ := Option.map_eq_some_iff.1 hv
    exact uniqueKeys_limits limits

/-! ### The create body -/

/-- A text from which the specification comes back. -/
structure CreateBody (spec : ContainerSpec) (text : Bytes) (members : List (Bytes × Json)) :
    Prop where
  parses : Json.parse text = some (.obj members)
  unique : Json.UniqueKeys (.obj members)
  decodes : decodeSpec (.obj members) = some spec
  command : members.lookup (ofString "command") = none ↔ spec.command = []
  env : members.lookup (ofString "env") = none ↔ spec.env.entries = []
  labels : members.lookup (ofString "labels") = none ↔ spec.labels.entries = []
  capDrop : members.lookup (ofString "cap_drop") = none ↔ spec.capDrop = []
  securityOpt : members.lookup (ofString "security_opt") = none ↔ spec.securityOpt = []
  limits : members.lookup (ofString "resource_limits") = none ↔ spec.resourceLimits = none

/-- **The create body decodes back to the specification**, so no two accepted specifications have
one body. -/
theorem toPodmanCreateJson_roundTrip {spec : ContainerSpec}
    (hok : validateContainerSpec spec = .ok ()) :
    ∃ text members, toPodmanCreateJson spec = .ok text ∧ CreateBody spec text members ∧
      ∀ spec', toPodmanCreateJson spec' = .ok text → spec' = spec := by
  have hkeys : ((specFields spec).map Prod.fst).Nodup := by
    rw [specFields_keys]
    decide
  have habsent : ∀ {α : Type} (values : List α) (v : Json),
      (if values = [] then none else some v) = none ↔ values = [] := by
    intro α values v
    split_ifs with h <;> simp [h]
  have hlookup : ∀ {α : Type} {name : Bytes} {values : List α} (v : Json),
      (name, if values = [] then none else some v) ∈ specFields spec →
        ((present (specFields spec)).lookup name = none ↔ values = []) := by
    intro α name values v hmem
    rw [lookup_present hkeys hmem, habsent]
  have hparse : Json.parse (Json.render jsonEscape (specJson spec)) = some (specJson spec) :=
    Json.parse_render jsonEscape_escapes _
  refine ⟨_, present (specFields spec), toPodmanCreateJson_eq hok,
    { parses := hparse
      unique := uniqueKeys_specJson spec
      decodes := decodeSpec_specJson spec
      command := hlookup (stringsJson spec.command) (by simp [specFields])
      env := hlookup (mapJson spec.env) (by simp [specFields])
      labels := hlookup (mapJson spec.labels) (by simp [specFields])
      capDrop := hlookup (stringsJson spec.capDrop) (by simp [specFields])
      securityOpt := hlookup (stringsJson spec.securityOpt) (by simp [specFields])
      limits := ?_ }, fun spec' h => ?_⟩
  · have hmem : (ofString "resource_limits",
        spec.resourceLimits.map fun limits => Json.obj (present (limitsFields limits))) ∈
          specFields spec := by simp [specFields]
    rw [lookup_present hkeys hmem]
    exact Option.map_eq_none_iff
  · -- two specifications with one body: the body decodes to both of them
    have hok' : validateContainerSpec spec' = .ok () := by
      rw [toPodmanCreateJson] at h
      cases hv : validateContainerSpec spec' with
      | error e =>
          rw [hv] at h
          cases h
      | ok u => rfl
    rw [toPodmanCreateJson_eq hok'] at h
    have hread := congrArg Json.parse (Except.ok.inj h)
    rw [Json.parse_render jsonEscape_escapes, hparse] at hread
    have hdecode := congrArg decodeSpec (Option.some.inj hread)
    rw [decodeSpec_specJson, decodeSpec_specJson] at hdecode
    exact Option.some.inj hdecode

/-- A specification with quotes, a backslash and control characters in its strings, and with some of
the limits. -/
def awkwardSpec : ContainerSpec where
  name := "web-1"
  image := "busybox:latest"
  command := ["sh", "-c", "echo \"\\\n\x01\""]
  env := { entries := [("A", "\",\"B\":\"x"), ("B", [])] }
  resourceLimits := some { cpu := some { quota := some 100000 }, pids := some {} }

/-- The round trip of a specification with awkward strings. -/
theorem awkwardSpec_roundTrip : ∃ text members, toPodmanCreateJson awkwardSpec = .ok text ∧
    CreateBody awkwardSpec text members ∧
      ∀ spec', toPodmanCreateJson spec' = .ok text → spec' = awkwardSpec :=
  toPodmanCreateJson_roundTrip (by decide +kernel)

end PodInstaller
