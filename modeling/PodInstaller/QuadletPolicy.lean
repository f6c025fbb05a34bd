/-
**The Quadlet policy.**

`PodInstaller.validateQuadletPolicy` decides whether a supplied Quadlet may be installed for a
user.  It runs over the parsed file: every section and key must stand in the table of supported
keys, the managed label must be present exactly once, and the values of the `[Container]` keys
that reach into the host are looked at one key at a time.

Main definitions:

* `PodInstaller.hostPathVolume`, `PodInstaller.hostPathMount` — values that name a host path;
* `PodInstaller.allowedKeys`, `PodInstaller.validateAllowedKeys` — the table of supported keys;
* `PodInstaller.validateManagedLabel` — the managed label;
* `PodInstaller.validateQuadletPolicy` — the whole check.

Main results:

* `PodInstaller.validateAllowedKeys_eq_ok`, `PodInstaller.validateManagedLabel_eq_ok` — what the
  two loops over the parsed file accept;
* `PodInstaller.validateQuadletPolicy_eq_ok` — the check as a conjunction over the parsed file.
-/

import PodInstaller.QuadletParse
import PodInstaller.PodmanArgs

set_option relaxedAutoImplicit false
set_option autoImplicit false

namespace PodInstaller

open Bytes

/-! ### Values -/

/-- `equals_key`. -/
def equalsKey (value expected : Bytes) : Bool := lower (trim value) == lower expected

/-- `truthy`. -/
def truthy (value : Bytes) : Bool :=
  let normalized := lower (trim value)
  normalized == "1" || normalized == "yes" || normalized == "true" || normalized == "on"

/-- The test that `host_path_volume` and `host_path_mount` make on the source of a mount. -/
def looksLikeHostPath (source : Bytes) : Bool :=
  source.head? == some (ch '/') || source.head? == some (ch '.') ||
    source.head? == some (ch '~') || source.head? == some (ch '$') ||
    source.contains (ch '/') || source.contains (ch '\\') ||
    decide ((".." : Bytes) <:+: source) || source.contains (ch '%')

/-- `host_path_volume`. -/
def hostPathVolume (value : Bytes) : Bool :=
  let trimmed := trim value
  let source := trim (before (ch ':') trimmed)
  if source = [] then false else looksLikeHostPath source

/-- A key that names the source of a mount. -/
def isSourceKey (key : Bytes) : Bool := key == "source" || key == "src" || key == "from"

/-- The body of the loop of `host_path_mount`: one field of the value. -/
def hostPathField (part : Bytes) : Bool :=
  let key := lower (trim (before (ch '=') part))
  let val := trim (after (ch '=') part)
  (key == "type" && lower val == "bind") || (isSourceKey key && looksLikeHostPath val)

/-- `host_path_mount`. -/
def hostPathMount (value : Bytes) : Bool := (pieces (ch ',') (trim value)).any hostPathField

/-! ### Supported keys -/

/-- `dangerous_service_key`. -/
def dangerousServiceKey (key : Bytes) : Bool :=
  ("Exec" : Bytes).isPrefixOf key || key == "EnvironmentFile" || key == "LoadCredential" ||
    key == "SetCredential" || key == "RootDirectory" || key == "RootImage" ||
    key == "BindPaths" || key == "BindReadOnlyPaths" || key == "WorkingDirectory" ||
    key == "User" || key == "Group"

/-- The table of `validate_allowed_keys`. -/
def allowedKeys : List (Bytes × List Bytes) :=
  [("Unit", ["Description", "After", "Wants", "Requires", "Documentation"]),
    ("Container", ["Image", "ContainerName", "Label", "Environment", "ReadOnly",
      "NoNewPrivileges", "DropCapability", "Network", "Volume", "Mount", "UserNS", "PID",
      "IPCHost", "Device", "AddDevice", "Rootfs", "PodmanArgs"]),
    ("Service", ["Restart", "TimeoutStartSec", "TimeoutStopSec"]),
    ("Install", ["WantedBy"])]

/-- The inner loop of `validate_allowed_keys`, for one key of a section. -/
def validateAllowedKey (sec : Bytes) (keys : List Bytes) (key : Bytes) : Result Unit := do
  reject (dangerousServiceKey key)
    (makeError .policy
      (ofString "unsupported host-executing service key: " ++ sec ++ ofString "." ++ key))
  reject (key ∉ keys)
    (makeError .policy (ofString "unsupported Quadlet key: " ++ sec ++ ofString "." ++ key))

/-- `validate_allowed_keys`. -/
def validateAllowedKeys (parsed : ParsedQuadlet) : Result Unit :=
  parsed.sections.toList.forM fun (sec, entries) =>
    match allowedKeys.lookup sec with
    | none => .error (makeError .policy (ofString "unsupported Quadlet section: " ++ sec))
    | some keys => entries.toList.forM fun (key, _) => validateAllowedKey sec keys key

/-- A pair of section and key that stands in the table. -/
def KeyAllowed (sec key : Bytes) : Prop := ∃ keys, (sec, keys) ∈ allowedKeys ∧ key ∈ keys

/-- No key of the table is one of the keys that are refused by name. -/
theorem not_dangerousServiceKey_of_allowed :
    ∀ e ∈ allowedKeys, ∀ key ∈ e.2, dangerousServiceKey key = false := by decide

/-- The table lists each section once, so looking a section up finds its only entry. -/
theorem lookup_allowedKeys {sec : Bytes} {keys : List Bytes} :
    allowedKeys.lookup sec = some keys ↔ (sec, keys) ∈ allowedKeys := by
  rw [List.lookup_eq_some_iff]
  constructor
  · rintro ⟨l₁, l₂, hl, -⟩
    simp [hl]
  · intro hmem
    have hkeys : (allowedKeys.map Prod.fst).Nodup := by decide
    obtain ⟨l₁, l₂, hl⟩ := List.append_of_mem hmem
    refine ⟨l₁, l₂, hl, fun e he => ?_⟩
    rw [hl, List.map_append, List.map_cons, List.nodup_append] at hkeys
    have := hkeys.2.2 e.1 (List.mem_map_of_mem he) sec List.mem_cons_self
    simpa using fun h : sec = e.1 => this h.symm

theorem validateAllowedKey_eq_ok {sec key : Bytes} {keys : List Bytes} {u : Unit}
    (hkeys : (sec, keys) ∈ allowedKeys) :
    validateAllowedKey sec keys key = .ok u ↔ key ∈ keys := by
  simp only [validateAllowedKey, bind_eq_ok, reject_eq_ok, exists_const, not_not]
  constructor
  · exact fun h => h.2
  · intro h
    simp [not_dangerousServiceKey_of_allowed _ hkeys key h, h]

/-- **The table decides**: the loops over the parsed file accept exactly when every section and
key stands in the table. -/
theorem validateAllowedKeys_eq_ok {parsed : ParsedQuadlet}
    (hne : ∀ sec, parsed.hasSection sec = true → ∃ key, parsed.hasKey sec key) :
    validateAllowedKeys parsed = .ok () ↔
      ∀ sec key, parsed.hasKey sec key → KeyAllowed sec key := by
  unfold validateAllowedKeys
  rw [forM_eq_ok]
  constructor
  · rintro h sec key ⟨entries, hsec, hkey⟩
    have := h (sec, entries) (by simpa [Std.TreeMap.mem_toList_iff_getElem?_eq_some] using hsec)
    simp only at this
    cases hl : allowedKeys.lookup sec with
    | none => rw [hl] at this; simp at this
    | some keys =>
        rw [hl, forM_eq_ok] at this
        have hmem := lookup_allowedKeys.1 hl
        refine ⟨keys, hmem, ?_⟩
        have hv := this (key, entries[key]) (by simp)
        exact (validateAllowedKey_eq_ok hmem).1 hv
  · rintro h ⟨sec, entries⟩ hmem
    have hsec : parsed.sections[sec]? = some entries := by
      simpa [Std.TreeMap.mem_toList_iff_getElem?_eq_some] using hmem
    have hin : parsed.hasSection sec = true := by
      simp [ParsedQuadlet.hasSection, Std.TreeMap.contains_eq_isSome_getElem?, hsec]
    obtain ⟨key, hkey⟩ := hne sec hin
    obtain ⟨keys, hkeys, -⟩ := h sec key hkey
    simp only [lookup_allowedKeys.2 hkeys]
    rw [forM_eq_ok]
    rintro ⟨key', values⟩ hkv
    have hmem' : key' ∈ entries := by
      have hv : entries[key']? = some values := by
        simpa [Std.TreeMap.mem_toList_iff_getElem?_eq_some] using hkv
      simp [Std.TreeMap.mem_iff_contains, Std.TreeMap.contains_eq_isSome_getElem?, hv]
    obtain ⟨keys', hkeys', hmem⟩ := h sec key' ⟨entries, hsec, hmem'⟩
    obtain rfl : keys = keys' := by
      have h1 := lookup_allowedKeys.2 hkeys
      rw [lookup_allowedKeys.2 hkeys'] at h1
      exact (Option.some_inj.1 h1).symm
    exact (validateAllowedKey_eq_ok hkeys).2 hmem

/-! ### The managed label -/

/-- The key of a label: its trimmed part before the first `=`. -/
def labelKey (label : Bytes) : Bytes := trim (before (ch '=') label)

/-- The value of a label: its trimmed part after the first `=`. -/
def labelValue (label : Bytes) : Bytes := trim (after (ch '=') label)

/-- One round of the loop of `validate_managed_label`, on the counters `(matches,
managed_labels)`. -/
def countLabel (policy : QuadletPolicy) (counts : ℕ × ℕ) (label : Bytes) : ℕ × ℕ :=
  if labelKey label = policy.managedLabelKey then
    if labelValue label = policy.managedLabelValue then (counts.1 + 1, counts.2 + 1)
    else (counts.1, counts.2 + 1)
  else counts

/-- `validate_managed_label`. -/
def validateManagedLabel (parsed : ParsedQuadlet) (policy : QuadletPolicy) : Result Unit :=
  let counts := (parsed.values "Container" "Label").foldl (countLabel policy) (0, 0)
  reject (counts.2 ≠ 1 ∨ counts.1 ≠ 1)
    (makeError .policy (ofString "Quadlet must carry exactly one managed Label=" ++
      policy.managedLabelKey ++ ofString "=" ++ policy.managedLabelValue))

/-- The labels that carry the managed key. -/
def managedLabels (policy : QuadletPolicy) (labels : List Bytes) : List Bytes :=
  labels.filter fun label => labelKey label == policy.managedLabelKey

theorem managedLabels_cons (policy : QuadletPolicy) (label : Bytes) (labels : List Bytes) :
    managedLabels policy (label :: labels) =
      if labelKey label = policy.managedLabelKey then label :: managedLabels policy labels
      else managedLabels policy labels := by
  simp [managedLabels, List.filter_cons]

/-- The counters count the managed labels, and those of them with the managed value. -/
theorem foldl_countLabel (policy : QuadletPolicy) (labels : List Bytes) (m n : ℕ) :
    labels.foldl (countLabel policy) (m, n) =
      (m + ((managedLabels policy labels).filter
        fun label => labelValue label == policy.managedLabelValue).length,
        n + (managedLabels policy labels).length) := by
  induction labels generalizing m n with
  | nil => simp [managedLabels]
  | cons label labels ih =>
      rw [List.foldl_cons, countLabel, managedLabels_cons]
      by_cases hk : labelKey label = policy.managedLabelKey
      · rw [if_pos hk, if_pos hk, List.filter_cons, List.length_cons]
        by_cases hv : labelValue label = policy.managedLabelValue
        · rw [if_pos hv, if_pos (by simpa using hv), ih, List.length_cons]
          simp only [Prod.mk.injEq]
          omega
        · rw [if_neg hv, if_neg (by simpa using hv), ih]
          simp only [Prod.mk.injEq, true_and]
          omega
      · rw [if_neg hk, if_neg hk, ih]

/-- The labels are accepted exactly when one of them carries the managed key, once, with the
managed value. -/
theorem validateManagedLabel_eq_ok {parsed : ParsedQuadlet} {policy : QuadletPolicy} :
    validateManagedLabel parsed policy = .ok () ↔
      ∃ label, managedLabels policy (parsed.values "Container" "Label") = [label] ∧
        labelValue label = policy.managedLabelValue := by
  simp only [validateManagedLabel, reject_eq_ok, foldl_countLabel, Nat.zero_add, not_or, not_not]
  constructor
  · rintro ⟨hn, hm⟩
    obtain ⟨label, hlabel⟩ := List.length_eq_one_iff.1 hn
    refine ⟨label, hlabel, ?_⟩
    rw [hlabel] at hm
    by_contra hv
    simp [hv] at hm
  · rintro ⟨label, hlabel, hv⟩
    simp [hlabel, hv]

/-! ### The whole check -/

/-- A loop over the values of one `[Container]` key that rejects the values `bad` picks out. -/
def rejectValues (parsed : ParsedQuadlet) (key : Bytes) (bad : Bytes → Bool) (message : Bytes) :
    Result Unit :=
  (parsed.values "Container" key).forM fun value => reject (bad value) (makeError .policy message)

theorem rejectValues_eq_ok {parsed : ParsedQuadlet} {key : Bytes} {bad : Bytes → Bool}
    {message : Bytes} {u : Unit} :
    rejectValues parsed key bad message = .ok u ↔
      ∀ value ∈ parsed.values "Container" key, bad value = false := by
  rw [rejectValues, forM_eq_ok]
  simp only [reject_eq_ok, Bool.not_eq_true]

/-- The loop over the `PodmanArgs=` values, which rejects for two reasons. -/
def rejectPodmanArgs (parsed : ParsedQuadlet) (policy : QuadletPolicy) : Result Unit :=
  (parsed.values "Container" "PodmanArgs").forM fun value => do
    reject (policy.allowPodmanArgs = false)
      (makeError .policy "Quadlet PodmanArgs= is not allowed by default")
    reject (deniedPodmanArg value policy)
      (makeError .policy "Quadlet PodmanArgs contains a denied argument")

/-- `validate_quadlet_policy`. -/
def validateQuadletPolicy (quadlet : QuadletFile) (policy : QuadletPolicy) : Result Unit := do
  validateQuadletFileName quadlet.fileName
  reject (quadlet.contents = []) (makeError .invalidArgument "Quadlet contents are empty")
  reject (0 ∈ quadlet.contents)
    (makeError .invalidArgument "Quadlet contents must not contain NUL bytes")
  let parsed ← parseQuadlet quadlet.contents
  -- from here on only the assignments count
  reject (policy.requireContainerSection ∧ parsed.hasSection "Container" = false)
    (makeError .policy "Quadlet must contain a [Container] section")
  reject (policy.requireImage ∧ parsed.values "Container" "Image" = [])
    (makeError .policy "Quadlet [Container] section must contain Image=")
  validateAllowedKeys parsed
  (if policy.requireManagedLabel then validateManagedLabel parsed policy else .ok ())
  rejectValues parsed "Network" (fun value => !policy.allowHostNetwork && equalsKey value "host")
    "Quadlet Network=host is not allowed"
  rejectValues parsed "PID" (fun value => !policy.allowHostPid && equalsKey value "host")
    "Quadlet PID=host is not allowed"
  rejectValues parsed "IPCHost" (fun value => !policy.allowHostIpc && truthy value)
    "Quadlet IPCHost=true is not allowed"
  rejectValues parsed "UserNS" (fun value => !policy.allowHostUserns && equalsKey value "host")
    "Quadlet UserNS=host is not allowed"
  rejectValues parsed "Device" (fun value => !policy.allowDevices && trim value != [])
    "Quadlet Device= is not allowed by default"
  rejectValues parsed "AddDevice" (fun value => !policy.allowDevices && trim value != [])
    "Quadlet AddDevice= is not allowed by default"
  rejectValues parsed "Volume" (fun value => !policy.allowRootMount && hostPathVolume value)
    "Quadlet host path Volume= mounts are not allowed"
  rejectValues parsed "Mount" (fun value => !policy.allowRootMount && hostPathMount value)
    "Quadlet host path Mount= mounts are not allowed"
  rejectValues parsed "Rootfs" (fun value => !policy.allowRootMount && trim value != [])
    "Quadlet Rootfs= is not allowed by default"
  rejectPodmanArgs parsed policy

theorem rejectPodmanArgs_eq_ok {parsed : ParsedQuadlet} {policy : QuadletPolicy} {u : Unit} :
    rejectPodmanArgs parsed policy = .ok u ↔
      ∀ value ∈ parsed.values "Container" "PodmanArgs",
        policy.allowPodmanArgs = true ∧ deniedPodmanArg value policy = false := by
  rw [rejectPodmanArgs, forM_eq_ok]
  simp only [bind_eq_ok, reject_eq_ok, exists_const, Bool.not_eq_true, Bool.not_eq_false]

/-- **The check over the parsed file**, as a conjunction: everything the file must meet to be
accepted, in the order of the code. -/
theorem validateQuadletPolicy_eq_ok {quadlet : QuadletFile} {policy : QuadletPolicy} :
    validateQuadletPolicy quadlet policy = .ok () ↔
      validateQuadletFileName quadlet.fileName = .ok () ∧ quadlet.contents ≠ [] ∧
      0 ∉ quadlet.contents ∧ ∃ parsed, parseQuadlet quadlet.contents = .ok parsed ∧
      (policy.requireContainerSection = true → parsed.hasSection "Container" = true) ∧
      (policy.requireImage = true → parsed.values "Container" "Image" ≠ []) ∧
      validateAllowedKeys parsed = .ok () ∧
      (policy.requireManagedLabel = true → validateManagedLabel parsed policy = .ok ()) ∧
      (∀ value ∈ parsed.values "Container" "Network",
        policy.allowHostNetwork = false → equalsKey value "host" = false) ∧
      (∀ value ∈ parsed.values "Container" "PID",
        policy.allowHostPid = false → equalsKey value "host" = false) ∧
      (∀ value ∈ parsed.values "Container" "IPCHost",
        policy.allowHostIpc = false → truthy value = false) ∧
      (∀ value ∈ parsed.values "Container" "UserNS",
        policy.allowHostUserns = false → equalsKey value "host" = false) ∧
      (∀ value ∈ parsed.values "Container" "Device",
        policy.allowDevices = false → trim value = []) ∧
      (∀ value ∈ parsed.values "Container" "AddDevice",
        policy.allowDevices = false → trim value = []) ∧
      (∀ value ∈ parsed.values "Container" "Volume",
        policy.allowRootMount = false → hostPathVolume value = false) ∧
      (∀ value ∈ parsed.values "Container" "Mount",
        policy.allowRootMount = false → hostPathMount value = false) ∧
      (∀ value ∈ parsed.values "Container" "Rootfs",
        policy.allowRootMount = false → trim value = []) ∧
      (∀ value ∈ parsed.values "Container" "PodmanArgs",
        policy.allowPodmanArgs = true ∧ deniedPodmanArg value policy = false) := by
  have hflag : ∀ a b : Bool, (!a && b) = false ↔ (a = false → b = false) := by decide
  have hblank : ∀ s : Bytes, (s != []) = false ↔ s = [] := fun s => by simp
  have hif : ∀ (b : Bool) (x : Result Unit),
      (if b = true then x else .ok ()) = .ok () ↔ (b = true → x = .ok ()) := by
    intro b x
    cases b <;> simp
  simp only [validateQuadletPolicy, bind_eq_ok, reject_eq_ok, rejectValues_eq_ok,
    rejectPodmanArgs_eq_ok, exists_const, hflag, hblank, not_and, Bool.not_eq_false, ne_eq]
  constructor
  · rintro ⟨⟨⟩, h₁, h₂, h₃, parsed, h₄, h₅, h₆, ⟨⟩, h₇, ⟨⟩, h₈, h₉⟩
    exact ⟨h₁, h₂, h₃, parsed, h₄, h₅, h₆, h₇, (hif _ _).1 h₈, h₉⟩
  · rintro ⟨h₁, h₂, h₃, parsed, h₄, h₅, h₆, h₇, h₈, h₉⟩
    exact ⟨(), h₁, h₂, h₃, parsed, h₄, h₅, h₆, (), h₇, (), (hif _ _).2 h₈, h₉⟩

end PodInstaller
