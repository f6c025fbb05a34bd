/-
**Opening a staged image archive.**

An image archive is named by a path below a configured staging root.
`PodInstaller.relativeStagedPath` turns the path into one relative to the root and refuses empty
components, `.` and `..`; `PodInstaller.openStagedImageArchive` then goes down from the root one
`openat` at a time.  The check is made on the components of the path, the calls are made on their
C strings: this module settles when the two agree.

Main definitions:

* `PodInstaller.ImageArchive`, `PodInstaller.DeploymentOptions` — the data;
* `PodInstaller.relativeStagedPath`, `PodInstaller.openStagedImageArchive` — the code;
* `PodInstaller.stagingTree` — a machine that answers a call in any way a directory tree could;
* `PodInstaller.LeadsBelow` — the paths that lead below a root, and the names they do it by;
* `PodInstaller.GoesDown`, `PodInstaller.CutComponent` — descents along names that stay below the
  directory they are looked up in, and the archives whose path has a NUL byte where it cuts a
  component to nothing, `.` or `..`.

Main results:

* `PodInstaller.relativeStagedPath_eq_ok` — **what comes out of the checks**;
* `PodInstaller.openStagedImageArchive_below_root_iff` — **when every name stays below the root**;
* `PodInstaller.nul_component_escapes` — an archive path that leads out of it.
-/

import PodInstaller.Target

set_option relaxedAutoImplicit false
set_option autoImplicit false

namespace PodInstaller

open Bytes

/-! ### The data -/

/-- `ImageArchive`. -/
structure ImageArchive where
  path : PosixPath
  expectedSha256 : Bytes := []

/-- `DeploymentOptions` with its defaults. -/
structure DeploymentOptions where
  runtimeLayout : RuntimeDirectoryLayout := {}
  imageArchiveRoot : Option PosixPath := none
  maxImageArchiveBytes : UInt64 := 8 * 1024 * 1024 * 1024
  apiVersion : Bytes := "5.0.0"
  validateSocket : Bool := true
  loadImageArchive : Bool := true
  restartUnit : Bool := true
  dryRun : Bool := false

/-- `OpenArchive`. -/
structure OpenArchive where
  fd : Fd
  size : ℕ

/-! ### The path below the root -/

/-- `path_component_is_safe`. -/
def pathComponentIsSafe (component : Bytes) : Bool :=
  component != [] && component != "." && component != ".."

/-- The loop of `relative_staged_path` that takes the components of the root off the components of
the path, and the loop after it that puts the remaining ones together. -/
def stripRoot (normalized : PosixPath) : List Bytes → List Bytes → Result PosixPath
  | [], rest => .ok (rest.foldl PosixPath.append [])
  | r :: root, c :: rest =>
    if c = r then stripRoot normalized root rest
    else .error (makeError .policy
      (ofString "image archive path is outside configured staging root: " ++ normalized))
  | _ :: _, [] => .error (makeError .policy
      (ofString "image archive path is outside configured staging root: " ++ normalized))

/-- `relative_staged_path`. -/
def relativeStagedPath (root path : PosixPath) : Result PosixPath := do
  reject ((PosixPath.components path).all pathComponentIsSafe = false)
    (makeError .policy (ofString "image archive path must not contain '.' or '..': " ++ path))
  let normalized := PosixPath.lexicallyNormal path
  -- an absolute path has to lead below the root, a relative one starts there
  let normalized ←
    (if PosixPath.isAbsolute normalized then
      stripRoot normalized (PosixPath.components (PosixPath.lexicallyNormal root))
        (PosixPath.components normalized)
    else .ok normalized)
  reject (normalized = [] ∨ PosixPath.same normalized "." = true)
    (makeError .policy "image archive path is empty")
  reject ((PosixPath.components normalized).all pathComponentIsSafe = false)
    (makeError .policy (ofString "image archive path must not contain '.' or '..': " ++ normalized))
  return normalized

/-! ### Going down from the root -/

/-- The checks on a `struct stat` of the archive. -/
def checkArchiveStat (st : Stat) (options : DeploymentOptions) : Action Unit := do
  rejectIf (st.kind ≠ .regular)
    (makeError .policy "staged image archive must be a regular file")
  rejectIf (st.size < 0 ∨ (options.maxImageArchiveBytes.toNat : ℤ) < st.size)
    (makeError .policy "staged image archive is too large")

/-- What the loop of `open_staged_image_archive` does first when the component is the last one. -/
def checkFinalComponent (options : DeploymentOptions) (current : Fd) (name : Bytes) :
    Action Unit := do
  let st ← attempt (sys (.fstatat current (cStr name))) (sysError
    (ofString "failed to stat staged image archive component '" ++ name ++ ofString "'"))
  checkArchiveStat st options

/-- The loop of `open_staged_image_archive` over the components of the path. -/
def openComponents (options : DeploymentOptions) (current : Fd) : List Bytes → Action Fd
  | [] => return current
  | name :: rest => do
    -- the file itself is looked at before it is opened
    (if rest = [] then checkFinalComponent options current name else pure ())
    let next ← attempt
      (sys (.openat current (cStr name)
        (if rest = [] then { nonblock := true } else { directory := true })))
      (sysError
        (ofString "failed to open staged image archive component '" ++ name ++ ofString "'"))
    openComponents options next rest

/-- `open_staged_image_archive`. -/
def openStagedImageArchive (archive : ImageArchive) (options : DeploymentOptions) :
    Action OpenArchive := do
  rejectIf (archive.expectedSha256 ≠ [])
    (makeError .policy
      (ofString "ImageArchive::expected_sha256 is not implemented; verify bundle " ++
        ofString "manifest digests before deployment"))
  match options.imageArchiveRoot with
  | none =>
    throw (makeError .policy
      "deployment image loading requires DeploymentOptions::image_archive_root")
  | some root =>
    let relative ← done (relativeStagedPath root archive.path)
    let current ← attempt (sys (.openPath (cStr root) { directory := true })) (sysError
      (ofString "failed to open image archive staging root '" ++ root ++ ofString "'"))
    let current ← openComponents options current (PosixPath.components relative)
    let st ← attempt (sys (.fstat current)) (sysError "failed to stat staged image archive")
    -- and once more afterwards: it may be another file by now
    checkArchiveStat st options
    return ⟨current, st.size.toNat⟩

/-! ### The components that come out of the checks -/

theorem stripRoot_eq_ok {normalized relative : PosixPath} {root parts : List Bytes} :
    stripRoot normalized root parts = .ok relative ↔
      ∃ rest, parts = root ++ rest ∧ relative = rest.foldl PosixPath.append [] := by
  induction root generalizing parts with
  | nil =>
      cases parts <;> simp [stripRoot, eq_comm]
  | cons r root ih =>
      cases parts with
      | nil => simp [stripRoot]
      | cons c parts =>
          rw [stripRoot]
          by_cases hc : c = r
          · simp [hc, ih]
          · simp [hc]

theorem pathComponentIsSafe_eq {c : Bytes} :
    pathComponentIsSafe c = true ↔ c ≠ [] ∧ c ≠ "." ∧ c ≠ ".." := by
  simp [pathComponentIsSafe, and_assoc]

/-- The check on all components of a path. -/
theorem all_pathComponentIsSafe {p : PosixPath} :
    ¬ (PosixPath.components p).all pathComponentIsSafe = false ↔
      ∀ c ∈ PosixPath.components p, c ≠ [] ∧ c ≠ "." ∧ c ≠ ".." := by
  rw [Bool.not_eq_false, List.all_eq_true]
  exact forall₂_congr fun c _ => pathComponentIsSafe_eq

/-- A path has no component that is empty, `.` or `..`, and is made up of the names `below`, behind
the components of the normal form of the root if it is absolute. -/
structure LeadsBelow (root path : PosixPath) (below : List Bytes) : Prop where
  plain : ∀ c ∈ PosixPath.components path, c ≠ [] ∧ c ≠ "." ∧ c ≠ ".."
  nonempty : below ≠ []
  made : PosixPath.components path =
    (if PosixPath.isAbsolute path then PosixPath.components (PosixPath.lexicallyNormal root)
      else []) ++ below

namespace LeadsBelow

variable {root path : PosixPath} {below : List Bytes}

theorem hasTrailingSlash (h : LeadsBelow root path below) :
    PosixPath.hasTrailingSlash path = false := by
  by_contra htrail
  rw [Bool.not_eq_false] at htrail
  exact (h.plain [] (by simp [PosixPath.components, htrail])).1 rfl

/-- What is below the root are names of the path. -/
theorem mem_names (hroot : root ≠ []) (h : LeadsBelow root path below) :
    ∀ n ∈ below, n ∈ PosixPath.names path := by
  intro n hn
  have hmade := h.made
  cases habs : PosixPath.isAbsolute path with
  | false =>
      rw [habs, if_neg Bool.false_ne_true, List.nil_append,
        PosixPath.components_of_relative habs h.hasTrailingSlash] at hmade
      exact hmade ▸ hn
  | true =>
      -- the root has at least one component, so the root directory is not below it
      obtain ⟨r, rs, hr⟩ := List.exists_cons_of_ne_nil
        (PosixPath.components_ne_nil (PosixPath.lexicallyNormal_ne_nil hroot))
      rw [habs, if_pos rfl, PosixPath.components_of_absolute habs h.hasTrailingSlash, hr,
        List.cons_append, List.cons.injEq] at hmade
      exact hmade.2 ▸ List.mem_append_right rs hn

/-- **What is below the root are good names**, NUL bytes aside. -/
theorem isEntryName (hroot : root ≠ []) (h : LeadsBelow root path below) :
    ∀ n ∈ below, PosixPath.IsEntryName n := by
  intro n hn
  have hmem : n ∈ PosixPath.components path := by
    rw [h.made]
    exact List.mem_append_right _ hn
  exact ⟨PosixPath.isName_of_mem_names (h.mem_names hroot n hn), (h.plain n hmem).2⟩

theorem components_join (hroot : root ≠ []) (h : LeadsBelow root path below) :
    PosixPath.components (PosixPath.join below) = below :=
  PosixPath.components_join fun n hn => (h.isEntryName hroot n hn).1

end LeadsBelow

/-- What the loops over the normalised path deliver: the names below the root, joined. -/
theorem stripped_eq_ok {root path normalized : PosixPath} (hroot : root ≠ [])
    (hplain : ∀ c ∈ PosixPath.components path, c ≠ [] ∧ c ≠ "." ∧ c ≠ "..")
    (hne : normalized ≠ []) :
    (if PosixPath.isAbsolute (PosixPath.lexicallyNormal path) then
        stripRoot (PosixPath.lexicallyNormal path)
          (PosixPath.components (PosixPath.lexicallyNormal root))
          (PosixPath.components (PosixPath.lexicallyNormal path))
      else .ok (PosixPath.lexicallyNormal path)) = .ok normalized ↔
      ∃ below, LeadsBelow root path below ∧ normalized = PosixPath.join below := by
  rw [PosixPath.isAbsolute_lexicallyNormal, PosixPath.components_lexicallyNormal hplain]
  cases habs : PosixPath.isAbsolute path with
  | true =>
      rw [if_pos rfl, stripRoot_eq_ok]
      constructor
      · rintro ⟨below, hmade, rfl⟩
        have hleads : LeadsBelow root path below := by
          refine ⟨hplain, ?_, by rw [habs, if_pos rfl, hmade]⟩
          rintro rfl
          exact hne rfl
        exact ⟨below, hleads, PosixPath.foldl_append_eq_join fun n hn =>
          (hleads.isEntryName hroot n hn).1⟩
      · rintro ⟨below, hleads, rfl⟩
        refine ⟨below, ?_, (PosixPath.foldl_append_eq_join fun n hn =>
          (hleads.isEntryName hroot n hn).1).symm⟩
        rw [hleads.made, habs, if_pos rfl]
  | false =>
      rw [if_neg Bool.false_ne_true]
      -- the normal form of a relative path are its components, joined
      have hjoin : ∀ {below}, LeadsBelow root path below →
          PosixPath.lexicallyNormal path = PosixPath.join below := by
        intro below hleads
        have hnames : PosixPath.names path = below := by
          have hmade := hleads.made
          rwa [habs, if_neg Bool.false_ne_true, List.nil_append,
            PosixPath.components_of_relative habs hleads.hasTrailingSlash] at hmade
        rw [PosixPath.lexicallyNormal_of_plain (hnames ▸ hleads.nonempty) hleads.hasTrailingSlash,
          habs, if_neg Bool.false_ne_true, List.nil_append, hnames]
        exact fun n hn => (hleads.isEntryName hroot n (hnames ▸ hn)).2
      constructor
      · intro heq
        obtain rfl := Except.ok.inj heq
        have hleads : LeadsBelow root path (PosixPath.components path) := by
          refine ⟨hplain, PosixPath.components_ne_nil ?_, ?_⟩
          · rintro rfl
            exact hne rfl
          · rw [habs, if_neg Bool.false_ne_true, List.nil_append]
        exact ⟨_, hleads, hjoin hleads⟩
      · rintro ⟨below, hleads, rfl⟩
        rw [hjoin hleads]

/-- **What comes out of the checks**: the names that lead below the root, joined. -/
theorem relativeStagedPath_eq_ok {root path relative : PosixPath} (hroot : root ≠ []) :
    relativeStagedPath root path = .ok relative ↔
      ∃ below, LeadsBelow root path below ∧ relative = PosixPath.join below := by
  simp only [relativeStagedPath, bind_eq_ok, reject_eq_ok, exists_const, all_pathComponentIsSafe,
    not_or]
  constructor
  · rintro ⟨hplain, normalized, hnormalized, hempty, -, hrel⟩
    obtain rfl : normalized = relative := by simpa [pure, Except.pure] using hrel
    exact (stripped_eq_ok hroot hplain hempty.1).1 hnormalized
  · rintro ⟨below, hleads, rfl⟩
    have hcomponents := hleads.components_join hroot
    have hentry := hleads.isEntryName hroot
    have hne : PosixPath.join below ≠ [] := by
      intro hnil
      rw [hnil] at hcomponents
      exact hleads.nonempty hcomponents.symm
    refine ⟨hleads.plain, _, (stripped_eq_ok hroot hleads.plain hne).2 ⟨below, hleads, rfl⟩,
      ⟨hne, fun hsame => ?_⟩, ?_, rfl⟩
    · rw [PosixPath.same, beq_iff_eq, hcomponents] at hsame
      exact (hentry "." (hsame ▸ by decide)).2.1 rfl
    · intro c hc
      rw [hcomponents] at hc
      exact ⟨(hentry c hc).1.1, (hentry c hc).2⟩

/-! ### Names that are cut -/

/-- A component that the kernel reads as nothing, `.` or `..`: a NUL byte stands behind these. -/
def CutShort (c : Bytes) : Prop :=
  ∃ dots ∈ ([[], ofString ".", ofString ".."] : List Bytes), ∃ rest, c = dots ++ 0 :: rest

/-- Cutting a name at its first NUL byte does not bring a slash in. -/
theorem slash_notMem_cStr {c : Bytes} (h : ch '/' ∉ c) : ch '/' ∉ cStr c :=
  fun hmem => h ((List.takeWhile_sublist _).mem hmem)

theorem cStr_append_zero {dots : Bytes} (hdots : 0 ∉ dots) (rest : Bytes) :
    cStr (dots ++ 0 :: rest) = dots := by
  have hall : ∀ c ∈ dots, (c != 0) = true := fun c hc => by
    simpa using fun h0 : c = 0 => hdots (h0 ▸ hc)
  rw [cStr, List.takeWhile_append_of_pos hall]
  simp

/-- **The C string of a good name is a good name**, unless the name is cut short. -/
theorem isEntryName_cStr_iff {c : Bytes} (hc : PosixPath.IsEntryName c) :
    PosixPath.IsEntryName (cStr c) ↔ ¬ CutShort c := by
  constructor
  · rintro hgood ⟨dots, hdots, rest, rfl⟩
    have hzero : ∀ d ∈ ([[], ofString ".", ofString ".."] : List Bytes),
        0 ∉ d ∧ ¬ PosixPath.IsEntryName d := by decide +kernel
    rw [cStr_append_zero (hzero dots hdots).1] at hgood
    exact (hzero dots hdots).2 hgood
  · intro hcut
    by_cases hzero : 0 ∈ c
    · obtain ⟨front, rest, rfl, hfront⟩ := List.eq_append_cons_of_mem hzero
      rw [cStr_append_zero hfront]
      have hne : ∀ dots ∈ ([[], ofString ".", ofString ".."] : List Bytes), front ≠ dots := by
        rintro dots hdots rfl
        exact hcut ⟨front, hdots, rest, rfl⟩
      exact ⟨⟨hne [] (by simp), fun hslash => hc.1.2 (List.mem_append_left _ hslash)⟩,
        hne "." (by simp), hne ".." (by simp)⟩
    · rwa [cStr_eq_self hzero]

/-! ### The calls along the path -/

/-- The names that a call looks up relative to a descriptor. -/
def passedNames : Sys → List Bytes
  | .openat _ name _ => [name]
  | .fstatat _ name => [name]
  | _ => []

/-- The loop passes nothing but the C strings of the components. -/
theorem openComponents_calls (options : DeploymentOptions) (current : Fd) (parts : List Bytes) :
    (openComponents options current parts).run.Calls
      fun o _ => ∀ n ∈ passedNames o, ∃ c ∈ parts, n = cStr c := by
  induction parts generalizing current with
  | nil => trivial
  | cons name rest ih =>
      rw [openComponents]
      refine calls_exceptT_bind ?_ fun _ => calls_exceptT_bind ?_ fun next => ?_
      · split
        · refine calls_exceptT_bind (calls_attempt (calls_sys ?_)) fun st => ?_
          · intro n hn
            exact ⟨name, by simp, by simpa [passedNames] using hn⟩
          · exact calls_exceptT_bind trivial fun _ => trivial
        · trivial
      · refine calls_attempt (calls_sys ?_)
        intro n hn
        exact ⟨name, by simp, by simpa [passedNames] using hn⟩
      · refine (ih next).mono ?_
        intro o _ ho n hn
        obtain ⟨c, hc, rfl⟩ := ho n hn
        exact ⟨c, by simp [hc], rfl⟩

/-! ### Every tree -/

/-- The answer to a call, where the empty path names nothing. -/
def foundAnswer : (o : Sys) → o.Resp → o.Resp
  | .openPath [] _, _ => .error ENOENT
  | _, answer => answer

/-- A machine that answers every call in any way: whatever the directory tree is, and however
others change it between two calls, its answers are among these. -/
def stagingTree : Machine Sys.Resp Unit ((o : Sys) → o.Resp) where
  step _ _ o answer := some (foundAnswer o (answer o), ())

/-- An event of a run in such a tree. -/
abbrev StagingEvent := Event Sys.Resp Unit ((o : Sys) → o.Resp)

/-- The calls go down from one descriptor to another: each looks up a good name in the directory
opened last. -/
inductive GoesDown : Fd → List StagingEvent → Fd → Prop
  | here (fd : Fd) : GoesDown fd [] fd
  | stat {fd fd' : Fd} {e : StagingEvent} {tr : List StagingEvent}
      (hop : e.op = .fstat fd ∨ ∃ n, PosixPath.IsEntryName n ∧ e.op = .fstatat fd n)
      (hrest : GoesDown fd tr fd') : GoesDown fd (e :: tr) fd'
  | down {fd next fd' : Fd} {n : Bytes} {flags : OpenFlags} {c : (o : Sys) → o.Resp}
      {tr : List StagingEvent} (hname : PosixPath.IsEntryName n) (hrest : GoesDown next tr fd') :
      GoesDown fd (⟨(), .openat fd n flags, c, .ok next, ()⟩ :: tr) fd'

theorem GoesDown.append {fd fd' fd'' : Fd} {tr tr' : List StagingEvent}
    (h : GoesDown fd tr fd') (h' : GoesDown fd' tr' fd'') : GoesDown fd (tr ++ tr') fd'' := by
  induction h with
  | here fd => exact h'
  | stat hop _ ih => exact .stat hop (ih h')
  | down hname _ ih => exact .down hname (ih h')

variable {t : ℕ} {tr : List StagingEvent} {w w' : Unit}

theorem checkArchiveStat_run {st : Stat} {options : DeploymentOptions} {r : Result Unit}
    (h : Exec stagingTree t w (checkArchiveStat st options).run tr w' r) : tr = [] := by
  rw [checkArchiveStat, exec_exceptT_bind] at h
  rcases h with ⟨e, -, h⟩ | ⟨tr₁, w₁, a, tr₂, h₁, h₂, rfl⟩
  · exact (exec_rejectIf.1 h).1
  · rw [(exec_rejectIf.1 h₁).1, (exec_rejectIf.1 h₂).1, List.append_nil]

/-- A loop that comes to its end has gone down along the components. -/
theorem openComponents_goesDown {options : DeploymentOptions} {current fd : Fd}
    {parts : List Bytes} (hparts : ∀ c ∈ parts, PosixPath.IsEntryName (cStr c))
    (h : Exec stagingTree t w (openComponents options current parts).run tr w' (.ok fd)) :
    GoesDown current tr fd := by
  induction parts generalizing current tr w with
  | nil =>
      obtain ⟨rfl, -, heq⟩ := exec_pure.1 h
      obtain rfl : fd = current := by simpa using heq
      exact .here _
  | cons name rest ih =>
      rw [openComponents] at h
      obtain ⟨tr₁, w₁, _, tr₂, hcheck, h₁, rfl⟩ := exec_bind_ok.1 h
      obtain ⟨tr₃, w₂, next, tr₄, hopen, h₂, rfl⟩ := exec_bind_ok.1 h₁
      have hrest := ih (fun c hc => hparts c (List.mem_cons_of_mem _ hc)) h₂
      have hname := hparts name List.mem_cons_self
      obtain ⟨c, -, rfl⟩ := exec_sys.1 (exec_attempt_ok.1 hopen)
      refine GoesDown.append ?_ (.down hname hrest)
      split at hcheck
      · rw [checkFinalComponent] at hcheck
        obtain ⟨tr₅, w₃, st, tr₆, hstat, hcheck', rfl⟩ := exec_bind_ok.1 hcheck
        obtain ⟨c', -, rfl⟩ := exec_sys.1 (exec_attempt_ok.1 hstat)
        rw [checkArchiveStat_run hcheck']
        exact .stat (.inr ⟨_, hname, rfl⟩) (.here _)
      · rw [(exec_pure.1 hcheck).1]
        exact .here _

/-- The archives whose path leads below the configured root along a component that is cut short. -/
def CutComponent (archive : ImageArchive) (options : DeploymentOptions) : Prop :=
  ∃ root below, archive.expectedSha256 = [] ∧ options.imageArchiveRoot = some root ∧
    cStr root ≠ [] ∧ LeadsBelow root archive.path below ∧ ∃ c ∈ below, CutShort c

/-- Every name that is looked up is good, and a descriptor that is returned was reached by going
down from the root. -/
def StaysBelowRoot (archive : ImageArchive) (options : DeploymentOptions) : Prop :=
  ∀ (t : ℕ) (w : Unit) (tr : List StagingEvent) (w' : Unit) (r : Result OpenArchive),
    Exec stagingTree t w (openStagedImageArchive archive options).run tr w' r →
    (∀ e ∈ tr, ∀ n ∈ passedNames e.op, PosixPath.IsEntryName n) ∧
    ∀ a, r = .ok a → ∃ root flags answer fd rest,
      options.imageArchiveRoot = some root ∧
      tr = ⟨(), .openPath (cStr root) flags, answer, .ok fd, ()⟩ :: rest ∧ GoesDown fd rest a.fd

theorem ne_nil_of_cStr {root : PosixPath} (h : cStr root ≠ []) : root ≠ [] := by
  rintro rfl
  exact h rfl

/-- A run that gets as far as the root directory has passed the checks before it. -/
theorem openStagedImageArchive_run {archive : ImageArchive} {options : DeploymentOptions}
    {r : Result OpenArchive}
    (h : Exec stagingTree t w (openStagedImageArchive archive options).run tr w' r) :
    (∃ e, r = .error e ∧ ∀ ev ∈ tr, passedNames ev.op = []) ∨
    ∃ root relative flags answer fd rest, archive.expectedSha256 = [] ∧
      options.imageArchiveRoot = some root ∧ cStr root ≠ [] ∧
      relativeStagedPath root archive.path = .ok relative ∧
      tr = ⟨(), .openPath (cStr root) flags, answer, .ok fd, ()⟩ :: rest ∧
      Exec stagingTree t () (openComponents options fd (PosixPath.components relative) >>=
          fun current => do
        let st ← attempt (sys (.fstat current)) (sysError "failed to stat staged image archive")
        checkArchiveStat st options
        return (⟨current, st.size.toNat⟩ : OpenArchive)).run rest w' r := by
  rw [openStagedImageArchive, exec_exceptT_bind] at h
  rcases h with ⟨e, he, h⟩ | ⟨tr₁, w₁, _, tr₂, hcheck, hmatch, rfl⟩
  · exact .inl ⟨e, he, by rw [(exec_rejectIf.1 h).1]; simp⟩
  obtain ⟨rfl, rfl, hsha⟩ := exec_rejectIf_ok.1 hcheck
  cases hroot : options.imageArchiveRoot with
  | none =>
      rw [hroot] at hmatch
      obtain ⟨rfl, -, hr⟩ := exec_throw.1 hmatch
      exact .inl ⟨_, hr, by simp⟩
  | some root =>
      rw [hroot] at hmatch
      dsimp only at hmatch
      rw [exec_exceptT_bind] at hmatch
      rcases hmatch with ⟨e, he, h⟩ | ⟨tr₃, w₂, relative, tr₄, hdone, hopen, rfl⟩
      · exact .inl ⟨e, he, by rw [(exec_done.1 h).1]; simp⟩
      obtain ⟨rfl, rfl, hrel⟩ := exec_done.1 hdone
      rw [exec_exceptT_bind] at hopen
      rcases hopen with ⟨e, he, h⟩ | ⟨tr₅, w₃, fd, tr₆, hcall, hrest, rfl⟩
      · obtain ⟨n, -, h⟩ := exec_attempt_error.1 h
        obtain ⟨c, -, rfl⟩ := exec_sys.1 h
        exact .inl ⟨e, he, by simp [passedNames]⟩
      obtain ⟨c, hstep, rfl⟩ := exec_sys.1 (exec_attempt_ok.1 hcall)
      refine .inr ⟨root, relative, _, c, fd, tr₆, not_not.1 hsha, rfl, ?_, hrel.symm, rfl, hrest⟩
      intro hnil
      rw [hnil] at hstep
      simp [stagingTree, foundAnswer] at hstep

/-- What the checks let through are the names below the root, so that their C strings are good. -/
theorem isEntryName_of_not_cutComponent {archive : ImageArchive} {options : DeploymentOptions}
    {root relative : PosixPath} (hsha : archive.expectedSha256 = [])
    (hroot : options.imageArchiveRoot = some root) (hne : cStr root ≠ [])
    (hrel : relativeStagedPath root archive.path = .ok relative)
    (hcut : ¬ CutComponent archive options) :
    ∀ c ∈ PosixPath.components relative, PosixPath.IsEntryName (cStr c) := by
  obtain ⟨below, hleads, rfl⟩ := (relativeStagedPath_eq_ok (ne_nil_of_cStr hne)).1 hrel
  rw [hleads.components_join (ne_nil_of_cStr hne)]
  intro c hc
  refine (isEntryName_cStr_iff (hleads.isEntryName (ne_nil_of_cStr hne) c hc)).2 fun hshort => ?_
  exact hcut ⟨root, below, hsha, hroot, hne, hleads, c, hc, hshort⟩

/-- Below the root every name is the C string of a component. -/
theorem openStagedImageArchive_names {archive : ImageArchive} {options : DeploymentOptions}
    {r : Result OpenArchive}
    (h : Exec stagingTree t w (openStagedImageArchive archive options).run tr w' r)
    (hcut : ¬ CutComponent archive options) :
    ∀ e ∈ tr, ∀ n ∈ passedNames e.op, PosixPath.IsEntryName n := by
  rcases openStagedImageArchive_run h with ⟨e, -, hnone⟩ |
    ⟨root, relative, flags, answer, fd, rest, hsha, hroot, hne, hrel, rfl, hrest⟩
  · intro e he n hn
    rw [hnone e he] at hn
    simp at hn
  have hgood := isEntryName_of_not_cutComponent hsha hroot hne hrel hcut
  have hcalls := exec_calls hrest (calls_exceptT_bind (openComponents_calls options fd _)
    fun current => calls_exceptT_bind (calls_attempt (calls_sys (by simp [passedNames]))) fun st =>
      calls_exceptT_bind (calls_exceptT_bind trivial fun _ => trivial) fun _ => trivial)
  intro e he n hn
  rw [List.mem_cons] at he
  rcases he with rfl | he
  · simp [passedNames] at hn
  · obtain ⟨c, hc, rfl⟩ := hcalls e he n hn
    exact hgood c hc

/-- A run that succeeds has gone down from the root. -/
theorem openStagedImageArchive_descends {archive : ImageArchive} {options : DeploymentOptions}
    {a : OpenArchive}
    (h : Exec stagingTree t w (openStagedImageArchive archive options).run tr w' (.ok a))
    (hcut : ¬ CutComponent archive options) :
    ∃ root flags answer fd rest, options.imageArchiveRoot = some root ∧
      tr = ⟨(), .openPath (cStr root) flags, answer, .ok fd, ()⟩ :: rest ∧
      GoesDown fd rest a.fd := by
  rcases openStagedImageArchive_run h with ⟨e, he, -⟩ |
    ⟨root, relative, flags, answer, fd, rest, hsha, hroot, hne, hrel, rfl, hrest⟩
  · cases he
  refine ⟨root, flags, answer, fd, rest, hroot, rfl, ?_⟩
  have hgood := isEntryName_of_not_cutComponent hsha hroot hne hrel hcut
  obtain ⟨tr₁, w₁, current, tr₂, hloop, hafter, rfl⟩ := exec_bind_ok.1 hrest
  obtain ⟨tr₃, w₂, st, tr₄, hstat, hafter', rfl⟩ := exec_bind_ok.1 hafter
  obtain ⟨tr₅, w₃, _, tr₆, hcheck, hreturn, rfl⟩ := exec_bind_ok.1 hafter'
  obtain ⟨c, -, rfl⟩ := exec_sys.1 (exec_attempt_ok.1 hstat)
  obtain ⟨rfl, -, heq⟩ := exec_pure.1 hreturn
  rw [checkArchiveStat_run hcheck]
  obtain rfl : a = ⟨current, st.size.toNat⟩ := by simpa using heq
  exact (openComponents_goesDown hgood hloop).append (.stat (.inl rfl) (.here _))

/-! ### Trees that lead out -/

/-- The answers of an environment in which every call fails. -/
def refused : (o : Sys) → o.Resp
  | .getpid => 0
  | .close _ => ()
  | .curl _ => .error .noHandle
  | .daemonReload _ => .error (makeError .systemd [])
  | .restartUnit _ _ => .error (makeError .systemd [])
  | .status _ _ => .error (makeError .systemd [])
  | .getpwuid _ => .error ENOENT
  | .createDirectories _ => .error ENOENT
  | .openPath _ _ => .error ENOENT
  | .openat _ _ _ => .error ENOENT
  | .lstat _ => .error ENOENT
  | .fstatat _ _ => .error ENOENT
  | .fstat _ => .error ENOENT
  | .chmod _ _ => .error ENOENT
  | .fchmod _ _ => .error ENOENT
  | .mkdirat _ _ _ => .error ENOENT
  | .write _ _ => .error ENOENT
  | .read _ _ => .error ENOENT
  | .fsync _ => .error ENOENT
  | .renameat _ _ _ _ => .error ENOENT
  | .unlinkat _ _ => .error ENOENT
  | .flock _ => .error ENOENT

/-- The answers of a tree in which every directory and every file that is looked up is there. -/
def everythingThere : (o : Sys) → o.Resp
  | .openPath _ _ => .ok 3
  | .openat dir _ _ => .ok (dir + 1)
  | .fstatat _ _ => .ok ⟨.regular, 0, 0, 0o644, 1⟩
  | .fstat _ => .ok ⟨.regular, 0, 0, 0o644, 1⟩
  | o => refused o

theorem stagingTree_step {o : Sys} (answer : (o : Sys) → o.Resp)
    (h : ∀ flags, o ≠ .openPath [] flags) :
    stagingTree.step t w o answer = some (answer o, ()) := by
  have hfound : foundAnswer o (answer o) = answer o := by
    cases o with
    | openPath path flags =>
        cases path with
        | nil => exact absurd rfl (h flags)
        | cons c path => rfl
    | _ => rfl
  simp only [stagingTree, hfound]

/-- In some tree the loop gets as far as any given component. -/
theorem openComponents_reaches {options : DeploymentOptions} {current : Fd} {parts : List Bytes}
    {c : Bytes} (hc : c ∈ parts) :
    ∃ tr r, Exec stagingTree t () (openComponents options current parts).run tr () r ∧
      ∃ e ∈ tr, cStr c ∈ passedNames e.op := by
  induction parts generalizing current with
  | nil => simp at hc
  | cons name rest ih =>
      by_cases hrest : rest = []
      · -- the last component is looked up by `fstatat`
        subst hrest
        obtain rfl : c = name := by simpa using hc
        refine ⟨_, _, exec_exceptT_bind.2 (.inl ⟨_, rfl, exec_exceptT_bind.2 (.inl ⟨_, rfl,
          exec_attempt_error.2 ⟨_, rfl, exec_sys.2 ⟨refused, stagingTree_step refused (by simp),
            rfl⟩⟩⟩)⟩), _, List.mem_singleton_self _, by simp [passedNames]⟩
      · have hcheck : ∀ (w : Unit), Exec stagingTree t w (if rest = [] then
            checkFinalComponent options current name else pure ()).run [] w (.ok ()) := by
          intro w
          rw [if_neg hrest]
          exact .ret _ _
        rw [List.mem_cons] at hc
        rcases hc with rfl | hc
        · refine ⟨_, _, exec_exceptT_bind.2 (.inr ⟨[], (), (), _, hcheck (), exec_exceptT_bind.2
            (.inl ⟨_, rfl, exec_attempt_error.2 ⟨_, rfl, exec_sys.2 ⟨refused,
              stagingTree_step refused (by simp), rfl⟩⟩⟩), rfl⟩), _, List.mem_singleton_self _,
            by simp [passedNames]⟩
        · obtain ⟨tr, r, hrun, e, he, hn⟩ := @ih (current + 1) hc
          refine ⟨_, r, exec_exceptT_bind.2 (.inr ⟨[], (), (), _, hcheck (), exec_exceptT_bind.2
            (.inr ⟨_, (), current + 1, tr, exec_attempt_ok.2 (exec_sys.2 ⟨everythingThere,
              stagingTree_step everythingThere (by simp), rfl⟩), hrun, rfl⟩), rfl⟩), e, ?_, hn⟩
          simp [he]

/-- In some tree a run gets as far as any given component of the path below the root. -/
theorem exists_run_openStagedImageArchive (t : ℕ) {archive : ImageArchive}
    {options : DeploymentOptions} {root relative : PosixPath} {c : Bytes}
    (hsha : archive.expectedSha256 = []) (hroot : options.imageArchiveRoot = some root)
    (hne : cStr root ≠ []) (hrel : relativeStagedPath root archive.path = .ok relative)
    (hc : c ∈ PosixPath.components relative) :
    ∃ tr r, Exec stagingTree t () (openStagedImageArchive archive options).run tr () r ∧
      ∃ e ∈ tr, cStr c ∈ passedNames e.op := by
  obtain ⟨tr, r, hrun, e, he, hn⟩ := @openComponents_reaches t options 3 _ _ hc
  have hopen : stagingTree.step t () (.openPath (cStr root) { directory := true })
      everythingThere = some (.ok 3, ()) :=
    stagingTree_step everythingThere (by simpa using hne)
  -- whatever the loop returns, the run can be completed
  obtain ⟨tr', r', hall, hsub⟩ : ∃ tr' r', Exec stagingTree t ()
      (openComponents options 3 (PosixPath.components relative) >>= fun current => do
        let st ← attempt (sys (.fstat current)) (sysError "failed to stat staged image archive")
        checkArchiveStat st options
        return (⟨current, st.size.toNat⟩ : OpenArchive)).run tr' () r' ∧ ∀ e ∈ tr, e ∈ tr' := by
    cases r with
    | error err => exact ⟨tr, _, exec_exceptT_bind.2 (.inl ⟨err, rfl, hrun⟩), fun e he => he⟩
    | ok fd =>
        refine ⟨_, _, exec_exceptT_bind.2 (.inr ⟨tr, (), fd, _, hrun, exec_exceptT_bind.2
          (.inl ⟨_, rfl, exec_attempt_error.2 ⟨_, rfl, exec_sys.2 ⟨refused,
            stagingTree_step refused (by simp), rfl⟩⟩⟩), rfl⟩), ?_⟩
        intro e he
        exact List.mem_append_left _ he
  refine ⟨⟨(), .openPath (cStr root) { directory := true }, everythingThere, .ok 3, ()⟩ :: tr', r',
    ?_, e, List.mem_cons_of_mem _ (hsub e he), hn⟩
  rw [openStagedImageArchive, exec_exceptT_bind]
  refine .inr ⟨[], (), (), _, exec_rejectIf_ok.2 ⟨rfl, rfl, not_not.2 hsha⟩, ?_, rfl⟩
  rw [hroot]
  dsimp only
  rw [exec_exceptT_bind]
  refine .inr ⟨[], (), relative, _, exec_done.2 ⟨rfl, rfl, hrel.symm⟩, ?_, rfl⟩
  rw [exec_exceptT_bind]
  exact .inr ⟨_, (), 3, tr', exec_attempt_ok.2 (exec_sys.2 ⟨_, hopen, rfl⟩), hall, rfl⟩

/-- **When every name stays below the root**: exactly when the path leads below it along no
component that has a NUL byte at its start, behind `.` or behind `..`. -/
theorem openStagedImageArchive_below_root_iff (archive : ImageArchive)
    (options : DeploymentOptions) :
    StaysBelowRoot archive options ↔ ¬ CutComponent archive options := by
  constructor
  · rintro hstays ⟨root, below, hsha, hroot, hne, hleads, c, hc, hshort⟩
    have hroot' := ne_nil_of_cStr hne
    have hrel := (relativeStagedPath_eq_ok hroot').2 ⟨below, hleads, rfl⟩
    have hmem : c ∈ PosixPath.components (PosixPath.join below) := by
      rwa [hleads.components_join hroot']
    obtain ⟨tr, r, hrun, e, he, hn⟩ :=
      exists_run_openStagedImageArchive 0 hsha hroot hne hrel hmem
    exact (isEntryName_cStr_iff (hleads.isEntryName hroot' c hc)).1
      ((hstays 0 () tr () r hrun).1 e he _ hn) hshort
  · intro hcut t w tr w' r h
    refine ⟨openStagedImageArchive_names h hcut, ?_⟩
    rintro a rfl
    exact openStagedImageArchive_descends h hcut

/-- A staging root and an archive path whose first component is `..` with a NUL byte and a letter
behind it. -/
def nulArchive : ImageArchive where
  path := ofString ".." ++ 0 :: ofString "x/secret.tar"

def nulOptions : DeploymentOptions := { imageArchiveRoot := some "/srv/staging" }

/-- The archive is opened, and on the way the kernel is asked for the parent of the staging root. -/
theorem nul_component_escapes :
    ∃ tr w' a, Exec stagingTree 0 () (openStagedImageArchive nulArchive nulOptions).run tr w'
      (.ok a) ∧
      ∃ e ∈ tr, ∃ n ∈ passedNames e.op, n = ofString ".." ∧ ¬ PosixPath.IsEntryName n := by
  let P : List StagingEvent × Unit × Result OpenArchive → Bool := fun out =>
    out.2.2.toBool && out.1.any fun e => decide (ofString ".." ∈ passedNames e.op)
  have hrun : (run stagingTree 0 (List.replicate 5 everythingThere) ()
      (openStagedImageArchive nulArchive nulOptions).run).any P = true := by
    decide +kernel
  obtain ⟨tr, w', r, hexec, hP⟩ := exists_exec_of_run hrun
  simp only [P, Bool.and_eq_true, List.any_eq_true, decide_eq_true_eq] at hP
  obtain ⟨hr, e, he, hn⟩ := hP
  cases r with
  | error err => simp [Except.toBool] at hr
  | ok a => exact ⟨tr, w', a, hexec, e, he, _, hn, rfl, by decide⟩

end PodInstaller
