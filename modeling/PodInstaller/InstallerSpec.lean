/-
**What the operations of the installer do.**

A caller prepares the directories, writes a temporary file under a hidden name, and renames it to
the Quadlet path, or removes what is there.  Up to that one call no Quadlet file is changed, and
nobody else can touch the temporary file.  What holds of the tree goes from `L` to `L'` by that call
alone, where `L` and `L'` are any facts that last while nobody changes a Quadlet file.  A snapshot
is read from an inode that nobody writes to any more, and so it is what the file held at some time.

Main definitions:

* `PodInstaller.QuadletName` — file names that stand for themselves in a path;
* `PodInstaller.Pending`, `PodInstaller.Ready` — a caller on its way to replace a file;
* `PodInstaller.Transition` — from `L` to `L'` by a change of one Quadlet file;
* `PodInstaller.Changed`, `PodInstaller.Installed`, `PodInstaller.TakenFrom` — how the operations
  end.

Main results:

* `PodInstaller.meets_atomicWriteFile`, `PodInstaller.meets_unlinkQuadletFile`,
  `PodInstaller.meets_readRegularFileNoSymlink` — one file is replaced, removed or read;
* `PodInstaller.meets_installForUser`, `PodInstaller.meets_removeForUser`,
  `PodInstaller.meets_restoreForUser`, `PodInstaller.meets_snapshotForUser` — **the operations**.
-/

import PodInstaller.Calls
import PodInstaller.Interference

set_option relaxedAutoImplicit false
set_option autoImplicit false

namespace PodInstaller

open Bytes

/-! ### Names and paths -/

/-- What the accepted file names have in common. -/
structure QuadletName (n : Bytes) : Prop where
  isEntryName : PosixPath.IsEntryName n
  visible : ¬ Hidden n
  noNul : 0 ∉ n

theorem quadletName_of_valid {n : Bytes} (h : validateQuadletFileName n = .ok ()) :
    QuadletName n := by
  obtain ⟨⟨hne, -⟩, ⟨hdot, -⟩, hcontrol, -, -⟩ := validateQuadletFileName_eq_ok.1 h
  have hplain : ∀ c ∈ n, ¬ (c < 32) ∧ c ≠ ch '/' := by
    intro c hc
    have hany := hcontrol
    rw [containsControlOrSlash, List.any_eq_false] at hany
    have := hany c hc
    simp only [Bool.or_eq_true, decide_eq_true_eq, beq_iff_eq, not_or] at this
    exact ⟨this.1.1, this.2⟩
  refine ⟨⟨⟨hne, fun hmem => (hplain _ hmem).2 rfl⟩, ?_, ?_⟩, hdot, fun hmem => ?_⟩
  · rintro rfl
    exact hdot (by decide)
  · rintro rfl
    exact hdot (by decide)
  · exact (hplain _ hmem).1 (by decide)

/-- File names that have a unit. -/
theorem quadletName_of_unit {n unit : Bytes} (h : serviceUnitNameFromQuadlet n = .ok unit) :
    QuadletName n := by
  obtain ⟨_, hvalid, -⟩ := bind_eq_ok.1 h
  exact quadletName_of_valid hvalid

/-- File names of Quadlets that may be installed. -/
theorem quadletName_of_expectedInstall {installer : QuadletInstaller} {uid : UInt32}
    {quadlet : QuadletFile} {expected : InstalledQuadlet}
    (h : installer.expectedInstall uid quadlet = .ok expected) : QuadletName quadlet.fileName := by
  obtain ⟨-, -, hunit, -⟩ := QuadletInstaller.expectedInstall_eq_ok.1 h
  exact quadletName_of_unit hunit

section

variable {K : Kernel} {layout : QuadletInstallLayout} {uid : UInt32} {n : Bytes}

theorem userDirectory_ne_nil : layout.userDirectory uid ≠ [] := by
  have h := isEntryName_uidString uid
  rw [QuadletInstallLayout.userDirectory, PosixPath.append_of_isName _ h.1]
  simp [h.1.1]

theorem getLast?_userDirectory : (layout.userDirectory uid).getLast? ≠ some (ch '/') := by
  have h := isEntryName_uidString uid
  rw [QuadletInstallLayout.userDirectory, PosixPath.append_of_isName _ h.1,
    List.getLast?_append_of_ne_nil _ h.1.1]
  exact fun hlast => h.1.2 (List.mem_of_getLast? hlast)

theorem parentPath_quadletPath (hn : QuadletName n) :
    PosixPath.parentPath (layout.quadletPath uid n) = layout.userDirectory uid :=
  PosixPath.parentPath_append userDirectory_ne_nil getLast?_userDirectory hn.isEntryName.1

theorem filename_quadletPath (hn : QuadletName n) :
    PosixPath.filename (layout.quadletPath uid n) = n :=
  PosixPath.filename_append _ hn.isEntryName.1

theorem nul_notMem_append {p : PosixPath} {n : Bytes} (hp : 0 ∉ p) (hn : PosixPath.IsName n)
    (h : 0 ∉ n) :
    0 ∉ PosixPath.append p n := by
  rw [PosixPath.append_of_isName _ hn, PosixPath.directory]
  split
  · simp [hp, h]
  · simp only [List.mem_append, List.mem_singleton, not_or]
    exact ⟨⟨hp, by decide⟩, h⟩

theorem nul_notMem_userDirectory (hroot : layout.adminUserRoot = K.adminRoot) :
    0 ∉ layout.userDirectory uid :=
  nul_notMem_append (hroot ▸ K.noNul) (isEntryName_uidString uid).1 (nul_notMem_uidString uid)

/-- Where the directory of a user is. -/
theorem locate_userDirectory (hroot : layout.adminUserRoot = K.adminRoot) :
    K.locate (cStr (layout.userDirectory uid)) = .sub (uidString uid) := by
  rw [cStr_eq_self (nul_notMem_userDirectory hroot), QuadletInstallLayout.userDirectory, hroot]
  exact Kernel.locate_sub (isEntryName_uidString uid)

/-- Where a Quadlet file is. -/
theorem locate_quadletPath (hroot : layout.adminUserRoot = K.adminRoot) (hn : QuadletName n) :
    K.locate (cStr (layout.quadletPath uid n)) = .entry (uidString uid) n := by
  have hnul : 0 ∉ layout.quadletPath uid n :=
    nul_notMem_append (nul_notMem_userDirectory hroot) hn.isEntryName.1 hn.noNul
  rw [cStr_eq_self hnul, QuadletInstallLayout.quadletPath, QuadletInstallLayout.userDirectory,
    hroot]
  exact Kernel.locate_entry (isEntryName_uidString uid) hn.isEntryName

/-- Quadlet paths are the same only if they belong to the same user and file name. -/
theorem quadletPath_same {uid' : UInt32} {n' : Bytes} (hn : QuadletName n) (hn' : QuadletName n')
    (h : PosixPath.same (layout.quadletPath uid n) (layout.quadletPath uid' n') = true) :
    uid = uid' ∧ n = n' := by
  obtain ⟨hnames, hlast⟩ := PosixPath.same_append hn.isEntryName.1 hn'.isEntryName.1 h
  refine ⟨?_, hlast⟩
  rw [QuadletInstallLayout.userDirectory, QuadletInstallLayout.userDirectory,
    PosixPath.names_append _ (isEntryName_uidString uid).1,
    PosixPath.names_append _ (isEntryName_uidString uid').1] at hnames
  exact uidString_injective (by simpa using (List.append_inj' hnames rfl).2)

end

/-! ### Directories -/

section

variable {K : Kernel} {t : ℕ} {R : World → World → Prop} {may : May} {w w' : World}
variable {layout : QuadletInstallLayout} {uid : UInt32} {n : Bytes} {L L' : World → Prop} {N : ℕ}

theorem ensureAdminTree_minor (uid : UInt32) (layout : QuadletInstallLayout) :
    (ensureAdminTree uid layout).run.Calls MinorOnce :=
  calls_ensureAdminTree (fun _ => minorOnce rfl) (fun _ => minorOnce rfl)
    (fun _ _ => minorOnce rfl) uid layout

/-- The directory of a user is open. -/
def UserDirOpen (t : ℕ) (uid : UInt32) (fd : Fd) (w : World) : Prop :=
  w.ofd fd = some ⟨.sub (uidString uid), 0, t⟩

theorem UserDirOpen.targetOf {fd : Fd} (h : UserDirOpen t uid fd w) :
    w.targetOf fd = some (.sub (uidString uid)) := by
  rw [System.targetOf, h]
  rfl

/-- The last call of `atomic_write_file` and of `unlink_quadlet_file`. -/
theorem meets_fsyncDirectory {P : World → Prop} (hR : OthersOnly t R)
    (hP : ∀ w w', R w w' → P w → P w') {fd : Fd} (hfd : UserDirOpen t uid fd w) (hw : P w) :
    Meets K t R mayNothing (fsyncDirectory fd).run
      (fun r w => P w ∧ ∀ e, r = .error e → K.dirFsyncFails = true) w := by
  refine meets_attempt (meets_sys fun w₁ c r w₂ hR₁ hstep => ?_)
  have hfd₁ : UserDirOpen t uid fd w₁ := hR.ofd hR₁ hfd
  obtain ⟨hw₂, hfails⟩ := System.step_fsync hstep
  obtain rfl := World.eq_of_toSystem hw₂
  refine ⟨.refl _ _ _, hP _ _ hR₁ hw, fun e he => ?_⟩
  cases r with
  | ok u => cases he
  | error n => exact hfails n rfl (by simp [System.isDirectoryFd, hfd₁.targetOf])

/-! ### Writing a file -/

/-- A temporary file is there, and it is the only one of the caller since there were `N` inodes. -/
structure Pending (t N : ℕ) (uid : UInt32) (dirFd : Fd) (name : Bytes) (i : ℕ) (bytes : Bytes)
    (w : World) : Prop where
  dirOpen : UserDirOpen t uid dirFd w
  temporary : Temporary w.toSystem t uid name i bytes
  only : ∀ dir n, w.Leftover t N dir n → dir = uidString uid ∧ n = name

theorem Pending.others (hR : OthersOnly t R) (hRw : R w w') {dirFd : Fd} {name : Bytes} {i : ℕ}
    {bytes : Bytes} (h : Pending t N uid dirFd name i bytes w) :
    Pending t N uid dirFd name i bytes w' := by
  refine hR.lasts (P := Pending t N uid dirFd name i bytes) ?_ hRw h
  intro u w w' hne hframed h
  exact ⟨hframed.own_ofd hne h.dirOpen, hframed.temporary w.wellFormed hne h.temporary,
    fun dir n hleft => h.only dir n (hframed.leftover w.wellFormed w'.wellFormed hne hleft)⟩

theorem clean_others (hR : OthersOnly t R) (hRw : R w w') (h : w.Clean t N) : w'.Clean t N := by
  refine hR.lasts (P := fun w => w.Clean t N) ?_ hRw h
  intro u w w' hne hframed h dir n hleft
  exact h dir n (hframed.leftover w.wellFormed w'.wellFormed hne hleft)

/-- The directory of a user is open, and no temporary file of the caller is left over. -/
structure Ready (t N : ℕ) (uid : UInt32) (dirFd : Fd) (w : World) : Prop where
  dirOpen : UserDirOpen t uid dirFd w
  clean : w.Clean t N

theorem Ready.others (hR : OthersOnly t R) (hRw : R w w') {dirFd : Fd}
    (h : Ready t N uid dirFd w) : Ready t N uid dirFd w' :=
  ⟨hR.ofd hRw h.dirOpen, clean_others hR hRw h.clean⟩

theorem Ready.minor {dirFd : Fd} (h : Ready t N uid dirFd w)
    (hminor : System.Minor t w.toSystem w'.toSystem) : Ready t N uid dirFd w' :=
  ⟨hminor.ofd w.wellFormed h.dirOpen, fun dir n hleft => h.clean dir n (hminor.leftover.1 hleft)⟩

/-- How opening the directory of a user ends. -/
def Opened (t N : ℕ) (uid : UInt32) : Except Errno Fd → World → Prop
  | .ok fd => Ready t N uid fd
  | .error _ => fun w => w.Clean t N

/-- Opening the directory of a user. -/
theorem meets_openUserDirectory (hR : OthersOnly t R) (hroot : layout.adminUserRoot = K.adminRoot)
    {flags : OpenFlags} (hclean : w.Clean t N) :
    Meets K t R mayNothing (sys (.openPath (cStr (layout.userDirectory uid)) flags))
      (Opened t N uid) w := by
  refine meets_sys fun w₁ c r w₂ hR₁ hstep => ?_
  have h₁ := clean_others hR hR₁ hclean
  rcases System.step_openPath hstep with ⟨e, rfl, hw₂⟩ | ⟨target, hopen, rfl, hw₂⟩
  · obtain rfl := World.eq_of_toSystem hw₂
    exact ⟨.refl _ _ _, h₁⟩
  · rw [locate_userDirectory hroot] at hopen
    obtain rfl := System.openAt_sub hopen
    refine ⟨hw₂ ▸ fileGuarantee_openFd w₁.wellFormed, ?_, fun d m hleft => h₁ d m ?_⟩
    · simp [UserDirOpen, hw₂, System.openFd]
    · rw [hw₂] at hleft
      exact hleft

theorem hidden_temporaryName (finalName : Bytes) (pid attempt : ℕ) :
    Hidden (cStr (temporaryName finalName pid attempt)) := by
  simp only [temporaryName, List.append_assoc]
  rfl

/-- How creating a temporary file ends. -/
def Created (t N : ℕ) (uid : UInt32) (dirFd : Fd) (name : Bytes) : Except Errno Fd → World → Prop
  | .ok fd => fun w => ∃ i, Pending t N uid dirFd name i [] w ∧ w.ofd fd = some ⟨.ino i, 0, t⟩
  | .error _ => Ready t N uid dirFd

/-- Creating a hidden file that was not there. -/
theorem callMeets_createTemporary (hR : OthersOnly t R) {dirFd : Fd} {name : Bytes}
    (hname : Hidden name) {flags : OpenFlags} (hcreat : flags.creat = true)
    (hexcl : flags.excl = true) (h : Ready t N uid dirFd w) :
    CallMeets K t R mayNothing (.openat dirFd name flags)
      (Created t N uid dirFd name) w := by
  intro w₁ c r w₂ hR₁ hstep
  have h₁ := h.others hR hR₁
  rcases System.step_openat_creat w₁.wellFormed hcreat hstep with
    ⟨e, rfl, hw₂⟩ | ⟨sub, hsub, rfl, ⟨hnone, hdir, hw₂⟩ | ⟨i, -, hno, -⟩⟩
  · obtain rfl := World.eq_of_toSystem hw₂
    exact ⟨.refl _ _ _, h₁⟩
  · -- a new inode with a new entry and a new descriptor
    rw [h₁.dirOpen.targetOf] at hsub
    obtain rfl : uidString uid = sub := by simpa using hsub
    generalize hnode : K.newFile t (w₁.sub (uidString uid)) flags.mode = node at hw₂
    have hcreate : FileGuarantee t nothing w₁.toSystem (w₁.create (uidString uid) name node) :=
      fileGuarantee_create w₁.wellFormed hnone (.inl hname) (by rw [← hnode]; rfl)
    have hopened : FileGuarantee t nothing (w₁.create (uidString uid) name node)
        ((w₁.create (uidString uid) name node).openFd (.ino w₁.nextIno) t) :=
      fileGuarantee_openFd (System.wellFormed_create w₁.wellFormed hnone hdir)
    have hdirOpen : w₁.ofd dirFd = some ⟨.sub (uidString uid), 0, t⟩ := h₁.dirOpen
    have hlt : dirFd < w₁.nextFd := w₁.wellFormed.ofd_lt (by simp [hdirOpen])
    refine ⟨hw₂ ▸ hcreate.trans w₁.wellFormed hopened, w₁.nextIno, ⟨?_, ?_, ?_⟩, ?_⟩
    · rw [UserDirOpen, hw₂]
      simpa [System.openFd, System.create, hlt.ne] using hdirOpen
    · rw [hw₂]
      exact ⟨hname, by simp [System.openFd, System.create], by
        simp [← hnode, System.openFd, System.create, Kernel.newFile], by
        simp [← hnode, System.openFd, System.create, Kernel.newFile], by
        simp [← hnode, System.openFd, System.create, Kernel.newFile]⟩
    · rintro d n ⟨hn, i, hi, hcreator, hle⟩
      by_contra hne
      have hold : w₁.entry d n = some i := by
        simpa [hw₂, System.openFd, System.create, hne] using hi
      have hilt : i < w₁.nextIno := w₁.wellFormed.entry_lt hold
      refine h₁.clean d n ⟨hn, i, hold, ?_, hle⟩
      simpa [hw₂, System.openFd, System.create, hilt.ne] using hcreator
    · rw [hw₂]
      simp [System.openFd, System.create]
  · exact absurd hno (by simp [hexcl])

/-- How looking for a name for the temporary file ends. -/
def Allocated (t N : ℕ) (uid : UInt32) (dirFd : Fd) : Result (Bytes × Fd) → World → Prop
  | .ok tmp => fun w => ∃ i, Pending t N uid dirFd (cStr tmp.1) i [] w ∧
      w.ofd tmp.2 = some ⟨.ino i, 0, t⟩
  | .error _ => Ready t N uid dirFd

/-- **The temporary file** is a new one. -/
theorem meets_openTemporary (hR : OthersOnly t R) {dir : PosixPath} {dirFd : Fd} {finalName : Bytes}
    {mode : ℕ} {attempts : List ℕ} (h : Ready t N uid dirFd w) :
    Meets K t R mayNothing (openTemporary dir dirFd finalName mode attempts).run
      (Allocated t N uid dirFd) w := by
  induction attempts generalizing w with
  | nil => exact meets_throw h
  | cons attempt attempts ih =>
      rw [openTemporary]
      have hpid : CallMeets K t R mayNothing .getpid (fun _ w => Ready t N uid dirFd w) w := by
        intro w₁ c r w₂ hR₁ hstep
        have hminor := System.step_minor w₁.wellFormed rfl hstep
        exact ⟨hminor.fileGuarantee w₁.wellFormed, (h.others hR hR₁).minor hminor⟩
      refine hpid.bind fun pid w h => ?_
      refine (callMeets_createTemporary hR (hidden_temporaryName _ _ _) rfl rfl h).bind
        fun opened w h => ?_
      cases opened with
      | ok fd => exact meets_pure h
      | error e =>
          dsimp only
          split
          · exact meets_throw h
          · exact ih h

theorem userDir_ne_file {dirFd fd : Fd} {i offset : ℕ} (hdir : UserDirOpen t uid dirFd w)
    (hfd : w.ofd fd = some ⟨.ino i, offset, t⟩) : dirFd ≠ fd := by
  rintro rfl
  rw [UserDirOpen, hfd] at hdir
  simp at hdir

/-- What a `write` to the temporary file has done: the next bytes stand behind `bytes`. -/
def Wrote (t N : ℕ) (uid : UInt32) (dirFd fd : Fd) (name : Bytes) (i : ℕ) (bytes data : Bytes) :
    Except Errno ℕ → World → Prop
  | .ok written => fun w => 0 < written ∧
      Pending t N uid dirFd name i (bytes ++ data.take written) w ∧
      w.ofd fd = some ⟨.ino i, (bytes ++ data.take written).length, t⟩
  | .error _ => Pending t N uid dirFd name i bytes

/-- One `write` to the temporary file. -/
theorem callMeets_write (hR : OthersOnly t R) {dirFd fd : Fd} {name : Bytes} {i : ℕ}
    {bytes data : Bytes} (h : Pending t N uid dirFd name i bytes w)
    (hfd : w.ofd fd = some ⟨.ino i, bytes.length, t⟩) :
    CallMeets K t R mayNothing (.write fd data)
      (Wrote t N uid dirFd fd name i bytes data) w := by
  intro w₁ c r w₂ hR₁ hstep
  have h₁ := h.others hR hR₁
  have hfd₁ : w₁.ofd fd = some ⟨.ino i, bytes.length, t⟩ := hR.ofd hR₁ hfd
  rcases System.step_write hstep with ⟨e, rfl, hw₂⟩ |
    ⟨j, offset, owner, n, hofd, hpos, hle, rfl, hw₂⟩
  · obtain rfl := World.eq_of_toSystem hw₂
    exact ⟨.refl _ _ _, h₁⟩
  · obtain ⟨rfl, rfl, rfl⟩ : i = j ∧ bytes.length = offset ∧ t = owner := by
      simpa [hfd₁] using hofd
    -- the offset is at the end of the file, so that the bytes are added there
    have hbytes : (w₁.inode i).bytes.take bytes.length ++ data.take n ++
        (w₁.inode i).bytes.drop (bytes.length + n) = bytes ++ data.take n := by
      rw [h₁.temporary.bytes, List.take_length, List.drop_eq_nil_of_le (by omega), List.append_nil]
    have hlen : (bytes ++ data.take n).length = bytes.length + n := by
      rw [List.length_append, List.length_take, Nat.min_eq_left hle]
    rw [hbytes] at hw₂
    refine ⟨?_, hpos, ⟨?_, ?_, ?_⟩, ?_⟩
    · rw [hw₂]
      refine (fileGuarantee_setBytes w₁.wellFormed h₁.temporary).trans w₁.wellFormed
        (fileGuarantee_seek fun o ho => ?_)
      obtain rfl : _ = o := by simpa [System.setBytes, hfd₁] using ho
      rfl
    · have hne := userDir_ne_file h₁.dirOpen hfd₁
      have hdir : w₁.ofd dirFd = some ⟨.sub (uidString uid), 0, t⟩ := h₁.dirOpen
      rw [UserDirOpen, hw₂]
      simpa [System.seek, System.setBytes, hne] using hdir
    · have htmp := h₁.temporary
      rw [hw₂]
      exact ⟨htmp.hidden, htmp.entry, by simpa [System.seek, System.setBytes] using htmp.kind,
        by simpa [System.seek, System.setBytes] using htmp.creator,
        by simp [System.seek, System.setBytes]⟩
    · rintro d m ⟨hm, j, hj, hcreator, hN⟩
      rw [hw₂] at hj hcreator
      refine h₁.only d m ⟨hm, j, hj, ?_, hN⟩
      by_cases hji : j = i
      · rw [hji]
        exact h₁.temporary.creator
      · simpa [System.seek, System.setBytes, hji] using hcreator
    · rw [hw₂, hlen]
      simp [System.seek, System.setBytes, hfd₁]

/-- How writing the temporary file ends. -/
def Written (t N : ℕ) (uid : UInt32) (dirFd fd : Fd) (name : Bytes) (i : ℕ) (bytes : Bytes) :
    Result Unit → World → Prop
  | .ok _ => fun w => Pending t N uid dirFd name i bytes w ∧
      ∃ offset, w.ofd fd = some ⟨.ino i, offset, t⟩
  | .error _ => fun w => ∃ bytes', Pending t N uid dirFd name i bytes' w

/-- A `write` that is made again has failed. -/
theorem write_again {fd : Fd} {data : Bytes} {c : Choice} {r : Except Errno ℕ}
    (hstep : K.machine.step t w (.write fd data) c = some (r, w'))
    (hagain : writeAgain r = true) : w' = w := by
  rcases System.step_write (Kernel.machine_step.1 hstep) with
    ⟨e, -, hw⟩ | ⟨_, _, _, n, -, hpos, -, rfl, -⟩
  · exact World.eq_of_toSystem hw
  · have hzero : n = 0 := by simpa [writeAgain] using hagain
    omega

/-- **The temporary file is written** in full, or is still there. -/
theorem meets_writeAll (hR : OthersOnly t R) {dirFd fd : Fd} {name : Bytes} {i : ℕ}
    {contents bytes : Bytes} {skip : ℕ} (h : Pending t N uid dirFd name i bytes w)
    (hfd : w.ofd fd = some ⟨.ino i, bytes.length, t⟩) :
    Meets K t R mayNothing (writeAll fd contents skip).run
      (Written t N uid dirFd fd name i (bytes ++ contents.drop skip)) w := by
  induction contents generalizing skip bytes w with
  | nil =>
      refine meets_pure ?_
      rw [List.drop_nil, List.append_nil]
      exact ⟨h, _, hfd⟩
  | cons c rest ih =>
      cases skip with
      | succ skip => exact ih h hfd
      | zero =>
          rw [writeAll]
          refine (meets_sysUntil (callMeets_write hR h hfd) ?_).attemptBind ?_ ?_
          · intro w₁ choice r w₂ _ hstep hagain
            exact write_again (Kernel.machine_step.2 hstep) hagain
          · rintro written w ⟨hpos, hpending, hfd⟩
            obtain ⟨written, rfl⟩ := Nat.exists_eq_add_of_lt hpos
            have hrest : Meets K t R mayNothing (writeAll fd rest written).run _ _ :=
              ih hpending hfd
            simpa using hrest
          · intro e w h
            exact ⟨bytes, h⟩

/-! ### Replacing a file -/

/-- From `L` to `L'` by a change of one Quadlet file: both last while no Quadlet file is changed,
the change is allowed, and it leads from one to the other. -/
structure Transition (t : ℕ) (R : World → World → Prop) (may : May) (uid : UInt32) (n : Bytes)
    (L L' : World → Prop) (c : Option Content) : Prop where
  before : Stable t R L
  after : Stable t R L'
  allowed : ∀ w, L w → may w uid n c
  change : ∀ w w', L w → Guarantee t (may w) w.toSystem w'.toSystem → w'.look uid n = c → L' w'

/-- How a function ends that replaces or removes a Quadlet file.  An error leaves the file alone,
unless `fsync` of its directory was what failed. -/
def Changed (K : Kernel) (t N : ℕ) (L L' : World → Prop) : Result Unit → World → Prop
  | .ok _ => L'
  | .error _ => fun w => (L w ∨ K.dirFsyncFails = true ∧ L' w) ∧
      (K.unlinkFails = false → w.Clean t N)

/-- Cleaning up: the temporary file is removed, unless that fails. -/
theorem callMeets_discard (hR : OthersOnly t R) (hL : Stable t R L) {dirFd : Fd} {name : Bytes}
    {i : ℕ} {bytes : Bytes} (h : Pending t N uid dirFd name i bytes w) (hw : L w) :
    CallMeets K t R mayNothing (.unlinkat dirFd name)
      (fun _ w => L w ∧ (K.unlinkFails = false → w.Clean t N)) w := by
  intro w₁ c r w₂ hR₁ hstep
  have h₁ := h.others hR hR₁
  have hw₁ := hL.others hR₁ hw
  rcases System.step_unlinkat hstep with ⟨e, rfl, hw₂, -, hfails⟩ | ⟨sub, j, hsub, hj, rfl, hw₂⟩
  · obtain rfl := World.eq_of_toSystem hw₂
    refine ⟨.refl _ _ _, hw₁, fun hunlink => ?_⟩
    -- only a directory could have resisted
    have hentry : w₂.entryOf dirFd name = some i := by
      rw [System.entryOf, h₁.dirOpen.targetOf]
      exact h₁.temporary.entry
    have hkind := hfails hunlink i hentry
    rw [h₁.temporary.kind] at hkind
    simp at hkind
  · rw [h₁.dirOpen.targetOf] at hsub
    obtain rfl : uidString uid = sub := by simpa using hsub
    have hguar : FileGuarantee t nothing w₁.toSystem w₂.toSystem := by
      rw [hw₂]
      exact fileGuarantee_removeTemporary h₁.temporary
    refine ⟨hguar, hL.quiet hguar.toGuarantee hw₁, fun _ d m hleft => ?_⟩
    obtain ⟨hm, k, hk, hcreator, hN⟩ := hleft
    rw [hw₂] at hk hcreator
    simp only [System.removeEntry] at hk
    split at hk
    · simp at hk
    · rename_i hne
      exact hne (h₁.only d m ⟨hm, k, hk, hcreator, hN⟩)

/-- `fsync` of the temporary file. -/
theorem callMeets_fsyncFile (hR : OthersOnly t R) (hL : Stable t R L) {dirFd fd : Fd}
    {name : Bytes} {i offset : ℕ} {bytes : Bytes} (h : Pending t N uid dirFd name i bytes w)
    (hfd : w.ofd fd = some ⟨.ino i, offset, t⟩) (hw : L w) :
    CallMeets K t R mayNothing (.fsync fd)
      (fun _ w => Pending t N uid dirFd name i bytes w ∧ w.ofd fd = some ⟨.ino i, offset, t⟩ ∧ L w)
      w := by
  intro w₁ c r w₂ hR₁ hstep
  obtain rfl := World.eq_of_toSystem (System.step_fsync hstep).1
  exact ⟨.refl _ _ _, h.others hR hR₁, hR.ofd hR₁ hfd, hL.others hR₁ hw⟩

/-- Closing the temporary file. -/
theorem callMeets_close (hR : OthersOnly t R) (hL : Stable t R L) {dirFd fd : Fd}
    {name : Bytes} {i offset : ℕ} {bytes : Bytes} (h : Pending t N uid dirFd name i bytes w)
    (hfd : w.ofd fd = some ⟨.ino i, offset, t⟩) (hw : L w) :
    CallMeets K t R mayNothing (.close fd)
      (fun _ w => Pending t N uid dirFd name i bytes w ∧ L w) w := by
  intro w₁ c r w₂ hR₁ hstep
  have h₁ := h.others hR hR₁
  have hfd₁ : w₁.ofd fd = some ⟨.ino i, offset, t⟩ := hR.ofd hR₁ hfd
  have hw₂ := System.step_close hstep
  have hguar : FileGuarantee t nothing w₁.toSystem w₂.toSystem := by
    rw [hw₂]
    exact fileGuarantee_closeFd w₁.wellFormed h₁.temporary hfd₁
  refine ⟨hguar, ⟨?_, ?_, fun d m hleft => ?_⟩, hL.quiet hguar.toGuarantee (hL.others hR₁ hw)⟩
  · have hne := userDir_ne_file h₁.dirOpen hfd₁
    have hdir : w₁.ofd dirFd = some ⟨.sub (uidString uid), 0, t⟩ := h₁.dirOpen
    rw [UserDirOpen, hw₂]
    simpa [System.closeFd, hne] using hdir
  · have htmp := h₁.temporary
    rw [hw₂]
    exact ⟨htmp.hidden, htmp.entry, htmp.kind, htmp.creator, htmp.bytes⟩
  · rw [hw₂] at hleft
    exact h₁.only d m hleft

/-- How the rename ends. -/
def Renamed (t N : ℕ) (uid : UInt32) (dirFd : Fd) (name : Bytes) (i : ℕ) (contents : Bytes)
    (L L' : World → Prop) : Except Errno Unit → World → Prop
  | .ok _ => fun w => (L' w ∧ w.Clean t N) ∧ UserDirOpen t uid dirFd w
  | .error _ => fun w => L w ∧ Pending t N uid dirFd name i contents w

/-- The rename puts the contents of the temporary file in place. -/
theorem callMeets_rename (hR : OthersOnly t R) {contents : Bytes}
    (hL : Transition t R may uid n L L' (some (.regular contents))) (hn : QuadletName n)
    {dirFd : Fd} {name : Bytes} {i : ℕ} (h : Pending t N uid dirFd name i contents w) (hw : L w) :
    CallMeets K t R may (.renameat dirFd name dirFd n)
      (Renamed t N uid dirFd name i contents L L') w := by
  intro w₁ c r w₂ hR₁ hstep
  have h₁ := h.others hR hR₁
  have hw₁ := hL.before.others hR₁ hw
  rcases System.step_renameat hstep with
    ⟨e, rfl, hw₂⟩ | ⟨sub, j, hsub, -, hj, rfl, ⟨hsame, -⟩ | ⟨-, hw₂⟩⟩
  · obtain rfl := World.eq_of_toSystem hw₂
    exact ⟨.refl _ _ _, hw₁, h₁⟩
  · -- the temporary file has no second name
    rw [h₁.dirOpen.targetOf] at hsub
    obtain rfl : uidString uid = sub := by simpa using hsub
    obtain rfl : i = j := by simpa [h₁.temporary.entry] using hj
    refine absurd rfl (h₁.temporary.ne_of_entry w₁.wellFormed hsame fun heq => hn.visible ?_)
    exact heq.2 ▸ h₁.temporary.hidden
  · rw [h₁.dirOpen.targetOf] at hsub
    obtain rfl : uidString uid = sub := by simpa using hsub
    obtain rfl : i = j := by simpa [h₁.temporary.entry] using hj
    have hguar : FileGuarantee t (may w₁) w₁.toSystem w₂.toSystem := by
      rw [hw₂]
      exact fileGuarantee_renameEntry h₁.temporary hn.visible (hL.allowed w₁ hw₁)
    refine ⟨hguar, ⟨hL.change w₁ w₂ hw₁ hguar.toGuarantee ?_, ?_⟩, ?_⟩
    · rw [hw₂]
      exact look_renameEntry h₁.temporary n
    · rintro d m ⟨hm, k, hk, hcreator, hN⟩
      rw [hw₂] at hk hcreator
      have hnew : ¬ (d = uidString uid ∧ m = n) := fun heq => hn.visible (heq.2 ▸ hm)
      simp only [System.renameEntry, hnew, if_false] at hk
      split at hk
      · simp at hk
      · rename_i hold
        exact hold (h₁.only d m ⟨hm, k, hk, hcreator, hN⟩)
    · rw [UserDirOpen, hw₂]
      exact h₁.dirOpen

/-- **Replacing a file** by a written temporary one. -/
theorem meets_replaceFile (hR : OthersOnly t R) {contents : Bytes}
    (hL : Transition t R may uid n L L' (some (.regular contents))) (hn : QuadletName n)
    {dirFd fd : Fd} {tmpName : Bytes} {i : ℕ}
    (h : Pending t N uid dirFd (cStr tmpName) i [] w) (hfd : w.ofd fd = some ⟨.ino i, 0, t⟩)
    (hw : L w) :
    Meets K t R may (replaceFile (layout.quadletPath uid n) dirFd tmpName fd contents).run
      (Changed K t N L L') w := by
  rw [replaceFile, filename_quadletPath hn, cStr_eq_self hn.noNul]
  refine ((meets_writeAll hR h hfd).keeps hL.before hw).ofQuiet.outcomeBind fun written w h => ?_
  cases written with
  | error e =>
      obtain ⟨⟨bytes, hpending⟩, hw⟩ := h
      exact (callMeets_discard hR hL.before hpending hw).ofQuiet.bind fun _ w hw =>
        meets_throw ⟨.inl hw.1, hw.2⟩
  | ok u =>
      obtain ⟨⟨hpending, offset, hfd⟩, hw⟩ := h
      refine (callMeets_fsyncFile hR hL.before hpending hfd hw).ofQuiet.bind fun synced w h => ?_
      obtain ⟨hpending, hfd, hw⟩ := h
      cases synced with
      | error e =>
          exact (callMeets_discard hR hL.before hpending hw).ofQuiet.bind fun _ w hw =>
            meets_throw ⟨.inl hw.1, hw.2⟩
      | ok u =>
          refine (callMeets_close hR hL.before hpending hfd hw).ofQuiet.bind fun _ w h => ?_
          obtain ⟨hpending, hw⟩ := h
          refine (callMeets_rename hR hL hn hpending hw).bind fun renamed w h => ?_
          cases renamed with
          | error e =>
              obtain ⟨hw, hpending⟩ := h
              exact (callMeets_discard hR hL.before hpending hw).ofQuiet.bind fun _ w hw =>
                meets_throw ⟨.inl hw.1, hw.2⟩
          | ok u =>
              -- the new contents are in place; what fails now fails after the change
              obtain ⟨hw, hdir⟩ := h
              have hlasts : ∀ w w', R w w' → L' w ∧ w.Clean t N → L' w' ∧ w'.Clean t N :=
                fun w w' hRw h => ⟨hL.after.others hRw h.1, clean_others hR hRw h.2⟩
              refine (meets_fsyncDirectory hR hlasts hdir hw).ofQuiet.weaken fun r w h => ?_
              cases r with
              | ok u => exact h.1.1
              | error e => exact ⟨.inr ⟨h.2 e rfl, h.1.1⟩, fun _ => h.1.2⟩

/-- **`atomic_write_file`** replaces a Quadlet file, or leaves it alone. -/
theorem meets_atomicWriteFile (hR : OthersOnly t R) (hroot : layout.adminUserRoot = K.adminRoot)
    {contents : Bytes} {mode : ℕ}
    (hL : Transition t R may uid n L L' (some (.regular contents))) (hn : QuadletName n)
    (hw : L w) (hclean : w.Clean t N) :
    Meets K t R may (atomicWriteFile (layout.quadletPath uid n) contents mode).run
      (Changed K t N L L') w := by
  rw [atomicWriteFile, parentPath_quadletPath hn, filename_quadletPath hn]
  refine ((meets_openUserDirectory hR hroot hclean).keeps hL.before hw).ofQuiet.attemptBind
    (fun dirFd w h => ?_) fun e w h => ⟨.inl h.2, fun _ => h.1⟩
  obtain ⟨hready, hw⟩ := h
  refine ((meets_openTemporary hR hready).keeps hL.before hw).ofQuiet.bind (fun tmp w h => ?_)
    fun e w h => ⟨.inl h.2, fun _ => h.1.clean⟩
  obtain ⟨⟨i, hpending, hfd⟩, hw⟩ := h
  exact meets_replaceFile hR hL hn hpending hfd hw

/-! ### Removing a file -/

/-- How removing the entry of a Quadlet file ends. -/
def Removed (L L' : World → Prop) : Except Errno Unit → World → Prop
  | .ok _ => L'
  | .error e => fun w => L w ∧ (e = ENOENT → L' w)

/-- Removing a Quadlet file, or finding that it is not there. -/
theorem callMeets_unlink (hR : OthersOnly t R) (hL : Transition t R may uid n L L' none)
    (hn : ¬ Hidden n) {dirFd : Fd} (h : Ready t N uid dirFd w) (hw : L w) :
    CallMeets K t R may (.unlinkat dirFd n)
      (fun r w => Ready t N uid dirFd w ∧ Removed L L' r w) w := by
  intro w₁ c r w₂ hR₁ hstep
  have h₁ := h.others hR hR₁
  have hw₁ := hL.before.others hR₁ hw
  rcases System.step_unlinkat hstep with ⟨e, rfl, hw₂, hmissing, -⟩ | ⟨sub, j, hsub, -, rfl, hw₂⟩
  · obtain rfl := World.eq_of_toSystem hw₂
    refine ⟨.refl _ _ _, h₁, hw₁, fun he => hL.change w₂ w₂ hw₁ (.refl _ _ _) ?_⟩
    -- the name was missing already, so that nothing changes
    have hnone := hmissing he
    rw [System.entryOf, h₁.dirOpen.targetOf] at hnone
    simp only at hnone
    rw [System.look, System.content, hnone, Option.map_none]
  · rw [h₁.dirOpen.targetOf] at hsub
    obtain rfl : uidString uid = sub := by simpa using hsub
    have hguar : FileGuarantee t (may w₁) w₁.toSystem w₂.toSystem := by
      rw [hw₂]
      exact fileGuarantee_removeFile hn (hL.allowed w₁ hw₁)
    refine ⟨hguar, ⟨?_, fun d m hleft => ?_⟩, hL.change w₁ w₂ hw₁ hguar.toGuarantee ?_⟩
    · rw [UserDirOpen, hw₂]
      exact h₁.dirOpen
    · obtain ⟨hm, k, hk, hcreator, hN⟩ := hleft
      rw [hw₂] at hk hcreator
      simp only [System.removeEntry] at hk
      split at hk
      · simp at hk
      · exact h₁.clean d m ⟨hm, k, hk, hcreator, hN⟩
    · rw [hw₂]
      simp [System.look, System.content, System.removeEntry]

/-- **`unlink_quadlet_file`** removes a Quadlet file, or leaves it alone. -/
theorem meets_unlinkQuadletFile (hR : OthersOnly t R) (hroot : layout.adminUserRoot = K.adminRoot)
    (hL : Transition t R may uid n L L' none) (hn : QuadletName n) (hw : L w)
    (hclean : w.Clean t N) :
    Meets K t R may (unlinkQuadletFile (layout.quadletPath uid n)).run (Changed K t N L L') w := by
  have hlasts : ∀ w w', R w w' → L' w ∧ w.Clean t N → L' w' ∧ w'.Clean t N :=
    fun w w' hRw h => ⟨hL.after.others hRw h.1, clean_others hR hRw h.2⟩
  -- once the file is gone, only `fsync` of its directory can fail
  have hsync : ∀ {dirFd : Fd} {w : World}, Ready t N uid dirFd w → L' w →
      Meets K t R may (fsyncDirectory dirFd).run (Changed K t N L L') w := by
    intro dirFd w hready hw
    refine (meets_fsyncDirectory hR hlasts hready.dirOpen ⟨hw, hready.clean⟩).ofQuiet.weaken
      fun r w h => ?_
    cases r with
    | ok u => exact h.1.1
    | error e => exact ⟨.inr ⟨h.2 e rfl, h.1.1⟩, fun _ => h.1.2⟩
  rw [unlinkQuadletFile, parentPath_quadletPath hn, filename_quadletPath hn, cStr_eq_self hn.noNul]
  refine ((meets_openUserDirectory hR hroot hclean).keeps hL.before hw).ofQuiet.attemptBind
    (fun dirFd w h => ?_) fun e w h => ⟨.inl h.2, fun _ => h.1⟩
  obtain ⟨hready, hw⟩ := h
  refine (callMeets_unlink hR hL hn.visible hready hw).bind fun removed w h => ?_
  obtain ⟨hready, h⟩ := h
  cases removed with
  | ok u => exact hsync hready h
  | error e =>
      dsimp only
      split
      · exact meets_throw ⟨.inl h.1, fun _ => hready.clean⟩
      · rename_i he
        exact hsync hready (h.2 (not_not.1 he))

/-! ### Reading a file -/

/-- A settled inode stays as it is among others. -/
theorem Settled.others (hR : OthersOnly t R) (hRw : R w w') {i : ℕ} {node : Inode}
    (h : Settled w.toSystem i node) : Settled w'.toSystem i node := by
  refine hR.lasts (P := fun w => Settled w.toSystem i node) ?_ hRw h
  intro u w w' _ hframed h
  exact hframed.settled h

/-- What a `read` has delivered. -/
def ReadSome (t : ℕ) (fd : Fd) (i : ℕ) (node : Inode) (offset count : ℕ) :
    Except Errno Bytes → World → Prop
  | .ok bytes => fun w => ∃ n, n ≤ count ∧ n ≤ (node.bytes.drop offset).length ∧
      bytes = (node.bytes.drop offset).take n ∧ Settled w.toSystem i node ∧
      w.ofd fd = some ⟨.ino i, offset + n, t⟩
  | .error _ => fun _ => True

theorem callMeets_read (hR : OthersOnly t R) {fd : Fd} {i offset count : ℕ} {node : Inode}
    (hi : Settled w.toSystem i node) (hfd : w.ofd fd = some ⟨.ino i, offset, t⟩) :
    CallMeets K t R mayNothing (.read fd count) (ReadSome t fd i node offset count) w := by
  intro w₁ c r w₂ hR₁ hstep
  have hi₁ := hi.others hR hR₁
  have hfd₁ : w₁.ofd fd = some ⟨.ino i, offset, t⟩ := hR.ofd hR₁ hfd
  rcases System.step_read hstep with ⟨e, rfl, hw₂⟩ | ⟨j, _, _, n, hofd, hle, hle', rfl, hw₂⟩
  · obtain rfl := World.eq_of_toSystem hw₂
    exact ⟨.refl _ _ _, trivial⟩
  · obtain ⟨rfl, rfl, rfl⟩ := by simpa [hfd₁] using hofd
    rw [hi₁.inode] at hle' ⊢
    have hguar : FileGuarantee t nothing w₁.toSystem w₂.toSystem := by
      rw [hw₂]
      refine fileGuarantee_seek fun o ho => ?_
      obtain rfl : _ = o := by simpa [hfd₁] using ho
      rfl
    refine ⟨hguar, n, hle, hle', rfl, hguar.toFramed.settled hi₁, ?_⟩
    rw [hw₂]
    simp [System.seek, hfd₁]

/-- A `read` that is made again has failed. -/
theorem read_again {fd : Fd} {count : ℕ} {c : Choice} {r : Except Errno Bytes}
    (hstep : K.machine.step t w (.read fd count) c = some (r, w'))
    (hagain : interrupted r = true) : w' = w := by
  rcases System.step_read (Kernel.machine_step.1 hstep) with
    ⟨e, -, hw⟩ | ⟨_, _, _, n, -, -, -, rfl, -⟩
  · exact World.eq_of_toSystem hw
  · simp [interrupted] at hagain

/-- **The bytes that are left** are read in full, or the function fails. -/
theorem meets_readBytes (hR : OthersOnly t R) {path : PosixPath} {fd : Fd} {i : ℕ} {node : Inode}
    {left skip offset : ℕ} (hi : Settled w.toSystem i node)
    (hfd : w.ofd fd = some ⟨.ino i, offset, t⟩) :
    Meets K t R mayNothing (readBytes path fd left skip).run
      (fun r _ => ∀ out, r = .ok out →
        out = (node.bytes.drop offset).take (left - skip) ∧ out.length = left - skip) w := by
  induction left generalizing skip offset w with
  | zero =>
      refine meets_pure fun out hout => ?_
      obtain rfl : [] = out := by simpa using hout
      simp
  | succ left ih =>
      cases skip with
      | succ skip =>
          -- this byte came with an earlier call
          rw [Nat.add_sub_add_right]
          exact ih hi hfd
      | zero =>
          rw [readBytes]
          refine (meets_sysUntil (callMeets_read hR hi hfd) ?_).attemptBind (fun bytes w h => ?_)
            fun e w h out hout => by cases hout
          · intro w₁ c r w₂ _ hstep hagain
            exact read_again (Kernel.machine_step.2 hstep) hagain
          · obtain ⟨n, hle, hle', rfl, hi, hfd⟩ := h
            refine meets_rejectIf_bind (fun hne => ?_) fun _ out hout => by cases hout
            -- nothing read is the end of the file, which is refused above
            have hpos : 0 < n := by
              rcases Nat.eq_zero_or_pos n with rfl | hpos
              · simp at hne
              · exact hpos
            have hlen : ((node.bytes.drop offset).take n).length = n := by
              rw [List.length_take, Nat.min_eq_left hle']
            rw [hlen]
            refine (ih hi hfd).bind (fun rest w h => ?_) fun e w h out hout => by
              cases hout
            obtain ⟨hrest, hrestLen⟩ := h rest rfl
            refine meets_pure fun out hout => ?_
            obtain rfl : _ = out := by simpa using hout
            have hcount : left - (n - 1) = left + 1 - 0 - n := by omega
            constructor
            · rw [hrest, hcount, ← List.drop_drop, ← List.take_add]
              congr 1
              omega
            · rw [List.length_append, hlen, hrestLen]
              omega

/-- How opening a Quadlet file to read it ends: its inode stood behind the path when `L` held. -/
def OpenedFile (t : ℕ) (uid : UInt32) (n : Bytes) (L : World → Prop) :
    Except Errno Fd → World → Prop
  | .ok fd => fun w => ∃ i node, Settled w.toSystem i node ∧ w.ofd fd = some ⟨.ino i, 0, t⟩ ∧
      ∃ w₀ : World, L w₀ ∧ w₀.entry (uidString uid) n = some i ∧ w₀.inode i = node
  | .error _ => fun _ => True

theorem callMeets_openFile (hroot : layout.adminUserRoot = K.adminRoot)
    (hn : QuadletName n) (hL : Stable t R L) {flags : OpenFlags} (hw : L w) :
    CallMeets K t R mayNothing (.openPath (cStr (layout.quadletPath uid n)) flags)
      (OpenedFile t uid n L) w := by
  intro w₁ c r w₂ hR₁ hstep
  rcases System.step_openPath hstep with ⟨e, rfl, hw₂⟩ | ⟨target, hopen, rfl, hw₂⟩
  · obtain rfl := World.eq_of_toSystem hw₂
    exact ⟨.refl _ _ _, trivial⟩
  · rw [locate_quadletPath hroot hn] at hopen
    obtain ⟨i, hi, rfl⟩ := System.openAt_entry hopen
    have hguar : FileGuarantee t nothing w₁.toSystem w₂.toSystem := by
      rw [hw₂]
      exact fileGuarantee_openFd w₁.wellFormed
    refine ⟨hguar, i, w₁.inode i, ?_, ?_, w₁, hL.others hR₁ hw, hi, rfl⟩
    · exact hguar.toFramed.settled (settled_of_entry w₁.wellFormed hn.visible hi)
    · rw [hw₂]
      simp [System.openFd]

theorem look_of_entry {s : System} {i : ℕ} (hi : s.entry (uidString uid) n = some i)
    (hkind : (s.inode i).kind = .regular) : s.look uid n = some (.regular (s.inode i).bytes) := by
  simp [System.look, System.content, hi, hkind]

/-- **`read_regular_file_no_symlink`** delivers what the file held at some time while `L` held. -/
theorem meets_readRegularFileNoSymlink (hR : OthersOnly t R)
    (hroot : layout.adminUserRoot = K.adminRoot) (hn : QuadletName n) (hL : Stable t R L)
    {maxSize : ℕ} (hw : L w) :
    Meets K t R mayNothing
      (readRegularFileNoSymlink (layout.quadletPath uid n) maxSize).run
      (fun r _ => ∀ out, r = .ok out → ∃ w₀ : World, L w₀ ∧
        w₀.look uid n = some (.regular out)) w := by
  rw [readRegularFileNoSymlink]
  refine (meets_sys (callMeets_openFile hroot hn hL hw)).attemptBind (fun fd w h => ?_)
    fun e w h out hout => by cases hout
  obtain ⟨i, node, hi, hfd, w₀, hw₀, hentry, hnode⟩ := h
  have hstat : CallMeets K t R mayNothing (.fstat fd) (fun r w => ∀ st, r = .ok st →
      st = node.stat ∧ Settled w.toSystem i node ∧ w.ofd fd = some ⟨.ino i, 0, t⟩) w := by
    intro w₁ c r w₂ hR₁ hstep
    have hfd₁ : w₁.ofd fd = some ⟨.ino i, 0, t⟩ := hR.ofd hR₁ hfd
    have hi₁ := hi.others hR hR₁
    obtain ⟨hw₂, hst⟩ := System.step_fstat_ino (i := i) (by simp [System.targetOf, hfd₁]) hstep
    obtain rfl := World.eq_of_toSystem hw₂
    refine ⟨.refl _ _ _, fun st hr => ⟨?_, hi₁, hfd₁⟩⟩
    rw [hst st hr, hi₁.inode]
  refine (meets_sys hstat).attemptBind (fun st w h => ?_) fun e w h out hout => by cases hout
  obtain ⟨rfl, hi, hfd⟩ := h st rfl
  refine meets_rejectIf_bind (fun hkind => ?_) fun _ out hout => by cases hout
  refine meets_rejectIf_bind (fun _ => ?_) fun _ out hout => by cases hout
  refine (meets_readBytes hR hi hfd).weaken fun r w h out hout => ?_
  obtain ⟨hbytes, -⟩ := h out hout
  refine ⟨w₀, hw₀, ?_⟩
  rw [look_of_entry hentry (by rw [hnode]; exact not_not.1 hkind), hnode, hbytes]
  simp [Inode.stat]

/-! ### The operations -/

/-- What restoring a snapshot leads to. -/
def QuadletSnapshot.content (snapshot : QuadletSnapshot) : Option Content :=
  if snapshot.existed then some (.regular snapshot.contents) else none

/-- A snapshot that was taken of a Quadlet file while `L` held. -/
structure TakenFrom (layout : QuadletInstallLayout) (uid : UInt32) (n : Bytes) (L : World → Prop)
    (snapshot : QuadletSnapshot) : Prop where
  path : snapshot.path = layout.quadletPath uid n
  fileName : snapshot.fileName = n
  content : ∃ w : World, L w ∧ w.look uid n = snapshot.content

variable {installer : QuadletInstaller}

/-- **`snapshot_for_user`** delivers what the file held at some time while `L` held. -/
theorem meets_snapshotForUser (hR : OthersOnly t R)
    (hroot : installer.layout.adminUserRoot = K.adminRoot) (hL : Stable t R L) (hw : L w) :
    Meets K t R mayNothing (installer.snapshotForUser uid n).run
      (fun r _ => ∀ snapshot, r = .ok snapshot → TakenFrom installer.layout uid n L snapshot)
      w := by
  rw [QuadletInstaller.snapshotForUser]
  refine meets_done_bind (fun _ hvalid => ?_) fun e _ snapshot hr => by cases hr
  have hn := quadletName_of_valid hvalid
  have htree : Meets K t R mayNothing (ensureAdminTree uid installer.layout).run
      (fun _ w => L w) w :=
    meets_of_minor (ensureAdminTree_minor uid installer.layout) (fun _ _ => hL.others)
      (fun _ _ => hL.minor) hw
  refine htree.bind (fun _ w hw => ?_) fun e w _ snapshot hr => by cases hr
  -- the look that finds nothing is the moment at which there is no file
  have hlstat : CallMeets K t R mayNothing (.lstat (cStr (installer.layout.quadletPath uid n)))
      (fun r w => L w ∧ (r = .error ENOENT → ∃ w₀ : World, L w₀ ∧ w₀.look uid n = none)) w := by
    intro w₁ c r w₂ hR₁ hstep
    obtain ⟨hw₂, hmissing⟩ :=
      System.step_lstat_entry w₁.wellFormed (locate_quadletPath hroot hn) hstep
    obtain rfl := World.eq_of_toSystem hw₂
    have hw₁ := hL.others hR₁ hw
    refine ⟨.refl _ _ _, hw₁, fun hr => ⟨w₂, hw₁, ?_⟩⟩
    simp [System.look, System.content, hmissing hr]
  refine hlstat.bind fun found w h => ?_
  cases found with
  | error e =>
      dsimp only
      split
      · rename_i he
        obtain ⟨w₀, hw₀, hlook⟩ := h.2 (he ▸ rfl)
        refine meets_pure fun snapshot hr => ?_
        obtain rfl : _ = snapshot := by simpa using hr
        exact ⟨rfl, rfl, w₀, hw₀, hlook⟩
      · exact meets_throw fun snapshot hr => by cases hr
  | ok st =>
      refine (meets_readRegularFileNoSymlink hR hroot hn hL h.1).bind (fun contents w h => ?_)
        fun e w _ snapshot hr => by cases hr
      obtain ⟨w₀, hw₀, hlook⟩ := h contents rfl
      refine meets_pure fun snapshot hr => ?_
      obtain rfl : _ = snapshot := by simpa using hr
      exact ⟨rfl, rfl, w₀, hw₀, hlook⟩

/-- The directories are there, and what lasts has lasted. -/
theorem meets_ensureAdminTree (hR : OthersOnly t R) (hL : Stable t R L) (hw : L w)
    (hclean : w.Clean t N) :
    Meets K t R mayNothing (ensureAdminTree uid layout).run (fun _ w => L w ∧ w.Clean t N) w := by
  refine meets_of_minor (ensureAdminTree_minor uid layout) ?_ ?_ ⟨hw, hclean⟩
  · intro w w' hRw h
    exact ⟨hL.others hRw h.1, clean_others hR hRw h.2⟩
  · intro w w' hminor h
    exact ⟨hL.minor hminor h.1, fun d m hleft => h.2 d m (hminor.leftover.1 hleft)⟩

/-- **`restore_for_user`** restores the content of a snapshot, or leaves the file alone. -/
theorem meets_restoreForUser (hR : OthersOnly t R)
    (hroot : installer.layout.adminUserRoot = K.adminRoot) {snapshot : QuadletSnapshot}
    (hbefore : Stable t R L)
    (hL : QuadletName snapshot.fileName →
      PosixPath.same (installer.layout.quadletPath uid snapshot.fileName) snapshot.path = true →
      Transition t R may uid snapshot.fileName L L' snapshot.content)
    (hw : L w) (hclean : w.Clean t N) :
    Meets K t R may (installer.restoreForUser uid snapshot).run (Changed K t N L L') w := by
  rw [QuadletInstaller.restoreForUser]
  refine meets_done_bind (fun _ hvalid => ?_) fun e _ => ⟨.inl hw, fun _ => hclean⟩
  have hn := quadletName_of_valid hvalid
  refine (meets_ensureAdminTree hR hbefore hw hclean).ofQuiet.bind (fun _ w h => ?_)
    fun e w h => ⟨.inl h.1, fun _ => h.2⟩
  refine meets_rejectIf_bind (fun hpath => ?_) fun _ => ⟨.inl h.1, fun _ => h.2⟩
  have hL := hL hn (by simpa using hpath)
  split
  · rename_i hexisted
    rw [QuadletSnapshot.content, if_pos hexisted] at hL
    exact meets_atomicWriteFile hR hroot hL hn h.1 h.2
  · rename_i hexisted
    rw [QuadletSnapshot.content, if_neg hexisted] at hL
    exact meets_unlinkQuadletFile hR hroot hL hn h.1 h.2

/-- **`remove_for_user`** removes the file, or leaves it alone. -/
theorem meets_removeForUser (hR : OthersOnly t R)
    (hroot : installer.layout.adminUserRoot = K.adminRoot) (hbefore : Stable t R L)
    (hL : QuadletName n → Transition t R may uid n L L' none) (hw : L w)
    (hclean : w.Clean t N) :
    Meets K t R may (installer.removeForUser uid n).run (Changed K t N L L') w := by
  rw [QuadletInstaller.removeForUser]
  refine meets_done_bind (fun _ hvalid => ?_) fun e _ => ⟨.inl hw, fun _ => hclean⟩
  have hn := quadletName_of_valid hvalid
  refine (meets_ensureAdminTree hR hbefore hw hclean).ofQuiet.bind (fun _ w h => ?_)
    fun e w h => ⟨.inl h.1, fun _ => h.2⟩
  exact meets_unlinkQuadletFile hR hroot (hL hn) hn h.1 h.2

/-- How an installation ends. -/
def Installed (K : Kernel) (t N : ℕ) (L L' : World → Prop) (expected : Result InstalledQuadlet) :
    Result InstalledQuadlet → World → Prop
  | .ok installed => fun w => expected = .ok installed ∧ L' w
  | .error e => Changed K t N L L' (.error e)

/-- **`install_for_user`** puts the contents in place, or leaves the file alone. -/
theorem meets_installForUser (hR : OthersOnly t R)
    (hroot : installer.layout.adminUserRoot = K.adminRoot) {quadlet : QuadletFile}
    (hbefore : Stable t R L)
    (hL : ∀ expected, installer.expectedInstall uid quadlet = .ok expected →
      Transition t R may uid quadlet.fileName L L' (some (.regular quadlet.contents)))
    (hw : L w) (hclean : w.Clean t N) :
    Meets K t R may (installer.installForUser uid quadlet).run
      (Installed K t N L L' (installer.expectedInstall uid quadlet)) w := by
  rw [QuadletInstaller.installForUser]
  refine meets_done_bind (fun expected hexpected => ?_) fun e _ => ⟨.inl hw, fun _ => hclean⟩
  obtain ⟨-, -, -, hpath⟩ := QuadletInstaller.expectedInstall_eq_ok.1 hexpected
  have hn : QuadletName quadlet.fileName := quadletName_of_expectedInstall hexpected
  refine (meets_ensureAdminTree hR hbefore hw hclean).ofQuiet.bind (fun _ w h => ?_)
    fun e w h => ⟨.inl h.1, fun _ => h.2⟩
  rw [hpath]
  refine (meets_atomicWriteFile hR hroot (hL expected hexpected) hn h.1 h.2).bind
    (fun _ w h => ?_) fun e w h => h
  exact meets_pure ⟨hexpected, h⟩

end

end PodInstaller
