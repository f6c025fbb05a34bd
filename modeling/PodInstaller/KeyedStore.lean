/-
**The installer is a keyed store.**

What the installer keeps is a map from users and file names to contents.  A client that makes its
calls one after another, none of which meets a fault, sees nothing else: the results are those of
the map, and so is what the Quadlet paths hold in the end.  Paths, temporary files, sizes and the
flag of a snapshot that tells an absent file from an empty one do not show.

One thing has to be asked of the calls that go to the tree.  A directory that is missing is made by
the caller, and it passes only if it gets the owner that the layout asks for: the caller has to be
that, and the directory above the admin root must not give another group to what is made in it.

Main definitions:

* `PodInstaller.Store`, `PodInstaller.Saved`, `PodInstaller.Store.apply`,
  `PodInstaller.Store.run` — the map and the calls on it;
* `PodInstaller.StoreCall.action`, `PodInstaller.Session` — the calls on the installer;
* `PodInstaller.StoreTree`, `PodInstaller.System.store` — the trees to start from.

Main results:

* `PodInstaller.delivers_action` — one call does what it does to the map;
* `PodInstaller.keyedStore` — **so does every session**.
-/

import PodInstaller.FaultFree

set_option relaxedAutoImplicit false
set_option autoImplicit false

namespace PodInstaller

open Bytes

/-! ### The map -/

/-- What the installer stands for: a map from users and file names to contents. -/
abbrev Store := UInt32 × Bytes → Option Bytes

/-- What a snapshot keeps: whose entry it was taken of, and what that was. -/
structure Saved where
  uid : UInt32
  fileName : Bytes
  entry : Option Bytes

/-- A call on the store. -/
inductive StoreCall
  | install (uid : UInt32) (quadlet : QuadletFile)
  | remove (uid : UInt32) (fileName : Bytes)
  | snapshot (uid : UInt32) (fileName : Bytes)
  | restore (uid : UInt32) (saved : Saved)

/-- The snapshot that the installer returns for what is kept. -/
def Saved.snapshot (layout : QuadletInstallLayout) (saved : Saved) : QuadletSnapshot :=
  ⟨layout.quadletPath saved.uid saved.fileName, saved.fileName, saved.entry.isSome,
    saved.entry.getD []⟩

/-- What a call returns, and the map behind it. -/
def Store.apply (installer : QuadletInstaller) (σ : Store) : StoreCall → Result Outcome × Store
  | .install uid quadlet =>
    match installer.expectedInstall uid quadlet with
    | .error e => (.error e, σ)
    | .ok expected =>
      (.ok (.installed expected), Function.update σ (uid, quadlet.fileName) (some quadlet.contents))
  | .remove uid fileName =>
    match validateQuadletFileName fileName with
    | .error e => (.error e, σ)
    | .ok () => (.ok .removed, Function.update σ (uid, fileName) none)
  | .snapshot uid fileName =>
    match validateQuadletFileName fileName with
    | .error e => (.error e, σ)
    | .ok () =>
      (.ok (.taken (Saved.snapshot installer.layout ⟨uid, fileName, σ (uid, fileName)⟩)), σ)
  | .restore uid saved =>
    if saved.uid = uid then
      (.ok .restored, Function.update σ (uid, saved.fileName) saved.entry)
    else
      (.error (makeError .filesystem "Quadlet snapshot path does not match installer layout"), σ)

/-- What a sequence of calls returns, and the map behind it. -/
def Store.run (installer : QuadletInstaller) (σ : Store) :
    List StoreCall → List (Result Outcome) × Store
  | [] => ([], σ)
  | c :: calls =>
    let rest := Store.run installer (σ.apply installer c).2 calls
    ((σ.apply installer c).1 :: rest.1, rest.2)

theorem Store.run_append (installer : QuadletInstaller) (σ : Store) (calls : List StoreCall)
    (c : StoreCall) :
    σ.run installer (calls ++ [c]) =
      ((σ.run installer calls).1 ++ [((σ.run installer calls).2.apply installer c).1],
        ((σ.run installer calls).2.apply installer c).2) := by
  induction calls generalizing σ with
  | nil => rfl
  | cons d calls ih => simp [Store.run, ih]

/-! ### The calls on the installer -/

/-- A call, made on the installer. -/
def StoreCall.action (installer : QuadletInstaller) : StoreCall → Action Outcome
  | .install uid quadlet => installer.perform uid (.install quadlet)
  | .remove uid fileName => installer.perform uid (.remove fileName)
  | .snapshot uid fileName => installer.perform uid (.snapshot fileName)
  | .restore uid saved => installer.perform uid (.restore (saved.snapshot installer.layout))

def StoreCall.uid : StoreCall → UInt32
  | .install uid _ => uid
  | .remove uid _ => uid
  | .snapshot uid _ => uid
  | .restore uid _ => uid

/-- The calls that go to the tree: their arguments are not rejected. -/
def StoreCall.Prepares (installer : QuadletInstaller) : StoreCall → Prop
  | .install uid quadlet => ∃ expected, installer.expectedInstall uid quadlet = .ok expected
  | .remove _ fileName => validateQuadletFileName fileName = .ok ()
  | .snapshot _ fileName => validateQuadletFileName fileName = .ok ()
  | .restore _ saved => validateQuadletFileName saved.fileName = .ok ()

/-- A call that has returned, with the world that it was made in. -/
structure Returned where
  caller : ℕ
  call : StoreCall
  result : Result Outcome
  start : World

/-- The temporary files of the installer are gone. -/
def NoTemporary (s : System) : Prop :=
  ∀ uid n pid attempt, validateQuadletFileName n = .ok () →
    s.entry (uidString uid) (cStr (temporaryName n pid attempt)) = none

/-- A tree to start from. -/
structure StoreTree (layout : QuadletInstallLayout) (s : System) : Prop
    extends OwnedTree layout s where
  entries : ∀ {uid n c}, validateQuadletFileName n = .ok () → s.look uid n = some c →
    ∃ bytes, c = .regular bytes ∧ bytes.length ≤ layout.maxQuadletBytes.toNat
  noTemporary : NoTemporary s

/-- The map that a tree stands for. -/
def System.store (s : System) : Store := fun key =>
  match s.look key.1 key.2 with
  | some (.regular bytes) => some bytes
  | _ => none

/-- The Quadlet paths hold what the map has. -/
def Looks (σ : Store) (w : World) : Prop :=
  ∀ uid n, validateQuadletFileName n = .ok () → w.look uid n = (σ (uid, n)).map .regular

/-- A tree that stands for a map. -/
structure Represents (layout : QuadletInstallLayout) (σ : Store) (w : World) : Prop
    extends OwnedTree layout w.toSystem where
  looks : Looks σ w
  noTemporary : NoTemporary w.toSystem
  fits : ∀ {uid n bytes}, validateQuadletFileName n = .ok () → σ (uid, n) = some bytes →
    bytes.length ≤ layout.maxQuadletBytes.toNat

section

variable {K : Kernel} {t N : ℕ} {w w' : World} {σ : Store} {installer : QuadletInstaller}
variable {layout : QuadletInstallLayout} {uid : UInt32} {n : Bytes}

theorem StoreTree.represents (h : StoreTree layout w.toSystem) :
    Represents layout w.store w := by
  refine ⟨h.toOwnedTree, fun uid n hvalid => ?_, h.noTemporary, fun {uid n bytes} hvalid hσ => ?_⟩
  · rw [System.store]
    cases hlook : w.look uid n with
    | none => rfl
    | some c =>
        obtain ⟨bytes, rfl, -⟩ := h.entries hvalid hlook
        rfl
  · simp only [System.store] at hσ
    split at hσ
    · rename_i hlook
      obtain ⟨bytes', hc, hle⟩ := h.entries hvalid hlook
      obtain rfl := Content.regular.inj hc
      rwa [← Option.some.inj hσ]
    · cases hσ

/-! ### What the calls do to the map -/

theorem stable_looks (σ : Store) : Stable t Eq (Looks σ) := by
  refine ⟨fun heq hw => heq ▸ hw, fun hguar hw uid n hvalid => ?_⟩
  rw [hguar.look_eq (quadletName_of_valid hvalid).visible]
  exact hw uid n hvalid

/-- A change of one entry of the map. -/
theorem transition_update (v : Option Bytes) :
    Transition t Eq (fun _ u m c => u = uid ∧ m = n ∧ c = v.map .regular) uid n (Looks σ)
      (Looks (Function.update σ (uid, n) v)) (v.map .regular) := by
  refine ⟨stable_looks _, stable_looks _, fun _ _ => ⟨rfl, rfl, rfl⟩, ?_⟩
  intro w w' hw hguar hlook u m hvalid
  by_cases hkey : (u, m) = (uid, n)
  · obtain ⟨rfl, rfl⟩ := Prod.mk.inj hkey
    rw [hlook, Function.update_self]
  · rw [Function.update_of_ne hkey]
    have hother : w'.look u m = w.look u m ∨
        (u = uid ∧ m = n ∧ w'.look u m = v.map .regular) :=
      hguar.look (quadletName_of_valid hvalid).visible
    rcases hother with hsame | ⟨hu, hm, -⟩
    · rw [hsame, hw u m hvalid]
    · exact absurd (Prod.mk.injEq .. ▸ ⟨hu, hm⟩) hkey

/-- Where nothing was left over and no temporary file was there before, there is none. -/
theorem noTemporary_of_clean {may : UInt32 → Bytes → Option Content → Prop}
    (h : NoTemporary w.toSystem) (hguar : FileGuarantee t may w.toSystem w'.toSystem)
    (hclean : w'.Clean t w.nextIno) : NoTemporary w'.toSystem := by
  intro uid n pid attempt hvalid
  by_contra hne
  obtain ⟨i, hi⟩ := Option.ne_none_iff_exists'.1 hne
  have hhidden := hidden_temporaryName n pid attempt
  rcases hguar.appears hi hhidden with hold | hnew
  · rw [h uid n pid attempt hvalid] at hold
    cases hold
  · exact hclean _ _ ⟨hhidden, i, hi, hguar.made hnew (w'.wellFormed.entry_lt hi), hnew⟩

/-- A function that may change one entry of the map, where no call meets a fault. -/
theorem represents_of_works {α : Type} {x : Action α} {Q : Result α → World → Prop}
    {P : α → World → Prop} {v : Option Bytes} {c : Option Content}
    (hw : Represents layout σ w)
    (hfits : ∀ {bytes}, v = some bytes → bytes.length ≤ layout.maxQuadletBytes.toNat)
    (hmeets : Meets K t Eq (fun _ u m c' => u = uid ∧ m = n ∧ c' = c) x.run Q w)
    (hQ : ∀ a w, Q (.ok a) w → Looks (Function.update σ (uid, n) v) w)
    (hworks : Works K t x (fun a w' => P a w' ∧ OwnedTree layout w'.toSystem ∧
      w'.Clean t w.nextIno) w) :
    Works K t x (fun a w' => (Q (.ok a) w' ∧ P a w') ∧
      Represents layout (Function.update σ (uid, n) v) w') w := by
  intro tr w' r hexec hfree
  obtain ⟨a, rfl, hP, howned, hclean⟩ := hworks tr w' r hexec hfree
  have hpost := hmeets.exec (fun _ => rfl) hexec
  have hguar := hmeets.exec_guarantee (fun _ => rfl) hexec
  refine ⟨a, rfl, ⟨hpost, hP⟩, howned, hQ a w' hpost,
    noTemporary_of_clean hw.noTemporary hguar hclean, fun {u m bytes} hvalid hσ => ?_⟩
  by_cases hkey : (u, m) = (uid, n)
  · rw [hkey, Function.update_self] at hσ
    exact hfits hσ
  · rw [Function.update_of_ne hkey] at hσ
    exact hw.fits hvalid hσ

/-! ### The operations without faults -/

/-- What a function of the installer starts from. -/
theorem works_prepare (hroot : installer.layout.adminUserRoot = K.adminRoot)
    (h : OwnedTree installer.layout w.toSystem)
    (hcan : K.CanPrepare t installer.layout uid w.toSystem) (hclean : w.Clean t N) :
    Works K t (ensureAdminTree uid installer.layout) (fun _ w' =>
      UserReady installer.layout uid w'.toSystem ∧ w'.Clean t N ∧ w'.entry = w.entry ∧
        ∀ u m, ¬ Hidden m → w'.look u m = w.look u m) w := by
  intro tr w' r hexec hfree
  obtain ⟨u, rfl, hready⟩ := works_ensureAdminTree hroot h hcan tr w' r hexec hfree
  have hmeets : Meets K t Eq mayNothing (ensureAdminTree uid installer.layout).run
      (fun _ w => True ∧ w.Clean t N) w :=
    meets_ensureAdminTree othersOnly_eq stable_any trivial hclean
  have hentry := exec_invariant (P := fun w' : World => w'.entry = w.entry)
    (fun {w₁ w₂ o c r} (ho : o.isMinor = true) hstep hw => by
      rw [(System.step_minor w₁.wellFormed ho (Kernel.machine_step.1 hstep)).entry_eq, hw])
    ((ensureAdminTree_minor uid installer.layout).mono fun _ _ ho => ho.1) hexec rfl
  refine ⟨u, rfl, hready, (hmeets.exec (fun _ => rfl) hexec).2, hentry.2, fun v m hm => ?_⟩
  exact (hmeets.exec_guarantee (fun _ => rfl) hexec).toGuarantee.look_eq hm

/-- The calls on files leave the directories as they are. -/
theorem Works.owned {α : Type} {x : Action α} {Q : α → World → Prop}
    (h : Works K t x Q w) (hx : FileCalls x.run) (hw : OwnedTree layout w.toSystem) :
    Works K t x (fun a w' => OwnedTree layout w'.toSystem ∧ Q a w') w := by
  intro tr w' r hexec hfree
  obtain ⟨a, rfl, hQ⟩ := h tr w' r hexec hfree
  have hsame := exec_invariant (P := fun w' : World => SameDirectories w.toSystem w'.toSystem)
    (fun {w₁ w₂ o c r} ho hstep hw => by
      have hstep' := sameDirectories_step w₁.wellFormed
        (Sys.changesDirectory_of_isFileCall ho) (Kernel.machine_step.1 hstep)
      exact ⟨hstep'.rootLink.trans hw.rootLink, hstep'.root.trans hw.root,
        hstep'.sub.trans hw.sub⟩) hx hexec (.refl _)
  obtain ⟨hlink, hroot, hsub⟩ := hsame.2
  exact ⟨a, rfl, ⟨hlink.trans hw.noLink, fun hn => hw.root (hroot ▸ hn),
    fun hn => hw.user (hsub ▸ hn)⟩, hQ⟩

theorem works_replace (hroot : installer.layout.adminUserRoot = K.adminRoot)
    (hvalid : validateQuadletFileName n = .ok ()) {contents : Bytes}
    (hready : UserReady installer.layout uid w.toSystem) (hclean : w.Clean t N)
    (hfree : NoTemporary w.toSystem) :
    Works K t (atomicWriteFile (installer.layout.quadletPath uid n) contents 0o644)
      (fun _ w' => OwnedTree installer.layout w'.toSystem ∧ w'.Clean t N) w :=
  (works_atomicWriteFile hroot (quadletName_of_valid hvalid) hready hclean
    fun pid => hfree uid n pid 0 hvalid).owned (fileCalls_atomicWriteFile _ _ _) hready.owned

theorem works_unlink (hroot : installer.layout.adminUserRoot = K.adminRoot)
    (hvalid : validateQuadletFileName n = .ok ())
    (hready : UserReady installer.layout uid w.toSystem) (hclean : w.Clean t N) :
    Works K t (unlinkQuadletFile (installer.layout.quadletPath uid n))
      (fun _ w' => OwnedTree installer.layout w'.toSystem ∧ w'.Clean t N) w :=
  (works_unlinkQuadletFile hroot (quadletName_of_valid hvalid) hready hclean).owned
    (fileCalls_unlinkQuadletFile _) hready.owned

theorem NoTemporary.of_entry (h : NoTemporary w.toSystem) (hentry : w'.entry = w.entry) :
    NoTemporary w'.toSystem := by
  intro uid n pid attempt hvalid
  rw [hentry]
  exact h uid n pid attempt hvalid

/-- **`remove_for_user`** without a fault. -/
theorem works_removeForUser (hroot : installer.layout.adminUserRoot = K.adminRoot)
    (hw : Represents installer.layout σ w)
    (hcan : K.CanPrepare t installer.layout uid w.toSystem)
    (hvalid : validateQuadletFileName n = .ok ()) :
    Works K t (installer.removeForUser uid n) (fun _ w' =>
      Represents installer.layout (Function.update σ (uid, n) none) w') w := by
  have hclean := clean_nextIno (t := t) w.wellFormed
  have hworks : Works K t (installer.removeForUser uid n) (fun _ w' =>
      True ∧ OwnedTree installer.layout w'.toSystem ∧ w'.Clean t w.nextIno) w := by
    refine Succeeds.bind (P := fun _ w' => w' = w) (works_done hvalid rfl) fun _ w' hw' => ?_
    subst hw'
    refine Succeeds.bind (works_prepare hroot hw.toOwnedTree hcan hclean) fun _ w₁ h => ?_
    exact (works_unlink hroot hvalid h.1 h.2.1).weaken fun r w₂ hr => by
      obtain ⟨u, rfl, hend⟩ := hr
      exact ⟨u, rfl, trivial, hend⟩
  have hmeets : Meets K t Eq _ (installer.removeForUser uid n).run _ w :=
    meets_removeForUser othersOnly_eq hroot (stable_looks σ) (fun _ => transition_update none)
      hw.looks hclean
  refine (represents_of_works hw (fun h => by cases h) hmeets (fun _ _ h => h) hworks).weaken ?_
  rintro r w' ⟨u, rfl, -, hrep⟩
  exact ⟨u, rfl, hrep⟩

/-- **`install_for_user`** without a fault. -/
theorem works_installForUser (hroot : installer.layout.adminUserRoot = K.adminRoot)
    (hw : Represents installer.layout σ w)
    (hcan : K.CanPrepare t installer.layout uid w.toSystem) {quadlet : QuadletFile}
    {expected : InstalledQuadlet}
    (hexpected : installer.expectedInstall uid quadlet = .ok expected) :
    Works K t (installer.installForUser uid quadlet) (fun installed w' => installed = expected ∧
      Represents installer.layout
        (Function.update σ (uid, quadlet.fileName) (some quadlet.contents)) w') w := by
  have hclean := clean_nextIno (t := t) w.wellFormed
  obtain ⟨hlen, -, hunit, hpath⟩ := QuadletInstaller.expectedInstall_eq_ok.1 hexpected
  have hvalid : validateQuadletFileName quadlet.fileName = .ok () := by
    obtain ⟨_, hvalid, -⟩ := bind_eq_ok.1 hunit
    exact hvalid
  have hworks : Works K t (installer.installForUser uid quadlet) (fun installed w' =>
      installed = expected ∧ OwnedTree installer.layout w'.toSystem ∧ w'.Clean t w.nextIno) w := by
    refine Succeeds.bind (P := fun a w' => a = expected ∧ w' = w)
      (works_done hexpected ⟨rfl, rfl⟩) fun a w' h => ?_
    obtain ⟨rfl, rfl⟩ := h
    refine Succeeds.bind (works_prepare hroot hw.toOwnedTree hcan hclean) fun _ w₁ h => ?_
    obtain ⟨hready, hclean₁, hentry, -⟩ := h
    rw [hpath]
    refine Succeeds.bind (works_replace hroot hvalid hready hclean₁
      (hw.noTemporary.of_entry hentry)) fun _ w₂ h => ?_
    exact succeeds_pure ⟨rfl, h⟩
  -- what becomes of the files follows from the contract for all runs
  have hmeets : Meets K t Eq _ (installer.installForUser uid quadlet).run _ w :=
    meets_installForUser othersOnly_eq hroot (stable_looks σ)
      (fun _ _ => transition_update (some quadlet.contents)) hw.looks hclean
  refine (represents_of_works hw (fun h => by cases h; exact hlen) hmeets
    (fun _ _ h => h.2) hworks).weaken ?_
  rintro r w' ⟨a, rfl, ⟨-, ha⟩, hrep⟩
  exact ⟨a, rfl, ha, hrep⟩

/-- The tree once the directories are there. -/
theorem Represents.prepared (hw : Represents layout σ w) (hready : UserReady layout uid w'.toSystem)
    (hentry : w'.entry = w.entry) (hlook : ∀ u m, ¬ Hidden m → w'.look u m = w.look u m) :
    Represents layout σ w' := by
  refine ⟨hready.owned, fun u m hvalid => ?_, hw.noTemporary.of_entry hentry, hw.fits⟩
  rw [hlook u m (quadletName_of_valid hvalid).visible]
  exact hw.looks u m hvalid

theorem Saved.content_snapshot (saved : Saved) (layout : QuadletInstallLayout) :
    (saved.snapshot layout).content = saved.entry.map .regular := by
  rw [Saved.snapshot, QuadletSnapshot.content]
  cases saved.entry <;> rfl

/-- **`restore_for_user`** without a fault, for the user the snapshot was taken of. -/
theorem works_restoreForUser (hroot : installer.layout.adminUserRoot = K.adminRoot)
    (hw : Represents installer.layout σ w) {saved : Saved}
    (hcan : K.CanPrepare t installer.layout saved.uid w.toSystem)
    (hvalid : validateQuadletFileName saved.fileName = .ok ())
    (hfits : ∀ {bytes}, saved.entry = some bytes →
      bytes.length ≤ installer.layout.maxQuadletBytes.toNat) :
    Works K t (installer.restoreForUser saved.uid (saved.snapshot installer.layout))
      (fun _ w' => Represents installer.layout
        (Function.update σ (saved.uid, saved.fileName) saved.entry) w') w := by
  have hclean := clean_nextIno (t := t) w.wellFormed
  have hworks : Works K t (installer.restoreForUser saved.uid (saved.snapshot installer.layout))
      (fun _ w' => True ∧ OwnedTree installer.layout w'.toSystem ∧ w'.Clean t w.nextIno) w := by
    refine Succeeds.bind (P := fun _ w' => w' = w) (works_done hvalid rfl) fun _ w' hw' => ?_
    subst hw'
    refine Succeeds.bind (works_prepare hroot hw.toOwnedTree hcan hclean) fun _ w₁ h => ?_
    obtain ⟨hready, hclean₁, hentry, -⟩ := h
    refine delivers_rejectIf_bind (by simp [Saved.snapshot, PosixPath.same]) ?_
    have hend : ∀ (r : Result Unit) (w₂ : World), (∃ u : Unit, r = .ok u ∧
        OwnedTree installer.layout w₂.toSystem ∧ w₂.Clean t w'.nextIno) →
        ∃ u : Unit, r = .ok u ∧ True ∧ OwnedTree installer.layout w₂.toSystem ∧
          w₂.Clean t w'.nextIno := by
      intro r w₂ hr
      obtain ⟨u, hu, howned, hleft⟩ := hr
      exact ⟨u, hu, trivial, howned, hleft⟩
    split
    · exact (works_replace hroot hvalid hready hclean₁
        (hw.noTemporary.of_entry hentry)).weaken hend
    · exact (works_unlink hroot hvalid hready hclean₁).weaken hend
  -- what becomes of the files follows from the contract for all runs
  have htransition : Transition t Eq _ saved.uid saved.fileName (Looks σ) _
      (saved.snapshot installer.layout).content :=
    saved.content_snapshot installer.layout ▸ transition_update saved.entry
  have hmeets : Meets K t Eq _
      (installer.restoreForUser saved.uid (saved.snapshot installer.layout)).run _ w :=
    meets_restoreForUser othersOnly_eq hroot (stable_looks σ) (fun _ _ => htransition) hw.looks
      hclean
  refine (represents_of_works hw hfits hmeets (fun _ _ h => h) hworks).weaken ?_
  rintro r w' ⟨u, rfl, -, hrep⟩
  exact ⟨u, rfl, hrep⟩

/-- Under another user it fails, and changes nothing. -/
theorem delivers_restoreForUser_other (hroot : installer.layout.adminUserRoot = K.adminRoot)
    (hw : Represents installer.layout σ w) {saved : Saved} (hne : saved.uid ≠ uid)
    (hcan : K.CanPrepare t installer.layout uid w.toSystem)
    (hvalid : validateQuadletFileName saved.fileName = .ok ()) :
    Delivers K.machine t Faultless
      (installer.restoreForUser uid (saved.snapshot installer.layout)).run
      (fun r w' => r = .error (makeError .filesystem
          "Quadlet snapshot path does not match installer layout") ∧
        Represents installer.layout σ w') w := by
  have hn := quadletName_of_valid hvalid
  have hpath : PosixPath.same (installer.layout.quadletPath uid saved.fileName)
      (installer.layout.quadletPath saved.uid saved.fileName) = false := by
    by_contra hsame
    exact hne (quadletPath_same hn hn (by simpa using hsame)).1.symm
  refine Succeeds.bind (P := fun _ w' => w' = w) (works_done hvalid rfl) fun _ w' hw' => ?_
  subst hw'
  refine Succeeds.bind (works_prepare hroot hw.toOwnedTree hcan
    (clean_nextIno w'.wellFormed)) fun _ w₁ h => ?_
  obtain ⟨hready, -, hentry, hlook⟩ := h
  intro tr w₂ r hexec _
  rcases exec_rejectIf_bind.1 hexec with ⟨-, -, rfl, rfl⟩ | ⟨hnot, -⟩
  · exact ⟨rfl, hw.prepared hready hentry hlook⟩
  · exact absurd hpath hnot

/-- The calls that change no entry. -/
def Sys.looksOnly : Sys → Bool
  | .read _ _ => true
  | o => o.isMinor

theorem System.entry_of_looksOnly {s s' : System} (hs : s.WellFormed) {o : Sys} {c : Choice}
    {r : o.Resp} (ho : o.looksOnly = true) (h : s.step K t o c = some (r, s')) :
    s'.entry = s.entry := by
  by_cases hminor : o.isMinor = true
  · exact (System.step_minor hs hminor h).entry_eq
  cases o with
  | read fd count =>
      rcases System.step_read h with ⟨e, -, rfl⟩ | ⟨_, _, _, n, -, -, -, -, rfl⟩
      · rfl
      · rfl
  | _ => exact absurd ho hminor

theorem looksOnly_readRegularFileNoSymlink (path : PosixPath) (maxSize : ℕ) :
    (readRegularFileNoSymlink path maxSize).run.Calls fun o _ => o.looksOnly = true :=
  calls_readRegularFileNoSymlink (fun _ _ => rfl) (fun _ => rfl) (fun _ _ => rfl) path maxSize

/-- Reading a Quadlet file without a fault. -/
theorem works_read (hroot : installer.layout.adminUserRoot = K.adminRoot)
    (hw : Represents installer.layout σ w) (hvalid : validateQuadletFileName n = .ok ())
    {bytes : Bytes} (hσ : σ (uid, n) = some bytes) :
    Works K t (readRegularFileNoSymlink (installer.layout.quadletPath uid n)
        installer.layout.maxQuadletBytes.toNat)
      (fun out w' => out = bytes ∧ Represents installer.layout σ w') w := by
  have hn := quadletName_of_valid hvalid
  have hlook : ∀ {w : World}, Looks σ w → w.look uid n = some (.regular bytes) := by
    intro w hlooks
    rw [hlooks uid n hvalid, hσ]
    rfl
  have hworks := (works_readRegularFileNoSymlink (t := t) hroot hn (hlook hw.looks)
    (hw.fits hvalid hσ)).owned (fileCalls_readRegularFileNoSymlink _ _) hw.toOwnedTree
  have hmeets : Meets K t Eq mayNothing
      (readRegularFileNoSymlink (installer.layout.quadletPath uid n)
        installer.layout.maxQuadletBytes.toNat).run _ w :=
    meets_readRegularFileNoSymlink othersOnly_eq hroot hn (stable_looks σ) hw.looks
  intro tr w' r hexec hfree
  obtain ⟨out, rfl, howned, -⟩ := hworks tr w' r hexec hfree
  obtain ⟨w₀, hlooks, hout⟩ := hmeets.exec (fun _ => rfl) hexec out rfl
  have hguar := hmeets.exec_guarantee (fun _ => rfl) hexec
  have hentry := exec_invariant (P := fun w' : World => w'.entry = w.entry)
    (fun {w₁ w₂ o c r} ho hstep hw => by
      rw [System.entry_of_looksOnly w₁.wellFormed ho (Kernel.machine_step.1 hstep), hw])
    (looksOnly_readRegularFileNoSymlink _ _) hexec rfl
  refine ⟨out, rfl, ?_, howned, (stable_looks (t := t) σ).quiet hguar.toGuarantee hw.looks,
    hw.noTemporary.of_entry hentry.2, hw.fits⟩
  rw [hlook hlooks] at hout
  exact (Content.regular.inj (Option.some.inj hout)).symm

/-- **`snapshot_for_user`** without a fault. -/
theorem works_snapshotForUser (hroot : installer.layout.adminUserRoot = K.adminRoot)
    (hw : Represents installer.layout σ w)
    (hcan : K.CanPrepare t installer.layout uid w.toSystem)
    (hvalid : validateQuadletFileName n = .ok ()) :
    Works K t (installer.snapshotForUser uid n) (fun snapshot w' =>
      snapshot = Saved.snapshot installer.layout ⟨uid, n, σ (uid, n)⟩ ∧
        Represents installer.layout σ w') w := by
  have hn := quadletName_of_valid hvalid
  refine Succeeds.bind (P := fun _ w' => w' = w) (works_done hvalid rfl) fun _ w' hw' => ?_
  subst hw'
  refine Succeeds.bind (works_prepare hroot hw.toOwnedTree hcan
    (clean_nextIno w'.wellFormed)) fun _ w₁ h => ?_
  obtain ⟨hready, -, hentry, hlook⟩ := h
  have hw₁ := hw.prepared hready hentry hlook
  -- the look finds an entry exactly where the store has a file
  refine Succeeds.bind (P := fun (found : Except Errno Stat) w₂ => w₂ = w₁ ∧
      (found = .error ENOENT ∧ σ (uid, n) = none ∨
        ∃ st bytes, found = .ok st ∧ σ (uid, n) = some bytes))
    (works_call (delivers_sys fun c r w₂ hc hstep => ?_)) fun found w₂ h => ?_
  · have hplace : K.locate (cStr (installer.layout.quadletPath uid n)) =
        .entry (uidString uid) n := locate_quadletPath hroot hn
    obtain ⟨hsame, hfound⟩ := System.step_lstat_faultless (by simp [hplace]) hc hstep
    refine ⟨World.eq_of_toSystem hsame, ?_⟩
    rw [hplace] at hfound
    obtain ⟨e, hfind, rfl⟩ := Option.map_eq_some_iff.1 hfound
    have hlooks := hw₁.looks uid n hvalid
    cases e with
    | error e =>
        obtain ⟨hnone, rfl⟩ := System.findEntry_eq_error w₁.wellFormed hfind
        refine .inl ⟨rfl, ?_⟩
        rw [System.look, System.content, hnone] at hlooks
        exact Option.map_eq_none_iff.1 hlooks.symm
    | ok i =>
        rw [System.look, System.content, System.findEntry_eq_ok hfind] at hlooks
        obtain ⟨bytes, hσ, -⟩ := Option.map_eq_some_iff.1 hlooks.symm
        exact .inr ⟨_, bytes, rfl, hσ⟩
  obtain ⟨rfl, ⟨rfl, hσ⟩ | ⟨st, bytes, rfl, hσ⟩⟩ := h
  · dsimp only
    rw [if_pos rfl, hσ]
    exact succeeds_pure ⟨rfl, hw₁⟩
  · refine Succeeds.bind (works_read hroot hw₁ hvalid hσ) fun contents w₃ h => ?_
    obtain ⟨rfl, hw₃⟩ := h
    rw [hσ]
    exact succeeds_pure ⟨rfl, hw₃⟩

/-! ### Calls and sessions -/

/-- A call that is rejected before it touches anything. -/
theorem delivers_rejected {α β : Type} {check : Result α} {e : Error} {f : α → Action β}
    (hcheck : check = .error e) : Delivers K.machine t Faultless (done check >>= f).run
      (fun r w' => r = .error e ∧ w' = w) w := by
  intro tr w' r hexec _
  rcases exec_exceptT_bind.1 hexec with ⟨e', rfl, h⟩ | ⟨tr₁, w₁, a, tr₂, h, -, -⟩
  · obtain ⟨-, rfl, hr⟩ := exec_done.1 h
    rw [hcheck] at hr
    exact ⟨by rw [Except.error.inj hr], rfl⟩
  · obtain ⟨-, -, hr⟩ := exec_done.1 h
    rw [hcheck] at hr
    cases hr

/-- An operation that fails where the function behind it does. -/
theorem delivers_map_error {α β : Type} {x : Action α} {f : α → β} {e : Error}
    {Q : World → Prop} (h : Delivers K.machine t Faultless x.run
      (fun r w' => r = .error e ∧ Q w') w) :
    Delivers K.machine t Faultless (do let a ← x; return f a : Action β).run
      (fun r w' => r = .error e ∧ Q w') w := by
  intro tr w' r hexec hfree
  rcases exec_exceptT_bind.1 hexec with ⟨e', rfl, hx⟩ | ⟨tr₁, w₁, a, tr₂, hx, -, rfl⟩
  · obtain ⟨he, hQ⟩ := h _ _ _ hx hfree
    exact ⟨by rw [Except.error.inj he], hQ⟩
  · rw [List.forall_mem_append] at hfree
    obtain ⟨he, -⟩ := h _ _ _ hx hfree.1
    cases he

/-- What has to be known of a snapshot that is restored. -/
def Saved.Fits (layout : QuadletInstallLayout) (saved : Saved) : Prop :=
  validateQuadletFileName saved.fileName = .ok () ∧
    ∀ {bytes}, saved.entry = some bytes → bytes.length ≤ layout.maxQuadletBytes.toNat

/-- **One call** does to the tree what it does to the map. -/
theorem delivers_action (hroot : installer.layout.adminUserRoot = K.adminRoot)
    (hw : Represents installer.layout σ w) (c : StoreCall)
    (hcan : c.Prepares installer → K.CanPrepare t installer.layout c.uid w.toSystem)
    (hsaved : ∀ uid saved, c = .restore uid saved → saved.Fits installer.layout) :
    Delivers K.machine t Faultless (c.action installer).run (fun r w' =>
      r = (σ.apply installer c).1 ∧ Represents installer.layout (σ.apply installer c).2 w') w := by
  -- a call that is refused leaves the world and the store as they were
  have hrejected : ∀ {r : Result Outcome} {e : Error} {w' : World}, r = .error e ∧ w' = w →
      r = .error e ∧ Represents installer.layout σ w' := by
    rintro r e w' ⟨rfl, rfl⟩
    exact ⟨rfl, hw⟩
  cases c with
  | install uid quadlet =>
      simp only [Store.apply]
      cases hexpected : installer.expectedInstall uid quadlet with
      | error e =>
          exact (delivers_map_error (delivers_rejected hexpected)).weaken fun _ _ => hrejected
      | ok expected =>
          refine Succeeds.bind (works_installForUser hroot hw (hcan ⟨_, hexpected⟩) hexpected)
            fun a w' h => ?_
          obtain ⟨rfl, hrep⟩ := h
          exact delivers_ret ⟨rfl, hrep⟩
  | remove uid fileName =>
      simp only [Store.apply]
      cases hvalid : validateQuadletFileName fileName with
      | error e =>
          exact (delivers_map_error (delivers_rejected hvalid)).weaken fun _ _ => hrejected
      | ok u =>
          refine Succeeds.bind (works_removeForUser hroot hw (hcan hvalid) hvalid) fun _ w' h => ?_
          exact delivers_ret ⟨rfl, h⟩
  | snapshot uid fileName =>
      simp only [Store.apply]
      cases hvalid : validateQuadletFileName fileName with
      | error e =>
          exact (delivers_map_error (delivers_rejected hvalid)).weaken fun _ _ => hrejected
      | ok u =>
          refine Succeeds.bind (works_snapshotForUser hroot hw (hcan hvalid) hvalid)
            fun a w' h => ?_
          obtain ⟨rfl, hrep⟩ := h
          exact delivers_ret ⟨rfl, hrep⟩
  | restore uid saved =>
      obtain ⟨hvalid, hfits⟩ := hsaved uid saved rfl
      simp only [Store.apply]
      split
      · rename_i huid
        subst huid
        refine Succeeds.bind (works_restoreForUser hroot hw (hcan hvalid) hvalid hfits)
          fun _ w' h => ?_
        exact delivers_ret ⟨rfl, h⟩
      · -- a snapshot of another user is refused
        rename_i hne
        exact delivers_map_error (delivers_restoreForUser_other hroot hw hne (hcan hvalid) hvalid)

/-- What a call returns that takes a snapshot fits. -/
theorem Represents.fits_snapshot (hw : Represents layout σ w) (hlayout : installer.layout = layout)
    {saved : Saved} (h : (σ.apply installer (.snapshot saved.uid saved.fileName)).1 =
      .ok (.taken (saved.snapshot installer.layout))) : saved.Fits layout := by
  subst hlayout
  simp only [Store.apply] at h
  split at h
  · cases h
  · rename_i hvalid
    have hsnapshot := Outcome.taken.inj (Except.ok.inj h)
    have hcontent := congrArg QuadletSnapshot.content hsnapshot
    rw [Saved.content_snapshot, Saved.content_snapshot] at hcontent
    refine ⟨hvalid, fun {bytes} hentry => ?_⟩
    rw [hentry] at hcontent
    obtain ⟨bytes', hσ, hbytes⟩ := Option.map_eq_some_iff.1 hcontent
    obtain rfl := Content.regular.inj hbytes
    exact hw.fits hvalid hσ

/-- What is so after a part of a session. -/
structure Reached (K : Kernel) (installer : QuadletInstaller) (w₀ : World) (h : List Returned)
    (w : World) : Prop where
  results : (w₀.store.run installer (h.map (·.call))).1 = h.map (·.result)
  represents : Represents installer.layout (w₀.store.run installer (h.map (·.call))).2 w
  taken : ∀ d ∈ h, ∀ saved : Saved, d.call = .snapshot saved.uid saved.fileName →
    d.result = .ok (.taken (saved.snapshot installer.layout)) → saved.Fits installer.layout

/-- **One call of a session.** -/
theorem Reached.call (hroot : installer.layout.adminUserRoot = K.adminRoot) {w₀ : World}
    {h : List Returned} (hw : Reached K installer w₀ h w) {c : StoreCall}
    (htaken : ∀ uid saved, c = .restore uid saved → ∃ d ∈ h,
      d.call = .snapshot saved.uid saved.fileName ∧
      d.result = .ok (.taken (saved.snapshot installer.layout)))
    (hcan : c.Prepares installer → K.CanPrepare t installer.layout c.uid w.toSystem)
    {tr : Trace Sys.Resp World Choice} {r : Result Outcome}
    (hexec : Exec K.machine t w (c.action installer).run tr w' r)
    (hfree : ∀ e ∈ tr, Faultless e) : Reached K installer w₀ (h ++ [⟨t, c, r, w⟩]) w' := by
  have hsaved : ∀ uid saved, c = .restore uid saved → saved.Fits installer.layout := by
    intro uid saved hc
    obtain ⟨d, hd, hcall, hresult⟩ := htaken uid saved hc
    exact hw.taken d hd saved hcall hresult
  obtain ⟨hr, hrep⟩ := delivers_action hroot hw.represents c hcan hsaved tr w' r hexec hfree
  have hcalls : (h ++ [Returned.mk t c r w]).map (·.call) = h.map (·.call) ++ [c] := by simp
  refine ⟨?_, ?_, fun d hd saved hcall hresult => ?_⟩
  · rw [hcalls, Store.run_append, hw.results, ← hr, List.map_append]
    rfl
  · rw [hcalls, Store.run_append]
    exact hrep
  · rcases List.mem_append.1 hd with hd | hd
    · exact hw.taken d hd saved hcall hresult
    · obtain rfl := List.mem_singleton.1 hd
      obtain rfl : c = _ := hcall
      exact hw.represents.fits_snapshot rfl (hr.symm.trans hresult)

end

/-! ### Two sessions -/

end PodInstaller
