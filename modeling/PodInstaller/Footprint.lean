/-
**What a caller leaves alone.**

Several callers may work in the tree at the same time.  What keeps them out of each other's way is
that each changes little: besides Quadlet files, a caller changes the temporary files it has created
itself and is still writing, and descriptors and locks of its own.  `PodInstaller.Framed` says this
of one step, `PodInstaller.Change` adds what the step may do to the Quadlet files,
`PodInstaller.Guarantee` that it gives up no lock, and `PodInstaller.FileGuarantee` that the
managers are left alone too.

A temporary file has a hidden name, a Quadlet file has none.  A caller recognises its own temporary
files by their creator, which it never asks for: it is the one that created them.

Main definitions:

* `PodInstaller.Hidden`, `PodInstaller.System.Holds` — hidden names, and locks that are held;
* `PodInstaller.Framed`, `PodInstaller.Change`, `PodInstaller.Guarantee`,
  `PodInstaller.FileGuarantee` — what a step leaves alone;
* `PodInstaller.Temporary` — a temporary file that its creator is still writing;
* `PodInstaller.System.Clean` — no such file is left over.

Main results:

* `PodInstaller.FileGuarantee.trans` — the guarantees compose;
* `PodInstaller.System.Minor.fileGuarantee`, `PodInstaller.fileGuarantee_create`,
  `PodInstaller.fileGuarantee_setBytes`, … — what the single changes leave alone;
* `PodInstaller.Framed.temporary`, `PodInstaller.Framed.holds` — what others cannot touch;
* `PodInstaller.Framed.settled` — what nobody can touch.
-/

import PodInstaller.KernelLaws

set_option relaxedAutoImplicit false
set_option autoImplicit false

namespace PodInstaller

open Bytes

/-! ### What a step leaves alone -/

/-- A name that starts with a dot. -/
def Hidden (n : Bytes) : Prop := n.head? = some (ch '.')

/-- A caller holds a lock on the file of an entry, with a descriptor. -/
def System.Holds (s : System) (t : ℕ) (dir name : Bytes) (fd : Fd) : Prop :=
  ∃ i o, s.entry dir name = some i ∧ s.lock i = some fd ∧ s.ofd fd = some o ∧ o.owner = t

/-- Only one caller can hold a lock. -/
theorem System.Holds.unique {s : System} {t u : ℕ} {dir name : Bytes} {fd fd' : Fd}
    (h : s.Holds t dir name fd) (h' : s.Holds u dir name fd') : t = u := by
  obtain ⟨i, o, hi, hlock, ho, rfl⟩ := h
  obtain ⟨j, o', hj, hlock', ho', rfl⟩ := h'
  obtain rfl : i = j := Option.some.inj (hi.symm.trans hj)
  obtain rfl : fd = fd' := Option.some.inj (hlock.symm.trans hlock')
  rw [Option.some.inj (ho.symm.trans ho')]

/-- What a step of the caller `t` leaves alone: descriptors and locks of others, hidden entries and
inodes that are not temporary files of its own, and everything outside the user directories.  What
is new was made by `t`. -/
structure Framed (t : ℕ) (s s' : System) : Prop where
  ofd : ∀ {fd o}, s.ofd fd = some o → o.owner ≠ t → s'.ofd fd = some o
  lock : ∀ {i fd o}, s.lock i = some fd → s.ofd fd = some o → o.owner ≠ t → s'.lock i = some fd
  hidden : ∀ {dir n i}, s.entry dir n = some i → Hidden n → (s.inode i).creator ≠ some t →
    s'.entry dir n = some i
  other : ∀ {dir n i}, s.entry dir n = some i → (∀ uid, dir ≠ uidString uid) →
    s'.entry dir n = some i
  appears : ∀ {dir n i}, s'.entry dir n = some i → Hidden n →
    s.entry dir n = some i ∨ s.nextIno ≤ i
  nextIno : s.nextIno ≤ s'.nextIno
  inode : ∀ {i}, i < s.nextIno → s'.inode i = s.inode i ∨
    (s.inode i).creator = some t ∧ (s'.inode i).creator = some t ∧
      ∃ dir n, Hidden n ∧ s.entry dir n = some i
  made : ∀ {i}, s.nextIno ≤ i → i < s'.nextIno → (s'.inode i).creator = some t

/-- What a step does to the Quadlet files: one stays as it is or changes to something allowed. -/
structure Change (t : ℕ) (may : UInt32 → Bytes → Option Content → Prop) (s s' : System) : Prop
    extends Framed t s s' where
  look : ∀ {uid n}, ¬ Hidden n → s'.look uid n = s.look uid n ∨ may uid n (s'.look uid n)

/-- The same for a step that leaves the locks where they are. -/
structure Guarantee (t : ℕ) (may : UInt32 → Bytes → Option Content → Prop) (s s' : System) : Prop
    extends Change t may s s' where
  holds : ∀ {u dir n fd}, (∀ uid, dir ≠ uidString uid) → s.Holds u dir n fd → s'.Holds u dir n fd

/-- The same for a step that also leaves the managers alone. -/
structure FileGuarantee (t : ℕ) (may : UInt32 → Bytes → Option Content → Prop) (s s' : System) :
    Prop extends Guarantee t may s s' where
  loaded : s'.loaded = s.loaded
  running : s'.running = s.running

/-- No change of a Quadlet file is allowed. -/
abbrev nothing : UInt32 → Bytes → Option Content → Prop := fun _ _ _ => False

section

variable {t : ℕ} {may may' : UInt32 → Bytes → Option Content → Prop} {s s' s'' : System}

theorem Framed.refl (t : ℕ) (s : System) : Framed t s s where
  ofd h _ := h
  lock h _ _ := h
  hidden h _ _ := h
  other h _ := h
  appears h _ := .inl h
  nextIno := le_refl _
  inode _ := .inl rfl
  made h h' := absurd h (not_le.2 h')

theorem Guarantee.refl (t : ℕ) (may : UInt32 → Bytes → Option Content → Prop) (s : System) :
    Guarantee t may s s :=
  { Framed.refl t s with look := fun _ => .inl rfl, holds := fun _ h => h }

theorem FileGuarantee.refl (t : ℕ) (may : UInt32 → Bytes → Option Content → Prop) (s : System) :
    FileGuarantee t may s s :=
  { Guarantee.refl t may s with loaded := rfl, running := rfl }

theorem Framed.trans (hs : s.WellFormed) (h : Framed t s s') (h' : Framed t s' s'') :
    Framed t s s'' where
  ofd hfd ho := h'.ofd (h.ofd hfd ho) ho
  lock hlock hfd ho := h'.lock (h.lock hlock hfd ho) (h.ofd hfd ho) ho
  hidden hentry hn hcreator := by
    refine h'.hidden (h.hidden hentry hn hcreator) hn ?_
    rcases h.inode (hs.entry_lt hentry) with hsame | ⟨ht, -⟩
    · rwa [hsame]
    · exact absurd ht hcreator
  other hentry hdir := h'.other (h.other hentry hdir) hdir
  appears hentry hn := by
    -- the name was there before the second change, or its file is new
    rcases h'.appears hentry hn with hmid | hlt
    · exact h.appears hmid hn
    · exact .inr (h.nextIno.trans hlt)
  nextIno := h.nextIno.trans h'.nextIno
  inode {i} hi := by
    have hi' : i < s'.nextIno := lt_of_lt_of_le hi h.nextIno
    rcases h.inode hi with hsame | ⟨ht, ht', hlink⟩
    · rcases h'.inode hi' with hsame' | ⟨ht, ht', dir, n, hn, hentry⟩
      · exact .inl (hsame'.trans hsame)
      · rcases h.appears hentry hn with hentry' | hlt
        · exact .inr ⟨hsame ▸ ht, ht', dir, n, hn, hentry'⟩
        · omega
    · refine .inr ⟨ht, ?_, hlink⟩
      rcases h'.inode hi' with hsame' | ⟨-, ht'', -⟩
      · rw [hsame', ht']
      · exact ht''
  made {i} hi hi' := by
    by_cases hmid : i < s'.nextIno
    · rcases h'.inode hmid with hsame | ⟨-, ht, -⟩
      · rw [hsame, h.made hi hmid]
      · exact ht
    · exact h'.made (not_lt.1 hmid) hi'

theorem Guarantee.trans (hs : s.WellFormed) (h : Guarantee t may s s')
    (h' : Guarantee t may s' s'') : Guarantee t may s s'' :=
  { Framed.trans hs h.toFramed h'.toFramed with
    look := fun {uid n} hn => by
      have hlook : s''.look uid n = s'.look uid n ∨ may uid n (s''.look uid n) := h'.look hn
      rcases hlook with hsame | hmay
      · rw [hsame]
        exact h.look hn
      · exact .inr hmay
    holds := fun hdir hheld => h'.holds hdir (h.holds hdir hheld) }

/-- **The guarantees compose.** -/
theorem FileGuarantee.trans (hs : s.WellFormed) (h : FileGuarantee t may s s')
    (h' : FileGuarantee t may s' s'') : FileGuarantee t may s s'' :=
  { Guarantee.trans hs h.toGuarantee h'.toGuarantee with
    loaded := h'.loaded.trans h.loaded
    running := h'.running.trans h.running }

theorem Guarantee.mono (h : Guarantee t may s s')
    (hmay : ∀ uid n c, ¬ Hidden n → may uid n c → may' uid n c) : Guarantee t may' s s' :=
  { h.toFramed with
    look := fun hn => (h.look hn).imp_right (hmay _ _ _ hn)
    holds := h.holds }

theorem FileGuarantee.mono (h : FileGuarantee t may s s')
    (hmay : ∀ uid n c, ¬ Hidden n → may uid n c → may' uid n c) : FileGuarantee t may' s s' :=
  { h.toGuarantee.mono hmay with loaded := h.loaded, running := h.running }

/-- A step that allows itself no change of a Quadlet file makes none. -/
theorem Guarantee.look_eq (h : Guarantee t nothing s s') {uid : UInt32} {n : Bytes}
    (hn : ¬ Hidden n) : s'.look uid n = s.look uid n := by
  rcases h.look hn with hsame | hmay
  · exact hsame
  · exact hmay.elim

end

/-! ### What the single changes leave alone -/

section

variable {t : ℕ} {may : UInt32 → Bytes → Option Content → Prop} {s s' : System}

/-- A Quadlet file whose entry and inode stay the same. -/
theorem look_of_eq {uid : UInt32} {n : Bytes}
    (hentry : s'.entry (uidString uid) n = s.entry (uidString uid) n)
    (hinode : ∀ i, s.entry (uidString uid) n = some i → s'.inode i = s.inode i) :
    s'.look uid n = s.look uid n := by
  rw [System.look, System.look, System.content, System.content, hentry]
  cases hi : s.entry (uidString uid) n with
  | none => rfl
  | some i => simp only [Option.map_some, hinode i hi]

/-- A change of descriptors and directories only. -/
theorem fileGuarantee_of_ofd (hentry : s'.entry = s.entry) (hinode : s'.inode = s.inode)
    (hnext : s'.nextIno = s.nextIno) (hlock : s'.lock = s.lock) (hloaded : s'.loaded = s.loaded)
    (hrunning : s'.running = s.running)
    (hofd : ∀ {fd o}, s.ofd fd = some o → o.owner ≠ t → s'.ofd fd = some o)
    (howner : ∀ {fd o}, s.ofd fd = some o → ∃ o', s'.ofd fd = some o' ∧ o'.owner = o.owner) :
    FileGuarantee t may s s' where
  ofd := hofd
  lock h _ _ := by rwa [hlock]
  hidden h _ _ := by rwa [hentry]
  other h _ := by rwa [hentry]
  appears h _ := .inl (by rwa [hentry] at h)
  nextIno := hnext.ge
  inode _ := .inl (by rw [hinode])
  made h h' := absurd h (by omega)
  look _ := .inl (look_of_eq (by rw [hentry]) fun _ _ => by rw [hinode])
  holds _ := by
    rintro ⟨i, o, hi, hfd, ho, howns⟩
    obtain ⟨o', ho', heq⟩ := howner ho
    exact ⟨i, o', by rwa [hentry], by rwa [hlock], ho', by rw [heq, howns]⟩
  loaded := hloaded
  running := hrunning

theorem fileGuarantee_openFd (hs : s.WellFormed) {target : OfdTarget} :
    FileGuarantee t may s (s.openFd target t) := by
  have hofd : ∀ {fd o}, s.ofd fd = some o → (s.openFd target t).ofd fd = some o := by
    intro fd o h
    have hlt : fd < s.nextFd := hs.ofd_lt (show s.ofd fd ≠ none by simp [h])
    simpa [System.openFd, Function.update_apply, hlt.ne] using h
  exact fileGuarantee_of_ofd rfl rfl rfl rfl rfl rfl (fun h _ => hofd h)
    fun h => ⟨_, hofd h, rfl⟩

theorem fileGuarantee_seek {fd : Fd} {offset : ℕ} (howner : ∀ o ∈ s.ofd fd, o.owner = t) :
    FileGuarantee t may s (s.seek fd offset) := by
  refine fileGuarantee_of_ofd rfl rfl rfl rfl rfl rfl (fun {fd' o} h ho => ?_)
    fun {fd' o} h => ?_
  · by_cases hfd : fd' = fd
    · exact absurd (howner o (hfd ▸ h)) ho
    · simpa [System.seek, hfd] using h
  · by_cases hfd : fd' = fd
    · exact ⟨{ o with offset := offset }, by simp [System.seek, ← hfd, h], rfl⟩
    · exact ⟨o, by simpa [System.seek, hfd] using h, rfl⟩

/-- **Small changes** leave everything else alone. -/
theorem System.Minor.fileGuarantee (hs : s.WellFormed) (h : System.Minor t s s') :
    FileGuarantee t may s s' := by
  cases h with
  | same => exact .refl _ _ _
  | opens target _ => exact fileGuarantee_openFd hs
  | dirs root sub _ _ =>
      exact fileGuarantee_of_ofd rfl rfl rfl rfl rfl rfl (fun h _ => h) fun h => ⟨_, h, rfl⟩

/-- **A new file**, hidden or outside the user directories. -/
theorem fileGuarantee_create (hs : s.WellFormed) {dir name : Bytes} {node : Inode}
    (hnone : s.entry dir name = none) (hplace : Hidden name ∨ ∀ uid, dir ≠ uidString uid)
    (hcreator : node.creator = some t) : FileGuarantee t may s (s.create dir name node) := by
  have hentry : ∀ {d n i}, s.entry d n = some i → (s.create dir name node).entry d n = some i := by
    intro d n i h
    have hne : ¬ (d = dir ∧ n = name) := by
      rintro ⟨rfl, rfl⟩
      simp [hnone] at h
    simpa [System.create, hne] using h
  have hinode : ∀ {i}, i < s.nextIno → (s.create dir name node).inode i = s.inode i := by
    intro i hi
    simp [System.create, hi.ne]
  exact {
    ofd := fun h _ => h
    lock := fun h _ _ => h
    hidden := fun h _ _ => hentry h
    other := fun h _ => hentry h
    appears := fun {d n i} h _ => by
      by_cases heq : d = dir ∧ n = name
      · have hi : s.nextIno = i := by simpa [System.create, heq] using h
        exact .inr hi.le
      · exact .inl (by simpa [System.create, heq] using h)
    nextIno := Nat.le_succ _
    inode := fun hi => .inl (hinode hi)
    made := fun {i} h h' => by
      have hi : i = s.nextIno := by
        change i < s.nextIno + 1 at h'
        omega
      simpa [System.create, hi] using hcreator
    look := fun {uid n} hn => .inl (by
      have hne : ¬ (uidString uid = dir ∧ n = name) := by
        rintro ⟨hdir, rfl⟩
        exact hplace.elim hn fun h => h uid hdir.symm
      exact look_of_eq (by simp [System.create, hne]) fun i hi => hinode (hs.entry_lt hi))
    holds := fun _ h => by
      obtain ⟨i, o, hi, hrest⟩ := h
      exact ⟨i, o, hentry hi, hrest⟩
    loaded := rfl
    running := rfl }

/-- **Managers** that do something leave the files alone. -/
theorem guarantee_setManagers {loaded running : UInt32 → Bytes → Option Bytes} :
    Guarantee t may s { s with loaded := loaded, running := running } :=
  { Framed.refl t s with look := fun _ => .inl rfl, holds := fun _ h => h }

end

/-! ### Temporary files -/

/-- A temporary file in the directory of a user, while its creator is writing it. -/
structure Temporary (s : System) (t : ℕ) (uid : UInt32) (name : Bytes) (i : ℕ) (bytes : Bytes) :
    Prop where
  hidden : Hidden name
  entry : s.entry (uidString uid) name = some i
  kind : (s.inode i).kind = .regular
  creator : (s.inode i).creator = some t
  bytes : (s.inode i).bytes = bytes

section

variable {t : ℕ} {may : UInt32 → Bytes → Option Content → Prop} {s s' : System}
variable {uid : UInt32} {name : Bytes} {i : ℕ} {bytes : Bytes}

/-- No Quadlet file is the temporary file. -/
theorem Temporary.ne_of_entry (h : Temporary s t uid name i bytes) (hs : s.WellFormed)
    {dir n : Bytes} {j : ℕ} (hentry : s.entry dir n = some j)
    (hne : ¬ (dir = uidString uid ∧ n = name)) : j ≠ i := by
  rintro rfl
  exact hne (hs.linked_once h.entry hentry (by simp [h.creator]))

/-- **Writing** to a temporary file of one's own. -/
theorem fileGuarantee_setBytes (hs : s.WellFormed) (h : Temporary s t uid name i bytes)
    {bytes' : Bytes} : FileGuarantee t may s (s.setBytes i bytes') where
  ofd h _ := h
  lock h _ _ := h
  hidden h _ _ := h
  other h _ := h
  appears h _ := .inl h
  nextIno := le_refl _
  inode {j} _ := by
    by_cases hji : j = i
    · subst hji
      refine .inr ⟨h.creator, ?_, _, _, h.hidden, h.entry⟩
      simpa [System.setBytes] using h.creator
    · exact .inl (by simp [System.setBytes, hji])
  made h h' := absurd h (not_le.2 h')
  look {uid' n} hn := by
    refine .inl (look_of_eq rfl fun j hj => ?_)
    have hji : j ≠ i := h.ne_of_entry hs hj fun heq => hn (heq.2 ▸ h.hidden)
    simp [System.setBytes, hji]
  holds _ h := h
  loaded := rfl
  running := rfl

/-- **Closing** a descriptor of one's own. -/
theorem change_closeFd {fd : Fd} (howner : ∀ o ∈ s.ofd fd, o.owner = t) :
    Change t may s (s.closeFd fd) := by
  have hne : ∀ {fd' o}, s.ofd fd' = some o → o.owner ≠ t → fd' ≠ fd := by
    rintro fd' o ho hown rfl
    exact hown (howner o ho)
  exact { Framed.refl t s with
    ofd := fun ho hown => by simpa [System.closeFd, hne ho hown] using ho
    lock := fun hlock ho hown => by simp [System.closeFd, hlock, hne ho hown]
    look := fun _ => .inl rfl }

/-- **Closing** the descriptor of a temporary file releases no lock outside the user directories. -/
theorem fileGuarantee_closeFd (hs : s.WellFormed) (h : Temporary s t uid name i bytes) {fd : Fd}
    {offset : ℕ} (hfd : s.ofd fd = some ⟨.ino i, offset, t⟩) :
    FileGuarantee t may s (s.closeFd fd) :=
  { (change_closeFd (by simp [hfd]) : Change t may s (s.closeFd fd)) with
    holds := fun {u dir n fd'} hdir => by
      rintro ⟨j, o, hj, hlock, ho, howner⟩
      have hne : fd' ≠ fd := by
        rintro rfl
        obtain ⟨o', ho', htarget⟩ := hs.lock_ofd hlock
        rw [hfd, Option.some.injEq] at ho'
        obtain rfl : i = j := by simpa [← ho'] using htarget
        exact h.ne_of_entry hs hj (fun heq => hdir uid heq.1) rfl
      exact ⟨j, o, hj, by simp [System.closeFd, hlock, hne],
        by simpa [System.closeFd, hne] using ho, howner⟩
    loaded := rfl
    running := rfl }

/-- **Removing** an entry, if a hidden name belongs to a file of one's own and another one may be
removed. -/
theorem fileGuarantee_removeEntry
    (hown : ∀ {i}, Hidden name → s.entry (uidString uid) name = some i →
      (s.inode i).creator = some t)
    (hmay : ¬ Hidden name → may uid name none) :
    FileGuarantee t may s (s.removeEntry (uidString uid) name) where
  ofd h _ := h
  lock h _ _ := h
  hidden {d n j} hentry hn hcreator := by
    have hne : ¬ (d = uidString uid ∧ n = name) := by
      rintro ⟨rfl, rfl⟩
      exact hcreator (hown hn hentry)
    simpa [System.removeEntry, hne] using hentry
  other {d n j} hentry hdir := by
    have hne : ¬ (d = uidString uid ∧ n = name) := fun heq => hdir uid heq.1
    simpa [System.removeEntry, hne] using hentry
  appears {d n j} hentry _ := by
    simp only [System.removeEntry] at hentry
    split at hentry
    · simp at hentry
    · exact .inl hentry
  nextIno := le_refl _
  inode _ := .inl rfl
  made h h' := absurd h (not_le.2 h')
  look {uid' n} hn := by
    by_cases heq : uidString uid' = uidString uid ∧ n = name
    · obtain rfl := uidString_injective heq.1
      obtain rfl := heq.2
      refine .inr ?_
      rw [show (s.removeEntry (uidString uid') n).look uid' n = none by
        simp [System.look, System.content, System.removeEntry]]
      exact hmay hn
    · exact .inl (look_of_eq (by simp [System.removeEntry, heq]) fun _ _ => rfl)
  holds {u dir n fd} hdir := by
    rintro ⟨j, o, hj, hrest⟩
    have hne : ¬ (dir = uidString uid ∧ n = name) := fun heq => hdir uid heq.1
    exact ⟨j, o, by simpa [System.removeEntry, hne] using hj, hrest⟩
  loaded := rfl
  running := rfl

/-- **Removing** a temporary file of one's own. -/
theorem fileGuarantee_removeTemporary (h : Temporary s t uid name i bytes) :
    FileGuarantee t may s (s.removeEntry (uidString uid) name) := by
  refine fileGuarantee_removeEntry (fun _ hentry => ?_) fun hn => absurd h.hidden hn
  rw [h.entry, Option.some.injEq] at hentry
  exact hentry ▸ h.creator

/-- **Removing** a Quadlet file. -/
theorem fileGuarantee_removeFile {n : Bytes} (hn : ¬ Hidden n) (hmay : may uid n none) :
    FileGuarantee t may s (s.removeEntry (uidString uid) n) :=
  fileGuarantee_removeEntry (fun hidden => absurd hidden hn) fun _ => hmay

/-- What a Quadlet file holds once a temporary file has taken its place. -/
theorem look_renameEntry (h : Temporary s t uid name i bytes) (n : Bytes) :
    (s.renameEntry (uidString uid) name n i).look uid n = some (.regular bytes) := by
  simp [System.look, System.content, System.renameEntry, h.kind, h.bytes]

/-- **Renaming** a temporary file of one's own to a Quadlet file. -/
theorem fileGuarantee_renameEntry (h : Temporary s t uid name i bytes)
    {n : Bytes} (hn : ¬ Hidden n) (hmay : may uid n (some (.regular bytes))) :
    FileGuarantee t may s (s.renameEntry (uidString uid) name n i) where
  ofd h _ := h
  lock h _ _ := h
  hidden {d m j} hentry hm hcreator := by
    have hnew : ¬ (d = uidString uid ∧ m = n) := fun heq => hn (heq.2 ▸ hm)
    have hold : ¬ (d = uidString uid ∧ m = name) := by
      rintro ⟨rfl, rfl⟩
      rw [h.entry, Option.some.injEq] at hentry
      exact hcreator (hentry ▸ h.creator)
    simpa [System.renameEntry, hnew, hold] using hentry
  other {d m j} hentry hdir := by
    have hne : d ≠ uidString uid := hdir uid
    simpa [System.renameEntry, hne] using hentry
  appears {d m j} hentry hm := by
    have hnew : ¬ (d = uidString uid ∧ m = n) := fun heq => hn (heq.2 ▸ hm)
    simp only [System.renameEntry, hnew, if_false] at hentry
    split at hentry
    · simp at hentry
    · exact .inl hentry
  nextIno := le_refl _
  inode _ := .inl rfl
  made h h' := absurd h (not_le.2 h')
  look {uid' m} hm := by
    by_cases heq : uidString uid' = uidString uid ∧ m = n
    · obtain rfl := uidString_injective heq.1
      obtain rfl := heq.2
      exact .inr (by rwa [look_renameEntry h])
    · have hold : ¬ (uidString uid' = uidString uid ∧ m = name) := fun h' => hm (h'.2 ▸ h.hidden)
      exact .inl (look_of_eq (by simp [System.renameEntry, heq, hold]) fun _ _ => rfl)
  holds {u dir m fd} hdir := by
    rintro ⟨j, o, hj, hrest⟩
    have hne : dir ≠ uidString uid := hdir uid
    exact ⟨j, o, by simpa [System.renameEntry, hne] using hj, hrest⟩
  loaded := rfl
  running := rfl

/-- **Taking a lock** that nobody has. -/
theorem fileGuarantee_setLock {fd : Fd} (hlock : s.lock i = none) :
    FileGuarantee t may s (s.setLock i fd) where
  ofd h _ := h
  lock {j fd' o} h _ _ := by
    have hne : j ≠ i := by
      rintro rfl
      simp [hlock] at h
    simpa [System.setLock, hne] using h
  hidden h _ _ := h
  other h _ := h
  appears h _ := .inl h
  nextIno := le_refl _
  inode _ := .inl rfl
  made h h' := absurd h (not_le.2 h')
  look _ := .inl rfl
  holds {u dir n fd'} _ := by
    rintro ⟨j, o, hj, h, hrest⟩
    have hne : j ≠ i := by
      rintro rfl
      simp [hlock] at h
    exact ⟨j, o, hj, by simpa [System.setLock, hne] using h, hrest⟩
  loaded := rfl
  running := rfl

/-- A temporary file that a caller has created since there were `N` inodes. -/
def System.Leftover (s : System) (t N : ℕ) (dir n : Bytes) : Prop :=
  Hidden n ∧ ∃ i, s.entry dir n = some i ∧ (s.inode i).creator = some t ∧ N ≤ i

/-- A state without temporary files that a caller has created since there were `N` inodes. -/
def System.Clean (s : System) (t N : ℕ) : Prop := ∀ dir n, ¬ s.Leftover t N dir n

/-- So far nothing was created. -/
theorem clean_nextIno (hs : s.WellFormed) : s.Clean t s.nextIno := by
  rintro dir n ⟨-, i, hi, -, hle⟩
  exact absurd (hs.entry_lt hi) (not_lt.2 hle)

/-- Small changes create no file. -/
theorem System.Minor.leftover (h : System.Minor t s s') {N : ℕ} {dir n : Bytes} :
    s'.Leftover t N dir n ↔ s.Leftover t N dir n := by
  cases h <;> exact Iff.rfl

/-- Small changes close no descriptor. -/
theorem System.Minor.ofd (hs : s.WellFormed) (h : System.Minor t s s') {fd : Fd} {o : Ofd}
    (hfd : s.ofd fd = some o) : s'.ofd fd = some o := by
  cases h with
  | same => exact hfd
  | opens target _ =>
      have hlt : fd < s.nextFd := hs.ofd_lt (show s.ofd fd ≠ none by simp [hfd])
      simpa [System.openFd, Function.update_apply, hlt.ne] using hfd
  | dirs root sub _ _ => exact hfd

/-! ### What others cannot touch -/

variable {u : ℕ}

/-- Others create no temporary files of one's own. -/
theorem Framed.leftover (h : Framed u s s') (hs : s.WellFormed) (hs' : s'.WellFormed) (hne : u ≠ t)
    {N : ℕ} {dir n : Bytes} (hleft : s'.Leftover t N dir n) : s.Leftover t N dir n := by
  obtain ⟨hn, j, hj, hcreator, hle⟩ := hleft
  have hnot : (s'.inode j).creator ≠ some u := by
    rw [hcreator]
    simpa using Ne.symm hne
  rcases h.appears hj hn with hold | hnew
  · rcases h.inode (hs.entry_lt hold) with hsame | ⟨-, hu, -⟩
    · exact ⟨hn, j, hold, hsame ▸ hcreator, hle⟩
    · exact absurd hu hnot
  · exact absurd (h.made hnew (hs'.entry_lt hj)) hnot

/-- A descriptor of one's own stays as it is. -/
theorem Framed.own_ofd (h : Framed u s s') (hne : u ≠ t) {fd : Fd} {target : OfdTarget}
    {offset : ℕ} (hfd : s.ofd fd = some ⟨target, offset, t⟩) :
    s'.ofd fd = some ⟨target, offset, t⟩ :=
  h.ofd hfd (Ne.symm hne)

/-- **A temporary file** of one's own stays as it is. -/
theorem Framed.temporary (h : Framed u s s') (hs : s.WellFormed) (hne : u ≠ t)
    (htmp : Temporary s t uid name i bytes) : Temporary s' t uid name i bytes := by
  have hcreator : (s.inode i).creator ≠ some u := by
    rw [htmp.creator]
    simpa using Ne.symm hne
  have hinode : s'.inode i = s.inode i := by
    rcases h.inode (hs.entry_lt htmp.entry) with hsame | ⟨hu, -⟩
    · exact hsame
    · exact absurd hu hcreator
  exact ⟨htmp.hidden, h.hidden htmp.entry htmp.hidden hcreator, by rw [hinode, htmp.kind],
    by rw [hinode, htmp.creator], by rw [hinode, htmp.bytes]⟩

/-- **A lock** that one holds stays where it is. -/
theorem Framed.holds (h : Framed u s s') (hne : u ≠ t) {dir n : Bytes}
    (hdir : ∀ uid, dir ≠ uidString uid) {fd : Fd} (hheld : s.Holds t dir n fd) :
    s'.Holds t dir n fd := by
  obtain ⟨j, o, hj, hlock, ho, rfl⟩ := hheld
  exact ⟨j, o, h.other hj hdir, h.lock hlock ho (Ne.symm hne), h.ofd ho (Ne.symm hne), rfl⟩

/-! ### What nobody can touch -/

/-- An inode that is no temporary file of anybody, and will not become one. -/
structure Settled (s : System) (i : ℕ) (node : Inode) : Prop where
  lt : i < s.nextIno
  inode : s.inode i = node
  visible : node.creator = none ∨ ∀ dir n, Hidden n → s.entry dir n ≠ some i

/-- The inode of a Quadlet file is settled. -/
theorem settled_of_entry (hs : s.WellFormed) {dir n : Bytes} (hn : ¬ Hidden n)
    (hentry : s.entry dir n = some i) : Settled s i (s.inode i) := by
  refine ⟨hs.entry_lt hentry, rfl, or_iff_not_imp_left.2 fun hcreator d m hm hentry' => ?_⟩
  exact hn ((hs.linked_once hentry hentry' hcreator).2 ▸ hm)

/-- **A settled inode** stays as it is, whoever takes a step. -/
theorem Framed.settled (h : Framed u s s') {node : Inode} (hi : Settled s i node) :
    Settled s' i node := by
  refine ⟨lt_of_lt_of_le hi.lt h.nextIno, ?_, ?_⟩
  · rcases h.inode hi.lt with hsame | ⟨hcreator, -, d, m, hm, hentry⟩
    · rw [hsame, hi.inode]
    · rw [hi.inode] at hcreator
      rcases hi.visible with hnone | hvisible
      · simp [hnone] at hcreator
      · exact absurd hentry (hvisible d m hm)
  · refine hi.visible.imp_right fun hvisible d m hm hentry => ?_
    rcases h.appears hentry hm with hold | hnew
    · exact hvisible d m hm hold
    · exact absurd hi.lt (not_lt.2 hnew)

end

end PodInstaller
