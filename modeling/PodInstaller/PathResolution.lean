/-
**How the kernel resolves a path.**

The kernel takes a path apart at its slashes and looks the names up one after the other, each in the
directory that it has come to.  A symbolic link is replaced by its text where it is met, before what
stands behind it is looked at, so that `..` behind a link is the parent of the directory that the
link leads to.  Only `.`, slashes that repeat, and `..` in the root directory change nothing.

Main definitions:

* `PodInstaller.FileSystem` — a file system with symbolic links that does not change;
* `PodInstaller.FileSystem.walk`, `PodInstaller.FileSystem.resolve`, `PodInstaller.FileSystem.lstat`
  — the kernel's walk;
* `PodInstaller.EndsInName`, `PodInstaller.route` — what is left of a path when the parts that
  change nothing are left out.

Main results:

* `PodInstaller.FileSystem.resolve_eq_walk_route` — **the walk depends on the route only**;
* `PodInstaller.FileSystem.resolve_directory` — a path that does not end in a name leads to a
  directory;
* `PodInstaller.FileSystem.resolve_of_nofollow` — what is reached without following a last link is
  reached in any case, if it is no link.
-/

import PodInstaller.Syscalls

set_option relaxedAutoImplicit false
set_option autoImplicit false

namespace PodInstaller

open Bytes PosixPath

/-! ### File systems -/

/-- A file system.  Directories have entries and a parent, which is the only directory that has an
entry for them; symbolic links have a text. -/
structure FileSystem (ι : Type) where
  stat : ι → Stat
  entry : ι → Bytes → Option ι
  link : ι → Bytes
  parent : ι → ι
  root : ι
  cwd : ι
  /-- The number of links that are followed while a path is resolved. -/
  maxLinks : ℕ
  entry_name : ∀ d name i, entry d name = some i → IsEntryName name
  root_directory : (stat root).kind = .directory
  cwd_directory : (stat cwd).kind = .directory
  parent_directory : ∀ d, (stat d).kind = .directory → (stat (parent d)).kind = .directory
  parent_root : parent root = root
  parent_entry : ∀ d name i, entry d name = some i → (stat i).kind = .directory → parent i = d

/-- What is looked up for a path: its names, and the directory itself if it ends with a slash. -/
def lookups (path : PosixPath) : List Bytes :=
  names path ++ if hasTrailingSlash path then [ofString "."] else []

namespace FileSystem

variable {ι : Type} (fs : FileSystem ι) (nofollow : Bool)

/-- Looking up names, one after the other.  What is done about a link is given; if `nofollow` is
set, a last one is not followed. -/
def advance (follow : ι → Bytes → List Bytes → Except Errno ι) : ι → List Bytes → Except Errno ι
  | d, [] => .ok d
  | d, c :: rest =>
    if (fs.stat d).kind ≠ .directory then .error ENOTDIR
    else if c = "." then advance follow d rest
    else if c = ".." then advance follow (fs.parent d) rest
    else
      match fs.entry d c with
      | none => .error ENOENT
      | some i =>
        if (fs.stat i).kind = .symlink ∧ ¬ (rest = [] ∧ nofollow = true) then
          follow d (fs.link i) rest
        else advance follow i rest

/-- Where a path starts. -/
def start (d : ι) (path : PosixPath) : ι := if isAbsolute path then fs.root else d

/-- The walk, with the number of links that may still be followed. -/
def walk : ℕ → ι → List Bytes → Except Errno ι
  | 0 => fs.advance nofollow fun _ _ _ => .error ELOOP
  | n + 1 => fs.advance nofollow fun d text rest =>
      if text = [] then .error ENOENT else walk n (fs.start d text) (lookups text ++ rest)

/-- What a path leads to. -/
def resolve (path : PosixPath) : Except Errno ι :=
  if path = [] then .error ENOENT
  else fs.walk nofollow fs.maxLinks (fs.start fs.cwd path) (lookups path)

/-- `lstat`. -/
def lstat (path : PosixPath) : Except Errno Stat := (fs.resolve true path).map fs.stat

/-- What the walk does about a link. -/
def follow : ℕ → ι → Bytes → List Bytes → Except Errno ι
  | 0, _, _, _ => .error ELOOP
  | n + 1, d, text, rest =>
    if text = [] then .error ENOENT
    else fs.walk nofollow n (fs.start d text) (lookups text ++ rest)

variable {fs nofollow} {n : ℕ} {d i : ι} {c : Bytes} {l l' rest : List Bytes}

theorem walk_eq_advance (n : ℕ) : fs.walk nofollow n =
    fs.advance nofollow (fs.follow nofollow n) := by
  cases n <;> rfl

@[simp] theorem walk_nil : fs.walk nofollow n d [] = .ok d := by
  rw [walk_eq_advance]
  rfl

/-! ### One name -/

theorem walk_notDirectory (hd : (fs.stat d).kind ≠ .directory) (hl : l ≠ []) :
    fs.walk nofollow n d l = .error ENOTDIR := by
  obtain ⟨c, rest, rfl⟩ := List.exists_cons_of_ne_nil hl
  rw [walk_eq_advance, advance, if_pos hd]

theorem walk_dot (hd : (fs.stat d).kind = .directory) :
    fs.walk nofollow n d (ofString "." :: rest) = fs.walk nofollow n d rest := by
  rw [walk_eq_advance, advance, if_neg (not_not.2 hd), if_pos rfl]

theorem walk_up (hd : (fs.stat d).kind = .directory) :
    fs.walk nofollow n d (ofString ".." :: rest) = fs.walk nofollow n (fs.parent d) rest := by
  have hne : ofString ".." ≠ "." := by decide
  rw [walk_eq_advance, advance, if_neg (not_not.2 hd), if_neg hne, if_pos rfl]

/-- A name, which is neither `.` nor `..`. -/
theorem walk_name (hd : (fs.stat d).kind = .directory) (hc : c ≠ "." ∧ c ≠ "..") :
    fs.walk nofollow n d (c :: rest) =
      match fs.entry d c with
      | none => .error ENOENT
      | some i =>
        if (fs.stat i).kind = .symlink ∧ ¬ (rest = [] ∧ nofollow = true) then
          fs.follow nofollow n d (fs.link i) rest
        else fs.walk nofollow n i rest := by
  rw [walk_eq_advance, advance, if_neg (not_not.2 hd), if_neg hc.1, if_neg hc.2]

/-- **Induction along the walk.** -/
theorem walk_induction {P : ℕ → ι → List Bytes → Except Errno ι → Prop}
    (nil : ∀ n d, P n d [] (.ok d))
    (notDirectory : ∀ n d c rest, (fs.stat d).kind ≠ .directory →
      P n d (c :: rest) (.error ENOTDIR))
    (dot : ∀ n d rest, (fs.stat d).kind = .directory → P n d rest (fs.walk nofollow n d rest) →
      P n d (ofString "." :: rest) (fs.walk nofollow n d rest))
    (up : ∀ n d rest, (fs.stat d).kind = .directory →
      P n (fs.parent d) rest (fs.walk nofollow n (fs.parent d) rest) →
      P n d (ofString ".." :: rest) (fs.walk nofollow n (fs.parent d) rest))
    (absent : ∀ n d (c : Bytes) rest, (c ≠ "." ∧ c ≠ "..") → fs.entry d c = none →
      P n d (c :: rest) (.error ENOENT))
    (refused : ∀ n d (c : Bytes) i rest e, (c ≠ "." ∧ c ≠ "..") → fs.entry d c = some i →
      P n d (c :: rest) (.error e))
    (link : ∀ n d (c : Bytes) i rest, (fs.stat d).kind = .directory → (c ≠ "." ∧ c ≠ "..") →
      fs.entry d c = some i → (fs.stat i).kind = .symlink → fs.link i ≠ [] →
      ¬ (rest = [] ∧ nofollow = true) →
      P n (fs.start d (fs.link i)) (lookups (fs.link i) ++ rest)
        (fs.walk nofollow n (fs.start d (fs.link i)) (lookups (fs.link i) ++ rest)) →
      P (n + 1) d (c :: rest)
        (fs.walk nofollow n (fs.start d (fs.link i)) (lookups (fs.link i) ++ rest)))
    (entry : ∀ n d (c : Bytes) i rest, (fs.stat d).kind = .directory → (c ≠ "." ∧ c ≠ "..") →
      fs.entry d c = some i →
      ¬ ((fs.stat i).kind = .symlink ∧ ¬ (rest = [] ∧ nofollow = true)) →
      P n i rest (fs.walk nofollow n i rest) → P n d (c :: rest) (fs.walk nofollow n i rest))
    (n : ℕ) (d : ι) (l : List Bytes) : P n d l (fs.walk nofollow n d l) := by
  -- a link that is followed takes one of the links left, anything else a lookup off the path
  induction n using Nat.strong_induction_on generalizing d l with
  | _ n ihn =>
    induction l generalizing d with
    | nil =>
        rw [walk_nil]
        exact nil n d
    | cons c rest ih =>
        by_cases hd : (fs.stat d).kind = .directory
        · by_cases hdot : c = "."
          · rw [hdot, walk_dot hd]
            exact dot n d rest hd (ih d)
          · by_cases hup : c = ".."
            · rw [hup, walk_up hd]
              exact up n d rest hd (ih _)
            · rw [walk_name hd ⟨hdot, hup⟩]
              cases hentry : fs.entry d c with
              | none => exact absent n d c rest ⟨hdot, hup⟩ hentry
              | some i =>
                  dsimp only
                  split
                  · rename_i hlink
                    cases n with
                    | zero => exact refused 0 d c i rest _ ⟨hdot, hup⟩ hentry
                    | succ n =>
                        rw [follow]
                        split
                        · exact refused _ d c i rest _ ⟨hdot, hup⟩ hentry
                        · rename_i htext
                          exact link n d c i rest hd ⟨hdot, hup⟩ hentry hlink.1 htext hlink.2
                            (ihn n (Nat.lt_succ_self n) _ _)
                  · rename_i hother
                    exact entry n d c i rest hd ⟨hdot, hup⟩ hentry hother (ih i)
        · rw [walk_notDirectory hd (List.cons_ne_nil c rest)]
          exact notDirectory n d c rest hd

/-! ### Parts that change nothing -/

/-- Lookups that differ by `.` only, where something is looked up behind it. -/
inductive Dotted : List Bytes → List Bytes → Prop
  | nil : Dotted [] []
  | cons (c : Bytes) {l l' : List Bytes} (h : Dotted l l') : Dotted (c :: l) (c :: l')
  | dot {l l' : List Bytes} (hne : l ≠ []) (h : Dotted l l') : Dotted (ofString "." :: l) l'

theorem Dotted.append (h : Dotted l l') (front : List Bytes) :
    Dotted (front ++ l) (front ++ l') := by
  induction front with
  | nil => exact h
  | cons c front ih => exact .cons c ih

theorem Dotted.nil_iff (h : Dotted l l') : l = [] ↔ l' = [] := by
  induction h with
  | nil => simp
  | cons c h ih => simp
  | dot hne h ih => simpa [hne] using ih

theorem dotted_filter (h : l.getLast? ≠ some (ofString ".")) :
    Dotted l (l.filter (· ≠ ofString ".")) := by
  induction l with
  | nil => exact .nil
  | cons c l ih =>
      by_cases hl : l = []
      · subst hl
        have hc : c ≠ ofString "." := fun hc => h (by rw [hc]; rfl)
        rw [List.filter_cons_of_pos (by simpa using hc)]
        exact .cons c .nil
      · have hlast : l.getLast? ≠ some (ofString ".") := by
          rw [List.getLast?_cons_of_ne_nil hl] at h
          exact h
        by_cases hc : c = ofString "."
        · rw [List.filter_cons_of_neg (by simpa using hc), hc]
          exact .dot hl (ih hlast)
        · rw [List.filter_cons_of_pos (by simpa using hc)]
          exact .cons c (ih hlast)

/-- What the walk does about links does not depend on such a `.`; then the walk does not either. -/
theorem walk_dotted_of_follow
    (hfollow : ∀ d text l l', Dotted l l' →
      fs.follow nofollow n d text l = fs.follow nofollow n d text l')
    (h : Dotted l l') : fs.walk nofollow n d l = fs.walk nofollow n d l' := by
  induction h generalizing d with
  | nil => rfl
  | @cons c l l' h ih =>
      by_cases hd : (fs.stat d).kind = .directory
      · by_cases hdot : c = ofString "."
        · rw [hdot, walk_dot hd, walk_dot hd, ih]
        · by_cases hup : c = ofString ".."
          · rw [hup, walk_up hd, walk_up hd, ih]
          · rw [walk_name hd ⟨hdot, hup⟩, walk_name hd ⟨hdot, hup⟩]
            cases fs.entry d c with
            | none => rfl
            | some i =>
                have hnil := h.nil_iff
                simp only [ih, hfollow d (fs.link i) l l' h, hnil]
      · rw [walk_notDirectory hd (by simp), walk_notDirectory hd (by simp)]
  | @dot l l' hne h ih =>
      by_cases hd : (fs.stat d).kind = .directory
      · rw [walk_dot hd, ih]
      · -- the next lookup finds out as well
        have hne' : l' ≠ [] := fun hnil => hne (h.nil_iff.2 hnil)
        rw [walk_notDirectory hd (by simp), walk_notDirectory hd hne']

theorem follow_dotted (d : ι) (text : Bytes) (l l' : List Bytes) (h : Dotted l l') :
    fs.follow nofollow n d text l = fs.follow nofollow n d text l' := by
  induction n generalizing d text l l' with
  | zero => rfl
  | succ n ih =>
      rw [follow, follow, walk_dotted_of_follow ih (h.append (lookups text))]

/-- **A `.` changes nothing** if something is looked up behind it: that looks at the directory
again. -/
theorem walk_dotted (h : Dotted l l') : fs.walk nofollow n d l = fs.walk nofollow n d l' :=
  walk_dotted_of_follow follow_dotted h

/-- The root directory is its own parent. -/
theorem walk_root (l : List Bytes) :
    fs.walk nofollow n fs.root l =
      fs.walk nofollow n fs.root (l.dropWhile (· = ofString "..")) := by
  induction l with
  | nil => rfl
  | cons c l ih =>
      by_cases hc : c = ofString ".."
      · rw [List.dropWhile_cons_of_pos (by simpa using hc), hc, walk_up fs.root_directory,
          fs.parent_root, ih]
      · rw [List.dropWhile_cons_of_neg (by simpa using hc)]

end FileSystem

/-! ### Routes -/

/-- A path that ends in a name other than `.` and `..`. -/
def EndsInName (path : PosixPath) : Prop :=
  ∃ c ∈ (lookups path).getLast?, c ≠ ofString "." ∧ c ≠ ofString ".."

/-- The names and the `..` of a path, without those `..` that stay in the root directory. -/
def route (path : PosixPath) : List Bytes :=
  if isAbsolute path then
    ((lookups path).filter (· ≠ ofString ".")).dropWhile (· = ofString "..")
  else (lookups path).filter (· ≠ ofString ".")

namespace FileSystem

variable {ι : Type} {fs : FileSystem ι} {nofollow : Bool} {n : ℕ} {d i : ι} {l : List Bytes}
variable {path : PosixPath}

/-- **The walk depends on the route only.** -/
theorem resolve_eq_walk_route (h : EndsInName path) :
    fs.resolve nofollow path =
      fs.walk nofollow fs.maxLinks (fs.start fs.cwd path) (route path) := by
  obtain ⟨c, hlast, hdot, -⟩ := h
  have hne : path ≠ [] := by
    rintro rfl
    cases hlast
  have hfilter : Dotted (lookups path) ((lookups path).filter (· ≠ ofString ".")) := by
    refine dotted_filter fun heq => hdot ?_
    rw [Option.mem_def, heq] at hlast
    exact (Option.some.inj hlast).symm
  rw [resolve, if_neg hne, walk_dotted hfilter, route, start]
  split
  · exact walk_root _
  · rfl

end FileSystem

/-- Lookups that do not end with a name. -/
def LeadsBack (l : List Bytes) : Prop := ∀ c ∈ l.getLast?, c = ofString "." ∨ c = ofString ".."

theorem leadsBack_lookups {path : PosixPath} : LeadsBack (lookups path) ↔ ¬ EndsInName path := by
  simp only [LeadsBack, EndsInName, not_exists, not_and_or, not_not, imp_iff_not_or]

theorem LeadsBack.tail {c : Bytes} {l : List Bytes} (h : LeadsBack (c :: l)) : LeadsBack l := by
  intro c' hc'
  refine h c' ?_
  rw [List.getLast?_cons_of_ne_nil (by rintro rfl; cases hc')]
  exact hc'

theorem LeadsBack.ne_nil {c : Bytes} {l : List Bytes} (h : LeadsBack (c :: l))
    (hc : c ≠ "." ∧ c ≠ "..") : l ≠ [] := by
  rintro rfl
  exact (h c rfl).elim hc.1 hc.2

theorem LeadsBack.append {l : List Bytes} (h : LeadsBack l) (hne : l ≠ []) (front : List Bytes) :
    LeadsBack (front ++ l) := by
  intro c hc
  refine h c ?_
  rwa [List.getLast?_append_of_ne_nil front hne] at hc

namespace FileSystem

variable {ι : Type} {fs : FileSystem ι} {nofollow : Bool} {i : ι} {path : PosixPath}

/-- Lookups that do not end with a name lead to a directory. -/
theorem walk_directory (n : ℕ) (d : ι) (l : List Bytes)
    (hd : l = [] → (fs.stat d).kind = .directory)
    (hl : LeadsBack l) (h : fs.walk nofollow n d l = .ok i) : (fs.stat i).kind = .directory := by
  revert i
  refine walk_induction (P := fun n d l r => (l = [] → (fs.stat d).kind = .directory) →
    LeadsBack l → ∀ {i}, r = .ok i → (fs.stat i).kind = .directory) ?_ ?_ ?_ ?_ ?_ ?_ ?_ ?_ n d l
    hd hl
  · intro n d hd _ i h
    cases h
    exact hd rfl
  · intro n d c rest _ _ _ i h
    cases h
  · intro n d rest hd ih _ hl
    exact ih (fun _ => hd) hl.tail
  · intro n d rest hd ih _ hl
    exact ih (fun _ => fs.parent_directory d hd) hl.tail
  · intro n d c rest _ _ _ _ i h
    cases h
  · intro n d c i rest e _ _ _ _ i h
    cases h
  · intro n d c i rest _ hc _ _ _ _ ih _ hl i' h
    have hrest := hl.ne_nil hc
    exact ih (fun hnil => absurd (List.append_eq_nil_iff.1 hnil).2 hrest) (hl.tail.append hrest _) h
  · intro n d c i rest _ hc _ _ ih _ hl
    exact ih (fun hnil => absurd hnil (hl.ne_nil hc)) hl.tail

/-- **A path that does not end in a name** leads to a directory. -/
theorem resolve_directory (hpath : ¬ EndsInName path) (h : fs.resolve nofollow path = .ok i) :
    (fs.stat i).kind = .directory := by
  rw [resolve] at h
  split at h
  · cases h
  · refine walk_directory _ _ _ (fun _ => ?_) (leadsBack_lookups.2 hpath) h
    unfold start
    split
    · exact fs.root_directory
    · exact fs.cwd_directory

theorem walk_of_nofollow (n : ℕ) (d : ι) (l : List Bytes) (h : fs.walk true n d l = .ok i)
    (hi : (fs.stat i).kind ≠ .symlink) : fs.walk false n d l = .ok i := by
  revert i
  refine walk_induction (P := fun n d l r => ∀ {i}, r = .ok i → (fs.stat i).kind ≠ .symlink →
    fs.walk false n d l = .ok i) ?_ ?_ ?_ ?_ ?_ ?_ ?_ ?_ n d l
  · intro n d i h _
    rw [walk_nil]
    exact h
  · intro n d c rest _ i h
    cases h
  · intro n d rest hd ih i h hi
    rw [walk_dot hd]
    exact ih h hi
  · intro n d rest hd ih i h hi
    rw [walk_up hd]
    exact ih h hi
  · intro n d c rest _ _ i h
    cases h
  · intro n d c i rest e _ _ i h
    cases h
  · intro n d c i rest hd hc hentry hlink htext _ ih i' h hi
    have hfollowed : (fs.stat i).kind = .symlink ∧ ¬ (rest = [] ∧ false = true) :=
      ⟨hlink, fun h => Bool.false_ne_true h.2⟩
    rw [walk_name hd hc, hentry]
    dsimp only
    rw [if_pos hfollowed, follow, if_neg htext]
    exact ih h hi
  · intro n d c i rest hd hc hentry hother ih i' h hi
    have hnot : (fs.stat i).kind ≠ .symlink := by
      -- a link that is not followed is the last name
      intro hlink
      have hrest : rest = [] := by
        by_contra hrest
        exact hother ⟨hlink, fun h => hrest h.1⟩
      rw [hrest, walk_nil] at h
      cases h
      exact hi hlink
    rw [walk_name hd hc, hentry]
    dsimp only
    rw [if_neg fun h => hnot h.1]
    exact ih h hi

/-- **What is reached without following a last link** is reached in any case, if it is no link. -/
theorem resolve_of_nofollow (h : fs.resolve true path = .ok i)
    (hi : (fs.stat i).kind ≠ .symlink) : fs.resolve false path = .ok i := by
  rw [resolve] at h ⊢
  split at h
  · cases h
  · rename_i hne
    rw [if_neg hne]
    exact walk_of_nofollow _ _ _ h hi

end FileSystem

end PodInstaller
