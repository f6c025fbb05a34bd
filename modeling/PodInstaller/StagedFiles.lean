/-
**The staged files that the service reads.**

A request names files below a staging root.  The service takes the path apart, refuses components
that are empty, `.` or `..`, and goes down from the root one `openat` at a time, without following
links.  What it reads is bounded, and is read in pieces, while others may write to the file.

The components are checked as they are, and looked up as C strings.  A component is cut at its first
NUL byte on the way, and one that is cut to `..` leads up: then what is read need not be below the
root.

Main definitions:

* `PodInstaller.Service.stagedRelativePath`, `PodInstaller.Service.openStagedRegularFile`,
  `PodInstaller.Service.readStagedRegularFile` — the code;
* `PodInstaller.HostCall`, `PodInstaller.Site`, `PodInstaller.hostMachine` — the host of the
  service, with its directory tree and its users;
* `PodInstaller.Site.Staged` — the file that a path leads to;
* `PodInstaller.FileSystem.Inside` — the files below a directory.

Main results:

* `PodInstaller.relativeStagedPath_of_staged` — a path that the service lets through is let through
  by the library, and is not changed any more;
* `PodInstaller.Site.Staged.inside` — **a staged file is below the root** if no component is cut to
  `..`;
* `PodInstaller.readStaged_exact` — **what is read**.
-/

import PodInstaller.StagedPath
import PodInstaller.PathResolution
import PodInstaller.FallibleCalls

set_option relaxedAutoImplicit false
set_option autoImplicit false

namespace PodInstaller

open Bytes PosixPath

/-! ### The host -/

/-- The calls that the service makes itself.  A directory is opened with
`O_RDONLY | O_DIRECTORY | O_CLOEXEC | O_NOFOLLOW`, a file without `O_DIRECTORY`. -/
inductive HostCall
  | getpwnam (name : Bytes)
  | openRoot (path : PosixPath)
  | openat (dir : Fd) (name : Bytes) (directory : Bool)
  | fstat (fd : Fd)
  | read (fd : Fd) (count : ℕ)

/-- What a call delivers if it succeeds. -/
abbrev HostCall.Value : HostCall → Type
  | .getpwnam _ => Option Passwd
  | .openRoot _ => Fd
  | .openat _ _ _ => Fd
  | .fstat _ => Stat
  | .read _ _ => Bytes

abbrev HostCall.Resp (o : HostCall) : Type := Except Errno o.Value

/-- A program that makes such calls and returns a `Result`. -/
abbrev HostAction (α : Type) := ExceptT Error (Prog HostCall.Resp) α

/-- A single call. -/
def host (o : HostCall) : Prog HostCall.Resp o.Resp := Prog.perform o

/-- A single call, made again as long as it is interrupted. -/
def hostUntil (o : HostCall) : Prog HostCall.Resp o.Resp := Prog.performUntil o interrupted

/-- What does not change on the host: its directories and its users. -/
structure Site (ι : Type) where
  fs : FileSystem ι
  users : Bytes → Option Passwd

/-- What changes: the contents of the files, and what the service has open. -/
structure Host (ι : Type) where
  contents : ι → Bytes
  opened : Fd → Option (ι × ℕ)
  nextFd : Fd

/-- How a call goes: all the way, with so many bytes, or not at all. -/
inductive HostAnswer
  | go
  | moved (n : ℕ)
  | fault (e : Errno)

/-- The choices for a call: what others have written since the last one, whether somebody has the
other end of a FIFO open that is opened, and how the call goes. -/
structure HostChoice (ι : Type) where
  written : Option (ι → Bytes) := none
  writer : Bool := false
  answer : HostAnswer := .go

/-- What a name leads to from a directory; a last link is not followed. -/
def FileSystem.openat {ι : Type} (fs : FileSystem ι) (d : ι) (path : PosixPath) : Except Errno ι :=
  if path = [] then .error ENOENT
  else fs.walk true fs.maxLinks (fs.start d path) (lookups path)

/-- A descriptor for a file, at a position in it. -/
def Host.seek {ι : Type} (h : Host ι) (fd : Fd) (i : ι) (offset : ℕ) : Host ι :=
  { h with opened := fun fd' => if fd' = fd then some (i, offset) else h.opened fd' }

namespace Site

variable {ι : Type} (site : Site ι)

/-- What can be opened: anything but links and sockets, or only directories. -/
def canOpen (i : ι) (directory : Bool) : Bool :=
  (site.fs.stat i).kind != .symlink && (site.fs.stat i).kind != .socket &&
    (!directory || (site.fs.stat i).kind == .directory)

/-- `struct stat` of a file; the size of a regular one is that of its contents. -/
def statOf (h : Host ι) (i : ι) : Stat :=
  { site.fs.stat i with
    size := if (site.fs.stat i).kind = .regular then (h.contents i).length
      else (site.fs.stat i).size }

/-- Opening what was found.  There is no `O_NONBLOCK`, so that `open` of a FIFO waits until somebody
has it open for writing. -/
def openFound (h : Host ι) (directory writer : Bool) :
    Except Errno ι → Option (Except Errno Fd × Host ι)
  | .error _ => none
  | .ok i =>
    if site.canOpen i directory && ((site.fs.stat i).kind != .fifo || writer) then
      some (.ok h.nextFd, { h.seek h.nextFd i 0 with nextFd := h.nextFd + 1 })
    else none

/-- Reading at most `n` bytes. -/
def readPiece (h : Host ι) (fd : Fd) (n : ℕ) : Option (Except Errno Bytes × Host ι) :=
  (h.opened fd).map fun place =>
    let piece := ((h.contents place.1).drop place.2).take n
    (.ok piece, h.seek fd place.1 (place.2 + piece.length))

/-- What a call does that goes all the way. -/
def go (h : Host ι) (writer : Bool) : (o : HostCall) → Option (o.Resp × Host ι)
  | .getpwnam name => some (.ok (site.users name), h)
  | .openRoot path => site.openFound h true writer (site.fs.resolve true path)
  | .openat dir name directory =>
    (h.opened dir).bind fun d => site.openFound h directory writer (site.fs.openat d.1 name)
  | .fstat fd => (h.opened fd).map fun d => (.ok (site.statOf h d.1), h)
  | .read fd count => readPiece h fd count

/-- What a call does: what others have written is there when it is answered.  A call that fails
changes nothing. -/
def step (h : Host ι) (o : HostCall) (c : HostChoice ι) : Option (o.Resp × Host ι) :=
  let written := { h with contents := c.written.getD h.contents }
  match c.answer with
  | .fault e => some (.error e, h)
  | .go => site.go written c.writer o
  | .moved n =>
    match o with
    | .read fd count => if 0 < n then readPiece written fd (min n count) else none
    | _ => none

end Site

/-- The host of the service.  Everything about files may fail at any time, and a read may deliver
less than it is asked for. -/
def hostMachine {ι : Type} (site : Site ι) : Machine HostCall.Resp (Host ι) (HostChoice ι) where
  step _ := site.step

/-! ### The service -/

namespace Service

/-- `staged_relative_path`.  The loops are those of `relative_staged_path`; the errors have texts of
their own. -/
def stagedRelativePath (stagingRoot requested : PosixPath) : Result PosixPath := do
  let normalized := lexicallyNormal requested
  let normalized ←
    (if isAbsolute normalized then
      (stripRoot normalized (components (lexicallyNormal stagingRoot))
        (components normalized)).mapError fun _ =>
          makeError .policy (ofString "staged file is outside staging root: " ++ normalized)
    else .ok normalized)
  reject (normalized = [] ∨ same normalized "." = true)
    (makeError .policy "staged file path is empty")
  reject ((components normalized).all pathComponentIsSafe = false)
    (makeError .policy
      (ofString "staged file path must not contain '.' or '..': " ++ normalized))
  return normalized

/-- `OpenStagedFile`. -/
structure OpenStagedFile where
  fd : Fd
  size : ℕ
  relativePath : PosixPath

/-- The loop of `open_staged_regular_file` over the components of the path. -/
def openStagedComponents (current : Fd) : List Bytes → HostAction Fd
  | [] => return current
  | name :: rest => do
    let next ← orFail (host (.openat current (cStr name) (decide (rest ≠ []))))
      (sysError (ofString "failed to open staged file component '" ++ name ++ ofString "'"))
    openStagedComponents next rest

/-- `open_staged_regular_file`. -/
def openStagedRegularFile (stagingRoot requested : PosixPath) (maxSize : ℕ) :
    HostAction OpenStagedFile := do
  let relative ← ExceptT.mk (pure (stagedRelativePath stagingRoot requested))
  let root ← orFail (host (.openRoot (cStr stagingRoot))) (sysError "failed to open staging root")
  let current ← openStagedComponents root (components relative)
  let st ← orFail (host (.fstat current)) (sysError "failed to stat staged file")
  ExceptT.mk (pure (reject (st.kind ≠ .regular)
    (makeError .policy "staged file must be a regular file")))
  ExceptT.mk (pure (reject (st.size < 0 ∨ (maxSize : ℤ) < st.size)
    (makeError .policy "staged file is too large")))
  return ⟨current, st.size.toNat, relative⟩

/-- The loop of `read_staged_regular_file`: of the bytes that are left, the first `skip` are read
already. -/
def readStagedBytes (fd : Fd) : (left skip : ℕ) → HostAction Bytes
  | 0, _ => return []
  | left + 1, skip + 1 => readStagedBytes fd left skip
  | left + 1, 0 => do
    let bytes ← orFail (hostUntil (.read fd (left + 1))) (sysError "failed to read staged file")
    -- the file has become shorter since `fstat`
    ExceptT.mk (pure (reject (bytes = [])
      (makeError .filesystem "staged file changed while reading")))
    let rest ← readStagedBytes fd left (bytes.length - 1)
    return bytes ++ rest

/-- `read_staged_regular_file`. -/
def readStagedRegularFile (stagingRoot path : PosixPath) (maxSize : ℕ) : HostAction Bytes := do
  let file ← openStagedRegularFile stagingRoot path maxSize
  readStagedBytes file.fd file.size 0

end Service

/-! ### The path below the root -/

/-- A slash behind joined names makes an empty component. -/
theorem nil_mem_components_slash {ns : List Bytes} (hne : ns ≠ []) (h : ∀ n ∈ ns, IsName n) :
    [] ∈ components (join ns ++ [ch '/']) := by
  have hnames : names (join ns ++ [ch '/']) = ns := by
    rw [names_append_slash, names_join h, names_nil, List.append_nil]
  have htrail : hasTrailingSlash (join ns ++ [ch '/']) = true := by
    rw [hasTrailingSlash, hnames, List.getLast?_concat]
    simp [hne]
  rw [components, htrail]
  simp

theorem closingSlash_cases (parts stack : List Bytes) :
    closingSlash parts stack = [ch '/'] ∨ closingSlash parts stack = [] := by
  unfold closingSlash
  split
  · exact .inl rfl
  · exact .inr rfl

/-- The names on the stack of a normalisation. -/
theorem isName_of_mem_stack {p : PosixPath} : ∀ c ∈ (names p ++ if hasTrailingSlash p then [[]]
    else []).foldl (normalStep (isAbsolute p)) [], IsName c := by
  refine forall_mem_foldl_normalStep (fun c hc hne => ?_) (by simp)
  rcases List.mem_append.1 hc with hc | hc
  · exact isName_of_mem_names hc
  · split at hc
    · exact absurd (List.mem_singleton.1 hc) hne
    · cases hc

/-- A normal form has the names of its path, or is `.`. -/
theorem mem_names_of_mem_normal {p : PosixPath} {n : Bytes} (h : n ∈ names (lexicallyNormal p)) :
    n ∈ names p ∨ n = "." := by
  by_cases hp : p = []
  · rw [hp] at h
    simp [lexicallyNormal] at h
  have hstack := isName_of_mem_stack (p := p)
  have hmem : ∀ c ∈ (names p ++ if hasTrailingSlash p then [[]] else []).foldl
      (normalStep (isAbsolute p)) [], c ∈ names p := by
    refine forall_mem_foldl_normalStep (fun c hc hne => ?_) (by simp)
    rcases List.mem_append.1 hc with hc | hc
    · exact hc
    · split at hc
      · exact absurd (List.mem_singleton.1 hc) hne
      · cases hc
  have hnormal := lexicallyNormal.eq_1 p
  rw [if_neg hp] at hnormal
  dsimp only at hnormal
  generalize List.foldl _ _ _ = stack at hstack hmem hnormal
  rw [hnormal] at h
  have hreverse : ∀ m ∈ stack.reverse, IsName m := fun m hm => hstack m (List.mem_reverse.1 hm)
  by_cases hnil : stack = []
  · rw [if_pos hnil] at h
    split at h
    · simp [names_slash_cons] at h
    · have hdot : names "." = [ofString "."] := names_of_isName (by decide)
      rw [hdot] at h
      exact .inr (List.mem_singleton.1 h)
  · rw [if_neg hnil] at h
    have hnames : ∀ q : PosixPath, q = [] ∨ q = [ch '/'] →
        names (join stack.reverse ++ q) = stack.reverse := by
      intro q hq
      rcases hq with rfl | rfl
      · rw [List.append_nil, names_join hreverse]
      · rw [names_append_slash, names_nil, List.append_nil, names_join hreverse]
    have hclosing := hnames _ (closingSlash_cases (names p ++
      if hasTrailingSlash p then [[]] else []) stack).symm
    left
    refine hmem n (List.mem_reverse.1 ?_)
    rw [← hclosing]
    split at h
    · rwa [List.append_assoc, List.singleton_append, names_slash_cons] at h
    · rwa [List.nil_append] at h

/-- A relative normal form other than `.` without an empty component is made of joined names. -/
theorem normal_eq_join {p : PosixPath} (hp : p ≠ []) (habs : isAbsolute p = false)
    (hdot : lexicallyNormal p ≠ ".") (hslash : [] ∉ components (lexicallyNormal p)) :
    ∃ ns, lexicallyNormal p = join ns ∧ ∀ n ∈ ns, IsName n := by
  have hstack := isName_of_mem_stack (p := p)
  have hnormal := lexicallyNormal.eq_1 p
  rw [if_neg hp] at hnormal
  dsimp only at hnormal
  generalize List.foldl _ _ _ = stack at hstack hnormal
  rw [habs] at hnormal
  have hreverse : ∀ n ∈ stack.reverse, IsName n := fun n hn => hstack n (List.mem_reverse.1 hn)
  by_cases hnil : stack = []
  · rw [if_pos hnil, if_neg Bool.false_ne_true] at hnormal
    exact absurd hnormal hdot
  · rw [if_neg hnil, if_neg Bool.false_ne_true, List.nil_append] at hnormal
    rcases closingSlash_cases (names p ++ if hasTrailingSlash p then [[]] else []) stack with
      hclosing | hclosing
    · rw [hclosing] at hnormal
      exact absurd (hnormal ▸ nil_mem_components_slash (by simpa using hnil) hreverse) hslash
    · rw [hclosing, List.append_nil] at hnormal
      exact ⟨stack.reverse, hnormal, hreverse⟩

/-- What is left of the components of an absolute path behind those of a root is made of joined
names, if it has no empty component. -/
theorem stripped_eq_join {p : PosixPath} {root rest : List Bytes} (habs : isAbsolute p = true)
    (hroot : root ≠ []) (hparts : components p = root ++ rest)
    (hne : rest.foldl PosixPath.append [] ≠ [])
    (hslash : [] ∉ components (rest.foldl PosixPath.append [])) :
    ∃ ns, rest.foldl PosixPath.append [] = join ns ∧ ∀ n ∈ ns, IsName n ∧ n ∈ names p := by
  -- the root has at least one component, so that the root directory is stripped
  obtain ⟨r, rs, rfl⟩ := List.exists_cons_of_ne_nil hroot
  rw [List.cons_append, components, if_pos habs, List.append_assoc, List.singleton_append,
    List.cons.injEq] at hparts
  rcases List.append_eq_append_iff.1 hparts.2 with ⟨front, -, htail⟩ | ⟨ns, hnames, htail⟩
  · -- nothing but an empty component is left
    refine absurd ?_ hne
    split at htail
    · rcases List.append_eq_singleton_iff.1 htail.symm with ⟨-, rfl⟩ | ⟨-, rfl⟩ <;> rfl
    · rw [(List.append_eq_nil_iff.1 htail.symm).2]
      rfl
  · have hmem : ∀ n ∈ ns, n ∈ names p := fun n hn => hnames ▸ List.mem_append_right rs hn
    have hns : ∀ n ∈ ns, IsName n := fun n hn => isName_of_mem_names (hmem n hn)
    split at htail
    · rw [htail, List.foldl_append, foldl_append_eq_join hns] at hne hslash
      by_cases hnil : ns = []
      · rw [hnil] at hne
        exact absurd rfl hne
      · have hjoin : join ns ≠ [] := by
          intro hjoin
          have := names_join hns
          rw [hjoin, names_nil] at this
          exact hnil this.symm
        refine absurd (nil_mem_components_slash hnil hns) ?_
        rwa [List.foldl_cons, List.foldl_nil, PosixPath.append,
          if_neg (show ¬ isAbsolute [] = true by decide), directory,
          if_neg (not_or.2 ⟨hjoin, getLast?_join hns⟩), List.append_nil] at hslash
    · rw [htail, List.append_nil, foldl_append_eq_join hns]
      exact ⟨ns, rfl, fun n hn => ⟨hns n hn, hmem n hn⟩⟩

namespace Service

/-- **What the service lets through**: names that are neither `.` nor `..`, with a slash in
between. -/
theorem stagedRelativePath_eq_ok {root requested relative : PosixPath} (hroot : root ≠ [])
    (h : stagedRelativePath root requested = .ok relative) :
    ∃ ns, relative = join ns ∧ ns ≠ [] ∧
      ∀ n ∈ ns, IsEntryName n ∧ n ∈ names (lexicallyNormal requested) := by
  simp only [stagedRelativePath, bind_eq_ok, reject_eq_ok, exists_const, all_pathComponentIsSafe,
    not_or] at h
  obtain ⟨normalized, hnormalized, hempty, hsafe, hrel⟩ := h
  obtain rfl : normalized = relative := by simpa [pure, Except.pure] using hrel
  have hslash : [] ∉ components normalized := fun hmem => (hsafe [] hmem).1 rfl
  -- whatever joined names come out, they are those that were checked
  obtain ⟨ns, hjoin, hnames⟩ : ∃ ns, normalized = join ns ∧
      ∀ n ∈ ns, IsName n ∧ n ∈ names (lexicallyNormal requested) := by
    split at hnormalized
    · rename_i habs
      obtain ⟨rest, hparts, hrest⟩ : ∃ rest,
          components (lexicallyNormal requested) = components (lexicallyNormal root) ++ rest ∧
            normalized = rest.foldl PosixPath.append [] := by
        cases hstrip : stripRoot (lexicallyNormal requested) (components (lexicallyNormal root))
            (components (lexicallyNormal requested)) with
        | error e =>
            rw [hstrip] at hnormalized
            cases hnormalized
        | ok stripped =>
            rw [hstrip] at hnormalized
            obtain rfl := Except.ok.inj hnormalized
            exact stripRoot_eq_ok.1 hstrip
      rw [hrest] at hempty hslash ⊢
      exact stripped_eq_join habs (components_ne_nil (lexicallyNormal_ne_nil hroot)) hparts
        hempty.1 hslash
    · rename_i habs
      obtain rfl : lexicallyNormal requested = normalized := by simpa using hnormalized
      have hrequested : requested ≠ [] := by
        rintro rfl
        exact hempty.1 rfl
      rw [isAbsolute_lexicallyNormal, Bool.not_eq_true] at habs
      have hdot : lexicallyNormal requested ≠ "." := by
        intro hdot
        exact hempty.2 (by rw [hdot]; decide)
      obtain ⟨ns, hjoin, hnames⟩ := normal_eq_join hrequested habs hdot hslash
      refine ⟨ns, hjoin, fun n hn => ⟨hnames n hn, ?_⟩⟩
      rwa [hjoin, names_join hnames]
  refine ⟨ns, hjoin, ?_, fun n hn => ⟨⟨(hnames n hn).1, ?_⟩, (hnames n hn).2⟩⟩
  · rintro rfl
    exact hempty.1 hjoin
  · have hmem : n ∈ components normalized := by
      rw [hjoin, components_join fun m hm => (hnames m hm).1]
      exact hn
    exact (hsafe n hmem).2

end Service

/-- **What the service lets through is let through by the library**, and is not changed any more. -/
theorem relativeStagedPath_of_staged {root requested relative : PosixPath} (hroot : root ≠ [])
    (h : Service.stagedRelativePath root requested = .ok relative) :
    relativeStagedPath root relative = .ok relative := by
  obtain ⟨ns, rfl, hne, hall⟩ := Service.stagedRelativePath_eq_ok hroot h
  have hnames : ∀ n ∈ ns, IsName n := fun n hn => (hall n hn).1.1
  have hcomponents := components_join hnames
  have habs : isAbsolute (join ns) = false := by simpa [isAbsolute] using head?_join hnames
  refine (relativeStagedPath_eq_ok hroot).2 ⟨ns, ⟨fun c hc => ?_, hne, ?_⟩, rfl⟩
  · rw [hcomponents] at hc
    exact ⟨(hnames c hc).1, (hall c hc).1.2⟩
  · rw [habs, if_neg Bool.false_ne_true, List.nil_append, hcomponents]

/-! ### Where the path leads -/

namespace FileSystem

variable {ι : Type} (fs : FileSystem ι)

/-- The files that are reached from a directory along its entries. -/
inductive Inside (d : ι) : ι → Prop
  | here : Inside d d
  | entry {i j : ι} {name : Bytes} (dir : Inside d i) (found : fs.entry i name = some j) :
      Inside d j

variable {fs}

/-- Looking up one name leads to the directory itself, to its parent, or to an entry of it. -/
theorem openat_cases {d i : ι} {name : Bytes} (hname : ch '/' ∉ name)
    (h : fs.openat d name = .ok i) : (name = "." ∧ i = d) ∨ (name = ".." ∧ i = fs.parent d) ∨
      fs.entry d name = some i := by
  unfold openat at h
  split at h
  · cases h
  · rename_i hne
    have hisname : IsName name := ⟨hne, hname⟩
    have habs : isAbsolute name = false := by
      have hhead : (join [name]).head? ≠ some (ch '/') := head?_join (by simpa using hisname)
      simpa [isAbsolute, join] using hhead
    have hlookups : lookups name = [name] := by
      have htrail : hasTrailingSlash name = false := by
        have hlast : (join [name]).getLast? ≠ some (ch '/') :=
          getLast?_join (by simpa using hisname)
        exact hasTrailingSlash_of_getLast? (by simpa [join] using hlast)
      rw [lookups, htrail, names_of_isName hisname]
      rfl
    rw [hlookups, start, habs, if_neg Bool.false_ne_true] at h
    by_cases hd : (fs.stat d).kind = .directory
    · by_cases hdot : name = "."
      · rw [hdot, walk_dot hd, walk_nil] at h
        exact .inl ⟨hdot, (Except.ok.inj h).symm⟩
      · by_cases hup : name = ".."
        · rw [hup, walk_up hd, walk_nil] at h
          exact .inr (.inl ⟨hup, (Except.ok.inj h).symm⟩)
        · rw [walk_name hd ⟨hdot, hup⟩] at h
          cases hentry : fs.entry d name with
          | none =>
              rw [hentry] at h
              cases h
          | some j =>
              rw [hentry] at h
              dsimp only at h
              rw [if_neg (by simp), walk_nil] at h
              exact .inr (.inr (congrArg some (Except.ok.inj h)))
    · rw [walk_notDirectory hd (List.cons_ne_nil _ _)] at h
      cases h

end FileSystem

namespace Site

variable {ι : Type} (site : Site ι)

/-- Where components lead that are looked up one after the other. -/
inductive Leads : ι → List Bytes → ι → Prop
  | nil (d : ι) : Leads d [] d
  | cons {d i j : ι} {name : Bytes} {rest : List Bytes}
      (found : site.fs.openat d (cStr name) = .ok i)
      (opens : site.canOpen i (decide (rest ≠ [])) = true) (next : Leads i rest j) :
      Leads d (name :: rest) j

/-- The file that a path leads to from the staging root. -/
def Staged (stagingRoot requested : PosixPath) (i : ι) : Prop :=
  ∃ relative d, Service.stagedRelativePath stagingRoot requested = .ok relative ∧
    site.fs.resolve true (cStr stagingRoot) = .ok d ∧ site.canOpen d true = true ∧
    site.Leads d (components relative) i

/-- No component of a path is cut to `..` on its way to the kernel. -/
def StaysDown (requested : PosixPath) : Prop :=
  ∀ c ∈ names requested, c ≠ ".." → cStr c ≠ ofString ".."

variable {site}

theorem Leads.unique {d i j : ι} {l : List Bytes} (h : site.Leads d l i) (h' : site.Leads d l j) :
    i = j := by
  induction h with
  | nil d =>
      cases h'
      rfl
  | cons found opens next ih =>
      cases h' with
      | cons found' opens' next' =>
          obtain rfl := Except.ok.inj (found.symm.trans found')
          exact ih next'

theorem Staged.unique {stagingRoot requested : PosixPath} {i j : ι}
    (h : site.Staged stagingRoot requested i) (h' : site.Staged stagingRoot requested j) :
    i = j := by
  obtain ⟨relative, d, hrelative, hroot, -, hleads⟩ := h
  obtain ⟨relative', d', hrelative', hroot', -, hleads'⟩ := h'
  obtain rfl := Except.ok.inj (hrelative.symm.trans hrelative')
  obtain rfl := Except.ok.inj (hroot.symm.trans hroot')
  exact hleads.unique hleads'

/-- Components that are not cut to `..` lead down. -/
theorem Leads.inside {d i : ι} {l : List Bytes} (h : site.Leads d l i)
    (hslash : ∀ c ∈ l, ch '/' ∉ c) (hup : ∀ c ∈ l, cStr c ≠ "..") {top : ι}
    (htop : site.fs.Inside top d) : site.fs.Inside top i := by
  induction h with
  | nil d => exact htop
  | @cons d i j name rest found opens next ih =>
      refine ih (fun c hc => hslash c (List.mem_cons_of_mem _ hc))
        (fun c hc => hup c (List.mem_cons_of_mem _ hc)) ?_
      have hname := slash_notMem_cStr (hslash name List.mem_cons_self)
      rcases FileSystem.openat_cases hname found with ⟨-, rfl⟩ | ⟨hdots, -⟩ | hentry
      · exact htop
      · exact absurd hdots (hup name List.mem_cons_self)
      · exact .entry htop hentry

theorem Staged.root_ne_nil {stagingRoot requested : PosixPath} {i : ι}
    (h : site.Staged stagingRoot requested i) : stagingRoot ≠ [] := by
  obtain ⟨relative, d, -, hroot, -⟩ := h
  rintro rfl
  cases hroot

/-- **A staged file is below the root** if no component of its path is cut to `..`. -/
theorem Staged.inside {stagingRoot requested : PosixPath} {i : ι} (hdown : StaysDown requested)
    (h : site.Staged stagingRoot requested i) :
    ∃ top, site.fs.resolve true (cStr stagingRoot) = .ok top ∧ site.fs.Inside top i := by
  have hne := h.root_ne_nil
  obtain ⟨relative, d, hrelative, hroot, -, hleads⟩ := h
  obtain ⟨ns, rfl, -, hall⟩ := Service.stagedRelativePath_eq_ok hne hrelative
  rw [components_join fun n hn => (hall n hn).1.1] at hleads
  refine ⟨d, hroot, hleads.inside (fun c hc => (hall c hc).1.1.2) (fun c hc => ?_) .here⟩
  obtain ⟨hentry, hmem⟩ := hall c hc
  rcases mem_names_of_mem_normal hmem with hnames | hdot
  · exact hdown c hnames hentry.2.2
  · exact absurd hdot hentry.2.1

end Site

/-! ### What is read -/

/-- What is recorded of a call on the host. -/
abbrev HostEvent (ι : Type) := Event HostCall.Resp (Host ι) (HostChoice ι)

section

variable {ι : Type} {site : Site ι} {t : ℕ} {h h' : Host ι} {tr : List (HostEvent ι)}

theorem exec_host {o : HostCall} {r : o.Resp}
    (hrun : Exec (hostMachine site) t h (host o) tr h' r) :
    ∃ c, site.step h o c = some (r, h') ∧ tr = [⟨h, o, c, r, h'⟩] := by
  have honce : Exec (hostMachine site) t h (Prog.performUntil o fun _ => false) tr h' r := hrun
  obtain ⟨c, hstep, -, htr⟩ := exec_performUntil (by simp) honce
  exact ⟨c, hstep, htr⟩

/-- A call that succeeds goes all the way, or a part of it if it reads. -/
theorem Site.step_ok {o : HostCall} {c : HostChoice ι} {v : o.Value}
    (hstep : site.step h o c = some (.ok v, h')) :
    site.go { h with contents := c.written.getD h.contents } c.writer o = some (.ok v, h') ∨
      ∃ fd count n, 0 < n ∧ o = .read fd count := by
  unfold Site.step at hstep
  dsimp only at hstep
  split at hstep
  · cases hstep
  · exact .inl hstep
  · rename_i n hmoved
    split at hstep
    · rename_i fd count
      split at hstep
      · exact .inr ⟨fd, count, n, ‹_›, rfl⟩
      · cases hstep
    · cases hstep

/-- What is opened. -/
theorem Site.openFound_ok {directory writer : Bool} {found : Except Errno ι} {fd : Fd}
    (hopen : site.openFound h directory writer found = some (.ok fd, h')) :
    ∃ i, found = .ok i ∧ site.canOpen i directory = true ∧ h'.opened fd = some (i, 0) := by
  cases found with
  | error e => cases hopen
  | ok i =>
      rw [Site.openFound] at hopen
      split at hopen
      · rename_i hcan
        obtain ⟨hfd, rfl⟩ := Prod.mk.inj (Option.some.inj hopen)
        obtain rfl := Except.ok.inj hfd
        exact ⟨i, rfl, (Bool.and_eq_true_iff.1 hcan).1, if_pos rfl⟩
      · cases hopen

/-- **Going down** along components. -/
theorem exec_openStagedComponents {l : List Bytes} {current fd : Fd} {d : ι}
    (hcurrent : h.opened current = some (d, 0))
    (hexec : Exec (hostMachine site) t h (Service.openStagedComponents current l).run tr h'
      (.ok fd)) : ∃ i, site.Leads d l i ∧ h'.opened fd = some (i, 0) := by
  induction l generalizing h current d tr with
  | nil =>
      obtain ⟨-, rfl, hfd⟩ := exec_ret.1 hexec
      obtain rfl := Except.ok.inj hfd
      exact ⟨d, .nil d, hcurrent⟩
  | cons name rest ih =>
      rw [Service.openStagedComponents] at hexec
      obtain ⟨tr₁, h₁, next, tr₂, hopen, hrest, rfl⟩ := exec_bind_ok.1 hexec
      obtain ⟨c, hstep, -⟩ := exec_host (exec_orFail_ok.1 hopen)
      rcases Site.step_ok hstep with hgo | ⟨_, _, _, _, hread⟩
      · rw [Site.go, hcurrent, Option.bind_some] at hgo
        obtain ⟨i, hfound, hcan, hnext⟩ := Site.openFound_ok hgo
        obtain ⟨j, hleads, hfd⟩ := ih hnext hrest
        exact ⟨j, .cons hfound hcan hleads, hfd⟩
      · cases hread

theorem Site.readPiece_error {fd : Fd} {n : ℕ} {e : Errno} :
    Site.readPiece h fd n ≠ some (.error e, h') := by
  intro hread
  obtain ⟨place, -, heq⟩ := Option.map_eq_some_iff.1 hread
  cases heq

/-- A call that goes all the way does not fail. -/
theorem Site.go_error {o : HostCall} {writer : Bool} {e : Errno} :
    site.go h writer o ≠ some (.error e, h') := by
  have hfound : ∀ directory found,
      site.openFound h directory writer found ≠ some (.error e, h') := by
    intro directory found hopen
    cases found with
    | error e => cases hopen
    | ok i =>
        rw [Site.openFound] at hopen
        split at hopen <;> cases hopen
  intro hgo
  cases o with
  | getpwnam name => cases hgo
  | openRoot path => exact hfound _ _ hgo
  | openat dir name directory =>
      obtain ⟨d, -, hopen⟩ := Option.bind_eq_some_iff.1 hgo
      exact hfound _ _ hopen
  | fstat fd =>
      obtain ⟨place, -, heq⟩ := Option.map_eq_some_iff.1 hgo
      cases heq
  | read fd count => exact Site.readPiece_error hgo

/-- A call that fails has changed nothing. -/
theorem Site.step_error {o : HostCall} {c : HostChoice ι} {e : Errno}
    (hstep : site.step h o c = some (.error e, h')) : h' = h ∧ c.answer = .fault e := by
  unfold Site.step at hstep
  dsimp only at hstep
  split at hstep
  · rename_i e' hfault
    obtain ⟨he, rfl⟩ := Prod.mk.inj (Option.some.inj hstep)
    exact ⟨rfl, by rw [hfault, Except.error.inj he]⟩
  · exact absurd hstep Site.go_error
  · split at hstep
    · split at hstep
      · exact absurd hstep Site.readPiece_error
      · cases hstep
    · cases hstep

theorem Site.step_interrupted {o : HostCall} {c : HostChoice ι} {r : o.Resp}
    (hstep : site.step h o c = some (r, h')) (hagain : interrupted r = true) : h' = h := by
  cases r with
  | ok v => cases hagain
  | error e => exact (Site.step_error hstep).1

/-- Reading a piece. -/
theorem Site.readPiece_eq {fd : Fd} {i : ι} {offset : ℕ} (hopen : h.opened fd = some (i, offset))
    (n : ℕ) : ∃ h₁, Site.readPiece h fd n = some (.ok (((h.contents i).drop offset).take n), h₁) ∧
      h₁.contents = h.contents ∧ h₁.nextFd = h.nextFd ∧
      h₁.opened fd = some (i, offset + (((h.contents i).drop offset).take n).length) := by
  refine ⟨h.seek fd i (offset + (((h.contents i).drop offset).take n).length), ?_, rfl, rfl,
    if_pos rfl⟩
  rw [Site.readPiece, hopen]
  rfl

/-- A piece that is read, of what the file has in it when the call is answered. -/
theorem exec_read {fd : Fd} {count offset : ℕ} {i : ι} {bytes : Bytes}
    (hopen : h.opened fd = some (i, offset))
    (hexec : Exec (hostMachine site) t h (hostUntil (.read fd count)) tr h' (.ok bytes)) :
    ∃ e, tr = [e] ∧ e.after = h' ∧ h'.opened fd = some (i, offset + bytes.length) ∧
      bytes.length ≤ count ∧ bytes <+: (h'.contents i).drop offset := by
  obtain ⟨c, hstep, -, rfl⟩ := exec_performUntil
    (fun {c r h'} hstep hagain => Site.step_interrupted hstep hagain) hexec
  refine ⟨_, rfl, rfl, ?_⟩
  have hpiece : ∀ n, n ≤ count →
      Site.readPiece { h with contents := c.written.getD h.contents } fd n =
        some (.ok bytes, h') →
      h'.opened fd = some (i, offset + bytes.length) ∧ bytes.length ≤ count ∧
        bytes <+: (h'.contents i).drop offset := by
    intro n hn hread
    obtain ⟨h₁, hread', hcontents, -, hopened⟩ := Site.readPiece_eq
      (h := { h with contents := c.written.getD h.contents }) hopen n
    obtain ⟨hbytes, rfl⟩ := Prod.mk.inj (Option.some.inj (hread'.symm.trans hread))
    rw [← Except.ok.inj hbytes]
    refine ⟨hopened, ?_, ?_⟩
    · rw [List.length_take]
      omega
    · rw [hcontents]
      exact List.take_prefix _ _
  change site.step h _ c = _ at hstep
  unfold Site.step at hstep
  dsimp only at hstep
  split at hstep
  · cases hstep
  · exact hpiece count le_rfl hstep
  · split at hstep
    · exact hpiece _ (Nat.min_le_right _ _) hstep
    · cases hstep

/-- **Reading to the end**: every byte is one that the file had at its place when it was read. -/
theorem exec_readStagedBytes {fd : Fd} {offset left skip : ℕ} {i : ι} {bytes : Bytes}
    (hopen : h.opened fd = some (i, offset)) (hskip : skip ≤ left)
    (hexec : Exec (hostMachine site) t h (Service.readStagedBytes fd left skip).run tr h'
      (.ok bytes)) : bytes.length = left - skip ∧
      ∀ k < bytes.length, ∃ e ∈ tr, (e.after.contents i)[offset + k]? = bytes[k]? := by
  induction left generalizing h h' offset skip tr bytes with
  | zero =>
      obtain ⟨-, -, hbytes⟩ := exec_ret.1 hexec
      obtain rfl := Except.ok.inj hbytes
      exact ⟨by simp, fun k hk => absurd hk (Nat.not_lt_zero k)⟩
  | succ left ih =>
      cases skip with
      | succ skip =>
          obtain ⟨hlen, hplaces⟩ := ih hopen (by omega) hexec
          exact ⟨by omega, hplaces⟩
      | zero =>
          rw [Service.readStagedBytes] at hexec
          obtain ⟨tr₁, h₁, piece, tr₂, hread, hexec₁, rfl⟩ := exec_bind_ok.1 hexec
          obtain ⟨e, rfl, hafter, hopen₁, hcount, hpiece⟩ :=
            exec_read hopen (exec_orFail_ok.1 hread)
          obtain ⟨_, _, u, _, hcheck, hexec₂, rfl⟩ := exec_bind_ok.1 hexec₁
          obtain ⟨rfl, rfl, hpass⟩ := exec_ret.1 hcheck
          have hne : piece ≠ [] := reject_eq_ok.1 hpass.symm
          have hpos := List.length_pos_iff.2 hne
          obtain ⟨tr₃, h₂, rest, _, hrest, hret, rfl⟩ := exec_bind_ok.1 hexec₂
          obtain ⟨rfl, -, hbytes⟩ := exec_ret.1 hret
          obtain rfl := Except.ok.inj hbytes
          obtain ⟨hlen, hplaces⟩ := ih hopen₁ (show piece.length - 1 ≤ left by omega) hrest
          refine ⟨by rw [List.length_append]; omega, fun k hk => ?_⟩
          by_cases hfirst : k < piece.length
          · -- a byte of this piece
            refine ⟨e, by simp, ?_⟩
            rw [List.getElem?_append_left hfirst, hafter]
            obtain ⟨more, hmore⟩ := hpiece
            rw [← List.getElem?_drop, ← hmore, List.getElem?_append_left hfirst]
          · obtain ⟨e', hmem, hplace⟩ := hplaces (k - piece.length) (by
              rw [List.length_append] at hk
              omega)
            refine ⟨e', by simp [hmem], ?_⟩
            rw [List.getElem?_append_right (by omega), ← hplace]
            congr 1
            omega

/-- A file that was opened. -/
theorem exec_openStagedRegularFile {root requested : PosixPath} {maxSize : ℕ}
    {file : Service.OpenStagedFile}
    (hexec : Exec (hostMachine site) t h
      (Service.openStagedRegularFile root requested maxSize).run tr h' (.ok file)) :
    Service.stagedRelativePath root requested = .ok file.relativePath ∧ file.size ≤ maxSize ∧
      ∃ i, site.Staged root requested i ∧ (site.fs.stat i).kind = .regular ∧
        h'.opened file.fd = some (i, 0) ∧
        ∃ e ∈ tr, (e.after.contents i).length = file.size := by
  rw [Service.openStagedRegularFile] at hexec
  obtain ⟨_, _, relative, _, hrelative, hexec₁, rfl⟩ := exec_bind_ok.1 hexec
  obtain ⟨rfl, rfl, hstaged⟩ := exec_ret.1 hrelative
  obtain ⟨trRoot, h₁, top, _, hroot, hexec₂, rfl⟩ := exec_bind_ok.1 hexec₁
  obtain ⟨trDown, h₂, fd, _, hdown, hexec₃, rfl⟩ := exec_bind_ok.1 hexec₂
  obtain ⟨trStat, h₃, st, _, hstat, hexec₄, rfl⟩ := exec_bind_ok.1 hexec₃
  obtain ⟨_, _, _, _, hkind, hexec₅, rfl⟩ := exec_bind_ok.1 hexec₄
  obtain ⟨rfl, rfl, hregular⟩ := exec_ret.1 hkind
  obtain ⟨_, _, _, _, hsize, hret, rfl⟩ := exec_bind_ok.1 hexec₅
  obtain ⟨rfl, rfl, hfits⟩ := exec_ret.1 hsize
  obtain ⟨rfl, rfl, hfile⟩ := exec_ret.1 hret
  obtain rfl := Except.ok.inj hfile
  have hregular := reject_eq_ok.1 hregular.symm
  have hfits := reject_eq_ok.1 hfits.symm
  rw [not_or] at hfits
  -- the root, and the way down from it
  obtain ⟨c, hstep, rfl⟩ := exec_host (exec_orFail_ok.1 hroot)
  rcases Site.step_ok hstep with hgo | ⟨_, _, _, _, hread⟩
  swap
  · cases hread
  obtain ⟨d, hresolve, hcan, htop⟩ := Site.openFound_ok hgo
  obtain ⟨i, hleads, hfd⟩ := exec_openStagedComponents htop hdown
  -- what `fstat` says is about the file that is open
  obtain ⟨c', hstep', rfl⟩ := exec_host (exec_orFail_ok.1 hstat)
  rcases Site.step_ok hstep' with hgo' | ⟨_, _, _, _, hread⟩
  swap
  · cases hread
  rw [Site.go, hfd, Option.map_some] at hgo'
  obtain ⟨hst, rfl⟩ := Prod.mk.inj (Option.some.inj hgo')
  obtain rfl := Except.ok.inj hst
  have hkind : (site.fs.stat i).kind = .regular := not_not.1 hregular
  simp only [Site.statOf, if_pos hkind, Int.toNat_natCast] at hfits ⊢
  refine ⟨hstaged.symm, by omega, i, ⟨relative, d, hstaged.symm, hresolve, hcan, hleads⟩, hkind,
    hfd, _, List.mem_append_right _ (List.mem_append_right _ (List.mem_append_right _
      (List.mem_append_left _ (List.mem_singleton_self _)))), rfl⟩

/-- A text that was read. -/
theorem exec_readStagedRegularFile {root requested : PosixPath} {maxSize : ℕ} {text : Bytes}
    (hexec : Exec (hostMachine site) t h
      (Service.readStagedRegularFile root requested maxSize).run tr h' (.ok text)) :
    text.length ≤ maxSize ∧ ∃ i, site.Staged root requested i ∧
      (site.fs.stat i).kind = .regular ∧ (∃ e ∈ tr, (e.after.contents i).length = text.length) ∧
      ∀ k < text.length, ∃ e ∈ tr, (e.after.contents i)[k]? = text[k]? := by
  obtain ⟨tr₁, h₁, file, tr₂, hopen, hread, rfl⟩ := exec_bind_ok.1 hexec
  obtain ⟨-, hmax, i, hstaged, hkind, hfd, e, hmem, hsize⟩ := exec_openStagedRegularFile hopen
  obtain ⟨hlen, hplaces⟩ := exec_readStagedBytes hfd (Nat.zero_le _) hread
  rw [Nat.sub_zero] at hlen
  refine ⟨by omega, i, hstaged, hkind, ⟨e, List.mem_append_left _ hmem, by omega⟩, fun k hk => ?_⟩
  obtain ⟨e', hmem', hplace⟩ := hplaces k hk
  rw [Nat.zero_add] at hplace
  exact ⟨e', List.mem_append_right _ hmem', hplace⟩

/-! ### Runs that are not disturbed -/

/-- Nobody writes to a file, and a call fails only where it cannot succeed. -/
def Site.Undisturbed (site : Site ι) (e : HostEvent ι) : Prop :=
  e.choice.written = none ∧
    ∀ err, e.choice.answer = .fault err → site.go e.before e.choice.writer e.op = none

/-- A call that can succeed does. -/
theorem succeeds_host {o : HostCall} {v : o.Value} {h₁ : Host ι} {error : Errno → Error}
    (hgo : ∀ writer, site.go h writer o = some (.ok v, h₁))
    (hread : ∀ fd count, o ≠ .read fd count) :
    Succeeds (hostMachine site) t site.Undisturbed (orFail (host o) error)
      (fun a h' => a = v ∧ h' = h₁) h := by
  refine succeeds_orFail (delivers_perform fun c r h' hstep hundisturbed => ?_)
  obtain ⟨hwritten, hfault⟩ := hundisturbed
  dsimp only at hwritten hfault
  change site.step h o c = _ at hstep
  cases r with
  | error e =>
      have hnone := hfault e (Site.step_error hstep).2
      rw [hgo] at hnone
      cases hnone
  | ok a =>
      rcases Site.step_ok hstep with hgo' | ⟨fd, count, _, _, hop⟩
      · rw [hwritten] at hgo'
        obtain ⟨ha, rfl⟩ := Prod.mk.inj (Option.some.inj (hgo'.symm.trans (hgo _)))
        exact ⟨v, ha, rfl, rfl⟩
      · exact absurd hop (hread fd count)

/-- Opening what can be opened, and is no FIFO. -/
theorem Site.openFound_eq {i : ι} {directory : Bool} (hcan : site.canOpen i directory = true)
    (hkind : (site.fs.stat i).kind ≠ .fifo) :
    ∃ h₁, (∀ writer, site.openFound h directory writer (.ok i) = some (.ok h.nextFd, h₁)) ∧
      h₁.opened h.nextFd = some (i, 0) ∧ h₁.contents = h.contents :=
  ⟨{ h.seek h.nextFd i 0 with nextFd := h.nextFd + 1 },
    fun writer => if_pos (by simp [hcan, hkind]), if_pos rfl, rfl⟩

/-- What is opened as a directory is one. -/
theorem Site.canOpen_directory {i : ι} (hcan : site.canOpen i true = true) :
    (site.fs.stat i).kind = .directory := by
  simp only [Site.canOpen, Bool.not_true, Bool.false_or, Bool.and_eq_true, beq_iff_eq] at hcan
  exact hcan.2

/-- Components that lead somewhere are gone down. -/
theorem succeeds_openStagedComponents {l : List Bytes} {d i : ι} {current : Fd}
    (hleads : site.Leads d l i) (hkind : (site.fs.stat i).kind = .regular)
    (hcurrent : h.opened current = some (d, 0)) :
    Succeeds (hostMachine site) t site.Undisturbed (Service.openStagedComponents current l)
      (fun fd h' => h'.opened fd = some (i, 0) ∧ h'.contents = h.contents) h := by
  induction hleads generalizing h current with
  | nil d => exact succeeds_pure ⟨hcurrent, rfl⟩
  | @cons d i j name rest found opens next ih =>
      -- a directory on the way, or the regular file at its end
      have hfifo : (site.fs.stat i).kind ≠ .fifo := by
        by_cases hrest : rest = []
        · rw [hrest] at next
          cases next
          simp [hkind]
        · simp [Site.canOpen_directory (by simpa [hrest] using opens)]
      obtain ⟨h₁, hopen, hnext, hcontents⟩ := Site.openFound_eq (h := h) opens hfifo
      have hgo : ∀ writer, site.go h writer (.openat current (cStr name) (decide (rest ≠ []))) =
          some (.ok h.nextFd, h₁) := by
        intro writer
        rw [Site.go, hcurrent, Option.bind_some, found]
        exact hopen writer
      refine Succeeds.bind (succeeds_host hgo fun _ _ heq => by cases heq) fun fd h₂ hfd => ?_
      obtain ⟨rfl, rfl⟩ := hfd
      rw [← hcontents]
      exact ih hkind hnext

/-- A piece that is read. -/
theorem succeeds_read {fd : Fd} {count offset : ℕ} {i : ι} {error : Errno → Error}
    (hopen : h.opened fd = some (i, offset)) (hcount : 0 < count) :
    Succeeds (hostMachine site) t site.Undisturbed (orFail (hostUntil (.read fd count)) error)
      (fun bytes h' => ∃ n, 0 < n ∧ bytes = ((h.contents i).drop offset).take (min n count) ∧
        h'.opened fd = some (i, offset + bytes.length) ∧ h'.contents = h.contents) h := by
  refine succeeds_orFail (delivers_performUntil
    (fun c r h' hstep hagain => Site.step_interrupted hstep hagain)
    fun c r h' hstep _ hundisturbed => ?_)
  obtain ⟨hwritten, hfault⟩ := hundisturbed
  dsimp only at hwritten hfault
  have hpiece : ∀ n, 0 < n → Site.readPiece h fd (min n count) = some (r, h') →
      ∃ bytes, r = .ok bytes ∧ ∃ n, 0 < n ∧
        bytes = ((h.contents i).drop offset).take (min n count) ∧
        h'.opened fd = some (i, offset + bytes.length) ∧ h'.contents = h.contents := by
    intro n hn hread
    obtain ⟨h₁, hread', hcontents, -, hopened⟩ := Site.readPiece_eq hopen (min n count)
    obtain ⟨rfl, rfl⟩ := Prod.mk.inj (Option.some.inj (hread'.symm.trans hread))
    exact ⟨_, rfl, n, hn, rfl, hopened, hcontents⟩
  change site.step h _ c = _ at hstep
  unfold Site.step at hstep
  rw [hwritten] at hstep
  dsimp only [Option.getD_none] at hstep
  split at hstep
  · rename_i err hanswer
    have hnone := hfault err hanswer
    rw [Site.go, Site.readPiece, hopen] at hnone
    cases hnone
  · refine hpiece count hcount ?_
    rw [Nat.min_self]
    exact hstep
  · split at hstep
    · exact hpiece _ ‹_› hstep
    · cases hstep

/-- A file is read to its end. -/
theorem succeeds_readStagedBytes {fd : Fd} {offset left skip : ℕ} {i : ι}
    (hopen : h.opened fd = some (i, offset)) (hskip : skip ≤ left)
    (hlen : (h.contents i).length = offset + (left - skip)) :
    Succeeds (hostMachine site) t site.Undisturbed (Service.readStagedBytes fd left skip)
      (fun bytes h' => bytes = (h.contents i).drop offset ∧ h'.contents = h.contents) h := by
  induction left generalizing h offset skip with
  | zero =>
      refine succeeds_pure ⟨(List.drop_eq_nil_of_le ?_).symm, rfl⟩
      omega
  | succ left ih =>
      cases skip with
      | succ skip => exact ih hopen (by omega) (by omega)
      | zero =>
          refine Succeeds.bind (succeeds_read hopen (Nat.succ_pos left)) fun bytes h₁ hread => ?_
          obtain ⟨n, hn, hbytes, hopen₁, hcontents⟩ := hread
          have hcount : bytes.length = min n (left + 1) := by
            rw [hbytes, List.length_take, List.length_drop]
            omega
          have hne : bytes ≠ [] := by
            rw [← List.length_pos_iff, hcount]
            omega
          refine Succeeds.bind (P := fun _ h₂ => h₂ = h₁) ?_ fun _ h₂ heq => ?_
          · rw [reject, if_neg hne]
            exact delivers_ret ⟨(), rfl, rfl⟩
          subst heq
          refine Succeeds.bind (ih hopen₁ (show bytes.length - 1 ≤ left by omega) ?_)
            fun rest h₃ hrest => ?_
          · rw [hcontents]
            omega
          obtain ⟨hrest, hcontents₃⟩ := hrest
          refine delivers_ret ⟨bytes ++ rest, rfl, ?_, hcontents₃.trans hcontents⟩
          rw [hrest, hcontents, hcount, ← List.drop_drop, hbytes]
          exact List.take_append_drop _ _

/-- A staged file that is small enough is opened. -/
theorem succeeds_openStagedRegularFile {root requested : PosixPath} {maxSize : ℕ} {i : ι}
    (hstaged : site.Staged root requested i) (hkind : (site.fs.stat i).kind = .regular)
    (hsize : (h.contents i).length ≤ maxSize) :
    Succeeds (hostMachine site) t site.Undisturbed
      (Service.openStagedRegularFile root requested maxSize)
      (fun file h' => file.size = (h.contents i).length ∧ h'.opened file.fd = some (i, 0) ∧
        h'.contents = h.contents) h := by
  obtain ⟨relative, d, hrelative, hroot, hcan, hleads⟩ := hstaged
  refine Succeeds.bind (P := fun a h₁ => a = relative ∧ h₁ = h) ?_ fun a h₁ heq => ?_
  · rw [hrelative]
    exact delivers_ret ⟨relative, rfl, rfl, rfl⟩
  obtain ⟨rfl, rfl⟩ := heq
  obtain ⟨h₂, hopen, htop, hcontents⟩ :=
    Site.openFound_eq (h := h₁) hcan (by simp [Site.canOpen_directory hcan])
  have hgo : ∀ writer, site.go h₁ writer (.openRoot (cStr root)) = some (.ok h₁.nextFd, h₂) := by
    intro writer
    rw [Site.go, hroot]
    exact hopen writer
  refine Succeeds.bind (succeeds_host hgo fun _ _ heq => by cases heq) fun top h₃ htop' => ?_
  obtain ⟨rfl, rfl⟩ := htop'
  refine Succeeds.bind (succeeds_openStagedComponents hleads hkind htop) fun fd h₄ hfd => ?_
  obtain ⟨hfd, hcontents₄⟩ := hfd
  have hgo' : ∀ writer,
      site.go h₄ writer (.fstat fd) = some (.ok (site.statOf h₄ i), h₄) := by
    intro writer
    rw [Site.go, hfd]
    rfl
  refine Succeeds.bind (succeeds_host hgo' fun _ _ heq => by cases heq) fun st h₅ hst => ?_
  obtain ⟨rfl, rfl⟩ := hst
  have hlength : (h₅.contents i).length = (h₁.contents i).length := by
    rw [hcontents₄, hcontents]
  have hregular : ¬ (site.statOf h₅ i).kind ≠ .regular := not_not.2 hkind
  have hst : (site.statOf h₅ i).size = ((h₁.contents i).length : ℤ) := by
    rw [Site.statOf, ← hlength]
    exact if_pos hkind
  have hfits : ¬ ((site.statOf h₅ i).size < 0 ∨ (maxSize : ℤ) < (site.statOf h₅ i).size) := by
    rw [hst]
    omega
  refine Succeeds.bind (P := fun _ h₆ => h₆ = h₅) ?_ fun _ h₆ heq => ?_
  · rw [reject, if_neg hregular]
    exact delivers_ret ⟨(), rfl, rfl⟩
  subst heq
  refine Succeeds.bind (P := fun _ h₇ => h₇ = h₆) ?_ fun _ h₇ heq => ?_
  · rw [reject, if_neg hfits]
    exact delivers_ret ⟨(), rfl, rfl⟩
  subst heq
  refine delivers_ret ⟨_, rfl, ?_, hfd, hcontents₄.trans hcontents⟩
  dsimp only
  rw [hst, Int.toNat_natCast]

/-- A staged file that is small enough is read. -/
theorem succeeds_readStagedRegularFile {root requested : PosixPath} {maxSize : ℕ} {i : ι}
    (hstaged : site.Staged root requested i) (hkind : (site.fs.stat i).kind = .regular)
    (hsize : (h.contents i).length ≤ maxSize) :
    Succeeds (hostMachine site) t site.Undisturbed
      (Service.readStagedRegularFile root requested maxSize)
      (fun text _ => text = h.contents i) h := by
  refine Succeeds.bind (succeeds_openStagedRegularFile hstaged hkind hsize) fun file h₁ hfile => ?_
  obtain ⟨hlen, hopen, hcontents⟩ := hfile
  refine (succeeds_readStagedBytes hopen (Nat.zero_le _) ?_).weaken fun r h₂ hr => ?_
  · rw [hcontents, hlen]
    omega
  · obtain ⟨text, rfl, htext, -⟩ := hr
    exact ⟨text, rfl, by rw [htext, hcontents, List.drop_zero]⟩

/-- What a text is that was read from a staged file: it is not too long, it comes from the regular
file that the path leads to, and each of its bytes was in that file at its place.  The file is below
the staging root, unless a component is cut to `..`. -/
structure ReadFrom (site : Site ι) (root requested : PosixPath) (maxSize : ℕ)
    (tr : List (HostEvent ι)) (text : Bytes) (i : ι) : Prop where
  fits : text.length ≤ maxSize
  staged : site.Staged root requested i
  regular : (site.fs.stat i).kind = .regular
  length : ∃ e ∈ tr, (e.after.contents i).length = text.length
  places : ∀ k < text.length, ∃ e ∈ tr, (e.after.contents i)[k]? = text[k]?
  inside : Site.StaysDown requested →
    ∃ top, site.fs.resolve true (cStr root) = .ok top ∧ site.fs.Inside top i

/-- If nobody writes to the file, what was read is what it contains. -/
theorem ReadFrom.eq {root requested : PosixPath} {maxSize : ℕ} {text bytes : Bytes} {i : ι}
    (hread : ReadFrom site root requested maxSize tr text i)
    (hsame : ∀ e ∈ tr, e.after.contents i = bytes) : text = bytes := by
  obtain ⟨e, hmem, hlen⟩ := hread.length
  rw [hsame e hmem] at hlen
  refine List.ext_getElem? fun k => ?_
  by_cases hk : k < text.length
  · obtain ⟨e', hmem', hplace⟩ := hread.places k hk
    rw [← hplace, hsame e' hmem']
  · rw [List.getElem?_eq_none (by omega), List.getElem?_eq_none (by omega)]

/-- A call is made again only when it was interrupted. -/
def AgainInterrupted (o : HostCall) (again : o.Resp → Bool) : Prop :=
  ∀ r, again r = true → interrupted r = true

theorem calls_orFail_host (o : HostCall) (error : Errno → Error) :
    (orFail (host o) error).run.Calls AgainInterrupted :=
  Prog.calls_bind (Prog.calls_perform fun r hr => by cases hr) fun _ => trivial

theorem calls_openStagedComponents (current : Fd) (l : List Bytes) :
    (Service.openStagedComponents current l).run.Calls AgainInterrupted := by
  induction l generalizing current with
  | nil => trivial
  | cons name rest ih => exact calls_exceptT_bind (calls_orFail_host _ _) fun next => ih next

theorem calls_openStagedRegularFile (root requested : PosixPath) (maxSize : ℕ) :
    (Service.openStagedRegularFile root requested maxSize).run.Calls AgainInterrupted := by
  refine calls_exceptT_bind trivial fun relative => ?_
  refine calls_exceptT_bind (calls_orFail_host _ _) fun top => ?_
  refine calls_exceptT_bind (calls_openStagedComponents _ _) fun fd => ?_
  refine calls_exceptT_bind (calls_orFail_host _ _) fun st => ?_
  refine calls_exceptT_bind trivial fun _ => ?_
  exact calls_exceptT_bind trivial fun _ => trivial

theorem calls_readStagedBytes (fd : Fd) (left skip : ℕ) :
    (Service.readStagedBytes fd left skip).run.Calls AgainInterrupted := by
  induction left generalizing skip with
  | zero => trivial
  | succ left ih =>
      cases skip with
      | succ skip => exact ih skip
      | zero =>
          refine calls_exceptT_bind ?_ fun bytes => ?_
          · exact Prog.calls_bind ⟨fun r hr => hr, fun _ => trivial⟩ fun _ => trivial
          refine calls_exceptT_bind trivial fun _ => ?_
          exact calls_exceptT_bind (ih _) fun _ => trivial

theorem calls_readStagedRegularFile (root requested : PosixPath) (maxSize : ℕ) :
    (Service.readStagedRegularFile root requested maxSize).run.Calls AgainInterrupted :=
  calls_exceptT_bind (calls_openStagedRegularFile _ _ _) fun _ => calls_readStagedBytes _ _ _

/-- What a call leaves in the files. -/
theorem Site.step_contents {o : HostCall} {c : HostChoice ι} {r : o.Resp}
    (hstep : site.step h o c = some (r, h')) (hwritten : c.written = none) :
    h'.contents = h.contents := by
  have hread : ∀ {h : Host ι} {fd : Fd} {n : ℕ} {r : Except Errno Bytes},
      Site.readPiece h fd n = some (r, h') → h'.contents = h.contents := by
    intro h fd n r hread
    obtain ⟨place, -, heq⟩ := Option.map_eq_some_iff.1 hread
    rw [← (Prod.mk.inj heq).2]
    rfl
  have hopen : ∀ {directory writer : Bool} {found : Except Errno ι} {r : Except Errno Fd},
      site.openFound h directory writer found = some (r, h') → h'.contents = h.contents := by
    intro directory writer found r hopen
    cases found with
    | error e => cases hopen
    | ok i =>
        rw [Site.openFound] at hopen
        split at hopen
        · rw [← (Prod.mk.inj (Option.some.inj hopen)).2]
          rfl
        · cases hopen
  unfold Site.step at hstep
  rw [hwritten] at hstep
  dsimp only [Option.getD_none] at hstep
  split at hstep
  · rw [(Prod.mk.inj (Option.some.inj hstep)).2]
  · cases o with
    | getpwnam name => rw [← (Prod.mk.inj (Option.some.inj hstep)).2]
    | openRoot path => exact hopen hstep
    | openat dir name directory =>
        obtain ⟨d, -, hfound⟩ := Option.bind_eq_some_iff.1 hstep
        exact hopen hfound
    | fstat fd =>
        obtain ⟨place, -, heq⟩ := Option.map_eq_some_iff.1 hstep
        rw [← (Prod.mk.inj heq).2]
    | read fd count => exact hread hstep
  · split at hstep
    · split at hstep
      · exact hread hstep
      · cases hstep
    · cases hstep

/-- **Where nobody writes, the files stay what they are.** -/
theorem exec_contents {α : Type} {p : Prog HostCall.Resp α} {a : α}
    (hp : p.Calls AgainInterrupted) (hexec : Exec (hostMachine site) t h p tr h' a)
    (hquiet : ∀ e ∈ tr, e.choice.written = none) :
    (∀ e ∈ tr, e.after.contents = h.contents) ∧ h'.contents = h.contents := by
  induction hexec with
  | ret w a => exact ⟨fun e he => absurd he List.not_mem_nil, rfl⟩
  | again hstep hagain _ ih =>
      obtain rfl := Site.step_interrupted hstep (hp.1 _ hagain)
      exact ih hp hquiet
  | step hstep hagain _ ih =>
      rw [List.forall_mem_cons] at hquiet
      have hsame := Site.step_contents hstep hquiet.1
      obtain ⟨hrest, hend⟩ := ih (hp.2 _) hquiet.2
      refine ⟨?_, hend.trans hsame⟩
      rw [List.forall_mem_cons]
      exact ⟨hsame, fun e he => (hrest e he).trans hsame⟩

theorem ReadFrom.mono {root requested : PosixPath} {maxSize : ℕ} {text : Bytes} {i : ι}
    {tr' : List (HostEvent ι)} (hread : ReadFrom site root requested maxSize tr text i)
    (hsub : ∀ e ∈ tr, e ∈ tr') : ReadFrom site root requested maxSize tr' text i where
  fits := hread.fits
  staged := hread.staged
  regular := hread.regular
  length := hread.length.imp fun e he => ⟨hsub e he.1, he.2⟩
  places k hk := (hread.places k hk).imp fun e he => ⟨hsub e he.1, he.2⟩
  inside := hread.inside

/-- A text that is returned was read from a staged file. -/
theorem readFrom_readStagedRegularFile {root requested : PosixPath} {maxSize : ℕ} {text : Bytes}
    (hexec : Exec (hostMachine site) t h
      (Service.readStagedRegularFile root requested maxSize).run tr h' (.ok text)) :
    ∃ i, ReadFrom site root requested maxSize tr text i := by
  obtain ⟨hfits, i, hstaged, hkind, hlen, hplaces⟩ := exec_readStagedRegularFile hexec
  exact ⟨i, hfits, hstaged, hkind, hlen, hplaces, fun hdown => hstaged.inside hdown⟩

/-- **What is read from a staged file.**  A text that is returned was read from the regular file
that the path leads to, whatever fails and whoever writes meanwhile.  In a run that is not disturbed
the text is returned just when there is such a file and it is not too long, and then it is what the
file contains. -/
theorem readStaged_exact {root requested : PosixPath} {maxSize : ℕ} {r : Result Bytes}
    (hexec : Exec (hostMachine site) t h
      (Service.readStagedRegularFile root requested maxSize).run tr h' r) :
    (∀ text, r = .ok text → ∃ i, ReadFrom site root requested maxSize tr text i) ∧
    ((∀ e ∈ tr, site.Undisturbed e) → ∀ text, r = .ok text ↔
      ∃ i, site.Staged root requested i ∧ (site.fs.stat i).kind = .regular ∧
        (h.contents i).length ≤ maxSize ∧ text = h.contents i) := by
  have hfrom : ∀ text, r = .ok text → ∃ i, ReadFrom site root requested maxSize tr text i := by
    intro text hr
    rw [hr] at hexec
    exact readFrom_readStagedRegularFile hexec
  refine ⟨hfrom, fun hundisturbed text => ?_⟩
  constructor
  · intro hr
    obtain ⟨i, hread⟩ := hfrom text hr
    have hsame := (exec_contents (calls_readStagedRegularFile _ _ _) hexec
      fun e he => (hundisturbed e he).1).1
    have htext := hread.eq fun e he => congrFun (hsame e he) i
    exact ⟨i, hread.staged, hread.regular, htext ▸ hread.fits, htext⟩
  · intro hfile
    obtain ⟨i, hstaged, hkind, hsize, rfl⟩ := hfile
    obtain ⟨text, hr, rfl⟩ :=
      succeeds_readStagedRegularFile hstaged hkind hsize _ _ _ hexec hundisturbed
    exact hr

end

/-! ### A small site -/

/-- The entries of a small tree: a staging directory with a file in it, and a file beside it. -/
def stagingEntries : Fin 4 → List (Bytes × Fin 4)
  | 0 => [("staging", 1), ("secret.container", 3)]
  | 1 => [("web.container", 2)]
  | _ => []

def stagingStat (i : Fin 4) : Stat :=
  ⟨if i.val < 2 then .directory else .regular, 0, 0, 0o755, 0⟩

theorem mem_stagingEntries {d i : Fin 4} {x : Bytes} (h : (stagingEntries d).lookup x = some i) :
    (x, i) ∈ stagingEntries d := by
  obtain ⟨l₁, l₂, hentries, -⟩ := List.lookup_eq_some_iff.1 h
  rw [hentries]
  simp

theorem stagingEntries_sound : ∀ d, ∀ e ∈ stagingEntries d, IsEntryName e.1 ∧
    ((stagingStat e.2).kind = .directory → 0 = d) := by
  decide +kernel

/-- The small site, with one user. -/
def smallSite : Site (Fin 4) where
  fs := {
    stat := stagingStat
    entry := fun d x => (stagingEntries d).lookup x
    link := fun _ => []
    parent := fun _ => 0
    root := 0
    cwd := 0
    maxLinks := 40
    entry_name := fun d _ _ h => (stagingEntries_sound d _ (mem_stagingEntries h)).1
    root_directory := rfl
    cwd_directory := rfl
    parent_directory := fun _ _ => rfl
    parent_root := rfl
    parent_entry := fun d _ _ h => (stagingEntries_sound d _ (mem_stagingEntries h)).2 }
  users := fun name => if name = "app" then some ⟨1000, "app"⟩ else none

/-- The files have these contents, and nothing is open. -/
def smallHost (contents : Fin 4 → Bytes) : Host (Fin 4) where
  contents := contents
  opened := fun _ => none
  nextFd := 3

/-- What is below the staging directory. -/
theorem smallSite_inside {i : Fin 4} (h : smallSite.fs.Inside 1 i) : i = 1 ∨ i = 2 := by
  induction h with
  | here => exact .inl rfl
  | @entry i j name dir found ih =>
      have hmem := mem_stagingEntries found
      rcases ih with rfl | rfl
      · have hall : ∀ e ∈ stagingEntries 1, e.2 = 2 := by decide
        exact .inr (hall _ hmem)
      · have hall : stagingEntries 2 = [] := rfl
        rw [hall] at hmem
        cases hmem

/-- A component that is cut to `..` leads out of the staging directory. -/
theorem staged_escapes : smallSite.Staged "/staging" "..\x00/secret.container" 3 ∧
    ∀ top, smallSite.fs.resolve true (cStr "/staging") = .ok top →
      ¬ smallSite.fs.Inside top 3 := by
  have hroot : smallSite.fs.resolve true (cStr "/staging") = .ok 1 := by decide +kernel
  constructor
  · refine ⟨"..\x00/secret.container", 1, by decide +kernel, hroot, by decide, ?_⟩
    have hcomponents : components "..\x00/secret.container" =
        [ofString "..\x00", ofString "secret.container"] := by decide +kernel
    rw [hcomponents]
    exact .cons (i := 0) (by decide +kernel) (by decide)
      (.cons (i := 3) (by decide +kernel) (by decide) (.nil 3))
  · intro top htop hinside
    obtain rfl := Except.ok.inj (hroot.symm.trans htop)
    rcases smallSite_inside hinside with h | h <;> cases h

/-- A call that did not fail, while nobody wrote. -/
def HostChoice.isCalm {ι : Type} (c : HostChoice ι) : Bool :=
  c.written.isNone &&
    match c.answer with
    | .fault _ => false
    | _ => true

theorem undisturbed_of_calm {ι : Type} {site : Site ι} {tr : List (HostEvent ι)}
    (h : tr.all (·.choice.isCalm) = true) : ∀ e ∈ tr, site.Undisturbed e := by
  intro e hmem
  have hcalm := List.all_eq_true.1 h e hmem
  rw [HostChoice.isCalm, Bool.and_eq_true, Option.isNone_iff_eq_none] at hcalm
  refine ⟨hcalm.1, fun err herr => ?_⟩
  rw [herr] at hcalm
  cases hcalm.2

/-- A file that is read in two pieces, with an interruption in between. -/
theorem readStaged_exact_pieces : ∃ tr h' text, Exec (hostMachine smallSite) 0
      (smallHost fun _ => "Image=busybox\n")
      (Service.readStagedRegularFile "/staging" "/staging/web.container" 100).run tr h'
      (.ok text) ∧
    (∃ i, ReadFrom smallSite "/staging" "/staging/web.container" 100 tr text i) ∧
    text = ofString "Image=busybox\n" := by
  have hrun : (run (hostMachine smallSite) 0
      [{}, {}, {}, { answer := .moved 6 }, { answer := .fault EINTR }, {}]
      (smallHost fun _ => "Image=busybox\n")
      (Service.readStagedRegularFile "/staging" "/staging/web.container" 100).run).any
        (fun out => out.2.2.toBool && out.1.all (·.choice.isCalm)) = true := by decide +kernel
  obtain ⟨tr, h', r, hexec, hr⟩ := exists_exec_of_run hrun
  rw [Bool.and_eq_true] at hr
  cases r with
  | error e => cases hr.1
  | ok text =>
      obtain ⟨hfrom, hiff⟩ := readStaged_exact hexec
      obtain ⟨i, -, -, -, htext⟩ := (hiff (undisturbed_of_calm hr.2) text).1 rfl
      exact ⟨tr, h', text, hexec, hfrom text rfl, htext⟩

end PodInstaller
