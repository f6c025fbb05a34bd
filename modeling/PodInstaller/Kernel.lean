/-
**The kernel, the Podman service and the user managers.**

This module says what the calls of `PodInstaller.Sys` do.  The file system is a tree of fixed
depth: the admin root, the directories in it (one for each user, and `.locks`), and their entries.
An entry refers to an inode, so that a file can be replaced while a descriptor still refers to the
old one.  Whatever lies outside the admin root is not part of the state: calls about it are
answered in any way and change nothing here; so are calls about what lies below a subdirectory of a
user directory.

The environment chooses how a call goes.  A call of the kernel may fail with any error number,
except that `ENOENT` and `EEXIST` always tell the truth about the tree; a read or write may transfer
less than asked for; the service and the managers give any answer.  A call that cannot do what it is
documented to do — opening what is not a directory, renaming over one — can only fail.

Main definitions:

* `PodInstaller.System`, `PodInstaller.System.WellFormed`, `PodInstaller.World` — the state;
* `PodInstaller.Content`, `PodInstaller.System.look` — what an entry of a user directory holds;
* `PodInstaller.Kernel`, `PodInstaller.Choice` — the constants of a system, and the choices;
* `PodInstaller.Place`, `PodInstaller.Kernel.locate` — where a path leads;
* `PodInstaller.System.step` — what a call does.
-/

import PodInstaller.Target
import Mathlib.Logic.Function.Basic

set_option relaxedAutoImplicit false
set_option autoImplicit false

namespace PodInstaller

open Bytes

/-! ### The state -/

/-- A directory of the tree, or what stands in its place. -/
structure Node where
  kind : FileKind
  uid : UInt32
  gid : UInt32
  mode : ℕ
  deriving DecidableEq

/-- The group that a directory passes on to what is made in it: its own, if it is set-group-ID. -/
def Node.passesOn (n : Node) : Option UInt32 := if n.mode &&& 0o2000 = 0 then none else some n.gid

/-- An inode below a directory of the tree.  `creator` is the caller that created it, if one of the
callers did; no call looks at it. -/
structure Inode where
  kind : FileKind
  uid : UInt32
  gid : UInt32
  mode : ℕ
  bytes : Bytes
  creator : Option ℕ
  deriving DecidableEq

/-- What a descriptor refers to. -/
inductive OfdTarget
  | root
  | sub (dir : Bytes)
  | ino (i : ℕ)
  | outside
  deriving DecidableEq

/-- An open file description, with the caller that opened it. -/
structure Ofd where
  target : OfdTarget
  offset : ℕ
  owner : ℕ
  deriving DecidableEq

/-- The state of the file tree, of the open descriptors and locks, and of the user managers: for
each user and unit the contents of the loaded definition and of the one that is running. -/
structure System where
  /-- The symbolic link that stands at the last name of the admin root, if there is one. -/
  rootLink : Option Node
  /-- What the path of the admin root leads to. -/
  root : Option Node
  sub : Bytes → Option Node
  entry : Bytes → Bytes → Option ℕ
  inode : ℕ → Inode
  nextIno : ℕ
  ofd : Fd → Option Ofd
  nextFd : Fd
  lock : ℕ → Option Fd
  loaded : UInt32 → Bytes → Option Bytes
  running : UInt32 → Bytes → Option Bytes

/-- What an entry of a user directory holds: the bytes of a regular file, or some other inode. -/
inductive Content
  | regular (bytes : Bytes)
  | other (i : ℕ) (node : Inode)
  deriving DecidableEq

namespace System

/-- A node that is there and is a directory. -/
def isDirectory (node : Option Node) : Bool := node.any (·.kind == .directory)

def rootIsDir (s : System) : Bool := isDirectory s.root

def subIsDir (s : System) (dir : Bytes) : Bool := isDirectory (s.sub dir)

/-- What an entry of a directory holds. -/
def content (s : System) (dir name : Bytes) : Option Content :=
  (s.entry dir name).map fun i =>
    if (s.inode i).kind = .regular then .regular (s.inode i).bytes else .other i (s.inode i)

/-- What the Quadlet path of a user and a file name holds. -/
def look (s : System) (uid : UInt32) (fileName : Bytes) : Option Content :=
  s.content (uidString uid) fileName

/-- The entries are there, the descriptors are open, and the locks are held by descriptors.  An
inode that a caller created has one entry at most: there is no call that makes a second one.  The
link in the place of the admin root, if there is one, is a symbolic link. -/
structure WellFormed (s : System) : Prop where
  sub_root : ∀ {dir}, s.sub dir ≠ none → s.rootIsDir = true
  entry_dir : ∀ {dir name}, s.entry dir name ≠ none → s.subIsDir dir = true
  entry_lt : ∀ {dir name i}, s.entry dir name = some i → i < s.nextIno
  ofd_lt : ∀ {fd}, s.ofd fd ≠ none → fd < s.nextFd
  target_lt : ∀ {fd o i}, s.ofd fd = some o → o.target = .ino i → i < s.nextIno
  lock_ofd : ∀ {i fd}, s.lock i = some fd → ∃ o, s.ofd fd = some o ∧ o.target = .ino i
  linked_once : ∀ {dir name dir' name' i}, s.entry dir name = some i →
    s.entry dir' name' = some i → (s.inode i).creator ≠ none → dir' = dir ∧ name' = name
  link_kind : ∀ {node}, s.rootLink = some node → node.kind = .symlink

/-! ### What calls change -/

/-- A new descriptor. -/
def openFd (s : System) (target : OfdTarget) (owner : ℕ) : System :=
  { s with
    ofd := Function.update s.ofd s.nextFd (some ⟨target, 0, owner⟩)
    nextFd := s.nextFd + 1 }

/-- Closing a descriptor releases the lock it holds. -/
def closeFd (s : System) (fd : Fd) : System :=
  { s with
    ofd := Function.update s.ofd fd none
    lock := fun i => if s.lock i = some fd then none else s.lock i }

/-- Moving the offset of a descriptor. -/
def seek (s : System) (fd : Fd) (offset : ℕ) : System :=
  { s with ofd := fun fd' => if fd' = fd then (s.ofd fd).map fun o => { o with offset := offset }
      else s.ofd fd' }

/-- A new inode with its entry. -/
def create (s : System) (dir name : Bytes) (node : Inode) : System :=
  { s with
    entry := fun dir' name' => if dir' = dir ∧ name' = name then some s.nextIno
      else s.entry dir' name'
    inode := Function.update s.inode s.nextIno node
    nextIno := s.nextIno + 1 }

def removeEntry (s : System) (dir name : Bytes) : System :=
  { s with entry := fun dir' name' => if dir' = dir ∧ name' = name then none
      else s.entry dir' name' }

/-- The entry `old` gets the name `new`, in place of what had it. -/
def renameEntry (s : System) (dir old new : Bytes) (i : ℕ) : System :=
  { s with entry := fun dir' name' =>
      if dir' = dir ∧ name' = new then some i
      else if dir' = dir ∧ name' = old then none
      else s.entry dir' name' }

def setBytes (s : System) (i : ℕ) (bytes : Bytes) : System :=
  { s with inode := Function.update s.inode i { s.inode i with bytes := bytes } }

def setLock (s : System) (i : ℕ) (fd : Fd) : System :=
  { s with lock := Function.update s.lock i (some fd) }

/-- The directories change. -/
def setDirs (s : System) (root : Option Node) (sub : Bytes → Option Node) : System :=
  { s with root := root, sub := sub }

/-- The Quadlet file that a unit is generated from. -/
def quadletOf (unit : Bytes) : Bytes :=
  unit.take (unit.length - (".service" : Bytes).length) ++ ofString ".container"

/-- The definition that the files of a user give a unit. -/
def definition (s : System) (uid : UInt32) (unit : Bytes) : Option Bytes :=
  match s.look uid (quadletOf unit) with
  | some (.regular bytes) => some bytes
  | _ => none

/-- A manager that reads its unit files. -/
def reload (s : System) (uid : UInt32) : System :=
  { s with loaded := fun uid' unit => if uid' = uid then s.definition uid unit
      else s.loaded uid' unit }

/-- A unit that runs a definition, or none. -/
def setRunning (s : System) (uid : UInt32) (unit : Bytes) (what : Option Bytes) : System :=
  { s with running := fun uid' unit' => if uid' = uid ∧ unit' = unit then what
      else s.running uid' unit' }

end System

/-- A well-formed state. -/
structure World extends System where
  wellFormed : toSystem.WellFormed

/-! ### The constants of a system -/

/-- The identity with which a caller creates files. -/
structure Cred where
  uid : UInt32
  gid : UInt32
  umask : ℕ

/-- A directory of root. -/
def plainDirectory : Node := ⟨.directory, 0, 0, 0o755⟩

theorem plainDirectory_kind : plainDirectory.kind = .directory := rfl

/-- The constants of a system: where the tree is and the directory that its root stands in, who the
callers are, and whether `fsync` of a directory and `unlinkat` can fail. -/
structure Kernel where
  adminRoot : PosixPath
  noNul : 0 ∉ adminRoot
  above : Node := plainDirectory
  aboveIsDirectory : above.kind = .directory := by exact plainDirectory_kind
  cred : ℕ → Cred
  dirFsyncFails : Bool := true
  unlinkFails : Bool := true

/-- The choices of the environment for a call. -/
inductive Choice
  | go
  | moved (n : ℕ)
  | fault (e : Errno)
  | pid (n : ℕ)
  | passwd (r : Except Errno (Option Passwd))
  | stat (st : Stat)
  | http (r : Except CurlFailure HttpResponse)
  | reload (r : Result Unit)
  | restart (r : Result UnitOperationResult) (leavesRunning : Bool)
  | status (r : Result UnitStatus)

/-- Where a path leads. -/
inductive Place
  | nowhere
  | root
  | sub (dir : Bytes)
  | entry (dir name : Bytes)
  | outside
  deriving DecidableEq

/-- What a path to a directory leads to. -/
def Place.directory : Place → Option OfdTarget
  | .root => some .root
  | .sub dir => some (.sub dir)
  | .outside => some .outside
  | _ => none

namespace Kernel

/-- Where a path leads, as far as that can be read off its text. -/
def locate (K : Kernel) (path : PosixPath) : Place :=
  if path = [] then .nowhere
  else if path = K.adminRoot then .root
  else if (PosixPath.directory K.adminRoot).isPrefixOf path then
    let rest := path.drop (PosixPath.directory K.adminRoot).length
    if PosixPath.IsEntryName rest then .sub rest
    else
      let dir := before (ch '/') rest
      let name := after (ch '/') rest
      if PosixPath.IsEntryName dir ∧ PosixPath.IsEntryName name then .entry dir name else .outside
  else .outside

/-- A path to the admin root is followed through a symbolic link only if it goes on behind it. -/
def seesRoot (K : Kernel) (s : System) : Bool :=
  s.rootLink.isNone || PosixPath.followsLast K.adminRoot

/-- The group of what a caller makes in a directory. -/
def newGroup (K : Kernel) (t : ℕ) (parent : Option Node) : UInt32 :=
  (parent.bind Node.passesOn).getD (K.cred t).gid

/-- A directory that a caller creates in another one; set-group-ID is passed on too. -/
def newDirectory (K : Kernel) (t : ℕ) (parent : Option Node) (mode : ℕ) : Node :=
  ⟨.directory, (K.cred t).uid, K.newGroup t parent, (mode ^^^ (mode &&& (K.cred t).umask)) |||
    if (parent.bind Node.passesOn).isSome then 0o2000 else 0⟩

/-- What the path of the admin root leads to when the missing directories on it are made.  With `..`
at its end that is the directory above, which is there already. -/
def newRoot (K : Kernel) (t : ℕ) : Node :=
  if PosixPath.lastName K.adminRoot = some (ofString "..") then K.above
  else K.newDirectory t (some K.above) 0o777

theorem newRoot_kind (K : Kernel) (t : ℕ) : (K.newRoot t).kind = .directory := by
  unfold newRoot
  split
  · exact K.aboveIsDirectory
  · rfl

/-- A file that a caller creates in a directory. -/
def newFile (K : Kernel) (t : ℕ) (parent : Option Node) (mode : ℕ) : Inode :=
  ⟨.regular, (K.cred t).uid, K.newGroup t parent, mode ^^^ (mode &&& (K.cred t).umask), [], some t⟩

end Kernel

/-- The longest name of an entry. -/
def NAME_MAX : ℕ := 255

/-- The error numbers with which a call about the tree can fail for reasons of its own. -/
def isFault (e : Errno) : Bool := e != ENOENT && e != EEXIST

/-- A call that fails for reasons of its own, or does what it is documented to do. -/
def failOr {α : Type} (s : System) (mayFail : Errno → Bool) (c : Choice)
    (go : Option (Except Errno α × System)) : Option (Except Errno α × System) :=
  match c with
  | .fault e => if mayFail e then some (.error e, s) else none
  | .go => go
  | _ => none

/-- A call that fails for reasons of its own, or changes nothing and delivers what it found. -/
def failOrFind {α : Type} (s : System) (mayFail : Errno → Bool) (c : Choice)
    (found : Option (Except Errno α)) : Option (Except Errno α × System) :=
  failOr s mayFail c (found.map fun r => (r, s))

def Node.stat (n : Node) : Stat := ⟨n.kind, n.uid, n.gid, n.mode, 4096⟩

def Inode.stat (n : Inode) : Stat := ⟨n.kind, n.uid, n.gid, n.mode, n.bytes.length⟩

namespace System

variable (K : Kernel) (t : ℕ) (s : System)

/-! ### Looking things up -/

/-- A directory in the admin root: found, missing, or not to be reached. -/
def findSub (dir : Bytes) : Option (Except Errno Node) :=
  match s.root with
  | none => some (.error ENOENT)
  | some node =>
    if node.kind ≠ .directory then none
    else match s.sub dir with
      | none => some (.error ENOENT)
      | some node => some (.ok node)

/-- An entry of a directory: found, missing, or not to be reached. -/
def findEntry (dir name : Bytes) : Option (Except Errno ℕ) :=
  if NAME_MAX < name.length then none
  else match s.findSub dir with
    | none => none
    | some (.error e) => some (.error e)
    | some (.ok node) =>
      if node.kind ≠ .directory then none
      else match s.entry dir name with
        | none => some (.error ENOENT)
        | some i => some (.ok i)

/-- `lstat` of a place in the tree. -/
def lstatAt : Place → Option (Except Errno Stat)
  | .nowhere => some (.error ENOENT)
  | .root =>
    if K.seesRoot s then
      match s.root with
      | none => some (.error ENOENT)
      | some node => some (.ok node.stat)
    else s.rootLink.map fun link => .ok link.stat
  | .sub dir => (s.findSub dir).map fun r => r.map Node.stat
  | .entry dir name => (s.findEntry dir name).map fun r => r.map fun i => (s.inode i).stat
  | .outside => none

/-- An inode that can be opened with the given flags.  The open of a FIFO is answered when its other
end is open. -/
def canOpen (i : ℕ) (flags : OpenFlags) : Bool :=
  (s.inode i).kind != .symlink &&
    (if flags.directory then (s.inode i).kind == .directory
      else flags.access == .rdonly || (s.inode i).kind != .directory)

/-- `open` of a place, without `O_CREAT`: what the new descriptor refers to. -/
def openAt (flags : OpenFlags) : Place → Option (Except Errno OfdTarget)
  | .nowhere => some (.error ENOENT)
  | .root =>
    if K.seesRoot s then
      match s.root with
      | none => some (.error ENOENT)
      | some node => if node.kind = .directory then some (.ok .root) else none
    else none
  | .sub dir =>
    match s.findSub dir with
    | none => none
    | some (.error e) => some (.error e)
    | some (.ok node) => if node.kind = .directory then some (.ok (.sub dir)) else none
  | .entry dir name =>
    match s.findEntry dir name with
    | none => none
    | some (.error e) => some (.error e)
    | some (.ok i) => if s.canOpen i flags then some (.ok (.ino i)) else none
  | .outside => some (.ok .outside)

/-- What a descriptor refers to. -/
def targetOf (fd : Fd) : Option OfdTarget := (s.ofd fd).map (·.target)

/-! ### The calls -/

/-- The new descriptor of a successful `open`. -/
def opened : Except Errno OfdTarget → Except Errno Fd × System
  | .ok target => (.ok s.nextFd, s.openFd target t)
  | .error e => (.error e, s)

/-- `create_directories`. -/
def createDirectories : Place → Option (Except Errno Unit × System)
  | .root =>
    match s.root with
    | none =>
      if s.rootLink.isNone then
        some (.ok (), s.setDirs (some (K.newRoot t)) s.sub)
      else none
    | some node => if node.kind = .directory then some (.ok (), s) else none
  | .sub dir =>
    match s.root with
    | none =>
      if s.rootLink.isNone then
        some (.ok (), s.setDirs (some (K.newRoot t))
          (Function.update s.sub dir (some (K.newDirectory t (some (K.newRoot t)) 0o777))))
      else none
    | some node =>
      if node.kind ≠ .directory then none
      else match s.sub dir with
        | none => some (.ok (), s.setDirs s.root
            (Function.update s.sub dir (some (K.newDirectory t s.root 0o777))))
        | some node =>
          if node.kind = .directory ∨ node.kind = .symlink then some (.ok (), s) else none
  | .outside => some (.ok (), s)
  | _ => none

/-- `chmod` and `fchmod` of a directory. -/
def setMode (target : Option OfdTarget) (mode : ℕ) : Option (Except Errno Unit × System) :=
  match target with
  | some .root => some (.ok (), s.setDirs (s.root.map fun n => { n with mode := mode }) s.sub)
  | some (.sub dir) => some (.ok (), s.setDirs s.root
      (Function.update s.sub dir ((s.sub dir).map fun n => { n with mode := mode })))
  | some .outside => some (.ok (), s)
  | _ => none

/-- A lookup that starts from the descriptor of a directory leads out of the tree: the directory is
outside or below a user directory, or the name is no name of an entry. -/
def leavesTree (dir : Fd) (name : Bytes) : Bool :=
  match s.targetOf dir with
  | some .root => !decide (PosixPath.IsEntryName name)
  | some (.sub _) => !decide (PosixPath.IsEntryName name)
  | some (.ino i) => (s.inode i).kind == .directory
  | some .outside => true
  | none => false

/-- `openat`, where it does not lead out of the tree. -/
def openatInside (dir : Fd) (name : Bytes) (flags : OpenFlags) :
    Option (Except Errno Fd × System) :=
  match s.targetOf dir with
  | some .root =>
    if flags.creat then none else (s.openAt K flags (.sub name)).map (s.opened t)
  | some (.sub sub) =>
    match s.findEntry sub name with
    | none => none
    | some (.error e) =>
      if flags.creat ∧ s.subIsDir sub then
        some (.ok s.nextFd,
          (s.create sub name (K.newFile t (s.sub sub) flags.mode)).openFd (.ino s.nextIno) t)
      else some (.error e, s)
    | some (.ok i) =>
      if flags.creat ∧ flags.excl then some (.error EEXIST, s)
      else if s.canOpen i flags then some (s.opened t (.ok (.ino i)))
      else none
  | _ => none

/-- `openat`. -/
def openat (dir : Fd) (name : Bytes) (flags : OpenFlags) : Option (Except Errno Fd × System) :=
  if s.leavesTree dir name then
    if flags.creat then none else some (s.opened t (.ok .outside))
  else s.openatInside K t dir name flags

/-- `fstatat`, where it does not lead out of the tree. -/
def fstatat (dir : Fd) (name : Bytes) : Option (Except Errno Stat) :=
  match s.targetOf dir with
  | some .root => s.lstatAt K (.sub name)
  | some (.sub sub) => s.lstatAt K (.entry sub name)
  | _ => none

/-- `fstat`, where the descriptor refers to the tree. -/
def fstat (fd : Fd) : Option (Except Errno Stat) :=
  match s.targetOf fd with
  | some .root => s.root.map fun n => .ok n.stat
  | some (.sub dir) => (s.sub dir).map fun n => .ok n.stat
  | some (.ino i) => some (.ok (s.inode i).stat)
  | _ => none

/-- `mkdirat`. -/
def mkdirat (dir : Fd) (name : Bytes) (mode : ℕ) : Option (Except Errno Unit × System) :=
  match s.targetOf dir with
  | some .root =>
    match s.findSub name with
    | none => none
    | some (.ok _) => some (.error EEXIST, s)
    | some (.error e) =>
      if s.rootIsDir then
        some (.ok (), s.setDirs s.root
          (Function.update s.sub name (some (K.newDirectory t s.root mode))))
      else some (.error e, s)
  | some .outside => some (.ok (), s)
  | _ => none

/-- `write` of `n` bytes at the offset of the descriptor. -/
def writeAt (fd : Fd) (data : Bytes) (n : ℕ) : Option (Except Errno ℕ × System) :=
  match s.ofd fd with
  | some ⟨.ino i, offset, _⟩ =>
    if 0 < n ∧ n ≤ data.length then
      let bytes := (s.inode i).bytes
      some (.ok n, (s.setBytes i (bytes.take offset ++ data.take n ++ bytes.drop (offset + n))).seek
        fd (offset + n))
    else none
  | _ => none

/-- `read` of `n` bytes at the offset of the descriptor. -/
def readAt (fd : Fd) (count n : ℕ) : Option (Except Errno Bytes × System) :=
  match s.ofd fd with
  | some ⟨.ino i, offset, _⟩ =>
    let rest := (s.inode i).bytes.drop offset
    if n ≤ count ∧ n ≤ rest.length then some (.ok (rest.take n), s.seek fd (offset + n)) else none
  | _ => none

/-- `renameat` within one directory. -/
def renameat (oldDir : Fd) (old : Bytes) (newDir : Fd) (new : Bytes) :
    Option (Except Errno Unit × System) :=
  match s.targetOf oldDir, s.targetOf newDir with
  | some (.sub dir), some (.sub dir') =>
    if dir ≠ dir' ∨ ¬ PosixPath.IsEntryName new ∨ NAME_MAX < new.length then none
    else match s.entry dir old with
      | none => some (.error ENOENT, s)
      | some i =>
        match s.entry dir new with
        | none => some (.ok (), s.renameEntry dir old new i)
        | some j =>
          if j = i then some (.ok (), s)
          else if (s.inode j).kind = .directory ∨ (s.inode i).kind = .directory then none
          else some (.ok (), s.renameEntry dir old new i)
  | _, _ => none

/-- The inode of an entry of an open directory. -/
def entryOf (dir : Fd) (name : Bytes) : Option ℕ :=
  match s.targetOf dir with
  | some (.sub sub) => s.entry sub name
  | _ => none

/-- `unlinkat`. -/
def unlinkat (dir : Fd) (name : Bytes) : Option (Except Errno Unit × System) :=
  match s.targetOf dir with
  | some (.sub sub) =>
    match s.entry sub name with
    | none => some (.error ENOENT, s)
    | some i =>
      if (s.inode i).kind = .directory then none else some (.ok (), s.removeEntry sub name)
  | _ => none

/-- `flock` with `LOCK_EX`: a lock that another descriptor holds has to be waited for. -/
def flock (fd : Fd) : Option (Except Errno Unit × System) :=
  match s.targetOf fd with
  | some (.ino i) =>
    match s.lock i with
    | none => some (.ok (), s.setLock i fd)
    | some fd' => if fd' = fd then some (.ok (), s) else none
  | _ => none

/-- `fsync` of a directory, as opposed to a file. -/
def isDirectoryFd (fd : Fd) : Bool :=
  match s.targetOf fd with
  | some .root => true
  | some (.sub _) => true
  | _ => false

/-- A manager that was told to restart a unit: afterwards the loaded definition is running, which is
so whenever the restart succeeds, or nothing is. -/
def restart (uid : UInt32) (unit : Bytes) (runs : Bool) : System :=
  s.setRunning uid unit (if runs then s.loaded uid unit else none)

/-- What a call does. -/
def step : (o : Sys) → Choice → Option (o.Resp × System)
  | .getpid => fun
    | .pid n => some (n, s)
    | _ => none
  | .getpwuid uid => fun
    -- a user that is found is the one that was asked for
    | .passwd (.ok (some pw)) => if pw.uid = uid then some (.ok (some pw), s) else none
    | .passwd r => some (r, s)
    | _ => none
  | .createDirectories path => fun c =>
    failOr s (fun e => isFault e || K.locate path = .outside) c
      (s.createDirectories K t (K.locate path))
  | .openPath path flags => fun c =>
    failOr s (fun e => isFault e || K.locate path = .outside) c
      (if flags.creat then none else (s.openAt K flags (K.locate path)).map (s.opened t))
  | .openat dir name flags => fun c =>
    failOr s (fun e => isFault e || s.leavesTree dir name) c (s.openat K t dir name flags)
  | .lstat path => fun
    -- outside the tree anything may be found
    | .stat st => if K.locate path = .outside then some (.ok st, s) else none
    | c => failOrFind s (fun e => isFault e || K.locate path = .outside) c
        (s.lstatAt K (K.locate path))
  | .fstatat dir name => fun
    | .stat st => if s.leavesTree dir name then some (.ok st, s) else none
    | c => failOrFind s (fun e => isFault e || s.leavesTree dir name) c
        (if s.leavesTree dir name then none else s.fstatat K dir name)
  | .fstat fd => fun
    | .stat st => if s.targetOf fd = some .outside then some (.ok st, s) else none
    | c => failOrFind s isFault c (s.fstat fd)
  | .chmod path mode => fun c =>
    failOr s (fun e => isFault e || K.locate path = .outside) c
      (s.setMode (K.locate path).directory mode)
  | .fchmod fd mode => fun c => failOr s isFault c (s.setMode (s.targetOf fd) mode)
  | .mkdirat dir name mode => fun c => failOr s isFault c (s.mkdirat K t dir name mode)
  | .write fd data => fun
    -- how much is written, or read, is up to the environment
    | .moved n => s.writeAt fd data n
    | c => failOr s isFault c none
  | .read fd count => fun
    | .moved n => s.readAt fd count n
    | c => failOr s isFault c none
  | .fsync fd => fun c =>
    -- for a directory `fsync` can be ruled out to fail
    failOr s (fun e => isFault e && (K.dirFsyncFails || !s.isDirectoryFd fd)) c (some (.ok (), s))
  | .close fd => fun
    | .go => some ((), s.closeFd fd)
    | _ => none
  | .renameat oldDir old newDir new => fun c =>
    failOr s isFault c (s.renameat oldDir old newDir new)
  | .unlinkat dir name => fun c =>
    -- so can `unlinkat`, unless a directory stands in the place of the file
    failOr s (fun e => isFault e && (K.unlinkFails ||
      (s.entryOf dir name).any fun i => (s.inode i).kind == .directory)) c (s.unlinkat dir name)
  | .flock fd => fun c => failOr s isFault c (s.flock fd)
  | .curl _ => fun
    | .http r => some (r, s)
    | _ => none
  | .daemonReload target => fun
    | .reload (.ok u) => some (.ok u, s.reload target.uid)
    | .reload (.error e) => some (.error e, s)
    | _ => none
  | .restartUnit target unit => fun
    -- a restart that fails may leave the loaded definition running
    | .restart r leavesRunning =>
      some (r, s.restart target.uid unit (r.toBool || leavesRunning))
    | _ => none
  | .status _ _ => fun
    | .status r => some (r, s)
    | _ => none

end System

end PodInstaller
