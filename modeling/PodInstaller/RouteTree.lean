/-
**A file system along one route.**

The kernel's walk takes no two routes to the same place in every file system.  Given a route, there
is a file system in which it leads to a socket and nothing else does: every name on the route but
the last is a symbolic link to a directory that lies deep below the one that it is found in, so that
the `..` behind it lead to places that only this route knows.

A place on the walk is told by the names that were looked up, each with the number of `..` that came
before it, and by the number of `..` since the last one.  The directory behind a name is reached
from the directory with the link through a chain of directories as long as any number of `..` to
come; their names are longer than the names of the routes.

Main definitions:

* `PodInstaller.RouteTree.Spot` — directories, links and the socket;
* `PodInstaller.RouteTree.lookedUp` — the lookups that lead to a directory, the last one first;
* `PodInstaller.RouteTree.alongRoute` — the file system.

Main results:

* `PodInstaller.RouteTree.walk_goal` — **the route leads to the socket**;
* `PodInstaller.RouteTree.walk_only_goal` — **no other route does**.
-/

import PodInstaller.PathResolution

set_option relaxedAutoImplicit false
set_option autoImplicit false

namespace PodInstaller

open Bytes PosixPath

namespace RouteTree

/-! ### The tree -/

/-- The inodes.  A directory is told by the names on the way to it, the last one first, each with
the number of `..` looked up before it, and the number of `..` looked up since. -/
inductive Spot
  | directory (ups : ℕ) (way : List (ℕ × Bytes))
  | link (ups : ℕ) (way : List (ℕ × Bytes)) (name : Bytes)
  | socket

/-- The lookups that lead to a directory, the last one first. -/
def lookedUp : ℕ → List (ℕ × Bytes) → List Bytes
  | ups, [] => List.replicate ups (ofString "..")
  | ups, (before, name) :: way =>
    List.replicate ups (ofString "..") ++ name :: lookedUp before way

theorem lookedUp_succ (ups : ℕ) (way : List (ℕ × Bytes)) :
    lookedUp (ups + 1) way = ofString ".." :: lookedUp ups way := by
  cases way <;> rfl

@[simp] theorem lookedUp_name (ups : ℕ) (name : Bytes) (way : List (ℕ × Bytes)) :
    lookedUp 0 ((ups, name) :: way) = name :: lookedUp ups way := rfl

section

/- Whether the route is absolute, the length of the chains, their name, the lookups of the route,
the last one first, and the owner of the socket. -/
variable (absolute : Bool) (length : ℕ) (chain : Bytes) (goal : List Bytes) (owner : UInt32)

/-- How far up the chain of a directory reaches. -/
def climb : List (ℕ × Bytes) → ℕ
  | [] => if absolute then 0 else length
  | _ :: _ => length

/-- The directory that a chain starts from. -/
def chainStart (ups : ℕ) : List (ℕ × Bytes) → Spot
  | [] => .directory ups []
  | (before, _) :: way => .directory before way

/-- The parent of a directory. -/
def above : Spot → Spot
  | .directory ups way =>
    if ups < climb absolute length way then .directory (ups + 1) way else chainStart ups way
  | .link ups way _ => .directory ups way
  | .socket => .directory 0 []

/-- The next directory down a chain. -/
def below (way : List (ℕ × Bytes)) : ℕ → Option Spot
  | 0 => none
  | ups + 1 => if ups < climb absolute length way then some (.directory ups way) else none

/-- The entries of a directory: the next directory down the chain, the first one of the chain to the
directory behind a name, and the name itself. -/
def entryAlong : Spot → Bytes → Option Spot
  | .directory ups way, x =>
    if ¬ IsEntryName x then none
    else if x = chain then below absolute length way ups
    else if chain <+: x then
      if x.drop chain.length :: lookedUp ups way <:+ goal then
        some (.directory length ((ups, x.drop chain.length) :: way))
      else none
    else if x :: lookedUp ups way = goal then some .socket
    else if x :: lookedUp ups way <:+ goal then some (.link ups way x)
    else none
  | .link _ _ _, _ => none
  | .socket, _ => none

/-- The text of a link: down the chain to the directory behind the name. -/
def linkAlong : Spot → Bytes
  | .link _ _ name => join ((chain ++ name) :: List.replicate length chain)
  | _ => []

/-- What `lstat` delivers. -/
def statAlong : Spot → Stat
  | .directory _ _ => ⟨.directory, 0, 0, 0o755, 0⟩
  | .link _ _ _ => ⟨.symlink, 0, 0, 0o777, 0⟩
  | .socket => ⟨.socket, owner, 0, 0o600, 0⟩

theorem entryAlong_name {d i : Spot} {x : Bytes}
    (h : entryAlong absolute length chain goal d x = some i) : IsEntryName x := by
  cases d with
  | directory ups way =>
      by_contra hx
      rw [entryAlong, if_pos hx] at h
      cases h
  | link ups way name => cases h
  | socket => cases h

theorem below_above {way : List (ℕ × Bytes)} {ups : ℕ} {i : Spot}
    (h : below absolute length way ups = some i) :
    above absolute length i = .directory ups way := by
  cases ups with
  | zero => cases h
  | succ ups =>
      rw [below] at h
      split at h
      · rename_i hups
        obtain rfl := Option.some.inj h
        rw [above, if_pos hups]
      · cases h

theorem entryAlong_above {d i : Spot} {x : Bytes}
    (h : entryAlong absolute length chain goal d x = some i)
    (hi : (statAlong owner i).kind = .directory) : above absolute length i = d := by
  cases d with
  | link ups way name => cases h
  | socket => cases h
  | directory ups way =>
      have hx := entryAlong_name absolute length chain goal h
      rw [entryAlong, if_neg (not_not.2 hx)] at h
      split at h
      · exact below_above absolute length h
      · split at h
        · split at h
          · -- the first directory of a chain
            obtain rfl := Option.some.inj h
            rw [above, climb, if_neg (lt_irrefl _)]
            rfl
          · cases h
        · split at h
          · obtain rfl := Option.some.inj h
            cases hi
          · split at h
            · obtain rfl := Option.some.inj h
              cases hi
            · cases h

theorem above_directory (d : Spot) :
    (statAlong owner (above absolute length d)).kind = .directory := by
  cases d with
  | directory ups way =>
      rw [above]
      split
      · rfl
      · cases way <;> rfl
  | link ups way name => rfl
  | socket => rfl

/-- **The file system along a route.** -/
def alongRoute : FileSystem Spot where
  stat := statAlong owner
  entry := entryAlong absolute length chain goal
  link := linkAlong length chain
  parent := above absolute length
  root := .directory (climb absolute length []) []
  cwd := .directory 0 []
  maxLinks := goal.length
  entry_name _ _ _ h := entryAlong_name absolute length chain goal h
  root_directory := rfl
  cwd_directory := rfl
  parent_directory d _ := above_directory absolute length owner d
  parent_root := by
    rw [above, if_neg (lt_irrefl _)]
    rfl
  parent_entry _ _ _ h hi := entryAlong_above absolute length chain goal owner h hi

@[simp] theorem alongRoute_entry (d : Spot) (x : Bytes) :
    (alongRoute absolute length chain goal owner).entry d x =
      entryAlong absolute length chain goal d x := rfl

@[simp] theorem alongRoute_parent (d : Spot) :
    (alongRoute absolute length chain goal owner).parent d = above absolute length d := rfl

@[simp] theorem alongRoute_link (i : Spot) :
    (alongRoute absolute length chain goal owner).link i = linkAlong length chain i := rfl

@[simp] theorem alongRoute_stat (i : Spot) :
    (alongRoute absolute length chain goal owner).stat i = statAlong owner i := rfl

end

/-! ### The walk along the tree -/

section

variable {absolute : Bool} {length n : ℕ} {chain : Bytes} {goal l rest : List Bytes}
variable {owner : UInt32} {nofollow : Bool} {ups : ℕ} {way : List (ℕ × Bytes)} {x : Bytes}

/-- The walk in the file system along a route, from one of its directories. -/
abbrev walkAlong (absolute : Bool) (length : ℕ) (chain : Bytes) (goal : List Bytes)
    (owner : UInt32) (nofollow : Bool) (n ups : ℕ) (way : List (ℕ × Bytes)) (l : List Bytes) :
    Except Errno Spot :=
  (alongRoute absolute length chain goal owner).walk nofollow n (.directory ups way) l

/-- A name that is no name of a chain. -/
def Fresh (chain x : Bytes) : Prop := IsEntryName x ∧ ¬ chain <+: x

/-- Where a `..` leads up the chain. -/
theorem walkAlong_up (hups : ups < climb absolute length way) :
    walkAlong absolute length chain goal owner nofollow n ups way (ofString ".." :: rest) =
      walkAlong absolute length chain goal owner nofollow n (ups + 1) way rest := by
  rw [walkAlong, FileSystem.walk_up rfl, alongRoute_parent, above, if_pos hups]

/-- Down a chain. -/
theorem walkAlong_chain (hchain : IsEntryName chain) (hups : ups ≤ climb absolute length way) :
    walkAlong absolute length chain goal owner nofollow n ups way
        (List.replicate ups chain ++ rest) =
      walkAlong absolute length chain goal owner nofollow n 0 way rest := by
  induction ups with
  | zero => rfl
  | succ ups ih =>
      have hentry : (alongRoute absolute length chain goal owner).entry
          (.directory (ups + 1) way) chain = some (.directory ups way) := by
        rw [alongRoute_entry, entryAlong, if_neg (not_not.2 hchain), if_pos rfl, below,
          if_pos (Nat.lt_of_succ_le hups)]
      rw [List.replicate_succ, List.cons_append, walkAlong, FileSystem.walk_name rfl hchain.2,
        hentry]
      dsimp only
      rw [if_neg (by rintro ⟨h, -⟩; cases h)]
      exact ih (Nat.le_of_succ_le hups)

/-- A name behind a name is a name. -/
theorem isEntryName_append (hchain : IsEntryName chain) (hx : IsEntryName x) :
    IsEntryName (chain ++ x) := by
  obtain ⟨⟨hne, hslash⟩, hdot, -⟩ := hchain
  obtain ⟨⟨hne', hslash'⟩, -, -⟩ := hx
  refine ⟨⟨by simp [hne], by simp [hslash, hslash']⟩, ?_, ?_⟩
  · intro h
    have hlength := congrArg List.length h
    rw [List.length_append] at hlength
    have h₁ := List.length_pos_iff.2 hne
    have h₂ := List.length_pos_iff.2 hne'
    have h₃ : (ofString ".").length = 1 := rfl
    omega
  · intro h
    -- two names that make `..` are `.` both
    obtain ⟨c, rest, rfl⟩ := List.exists_cons_of_ne_nil hne
    obtain ⟨c', rest', rfl⟩ := List.exists_cons_of_ne_nil hne'
    have hsplit : c :: (rest ++ c' :: rest') = [ch '.', ch '.'] := h
    obtain ⟨rfl, htail⟩ := List.cons.inj hsplit
    have hrest : rest = [] := by
      have hlength := congrArg List.length htail
      rw [List.length_append] at hlength
      simp only [List.length_cons, List.length_nil] at hlength
      exact List.eq_nil_of_length_eq_zero (by omega)
    rw [hrest] at hdot
    exact hdot rfl

/-- The text of a link is looked up name by name, in the directory of the link. -/
theorem lookups_linkAlong (length ups : ℕ) (way : List (ℕ × Bytes)) (hchain : IsEntryName chain)
    (hx : IsEntryName x) :
    linkAlong length chain (.link ups way x) ≠ [] ∧
      isAbsolute (linkAlong length chain (.link ups way x)) = false ∧
      lookups (linkAlong length chain (.link ups way x)) =
        (chain ++ x) :: List.replicate length chain := by
  have hnames : ∀ m ∈ (chain ++ x) :: List.replicate length chain, IsName m := by
    intro m hm
    rcases List.mem_cons.1 hm with rfl | hm
    · exact ⟨by simp [hchain.1.1], by simp [hchain.1.2, hx.1.2]⟩
    · rw [List.eq_of_mem_replicate hm]
      exact hchain.1
  have hcomponents := names_join hnames
  refine ⟨?_, ?_, ?_⟩
  · intro hnil
    rw [linkAlong] at hnil
    rw [hnil] at hcomponents
    cases hcomponents
  · simpa [isAbsolute, linkAlong] using head?_join hnames
  · rw [lookups, linkAlong, hcomponents, hasTrailingSlash]
    simp [getLast?_join hnames]

/-- The entry of a name that is no name of a chain. -/
theorem entryAlong_fresh (hx : Fresh chain x) :
    entryAlong absolute length chain goal (.directory ups way) x =
      if x :: lookedUp ups way = goal then some .socket
      else if x :: lookedUp ups way <:+ goal then some (.link ups way x)
      else none := by
  have hself : x ≠ chain := fun h => hx.2 (h ▸ List.prefix_rfl)
  rw [entryAlong, if_neg (not_not.2 hx.1), if_neg hself, if_neg hx.2]

/-- The last name of the route. -/
theorem walkAlong_socket (hx : Fresh chain x) (hgoal : x :: lookedUp ups way = goal) :
    walkAlong absolute length chain goal owner nofollow n ups way (x :: rest) =
      (alongRoute absolute length chain goal owner).walk nofollow n .socket rest := by
  rw [walkAlong, FileSystem.walk_name rfl hx.1.2, alongRoute_entry, entryAlong_fresh hx,
    if_pos hgoal]
  dsimp only
  rw [if_neg (by rintro ⟨h, -⟩; cases h)]

/-- **Through a link**: the walk goes on in the directory behind the name. -/
theorem walkAlong_link (hchain : IsEntryName chain) (hx : Fresh chain x)
    (hgoal : x :: lookedUp ups way <:+ goal) (hne : x :: lookedUp ups way ≠ goal)
    (hrest : ¬ (rest = [] ∧ nofollow = true)) :
    walkAlong absolute length chain goal owner nofollow (n + 1) ups way (x :: rest) =
      walkAlong absolute length chain goal owner nofollow n 0 ((ups, x) :: way) rest := by
  have hentry : entryAlong absolute length chain goal (.directory ups way) x =
      some (.link ups way x) := by
    rw [entryAlong_fresh hx, if_neg hne, if_pos hgoal]
  obtain ⟨htext, habs, hlookups⟩ := lookups_linkAlong length ups way hchain hx.1
  have hfirst : entryAlong absolute length chain goal (.directory ups way) (chain ++ x) =
      some (.directory length ((ups, x) :: way)) := by
    have hself : chain ++ x ≠ chain := by simp [hx.1.1.1]
    rw [entryAlong, if_neg (not_not.2 (isEntryName_append hchain hx.1)), if_neg hself,
      if_pos (List.prefix_append chain x), List.drop_left, if_pos hgoal]
  rw [walkAlong, FileSystem.walk_name rfl hx.1.2, alongRoute_entry, hentry]
  dsimp only
  rw [if_pos ⟨rfl, hrest⟩, FileSystem.follow, alongRoute_link, if_neg htext, FileSystem.start, habs,
    if_neg Bool.false_ne_true, hlookups, List.cons_append,
    FileSystem.walk_name rfl (isEntryName_append hchain hx.1).2, alongRoute_entry, hfirst]
  dsimp only
  rw [if_neg (by rintro ⟨h, -⟩; cases h)]
  exact walkAlong_chain hchain le_rfl

/-- What is looked up is `..` or a name that is no name of a chain, and a first `..` leads up a
chain. -/
structure Passable (absolute : Bool) (length : ℕ) (chain : Bytes) (ups : ℕ)
    (way : List (ℕ × Bytes)) (l : List Bytes) : Prop where
  fresh : ∀ x ∈ l, x = ofString ".." ∨ Fresh chain x
  rooted : l.head? = some (ofString "..") → climb absolute length way = length
  short : ups + l.length ≤ length

theorem Passable.up (h : Passable absolute length chain ups way (ofString ".." :: l)) :
    Passable absolute length chain (ups + 1) way l ∧ ups < climb absolute length way := by
  have hclimb := h.rooted rfl
  have hshort := h.short
  rw [List.length_cons] at hshort
  refine ⟨⟨fun x hx => h.fresh x (List.mem_cons_of_mem _ hx), fun _ => hclimb, by omega⟩, ?_⟩
  rw [hclimb]
  omega

theorem Passable.name (h : Passable absolute length chain ups way (x :: l)) :
    Passable absolute length chain 0 ((ups, x) :: way) l := by
  have hshort := h.short
  rw [List.length_cons] at hshort
  exact ⟨fun y hy => h.fresh y (List.mem_cons_of_mem _ hy), fun _ => rfl, by omega⟩

/-- **The route leads to the socket.** -/
theorem walk_goal (hchain : IsEntryName chain) (hl : Passable absolute length chain ups way l)
    (hlast : ∃ c ∈ l.getLast?, c ≠ ofString "..") (hn : l.length ≤ n)
    (hgoal : l.reverse ++ lookedUp ups way = goal) :
    walkAlong absolute length chain goal owner true n ups way l = .ok .socket := by
  induction l generalizing n ups way with
  | nil =>
      obtain ⟨c, hc, -⟩ := hlast
      cases hc
  | cons x rest ih =>
      rw [List.reverse_cons, List.append_assoc, List.singleton_append] at hgoal
      rw [List.length_cons] at hn
      have hlast' : rest ≠ [] → ∃ c ∈ rest.getLast?, c ≠ ofString ".." := by
        intro hrest
        rwa [List.getLast?_cons_of_ne_nil hrest] at hlast
      by_cases hup : x = ofString ".."
      · subst hup
        obtain ⟨hpass, hups⟩ := hl.up
        have hrest : rest ≠ [] := by
          rintro rfl
          obtain ⟨c, hc, hne⟩ := hlast
          exact hne (Option.some.inj hc).symm
        rw [walkAlong_up hups]
        refine ih hpass (hlast' hrest) (by omega) ?_
        rw [lookedUp_succ]
        exact hgoal
      · have hx := (hl.fresh x List.mem_cons_self).resolve_left hup
        by_cases hrest : rest = []
        · -- the last name is the socket
          subst hrest
          rw [List.reverse_nil, List.nil_append] at hgoal
          rw [walkAlong_socket hx hgoal, FileSystem.walk_nil]
        · obtain ⟨n, rfl⟩ := Nat.exists_eq_succ_of_ne_zero (by omega : n ≠ 0)
          have hne : x :: lookedUp ups way ≠ goal := by
            intro heq
            have hlength := congrArg List.length (heq.trans hgoal.symm)
            have hpos := List.length_pos_iff.2 hrest
            rw [List.length_append, List.length_reverse] at hlength
            omega
          rw [Nat.succ_eq_add_one, walkAlong_link hchain hx ⟨rest.reverse, hgoal⟩ hne
            (fun h => hrest h.1)]
          exact ih hl.name (hlast' hrest) (by omega) hgoal

/-- **No other route does.** -/
theorem walk_only_goal (hchain : IsEntryName chain) (hl : Passable absolute length chain ups way l)
    (h : walkAlong absolute length chain goal owner false n ups way l = .ok .socket) :
    l.reverse ++ lookedUp ups way = goal := by
  induction l generalizing n ups way with
  | nil =>
      rw [walkAlong, FileSystem.walk_nil] at h
      cases h
  | cons x rest ih =>
      rw [List.reverse_cons, List.append_assoc, List.singleton_append]
      by_cases hup : x = ofString ".."
      · subst hup
        obtain ⟨hpass, hups⟩ := hl.up
        rw [walkAlong_up hups] at h
        rw [← lookedUp_succ]
        exact ih hpass h
      · have hx := (hl.fresh x List.mem_cons_self).resolve_left hup
        by_cases hsocket : x :: lookedUp ups way = goal
        · -- behind a socket nothing can be looked up
          have hrest : rest = [] := by
            by_contra hrest
            have hkind : ((alongRoute absolute length chain goal owner).stat .socket).kind ≠
                .directory := by
              intro hkind
              cases hkind
            rw [walkAlong_socket hx hsocket, FileSystem.walk_notDirectory hkind hrest] at h
            cases h
          rw [hrest]
          exact hsocket
        · by_cases hsuffix : x :: lookedUp ups way <:+ goal
          · cases n with
            | zero =>
                rw [walkAlong, FileSystem.walk_name rfl hx.1.2, alongRoute_entry,
                  entryAlong_fresh hx, if_neg hsocket, if_pos hsuffix] at h
                dsimp only at h
                rw [if_pos ⟨rfl, fun h => Bool.false_ne_true h.2⟩] at h
                cases h
            | succ n =>
                rw [walkAlong_link hchain hx hsuffix hsocket (fun h => Bool.false_ne_true h.2)] at h
                exact ih hl.name h
          · rw [walkAlong, FileSystem.walk_name rfl hx.1.2, alongRoute_entry, entryAlong_fresh hx,
              if_neg hsocket, if_neg hsuffix] at h
            cases h

end

/-! ### Two routes -/

/-- A name that is longer than every name of a list. -/
def longName (l : List Bytes) : Bytes := List.replicate (l.flatten.length + 3) (ch 'z')

theorem length_longName (l : List Bytes) : (longName l).length = l.flatten.length + 3 :=
  List.length_replicate

theorem isEntryName_longName (l : List Bytes) : IsEntryName (longName l) := by
  have hshort : ∀ s : Bytes, s.length ≤ 2 → longName l ≠ s := by
    rintro s hs rfl
    rw [length_longName] at hs
    omega
  refine ⟨⟨hshort [] (by decide), ?_⟩, hshort "." (by decide), hshort ".." (by decide)⟩
  intro hmem
  cases List.eq_of_mem_replicate hmem

theorem fresh_longName {l : List Bytes} {x : Bytes} (hx : IsEntryName x) (hmem : x ∈ l) :
    Fresh (longName l) x := by
  refine ⟨hx, fun hprefix => ?_⟩
  have hle := hprefix.length_le
  have hlength := (List.sublist_flatten_of_mem hmem).length_le
  rw [length_longName] at hle
  omega

section

variable {p q : PosixPath}

/-- A route consists of names and `..`. -/
theorem mem_route {x : Bytes} (h : x ∈ route p) : x = ofString ".." ∨ IsEntryName x := by
  have hfilter : x ∈ (lookups p).filter (· ≠ ofString ".") := by
    unfold route at h
    split at h
    · exact (List.dropWhile_sublist _).mem h
    · exact h
  obtain ⟨hmem, hdot⟩ := List.mem_filter.1 hfilter
  have hdot' : x ≠ ofString "." := by simpa using hdot
  have hname : IsName x := by
    rcases List.mem_append.1 hmem with hmem | hmem
    · exact isName_of_mem_names hmem
    · split at hmem
      · exact absurd (List.mem_singleton.1 hmem) hdot'
      · cases hmem
  by_cases hup : x = ofString ".."
  · exact .inl hup
  · exact .inr ⟨hname, hdot', hup⟩

/-- The route of a path that ends in a name ends in that name. -/
theorem getLast?_route (h : EndsInName p) : ∃ c ∈ (route p).getLast?, c ≠ ofString ".." := by
  obtain ⟨c, hlast, hdot, hup⟩ := h
  obtain ⟨front, hfront⟩ := List.getLast?_eq_some_iff.1 hlast
  have hfilter : (lookups p).filter (· ≠ ofString ".") =
      front.filter (· ≠ ofString ".") ++ [c] := by
    rw [hfront, List.filter_append, List.filter_cons_of_pos (by simpa using hdot)]
    rfl
  refine ⟨c, ?_, hup⟩
  rw [Option.mem_def, route, hfilter]
  split
  · rw [List.dropWhile_append]
    split
    · rw [List.dropWhile_cons_of_neg (by simpa using hup)]
      rfl
    · exact List.getLast?_concat
  · exact List.getLast?_concat

/-- A route can be walked from where its path starts. -/
theorem passable_route (chain : Bytes) (length : ℕ)
    (hfresh : ∀ x ∈ route p, IsEntryName x → Fresh chain x) (hlength : (route p).length ≤ length) :
    Passable (isAbsolute p) length chain 0 [] (route p) := by
  refine ⟨fun x hx => (mem_route hx).imp_right (hfresh x hx), ?_, by omega⟩
  intro hhead
  cases habs : isAbsolute p with
  | false => rfl
  | true =>
      -- the leading `..` are left out
      rw [route, if_pos habs] at hhead
      have hfirst := List.head?_dropWhile_not (· = ofString "..")
        ((lookups p).filter (· ≠ ofString "."))
      rw [hhead] at hfirst
      simp at hfirst

/-- The walk along a route starts at the end of no chain. -/
theorem resolve_alongRoute (hp : EndsInName p) (length : ℕ) (chain : Bytes) (goal : List Bytes)
    (owner : UInt32) (nofollow : Bool) :
    (alongRoute (isAbsolute p) length chain goal owner).resolve nofollow p =
      walkAlong (isAbsolute p) length chain goal owner nofollow goal.length 0 [] (route p) := by
  rw [FileSystem.resolve_eq_walk_route hp]
  congr 1
  unfold FileSystem.start alongRoute climb
  cases isAbsolute p <;> rfl

/-- **Two routes are told apart by a file system**: one of them leads to a socket there, and the
other one does not. -/
theorem exists_fileSystem (hp : EndsInName p) (habs : isAbsolute p = isAbsolute q)
    (hroute : ¬ (EndsInName q ∧ route p = route q)) (owner : UInt32) :
    ∃ fs : FileSystem Spot, fs.resolve true p = .ok .socket ∧
      fs.resolve false q ≠ .ok .socket ∧ fs.stat .socket = ⟨.socket, owner, 0, 0o600, 0⟩ := by
  let chain := longName (route p ++ route q)
  let length := (route p).length + (route q).length
  have hchain : IsEntryName chain := isEntryName_longName _
  have hpass : Passable (isAbsolute p) length chain 0 [] (route p) :=
    passable_route chain length (fun x hx hname => fresh_longName hname (List.mem_append_left _ hx))
      (Nat.le_add_right _ _)
  have hpass' : Passable (isAbsolute q) length chain 0 [] (route q) :=
    passable_route chain length
      (fun x hx hname => fresh_longName hname (List.mem_append_right _ hx)) (Nat.le_add_left _ _)
  refine ⟨alongRoute (isAbsolute p) length chain (route p).reverse owner, ?_, ?_, rfl⟩
  · rw [resolve_alongRoute hp]
    exact walk_goal hchain hpass (getLast?_route hp) (List.length_reverse).ge (List.append_nil _)
  · intro h
    have hq : EndsInName q := by
      by_contra hq
      cases FileSystem.resolve_directory hq h
    rw [habs, resolve_alongRoute hq] at h
    have hsame : (route q).reverse ++ lookedUp 0 [] = (route p).reverse :=
      walk_only_goal hchain hpass' h
    rw [lookedUp, List.replicate_zero, List.append_nil] at hsame
    exact hroute ⟨hq, (List.reverse_injective hsame).symm⟩

end

end RouteTree

end PodInstaller
