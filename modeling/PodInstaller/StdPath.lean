/-
**POSIX paths as `std::filesystem::path` takes them apart.**

A path is its native text; the operations look at it as a sequence of components.  Iterating a
path delivers the root directory, if the text starts with a slash, then the names between the
slashes, and an empty last component if the text ends with a slash after a name.  Runs of slashes
count as one.  Nothing here mentions any particular program.

Main definitions:

* `PosixPath.components`, `PosixPath.isAbsolute`, `PosixPath.same` — iterating and comparing paths;
* `PosixPath.append`, `PosixPath.filename`, `PosixPath.parentPath` — building paths and taking them
  apart;
* `PosixPath.followsLast` — the paths that lead through a link at their last name;
* `PosixPath.lexicallyNormal` — removing `.` and `..` on the text alone.

Main results:

* `PosixPath.components_join` — the components of joined names are the names;
* `PosixPath.filename_append`, `PosixPath.parentPath_append` — taking a path apart that was built
  from a directory and a name;
* `PosixPath.lexicallyNormal_of_plain` — normalising a path without `.`, `..` and a trailing slash
  keeps its names;
* `PosixPath.components_lexicallyNormal` — such a path keeps its components;
* `PosixPath.same_append` — paths are the same only if their last names are.
-/

import PodInstaller.ByteString

set_option relaxedAutoImplicit false
set_option autoImplicit false

/-- A path: its native text. -/
abbrev PosixPath := Bytes

namespace PosixPath

open Bytes

/-! ### Components -/

/-- `is_absolute`. -/
def isAbsolute (p : PosixPath) : Bool := p.head? == some (ch '/')

/-- The names of a path: what stands between its slashes. -/
def names (p : PosixPath) : List Bytes := (p.splitOn (ch '/')).filter (· ≠ [])

/-- A path that ends with a slash after a name. -/
def hasTrailingSlash (p : PosixPath) : Bool := p.getLast? == some (ch '/') && names p ≠ []

/-- What iterating a path delivers. -/
def components (p : PosixPath) : List Bytes :=
  (if isAbsolute p then [[ch '/']] else []) ++ names p ++ if hasTrailingSlash p then [[]] else []

/-- `operator==`: paths are compared component by component. -/
def same (p q : PosixPath) : Bool := components p == components q

/-- A text that can be the name of a directory entry. -/
def IsName (n : Bytes) : Prop := n ≠ [] ∧ ch '/' ∉ n

instance (n : Bytes) : Decidable (IsName n) := inferInstanceAs (Decidable (_ ∧ _))

/-- A name that is looked up in a directory without leaving it. -/
def IsEntryName (n : Bytes) : Prop := IsName n ∧ n ≠ "." ∧ n ≠ ".."

instance (n : Bytes) : Decidable (IsEntryName n) := inferInstanceAs (Decidable (_ ∧ _))

/-! ### Building and taking apart -/

/-- What `operator/` puts in front of a name. -/
def directory (p : PosixPath) : PosixPath :=
  if p = [] ∨ p.getLast? = some (ch '/') then p else p ++ [ch '/']

/-- `operator/`. -/
def append (p q : PosixPath) : PosixPath := if isAbsolute q then q else directory p ++ q

/-- `filename`. -/
def filename (p : PosixPath) : PosixPath := p.rtakeWhile (· != ch '/')

/-- The last name of a path that is not `.`. -/
def lastName (p : PosixPath) : Option Bytes := ((names p).filter (· ≠ ofString ".")).getLast?

/-- A path goes on behind its last name with slashes or `.`, so that a link at that name is followed
by calls that do not follow links. -/
def followsLast (p : PosixPath) : Bool :=
  (filename p == [] || filename p == ".") && (lastName p).any (· != ofString "..")

/-- `parent_path`: the text up to the end of the component before the last one. -/
def parentPath (p : PosixPath) : PosixPath :=
  if names p = [] then p
  else
    let dir := p.rdropWhile (· != ch '/')
    match dir.rdropWhile (· == ch '/') with
    | [] => if dir = [] then [] else [ch '/']
    | parent => parent

/-- Names joined by slashes. -/
def join (ns : List Bytes) : PosixPath := [ch '/'].intercalate ns

/-! ### Normalising -/

/-- One component of the normalisation, on the stack of the names kept so far. -/
def normalStep (absolute : Bool) (stack : List Bytes) (c : Bytes) : List Bytes :=
  if c = [] ∨ c = "." then stack
  else if c = ".." then
    match stack with
    | [] => if absolute then [] else [c]
    | top :: rest => if top = ".." then c :: stack else rest
  else c :: stack

/-- The slash at the end of a normal form: it stays behind a name, not behind `..`. -/
def closingSlash (parts stack : List Bytes) : Bytes :=
  if (parts.getLast?.any fun c : Bytes => c.isEmpty || c == "." || c == "..") = true ∧
      stack.head? ≠ some (ofString "..") then [ch '/'] else []

/-- `lexically_normal`.  One slash is put where the path starts with several; libstdc++ leaves two
of them there, which is the same path and shows in the text only. -/
def lexicallyNormal (p : PosixPath) : PosixPath :=
  if p = [] then []
  else
    let parts := names p ++ if hasTrailingSlash p then [[]] else []
    let stack := parts.foldl (normalStep (isAbsolute p)) []
    let root : PosixPath := if isAbsolute p then [ch '/'] else []
    if stack = [] then if isAbsolute p then root else "."
    else root ++ join stack.reverse ++ closingSlash parts stack

/-! ### The names of a path -/

theorem isName_of_mem_names {p : PosixPath} {n : Bytes} (h : n ∈ names p) : IsName n := by
  rw [names, List.mem_filter] at h
  exact ⟨by simpa using h.2, notMem_of_mem_splitOn n h.1⟩

@[simp] theorem names_nil : names [] = [] := by simp [names]

theorem names_of_isName {n : Bytes} (h : IsName n) : names n = [n] := by
  simp [names, List.splitOn_eq_singleton h.2, h.1]

/-- A slash separates the names on its two sides. -/
theorem names_append_slash (p q : PosixPath) : names (p ++ ch '/' :: q) = names p ++ names q := by
  rw [names, List.splitOn_append_cons_self, List.filter_append, names, names]

theorem names_slash_cons (q : PosixPath) : names (ch '/' :: q) = names q := by
  have := names_append_slash [] q
  simpa using this

/-- Appending a name to a path. -/
theorem append_of_isName (p : PosixPath) {n : Bytes} (h : IsName n) :
    append p n = directory p ++ n := by
  have habs : isAbsolute n = false := by
    obtain ⟨hne, hslash⟩ := h
    cases n with
    | nil => exact absurd rfl hne
    | cons c n =>
        rw [List.mem_cons, not_or] at hslash
        simpa [isAbsolute] using Ne.symm hslash.1
  rw [append, habs]
  rfl

theorem names_append (p : PosixPath) {n : Bytes} (h : IsName n) :
    names (append p n) = names p ++ [n] := by
  rw [append_of_isName p h, directory]
  split
  · rename_i hp
    rcases hp with rfl | hp
    · simp [names_of_isName h]
    · obtain ⟨front, rfl⟩ := List.getLast?_eq_some_iff.1 hp
      rw [List.append_assoc, List.singleton_append, names_append_slash, names_append_slash,
        names_of_isName h]
      simp
  · rw [List.append_assoc, List.singleton_append, names_append_slash, names_of_isName h]

/-- A path that ends with a name does not end with a slash. -/
theorem hasTrailingSlash_append (p : PosixPath) {n : Bytes} (h : IsName n) :
    hasTrailingSlash (append p n) = false := by
  obtain ⟨init, c, rfl⟩ : ∃ init c, n = init ++ [c] := by
    rcases List.eq_nil_or_concat n with rfl | ⟨init, c, rfl⟩
    · exact absurd rfl h.1
    · exact ⟨init, c, by simp⟩
  have hc : c ≠ ch '/' := fun heq => h.2 (by simp [heq])
  rw [hasTrailingSlash, append_of_isName p h, ← List.append_assoc, List.getLast?_concat]
  simp [hc]

theorem hasTrailingSlash_of_getLast? {p : PosixPath} (h : p.getLast? ≠ some (ch '/')) :
    hasTrailingSlash p = false := by
  simp [hasTrailingSlash, h]

/-- A single name is not gone behind. -/
theorem followsLast_of_slash_notMem {n : Bytes} (h : ch '/' ∉ n) : followsLast n = false := by
  have hall : ∀ c ∈ n.reverse, (c != ch '/') = true := by
    intro c hc
    rw [List.mem_reverse] at hc
    simpa using fun h' : c = ch '/' => h (h' ▸ hc)
  have hname : filename n = n := by
    rw [filename, List.rtakeWhile, List.takeWhile_eq_self_iff.2 hall, List.reverse_reverse]
  by_cases hdot : n = [] ∨ n = "."
  · rcases hdot with rfl | rfl <;> decide +kernel
  · rw [not_or] at hdot
    simp [followsLast, hname, hdot]

/-- Appending a relative path appends its names. -/
theorem names_append_of_relative (p : PosixPath) {q : PosixPath} (h : isAbsolute q = false) :
    names (append p q) = names p ++ names q := by
  rw [append, h, if_neg Bool.false_ne_true, directory]
  split
  · rename_i hp
    rcases hp with rfl | hp
    · simp
    · obtain ⟨front, rfl⟩ := List.getLast?_eq_some_iff.1 hp
      rw [List.append_assoc, List.singleton_append, names_append_slash, names_append_slash,
        names_nil, List.append_nil]
  · rw [List.append_assoc, List.singleton_append, names_append_slash]

/-- The components of a relative path that does not end with a slash. -/
theorem components_of_relative {p : PosixPath} (habs : isAbsolute p = false)
    (htrail : hasTrailingSlash p = false) : components p = names p := by
  rw [components, habs, htrail]
  simp

/-- The components of an absolute path that does not end with a slash behind a name. -/
theorem components_of_absolute {p : PosixPath} (habs : isAbsolute p = true)
    (htrail : hasTrailingSlash p = false) : components p = [ch '/'] :: names p := by
  rw [components, habs, htrail]
  simp

/-- Paths are the same only if their last names are, and the names before them. -/
theorem same_append {p q : PosixPath} {m n : Bytes} (hm : IsName m) (hn : IsName n)
    (h : same (append p m) (append q n) = true) : names p = names q ∧ m = n := by
  -- neither path has a trailing slash, so the last components are the two names
  rw [same, beq_iff_eq, components, components, hasTrailingSlash_append p hm,
    hasTrailingSlash_append q hn, names_append p hm, names_append q hn] at h
  simp only [Bool.false_eq_true, if_false, List.append_nil, ← List.append_assoc] at h
  obtain ⟨hfront, hlast⟩ := List.append_inj' h rfl
  refine ⟨?_, by simpa using hlast⟩
  -- the root directory is no name
  have hroot : ∀ p : PosixPath, [ch '/'] ∉ names p := fun p hmem =>
    (isName_of_mem_names hmem).2 (by simp)
  split at hfront <;> split at hfront
  · simpa using hfront
  · exact absurd (hfront ▸ by simp : [ch '/'] ∈ [] ++ names q) (by simpa using hroot q)
  · exact absurd (hfront.symm ▸ by simp : [ch '/'] ∈ [] ++ names p) (by simpa using hroot p)
  · simpa using hfront

theorem filename_append (p : PosixPath) {n : Bytes} (h : IsName n) : filename (append p n) = n := by
  have hall : ∀ c ∈ n, (c != ch '/') = true := by
    intro c hc
    simpa using fun h' : c = ch '/' => h.2 (h' ▸ hc)
  have htake : ∀ d : PosixPath, d = [] ∨ d.getLast? = some (ch '/') →
      (d ++ n).rtakeWhile (· != ch '/') = n := by
    intro d hd
    rw [List.rtakeWhile, List.reverse_append, List.takeWhile_append_of_pos (by simpa using hall)]
    rcases hd with rfl | hd
    · simp
    · obtain ⟨front, rfl⟩ := List.getLast?_eq_some_iff.1 hd
      simp
  rw [filename, append_of_isName p h]
  refine htake _ ?_
  unfold directory
  split
  · assumption
  · simp

/-- The parent of a name in a directory that does not end with a slash. -/
theorem parentPath_append {p : PosixPath} (hp : p ≠ []) (hlast : p.getLast? ≠ some (ch '/'))
    {n : Bytes}
    (h : IsName n) : parentPath (append p n) = p := by
  have hall : ∀ c ∈ n.reverse, (c != ch '/') = true := by
    intro c hc
    rw [List.mem_reverse] at hc
    simpa using fun h' : c = ch '/' => h.2 (h' ▸ hc)
  have hnames : names (append p n) ≠ [] := by simp [names_append p h]
  have hdir : directory p = p ++ [ch '/'] := by simp [directory, hp, hlast]
  have hdrop : (append p n).rdropWhile (· != ch '/') = p ++ [ch '/'] := by
    rw [append_of_isName p h, hdir, List.rdropWhile, List.reverse_append,
      List.dropWhile_append_of_pos hall]
    simp
  have hslash : (p ++ [ch '/']).rdropWhile (· == ch '/') = p := by
    rw [List.rdropWhile_concat_pos _ _ _ (by simp), List.rdropWhile_eq_self_iff]
    intro hne
    rw [List.getLast?_eq_some_getLast hne] at hlast
    simpa using hlast
  rw [parentPath, if_neg hnames]
  simp only [hdrop, hslash]

/-! ### Joined names -/

theorem names_join {ns : List Bytes} (h : ∀ n ∈ ns, IsName n) : names (join ns) = ns := by
  induction ns with
  | nil => rfl
  | cons n ns ih =>
      have hn := h n (by simp)
      cases ns with
      | nil => simp [join, names_of_isName hn]
      | cons m ns =>
          have hcons : join (n :: m :: ns) = n ++ ch '/' :: join (m :: ns) := by
            simp [join, List.intercalate_cons_cons]
          rw [hcons, names_append_slash, names_of_isName hn, ih fun k hk => h k (by simp [hk])]
          rfl

theorem getLast?_join {ns : List Bytes} (h : ∀ n ∈ ns, IsName n) :
    (join ns).getLast? ≠ some (ch '/') := by
  induction ns with
  | nil => simp [join]
  | cons n ns ih =>
      have hn := h n (by simp)
      cases ns with
      | nil =>
          intro hlast
          exact hn.2 (List.mem_of_getLast? (by simpa [join] using hlast))
      | cons m ns =>
          have hcons : join (n :: m :: ns) = n ++ ch '/' :: join (m :: ns) := by
            simp [join, List.intercalate_cons_cons]
          have ih := ih fun k hk => h k (by simp [hk])
          rw [hcons, List.getLast?_append, List.getLast?_cons]
          cases hj : (join (m :: ns)).getLast? with
          | none =>
              rw [List.getLast?_eq_none_iff] at hj
              have := names_join (fun k hk => h k (List.mem_cons_of_mem n hk))
              rw [hj] at this
              simp at this
          | some c =>
              rw [hj] at ih
              simpa using ih

theorem head?_join {ns : List Bytes} (h : ∀ n ∈ ns, IsName n) :
    (join ns).head? ≠ some (ch '/') := by
  cases ns with
  | nil => simp [join]
  | cons n ns =>
      obtain ⟨hne, hslash⟩ := h n (by simp)
      cases n with
      | nil => exact absurd rfl hne
      | cons c n =>
          have hc : c ≠ ch '/' := fun h => hslash (by simp [h])
          cases ns with
          | nil => simpa [join] using hc
          | cons m ns => simpa [join, List.intercalate_cons_cons] using hc

/-- **The components of joined names are the names.** -/
theorem components_join {ns : List Bytes} (h : ∀ n ∈ ns, IsName n) : components (join ns) = ns := by
  have h₁ : isAbsolute (join ns) = false := by simpa [isAbsolute] using head?_join h
  have h₂ : hasTrailingSlash (join ns) = false := by simp [hasTrailingSlash, getLast?_join h]
  rw [components, h₁, h₂, names_join h]
  simp

/-- The components of joined names below the root directory. -/
theorem components_slash_join {ns : List Bytes} (h : ∀ n ∈ ns, IsName n) :
    components (ch '/' :: join ns) = [ch '/'] :: ns := by
  have h₂ : hasTrailingSlash (ch '/' :: join ns) = false := by
    rw [hasTrailingSlash, names_slash_cons, names_join h]
    cases ns with
    | nil => simp
    | cons n ns =>
        rw [List.getLast?_cons]
        cases hj : (join (n :: ns)).getLast? with
        | none =>
            rw [List.getLast?_eq_none_iff] at hj
            have := names_join h
            rw [hj] at this
            simp at this
        | some c =>
            have := getLast?_join h
            rw [hj] at this
            simpa using fun h' : c = ch '/' => absurd (congrArg some h') this
  rw [components, h₂, names_slash_cons, names_join h]
  simp [isAbsolute]

/-- One more name. -/
theorem join_concat {ns : List Bytes} (n : Bytes) (hne : ns ≠ []) :
    join (ns ++ [n]) = join ns ++ ch '/' :: n := by
  induction ns with
  | nil => exact absurd rfl hne
  | cons m ns ih =>
      cases ns with
      | nil => simp [join, List.intercalate_cons_cons]
      | cons k ns =>
          have hcons : ∀ l : List Bytes, join (m :: k :: l) = m ++ ch '/' :: join (k :: l) := by
            intro l
            simp [join, List.intercalate_cons_cons]
          rw [List.cons_append, List.cons_append, hcons, hcons, ← List.cons_append,
            ih (List.cons_ne_nil k ns), List.append_assoc, List.cons_append]

/-- Putting names together is joining them. -/
theorem foldl_append_eq_join {ns : List Bytes} (h : ∀ n ∈ ns, IsName n) :
    ns.foldl append [] = join ns := by
  induction ns using List.reverseRecOn with
  | nil => rfl
  | append_singleton ns n ih =>
      have hns : ∀ m ∈ ns, IsName m := fun m hm => h m (List.mem_append_left _ hm)
      have hn := h n (by simp)
      have habs : isAbsolute n = false := by
        have hhead : (join [n]).head? ≠ some (ch '/') := head?_join (by simpa using hn)
        simpa [isAbsolute, join] using hhead
      rw [List.foldl_append, List.foldl_cons, List.foldl_nil, ih hns, append, habs,
        if_neg Bool.false_ne_true, directory]
      by_cases hnil : ns = []
      · rw [hnil, if_pos (.inl rfl)]
        simp [join]
      · have hne : join ns ≠ [] := by
          intro hjoin
          have hnames := names_join hns
          rw [hjoin, names_nil] at hnames
          exact hnil hnames.symm
        rw [if_neg (not_or.2 ⟨hne, getLast?_join hns⟩), join_concat n hnil, List.append_assoc,
          List.singleton_append]

/-! ### Paths that are not empty -/

theorem ne_nil_of_names_eq_nil {p : PosixPath} (hp : p ≠ []) (h : names p = []) :
    isAbsolute p = true := by
  cases p with
  | nil => exact absurd rfl hp
  | cons c p =>
      by_contra habs
      have hc : (c == ch '/') = false := by simpa [isAbsolute] using habs
      obtain ⟨b, rest, hs⟩ := List.exists_cons_of_ne_nil (List.splitOn_ne_nil (ch '/') p)
      rw [names, List.splitOn_cons_eq_if_modifyHead, hc, hs] at h
      simp at h

theorem components_ne_nil {p : PosixPath} (hp : p ≠ []) : components p ≠ [] := by
  intro h
  rw [components, List.append_eq_nil_iff, List.append_eq_nil_iff] at h
  have habs := ne_nil_of_names_eq_nil hp h.1.2
  simp [habs] at h

/-- What holds of the components that are not empty holds of the stack of the normalisation. -/
theorem forall_mem_foldl_normalStep {P : Bytes → Prop} {absolute : Bool} {parts stack : List Bytes}
    (hparts : ∀ c ∈ parts, c ≠ [] → P c) (hstack : ∀ c ∈ stack, P c) :
    ∀ c ∈ parts.foldl (normalStep absolute) stack, P c := by
  induction parts generalizing stack with
  | nil => exact hstack
  | cons c parts ih =>
      refine ih (fun d hd => hparts d (List.mem_cons_of_mem _ hd)) ?_
      unfold normalStep
      split
      · exact hstack
      · rename_i hc
        have hP : P c := hparts c List.mem_cons_self fun h => hc (.inl h)
        split
        · split
          · split
            · simp
            · simpa using hP
          · rename_i top rest
            split
            · exact List.forall_mem_cons.2 ⟨hP, hstack⟩
            · exact fun d hd => hstack d (List.mem_cons_of_mem _ hd)
        · exact List.forall_mem_cons.2 ⟨hP, hstack⟩

/-- The stack of the normalisation holds no empty name. -/
theorem nil_notMem_foldl_normalStep {absolute : Bool} {parts stack : List Bytes}
    (h : [] ∉ stack) : [] ∉ parts.foldl (normalStep absolute) stack := by
  intro hmem
  exact forall_mem_foldl_normalStep (P := (· ≠ [])) (fun _ _ hc => hc)
    (fun c hc hnil => h (hnil ▸ hc)) [] hmem rfl

/-- Only the empty path has an empty normal form. -/
theorem lexicallyNormal_ne_nil {p : PosixPath} (hp : p ≠ []) : lexicallyNormal p ≠ [] := by
  rw [lexicallyNormal, if_neg hp]
  dsimp only
  generalize hparts : (names p ++ if hasTrailingSlash p = true then [[]] else []) = parts
  have hstack : [] ∉ parts.foldl (normalStep (isAbsolute p)) [] :=
    nil_notMem_foldl_normalStep (by simp)
  generalize parts.foldl (normalStep (isAbsolute p)) [] = stack at hstack
  split
  · split
    · simp
    · decide
  · rename_i hne
    obtain ⟨n, ns, hns⟩ := List.exists_cons_of_ne_nil
      (show stack.reverse ≠ [] by simpa using hne)
    have hn : n ≠ [] := by
      rintro rfl
      exact hstack (by rw [← List.mem_reverse, hns]; simp)
    have hjoin : join stack.reverse ≠ [] := by
      rw [hns]
      cases ns with
      | nil => simpa [join] using hn
      | cons m ns => simp [join, List.intercalate_cons_cons]
    simp [hjoin]

/-! ### Where paths start -/

/-- Iterating a path delivers the root directory if it is absolute. -/
theorem slash_mem_components {p : PosixPath} : [ch '/'] ∈ components p ↔ isAbsolute p = true := by
  have hnames : [ch '/'] ∉ names p := fun hmem => (isName_of_mem_names hmem).2 (by simp)
  rw [components, List.mem_append, List.mem_append, or_iff_left, or_iff_left hnames]
  · split <;> simp_all
  · split <;> simp

theorem isAbsolute_of_same {p q : PosixPath} (h : same p q = true) :
    isAbsolute p = isAbsolute q := by
  rw [same, beq_iff_eq] at h
  rw [Bool.eq_iff_iff, ← slash_mem_components, ← slash_mem_components, h]

/-- **A normal form starts where its path does.** -/
theorem isAbsolute_lexicallyNormal (p : PosixPath) :
    isAbsolute (lexicallyNormal p) = isAbsolute p := by
  by_cases hp : p = []
  · rw [hp]
    rfl
  rw [lexicallyNormal, if_neg hp]
  dsimp only
  generalize hparts : (names p ++ if hasTrailingSlash p = true then [[]] else []) = parts
  have hstack : ∀ c ∈ parts.foldl (normalStep (isAbsolute p)) [], IsName c := by
    refine forall_mem_foldl_normalStep (fun c hc hne => ?_) (by simp)
    rw [← hparts, List.mem_append] at hc
    refine hc.elim isName_of_mem_names fun hc => absurd ?_ hne
    split at hc
    · exact List.mem_singleton.1 hc
    · cases hc
  generalize parts.foldl (normalStep (isAbsolute p)) [] = stack at hstack
  cases isAbsolute p with
  | true =>
      split
      · rfl
      · rfl
  | false =>
      split
      · rfl
      · rename_i hne
        -- the first name of the stack does not start with a slash
        have hnames : ∀ c ∈ stack.reverse, IsName c := fun c hc => hstack c (List.mem_reverse.1 hc)
        have hjoin : join stack.reverse ≠ [] := by
          intro hnil
          have := names_join hnames
          rw [hnil, names_nil] at this
          exact hne (by simpa using this.symm)
        have hhead := head?_join hnames
        rw [if_neg Bool.false_ne_true, List.nil_append, isAbsolute,
          List.head?_append_of_ne_nil _ hjoin]
        simpa using hhead

/-! ### Normalising a plain path -/

/-- Names other than `.` and `..` are pushed. -/
theorem foldl_normalStep {absolute : Bool} {ns stack : List Bytes}
    (h : ∀ n ∈ ns, n ≠ [] ∧ n ≠ "." ∧ n ≠ "..") :
    ns.foldl (normalStep absolute) stack = ns.reverse ++ stack := by
  induction ns generalizing stack with
  | nil => rfl
  | cons n ns ih =>
      obtain ⟨h₁, h₂, h₃⟩ := h n (by simp)
      rw [List.foldl_cons, ih fun k hk => h k (by simp [hk])]
      simp [normalStep, h₁, h₂, h₃]

/-- **Normalising a plain path** only makes every separator a single slash. -/
theorem lexicallyNormal_of_plain {p : PosixPath} (hne : names p ≠ [])
    (htrail : hasTrailingSlash p = false) (hplain : ∀ n ∈ names p, n ≠ "." ∧ n ≠ "..") :
    lexicallyNormal p = (if isAbsolute p then [ch '/'] else []) ++ join (names p) := by
  have hp : p ≠ [] := by rintro rfl; simp at hne
  have hall : ∀ n ∈ names p, n ≠ [] ∧ n ≠ "." ∧ n ≠ ".." := fun n hn =>
    ⟨(isName_of_mem_names hn).1, hplain n hn⟩
  have hstack : (names p).foldl (normalStep (isAbsolute p)) [] = (names p).reverse := by
    rw [foldl_normalStep hall, List.append_nil]
  have hslash : closingSlash (names p) (names p).reverse = [] := by
    obtain ⟨h₁, h₂, h₃⟩ := hall _ (List.getLast_mem hne)
    rw [closingSlash, List.getLast?_eq_some_getLast hne, Option.any_some]
    simp [h₁, h₂, h₃]
  rw [lexicallyNormal, if_neg hp, htrail]
  simp [hstack, hslash, hne]

/-- A slash at the end stays. -/
theorem lexicallyNormal_of_trailing {p : PosixPath} (htrail : hasTrailingSlash p = true)
    (hplain : ∀ n ∈ names p, n ≠ "." ∧ n ≠ "..") :
    lexicallyNormal p =
      (if isAbsolute p then [ch '/'] else []) ++ join (names p) ++ [ch '/'] := by
  have hne : names p ≠ [] := by
    rw [hasTrailingSlash, Bool.and_eq_true, decide_eq_true_eq] at htrail
    exact htrail.2
  have hp : p ≠ [] := by rintro rfl; simp at hne
  have hall : ∀ n ∈ names p, n ≠ [] ∧ n ≠ "." ∧ n ≠ ".." := fun n hn =>
    ⟨(isName_of_mem_names hn).1, hplain n hn⟩
  have hstack : (names p ++ [[]]).foldl (normalStep (isAbsolute p)) [] = (names p).reverse := by
    rw [List.foldl_append, foldl_normalStep hall, List.append_nil]
    simp [normalStep]
  have hslash : closingSlash (names p ++ [[]]) (names p).reverse = [ch '/'] := by
    obtain ⟨-, -, h₃⟩ := hall _ (List.getLast_mem hne)
    rw [closingSlash, if_pos]
    refine ⟨by simp, ?_⟩
    rw [List.head?_reverse, List.getLast?_eq_some_getLast hne]
    exact fun h => h₃ (Option.some.inj h)
  rw [lexicallyNormal, if_neg hp, htrail]
  simp [hstack, hslash, hne]

/-- **The components of a path stay** when it is normalised, if none of them is empty, `.` or
`..`. -/
theorem components_lexicallyNormal {p : PosixPath}
    (hplain : ∀ c ∈ components p, c ≠ [] ∧ c ≠ "." ∧ c ≠ "..") :
    components (lexicallyNormal p) = components p := by
  have htrail : hasTrailingSlash p = false := by
    by_contra htrail
    rw [Bool.not_eq_false] at htrail
    exact (hplain [] (by simp [components, htrail])).1 rfl
  have hnames : ∀ n ∈ names p, n ∈ components p := by
    intro n hn
    simp [components, hn]
  by_cases hne : names p = []
  · by_cases hp : p = []
    · rw [hp]
      rfl
    · -- nothing but slashes
      have habs := ne_nil_of_names_eq_nil hp hne
      have hslash : lexicallyNormal p = [ch '/'] := by
        rw [lexicallyNormal, if_neg hp, htrail, hne, habs]
        rfl
      rw [hslash, components_of_absolute habs htrail, hne]
      rfl
  · have hjoin : ∀ n ∈ names p, IsName n := fun n => isName_of_mem_names
    rw [lexicallyNormal_of_plain hne htrail fun n hn => (hplain n (hnames n hn)).2]
    cases habs : isAbsolute p with
    | true =>
        rw [if_pos rfl, List.singleton_append, components_slash_join hjoin,
          components_of_absolute habs htrail]
    | false =>
        rw [if_neg Bool.false_ne_true, List.nil_append, components_join hjoin,
          components_of_relative habs htrail]

end PosixPath
