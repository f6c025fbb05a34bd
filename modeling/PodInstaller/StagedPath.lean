/-
**Archives below the staging root.**

An archive can be given by a path relative to the staging root, or by the path that the root and the
relative path make together.  The first is always found.  The second is compared with the root
component by component, and the normal form of a root that ends with a slash has an empty component
at its end, which the path below the root does not have there.

Main definitions:

* `PodInstaller.PlainRelative` — the relative paths of archives;
* `PodInstaller.FoundBelow` — an archive is found under both of its paths.

Main results:

* `PodInstaller.relativeStagedPath_relative`, `PodInstaller.relativeStagedPath_below` — the two ways
  to give the archive;
* `PodInstaller.foundBelow_iff` — the roots below which archives are found.
-/

import PodInstaller.StagedArchive

set_option relaxedAutoImplicit false
set_option autoImplicit false

namespace PodInstaller

open Bytes PosixPath

/-! ### Plain paths -/

/-- A relative path with at least one component, all of them names other than `.` and `..`, that
does not end with a slash. -/
structure PlainRelative (r : PosixPath) : Prop where
  relative : isAbsolute r = false
  nonempty : components r ≠ []
  plain : ∀ c ∈ components r, c ≠ [] ∧ c ≠ "." ∧ c ≠ ".."
  noSlash : r.getLast? ≠ some (ch '/')

/-- A path has a component that is `.` or `..`. -/
def HasDots (p : PosixPath) : Prop := ∃ c ∈ components p, c = "." ∨ c = ".."

/-- The archive is found by its relative path, and by the path that the root and the relative path
make together, if the root has no component `.` or `..`. -/
def FoundBelow (root r : PosixPath) : Prop :=
  (∃ found, relativeStagedPath root r = .ok found ∧ same found r = true) ∧
  (¬ HasDots root →
    ∃ found, relativeStagedPath root (PosixPath.append root r) = .ok found ∧ same found r = true)

section

variable {root r : PosixPath}

theorem PlainRelative.components_eq (h : PlainRelative r) : components r = names r :=
  components_of_relative h.relative (hasTrailingSlash_of_getLast? h.noSlash)

theorem PlainRelative.names_ne_nil (h : PlainRelative r) : names r ≠ [] :=
  h.components_eq ▸ h.nonempty

theorem PlainRelative.names_plain (h : PlainRelative r) : ∀ n ∈ names r, n ≠ "." ∧ n ≠ ".." := by
  intro n hn
  rw [← h.components_eq] at hn
  exact (h.plain n hn).2

/-- The checks behind the comparison with the root let a path through that has the components of the
archive's. -/
theorem PlainRelative.checks (h : PlainRelative r) {p : PosixPath}
    (hp : components p = components r) :
    ¬ (p = [] ∨ same p "." = true) ∧ ¬ (components p).all pathComponentIsSafe = false := by
  refine ⟨?_, ?_⟩
  · rw [not_or]
    refine ⟨?_, fun hsame => ?_⟩
    · rintro rfl
      exact h.nonempty hp.symm
    · rw [same, beq_iff_eq, hp] at hsame
      exact (h.plain "." (by rw [hsame]; decide)).2.1 rfl
  · rw [all_pathComponentIsSafe, hp]
    exact h.plain

/-- **The relative path is found below every root.** -/
theorem relativeStagedPath_relative (root : PosixPath) (h : PlainRelative r) :
    ∃ found, relativeStagedPath root r = .ok found ∧ same found r = true := by
  have hnames : ∀ n ∈ names r, IsName n := fun n => isName_of_mem_names
  have hnormal : lexicallyNormal r = join (names r) := by
    rw [lexicallyNormal_of_plain h.names_ne_nil (hasTrailingSlash_of_getLast? h.noSlash)
      h.names_plain, h.relative]
    rfl
  have hcomponents : components (join (names r)) = components r := by
    rw [components_join hnames, h.components_eq]
  have habs : ¬ isAbsolute (join (names r)) = true := by
    simpa [isAbsolute] using head?_join hnames
  obtain ⟨hempty, hsafe⟩ := h.checks hcomponents
  refine ⟨join (names r), ?_, by rw [same, beq_iff_eq, hcomponents]⟩
  simp only [relativeStagedPath, bind_eq_ok, reject_eq_ok, exists_const, hnormal, if_neg habs]
  refine ⟨(h.checks rfl).2, join (names r), rfl, hempty, hsafe, rfl⟩

theorem names_plain_of_not_hasDots (hdots : ¬ HasDots root) :
    ∀ n ∈ names root, n ≠ "." ∧ n ≠ ".." := by
  intro n hn
  have hmem : n ∈ components root := by
    rw [components]
    simp [hn]
  refine ⟨?_, ?_⟩
  · rintro rfl
    exact hdots ⟨_, hmem, .inl rfl⟩
  · rintro rfl
    exact hdots ⟨_, hmem, .inr rfl⟩

/-- The components of the normal form of a root without `.` and `..`. -/
theorem components_lexicallyNormal_root (habs : isAbsolute root = true) (hdots : ¬ HasDots root) :
    components (lexicallyNormal root) =
      [ch '/'] :: names root ++ if hasTrailingSlash root then [[]] else [] := by
  have hnames : ∀ n ∈ names root, IsName n := fun n => isName_of_mem_names
  have hplain := names_plain_of_not_hasDots hdots
  by_cases htrail : hasTrailingSlash root = true
  · rw [lexicallyNormal_of_trailing htrail hplain, habs, if_pos rfl, htrail, if_pos rfl]
    have hne : names root ≠ [] := by
      rw [hasTrailingSlash, Bool.and_eq_true, decide_eq_true_eq] at htrail
      exact htrail.2
    have hall : names ([ch '/'] ++ join (names root) ++ [ch '/']) = names root := by
      rw [names_append_slash, names_nil, List.append_nil, List.singleton_append, names_slash_cons,
        names_join hnames]
    have htrail' : hasTrailingSlash ([ch '/'] ++ join (names root) ++ [ch '/']) = true := by
      rw [hasTrailingSlash, hall, List.getLast?_concat]
      simp [hne]
    rw [components, hall, htrail']
    rfl
  · have htrail : hasTrailingSlash root = false := by simpa using htrail
    rw [htrail]
    by_cases hne : names root = []
    · have hroot : root ≠ [] := by
        rintro rfl
        cases habs
      have hslash : lexicallyNormal root = [ch '/'] := by
        rw [lexicallyNormal, if_neg hroot, htrail, hne, habs]
        rfl
      rw [hslash, hne]
      rfl
    · rw [lexicallyNormal_of_plain hne htrail hplain, habs, if_pos rfl, List.singleton_append,
        components_slash_join hnames]
      simp

theorem isAbsolute_append (habs : isAbsolute root = true) (hrel : isAbsolute r = false) :
    isAbsolute (PosixPath.append root r) = true := by
  obtain ⟨rest, rfl⟩ : ∃ rest, root = ch '/' :: rest := by
    cases root with
    | nil => cases habs
    | cons c rest => exact ⟨rest, by simpa [isAbsolute] using habs⟩
  rw [PosixPath.append, hrel, if_neg Bool.false_ne_true, directory]
  split <;> rfl

theorem PlainRelative.hasTrailingSlash_append (h : PlainRelative r) (root : PosixPath) :
    hasTrailingSlash (PosixPath.append root r) = false := by
  have hr : r ≠ [] := by
    rintro rfl
    exact h.names_ne_nil names_nil
  refine hasTrailingSlash_of_getLast? ?_
  rw [PosixPath.append, h.relative, if_neg Bool.false_ne_true, List.getLast?_append_of_ne_nil _ hr]
  exact h.noSlash

/-- The components of a path below a root. -/
theorem PlainRelative.components_append (h : PlainRelative r) (habs : isAbsolute root = true) :
    components (PosixPath.append root r) = [ch '/'] :: names root ++ names r := by
  rw [components_of_absolute (isAbsolute_append habs h.relative) (h.hasTrailingSlash_append root),
    names_append_of_relative root h.relative]
  rfl

/-- They are let through, if those of the root are. -/
theorem PlainRelative.plain_append (h : PlainRelative r) (habs : isAbsolute root = true)
    (hdots : ¬ HasDots root) :
    ∀ c ∈ components (PosixPath.append root r), c ≠ [] ∧ c ≠ "." ∧ c ≠ ".." := by
  intro c hc
  rw [h.components_append habs, List.cons_append, List.mem_cons, List.mem_append] at hc
  rcases hc with rfl | hc | hc
  · decide
  · exact ⟨(isName_of_mem_names hc).1, names_plain_of_not_hasDots hdots c hc⟩
  · exact ⟨(isName_of_mem_names hc).1, h.names_plain c hc⟩

/-- **The path below the root is found exactly when the root does not end with a slash behind a
name.** -/
theorem relativeStagedPath_below (habs : isAbsolute root = true) (hdots : ¬ HasDots root)
    (h : PlainRelative r) :
    (∃ found, relativeStagedPath root (PosixPath.append root r) = .ok found ∧
      same found r = true) ↔ hasTrailingSlash root = false := by
  have hroot : root ≠ [] := by
    rintro rfl
    cases habs
  have hnames : ∀ n ∈ names r, IsName n := fun n => isName_of_mem_names
  constructor
  · rintro ⟨found, hfound, -⟩
    obtain ⟨below, hleads, -⟩ := (relativeStagedPath_eq_ok hroot).1 hfound
    have hmade := hleads.made
    rw [h.components_append habs, isAbsolute_append habs h.relative, if_pos rfl,
      components_lexicallyNormal_root habs hdots, List.append_assoc,
      List.append_cancel_left_eq] at hmade
    by_contra htrue
    -- the empty component at the end of the root would be the first name of the archive
    rw [Bool.not_eq_false] at htrue
    rw [htrue, if_pos rfl] at hmade
    exact (isName_of_mem_names (n := []) (hmade ▸ by simp : [] ∈ names r)).1 rfl
  · intro hfalse
    refine ⟨join (names r), (relativeStagedPath_eq_ok hroot).2 ⟨names r,
      ⟨h.plain_append habs hdots, h.names_ne_nil, ?_⟩, rfl⟩,
      by rw [same, beq_iff_eq, components_join hnames, h.components_eq]⟩
    rw [h.components_append habs, isAbsolute_append habs h.relative, if_pos rfl,
      components_lexicallyNormal_root habs hdots, hfalse]
    simp

/-- **Below which roots archives are found under both of their paths**: those that have a component
`.` or `..`, for which the relative path is enough, and those that do not end with a slash behind a
name. -/
theorem foundBelow_iff (habs : isAbsolute root = true) (h : PlainRelative r) :
    FoundBelow root r ↔ HasDots root ∨ hasTrailingSlash root = false := by
  have hrelative := relativeStagedPath_relative root h
  constructor
  · rintro ⟨-, hbelow⟩
    by_cases hdots : HasDots root
    · exact .inl hdots
    · exact .inr ((relativeStagedPath_below habs hdots h).1 (hbelow hdots))
  · intro hroot
    refine ⟨hrelative, fun hdots => ?_⟩
    exact (relativeStagedPath_below habs hdots h).2 (hroot.resolve_left hdots)

end

theorem foundBelow_staging : FoundBelow "//srv//staging" "images//demo.oci.tar" :=
  (foundBelow_iff (by decide) ⟨by decide, by decide +kernel, by decide +kernel, by decide⟩).2
    (.inr (by decide +kernel))

/-- Below `/srv/staging/` the path `/srv/staging/demo.oci.tar` is refused. -/
theorem not_foundBelow_slash :
    ¬ ∀ root r, isAbsolute root = true → PlainRelative r → FoundBelow root r := by
  intro h
  have hfound := (h "/srv/staging/" "demo.oci.tar" (by decide)
    ⟨by decide, by decide +kernel, by decide +kernel, by decide⟩).2
  have hdots : ¬ HasDots "/srv/staging/" := by
    unfold HasDots
    decide +kernel
  obtain ⟨found, hok, -⟩ := hfound hdots
  have herror : relativeStagedPath "/srv/staging/"
      (PosixPath.append "/srv/staging/" "demo.oci.tar") = .error (makeError .policy
        (ofString "image archive path is outside configured staging root: " ++
          ofString "/srv/staging/demo.oci.tar")) := by
    decide +kernel
  rw [herror] at hok
  cases hok

end PodInstaller
