/-
**The image of an accepted Quadlet.**

systemd and Podman take the last assignment to `Image` below `[Container]`, and an empty value means
that there is none.  The policy asks for an assignment to `Image` and does not look at its value, so
that a Quadlet whose last assignment is blank passes the check.

A line with nothing but white space behind `Image=` is where this starts.  Without such a line an
accepted Quadlet has an image, and with one it has none if `Image` is assigned once.

Main definitions:

* `PodInstaller.lastImage` — the value of the last assignment to `Image` below `[Container]`;
* `PodInstaller.BlankImageLine`, `PodInstaller.MakesImageBlank` — a line that makes `Image` blank,
  and texts with such a line below `[Container]`.

Main results:

* `PodInstaller.exists_of_readLine_assignment` — how a line with an assignment is written;
* `PodInstaller.makesImageBlank_iff` — the texts with such a line;
* `PodInstaller.image_nonblank` — when an accepted Quadlet has an image.
-/

import PodInstaller.QuadletGrammar

set_option relaxedAutoImplicit false
set_option autoImplicit false

namespace PodInstaller

open Bytes

/-! ### The last assignment -/

/-- An assignment to `Image` below `[Container]`. -/
def Assignment.isImage (a : Assignment) : Bool := a.sec == "Container" && a.key == "Image"

/-- The value of the last assignment to `Image`, in the order of the lines, over all the
`[Container]` sections. -/
def lastImage (contents : Bytes) : Option Bytes := do
  let as ← readText contents
  let last ← (as.filter (·.isImage)).getLast?
  return last.value

theorem isImage_iff {a : Assignment} : a.isImage = true ↔
    a.sec = "Container" ∧ a.key = "Image" := by
  simp [Assignment.isImage]

theorem lastImage_eq_some {contents value : Bytes} {as : List Assignment}
    (h : readText contents = some as) : lastImage contents = some value ↔
      ∃ a, (as.filter (·.isImage)).getLast? = some a ∧ a.value = value := by
  simp [lastImage, h, Option.bind_eq_some_iff]

/-- There is a last assignment as soon as there is one. -/
theorem exists_lastImage {contents : Bytes} {as : List Assignment} {a : Assignment}
    (h : readText contents = some as) (ha : a ∈ as) (himage : a.isImage = true) :
    ∃ value, lastImage contents = some value := by
  have hne : as.filter (·.isImage) ≠ [] := List.ne_nil_of_mem (List.mem_filter.2 ⟨ha, himage⟩)
  exact ⟨_, (lastImage_eq_some h).2 ⟨_, List.getLast?_eq_some_getLast hne, rfl⟩⟩

/-- The last assignment is one of the text's. -/
theorem exists_of_lastImage {contents value : Bytes} {as : List Assignment}
    (h : readText contents = some as) (hvalue : lastImage contents = some value) :
    ∃ a ∈ as, a.isImage = true ∧ a.value = value := by
  obtain ⟨a, ha, hvalue⟩ := (lastImage_eq_some h).1 hvalue
  obtain ⟨hmem, himage⟩ := List.mem_filter.1 (List.mem_of_getLast? ha)
  exact ⟨a, hmem, himage, hvalue⟩

/-! ### Lines that make the image blank -/

/-- **How a line with an assignment is written**: the key, a `=` and the value, with white space
around each. -/
theorem exists_of_readLine_assignment {line key value : Bytes}
    (hline : readLine line = some (.assignment key value)) :
    ∃ l m r, (∀ c ∈ l ++ m, isspace c = true) ∧ line = l ++ key ++ m ++ ch '=' :: r ∧
      trim r = value := by
  obtain ⟨front, back, hparts, hfront, hback⟩ := exists_trim_append line
  rw [readLine] at hline
  cases ht : trim line with
  | nil =>
      rw [ht] at hline
      cases hline
  | cons c text =>
      rw [ht] at hline hparts
      dsimp only at hline
      split_ifs at hline with hcomment hheader heq
      · cases hline
      · split at hline <;> cases hline
      · obtain ⟨before', after', hsplit, hnoEq⟩ := exists_of_mem heq
        rw [hsplit, before_append_cons hnoEq, after_append_cons hnoEq] at hline
        obtain ⟨l, m, hbefore, hl, hm⟩ := exists_trim_append before'
        obtain ⟨rfl, rfl⟩ : trim before' = key ∧ trim after' = value := by
          split at hline
          · cases hline
          · simpa using hline
        refine ⟨front ++ l, m, after' ++ back, ?_, ?_, trim_append_space hback _⟩
        · simp only [List.mem_append]
          rintro d ((hd | hd) | hd)
          · exact hfront d hd
          · exact hl d hd
          · exact hm d hd
        · rw [hparts, hsplit]
          conv_lhs => rw [hbefore]
          simp

/-- A line with nothing but white space around `Image` and the `=` behind it. -/
def BlankImageLine (line : Bytes) : Prop :=
  ∃ l m r, (∀ c ∈ l ++ m ++ r, isspace c = true) ∧ line = l ++ ofString "Image" ++ m ++ ch '=' :: r

/-- Below a `[Container]` header there is a line that makes `Image` blank. -/
def MakesImageBlank (contents : Bytes) : Prop :=
  ∃ above line below, contents.splitOn (ch '\n') = above ++ line :: below ∧
    sectionAfter none above = some "Container" ∧ BlankImageLine line

/-- Such a line assigns an empty value. -/
theorem readLine_blankImageLine {line : Bytes} (hnewline : ch '\n' ∉ line) :
    BlankImageLine line ↔ readLine line = some (.assignment "Image" []) := by
  constructor
  · rintro ⟨l, m, r, hspace, rfl⟩
    simp only [List.mem_append, List.mem_cons, not_or] at hnewline hspace
    have hvalid : (SourceLine.assignment l "Image" m r [] []).Valid := by
      refine ⟨⟨⟨fun c hc => hspace c (.inl (.inl hc)), hnewline.1.1.1⟩,
        ⟨fun c hc => hspace c (.inl (.inr hc)), hnewline.1.2⟩,
        ⟨fun c hc => hspace c (.inr hc), hnewline.2.2⟩, by simp [Pad]⟩, by simp [Field],
        ⟨by decide +kernel, by decide⟩, by decide, by decide, ?_⟩
      intro c hc
      obtain rfl : ch 'I' = c := Option.some.inj hc
      decide
    have hread := readLine_bytes hvalid
    simpa [SourceLine.bytes, SourceLine.meaning] using hread
  · intro hline
    obtain ⟨l, m, r, hspace, rfl, hvalue⟩ := exists_of_readLine_assignment hline
    refine ⟨l, m, r, ?_, rfl⟩
    intro c hc
    rcases List.mem_append.1 hc with hc | hc
    · exact hspace c hc
    · exact trim_eq_nil.1 hvalue c hc

/-- **The texts with such a line** have a blank assignment to `Image` in their flat list. -/
theorem makesImageBlank_iff {contents : Bytes} {as : List Assignment}
    (h : readText contents = some as) :
    MakesImageBlank contents ↔ ∃ a ∈ as, a.isImage = true ∧ a.value = [] := by
  constructor
  · rintro ⟨above, line, below, hlines, hsec, hblank⟩
    have hmem : line ∈ contents.splitOn (ch '\n') := by simp [hlines]
    have hline := (readLine_blankImageLine (notMem_of_mem_splitOn line hmem)).1 hblank
    rw [readText, hlines, readLines_assignment hline] at h
    obtain ⟨name, as₁, as₂, hname, -, -, rfl⟩ := h
    obtain rfl : ofString "Container" = name := Option.some.inj (hsec.symm.trans hname)
    exact ⟨⟨"Container", "Image", []⟩, by simp, isImage_iff.2 ⟨rfl, rfl⟩, rfl⟩
  · rintro ⟨a, ha, himage, hvalue⟩
    obtain ⟨as₁, as₂, rfl⟩ := List.append_of_mem ha
    rw [isImage_iff] at himage
    obtain ⟨above, line, below, hlines, -, hsec, hline, -⟩ := exists_line_of_append h
    rw [himage.1] at hsec
    rw [himage.2, hvalue] at hline
    have hmem : line ∈ contents.splitOn (ch '\n') := by simp [hlines]
    exact ⟨above, line, below, hlines, hsec,
      (readLine_blankImageLine (notMem_of_mem_splitOn line hmem)).2 hline⟩

/-! ### Accepted Quadlets -/

/-- If the Quadlet is accepted, its last assignment to `Image` has a value that is not blank. -/
def ImageNonblank (quadlet : QuadletFile) (policy : QuadletPolicy) : Prop :=
  validateQuadletPolicy quadlet policy = .ok () →
    ∃ value, lastImage quadlet.contents = some value ∧ trim value ≠ []

/-- `Image` is assigned once below the `[Container]` headers of a text. -/
def AssignsImageOnce (contents : Bytes) : Prop :=
  ∃ as a, readText contents = some as ∧ as.filter (·.isImage) = [a]

/-- The values of the flat list have no white space around them. -/
theorem trim_lastImage {contents value : Bytes} (h : lastImage contents = some value) :
    trim value = value := by
  obtain ⟨as, has, -⟩ := Option.bind_eq_some_iff.1 h
  obtain ⟨a, ha, -, rfl⟩ := exists_of_lastImage has h
  obtain ⟨as₁, as₂, rfl⟩ := List.append_of_mem ha
  obtain ⟨above, line, below, -, -, -, hline, -⟩ := exists_line_of_append has
  exact trim_of_readLine hline

/-- A Quadlet without such a line has an image if it is accepted. -/
theorem imageNonblank_of_not_makesImageBlank {quadlet : QuadletFile} {policy : QuadletPolicy}
    (himage : policy.requireImage = true) (hblank : ¬ MakesImageBlank quadlet.contents) :
    ImageNonblank quadlet policy := by
  intro hok
  obtain ⟨-, -, -, as, has, hpolicy⟩ := (validateQuadletPolicy_iff_acceptable _ _).1 hok
  obtain ⟨a, ha, hsec, hkey⟩ := hpolicy.image himage
  obtain ⟨value, hvalue⟩ := exists_lastImage has ha (isImage_iff.2 ⟨hsec, hkey⟩)
  refine ⟨value, hvalue, ?_⟩
  rw [trim_lastImage hvalue]
  rintro rfl
  exact hblank ((makesImageBlank_iff has).2 (exists_of_lastImage has hvalue))

/-- **When an accepted Quadlet has an image**: if no line below `[Container]` makes `Image` blank.
Where `Image` is assigned once, an accepted Quadlet has an image only then. -/
theorem image_nonblank (quadlet : QuadletFile) {policy : QuadletPolicy}
    (himage : policy.requireImage = true) :
    (¬ MakesImageBlank quadlet.contents → ImageNonblank quadlet policy) ∧
    (AssignsImageOnce quadlet.contents → validateQuadletPolicy quadlet policy = .ok () →
      ImageNonblank quadlet policy → ¬ MakesImageBlank quadlet.contents) := by
  refine ⟨imageNonblank_of_not_makesImageBlank himage, ?_⟩
  rintro ⟨as, only, has, honly⟩ hok hnonblank hblank
  obtain ⟨a, ha, hisImage, hvalue⟩ := (makesImageBlank_iff has).1 hblank
  -- the blank assignment is the only one, and so the last one
  obtain rfl : a = only := by
    have hmem := List.mem_filter.2 ⟨ha, hisImage⟩
    rwa [honly, List.mem_singleton] at hmem
  have hlast : lastImage quadlet.contents = some [] :=
    (lastImage_eq_some has).2 ⟨a, by rw [honly]; rfl, hvalue⟩
  obtain ⟨value, hlast', hne⟩ := hnonblank hok
  obtain rfl : [] = value := Option.some.inj (hlast.symm.trans hlast')
  exact hne rfl

/-- A managed Quadlet with an image, spelled with white space. -/
def imageQuadlet : QuadletFile where
  fileName := "web.container"
  contents := "[Container]\n Image = a\nLabel=com.example.pod-installer.managed=true\n"

theorem image_nonblank_busybox : ImageNonblank imageQuadlet {} ∧
    validateQuadletPolicy imageQuadlet {} = .ok () ∧ ¬ MakesImageBlank imageQuadlet.contents := by
  have has : readText imageQuadlet.contents = some [⟨"Container", "Image", "a"⟩,
      ⟨"Container", "Label", "com.example.pod-installer.managed=true"⟩] := by decide +kernel
  have hok : validateQuadletPolicy imageQuadlet {} = .ok () := by decide +kernel
  have hblank : ¬ MakesImageBlank imageQuadlet.contents := by
    rw [makesImageBlank_iff has]
    decide +kernel
  have honce : AssignsImageOnce imageQuadlet.contents := ⟨_, _, has, rfl⟩
  have himage : ({} : QuadletPolicy).requireImage = true := rfl
  obtain ⟨henough, hneeded⟩ := image_nonblank imageQuadlet himage
  exact ⟨henough hblank, hok, hneeded honce hok (henough hblank)⟩

/-- A Quadlet whose last assignment to `Image` is blank. -/
def blankImageQuadlet : QuadletFile where
  fileName := "web.container"
  contents := "[Container]\nImage=a\nLabel=com.example.pod-installer.managed=true\nImage=\n"

/-- The default policy accepts it. -/
theorem blank_image_accepted :
    ¬ ∀ quadlet policy, policy.requireImage = true → ImageNonblank quadlet policy := by
  intro h
  have haccept : validateQuadletPolicy blankImageQuadlet {} = .ok () := by decide +kernel
  obtain ⟨value, hvalue, hne⟩ := h blankImageQuadlet {} rfl haccept
  have hlast : lastImage blankImageQuadlet.contents = some [] := by decide +kernel
  obtain rfl : [] = value := Option.some.inj (hlast.symm.trans hvalue)
  exact hne rfl

end PodInstaller
