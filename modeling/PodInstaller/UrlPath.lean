/-
**Dot segments of URL paths.**

Before a request is sent, the segments `.` and `..` are removed from the path of its URL.  RFC 3986
describes this as a loop over an input and an output buffer; `UrlPath.dotStep` is one round of it
and `UrlPath.removeDotSegments` the loop.  A path that starts with a slash is a sequence of
segments, each behind its slash, and the loop takes them one at a time.  Nothing here mentions any
particular program.

Main definitions:

* `UrlPath.dotStep`, `UrlPath.removeDotSegments` — the algorithm;
* `UrlPath.Segment`, `UrlPath.Plain` — segments, and segments that are not removed;
* `UrlPath.requestTarget` — what is sent of a path with its query.

Main results:

* `UrlPath.removeDots_plain` — plain segments are moved to the output;
* `UrlPath.removeDots_dot`, `UrlPath.removeDots_dotdot` — the two segments that are not.
-/

import PodInstaller.ByteString

set_option relaxedAutoImplicit false
set_option autoImplicit false

namespace UrlPath

open Bytes

/-! ### The algorithm -/

/-- The output buffer without its last segment and the slash before it. -/
def dropLastSegment (out : Bytes) : Bytes := (out.rdropWhile (· != ch '/')).dropLast

/-- What is left when the segment before `rest` is removed: the slash before the segment stays. -/
def slashBefore (rest : Bytes) : Bytes := if rest = [] then [ch '/'] else rest

/-- One round of the loop: the output and the input after it. -/
def dotStep (out input : Bytes) : Bytes × Bytes :=
  if input.head? = some (ch '/') then
    let segment := input.tail.takeWhile (· != ch '/')
    let rest := input.tail.dropWhile (· != ch '/')
    if segment = "." then (out, slashBefore rest)
    else if segment = ".." then (dropLastSegment out, slashBefore rest)
    else (out ++ ch '/' :: segment, rest)
  else
    -- only a relative path starts like this
    let segment := input.takeWhile (· != ch '/')
    let rest := input.dropWhile (· != ch '/')
    if segment = "." ∨ segment = ".." then (out, rest.tail) else (out ++ segment, rest)

theorem length_dropWhile_le (p : UInt8 → Bool) (s : Bytes) : (s.dropWhile p).length ≤ s.length :=
  (List.dropWhile_sublist p).length_le

/-- Every round takes something off the input. -/
theorem length_dotStep_lt (out : Bytes) {input : Bytes} (h : input ≠ []) :
    (dotStep out input).2.length < input.length := by
  obtain ⟨c, tail, rfl⟩ := List.exists_cons_of_ne_nil h
  have hrest := length_dropWhile_le (· != ch '/') tail
  -- a segment of dots goes, and at most one slash takes its place
  have hdots : ∀ {s : Bytes}, s ≠ [] → tail.takeWhile (· != ch '/') = s →
      (slashBefore (tail.dropWhile (· != ch '/'))).length < (c :: tail).length := by
    intro s hs htake
    have hpos : 0 < tail.length := by
      rcases tail with _ | ⟨d, tail⟩
      · exact absurd htake.symm hs
      · simp
    rw [slashBefore, List.length_cons]
    split
    · rw [List.length_singleton]
      omega
    · omega
  rw [dotStep, List.tail_cons]
  by_cases hhead : (c :: tail).head? = some (ch '/')
  · rw [if_pos hhead]
    dsimp only
    split_ifs with hdot hdotdot
    · exact hdots (by decide) hdot
    · exact hdots (by decide) hdotdot
    · exact Nat.lt_succ_of_le hrest
  · have hc : (c != ch '/') = true := by simpa using hhead
    have hdrop : (c :: tail).dropWhile (· != ch '/') = tail.dropWhile (· != ch '/') :=
      List.dropWhile_cons_of_pos (p := (· != ch '/')) hc
    rw [if_neg hhead]
    dsimp only
    rw [hdrop]
    split_ifs
    · refine Nat.lt_succ_of_le (Nat.le_trans ?_ hrest)
      rw [List.length_tail]
      omega
    · exact Nat.lt_succ_of_le hrest

/-- The loop, with an output buffer to start from. -/
def removeDots (out input : Bytes) : Bytes :=
  if h : input = [] then out
  else
    have := length_dotStep_lt out h
    removeDots (dotStep out input).1 (dotStep out input).2
termination_by input.length

/-- `remove_dot_segments`. -/
def removeDotSegments (path : Bytes) : Bytes := removeDots [] path

/-! ### Segments -/

/-- A segment holds no slash. -/
def Segment (s : Bytes) : Prop := ch '/' ∉ s

instance (s : Bytes) : Decidable (Segment s) := inferInstanceAs (Decidable (_ ∉ _))

/-- A segment that is not removed. -/
def Plain (s : Bytes) : Prop := Segment s ∧ s ≠ "." ∧ s ≠ ".."

/-- The text of segments, each behind its slash. -/
def segmentsText (segments : List Bytes) : Bytes := segments.flatMap fun s => ch '/' :: s

@[simp] theorem segmentsText_nil : segmentsText [] = [] := rfl

@[simp] theorem segmentsText_cons (s : Bytes) (segments : List Bytes) :
    segmentsText (s :: segments) = ch '/' :: (s ++ segmentsText segments) := by
  simp [segmentsText]

/-- A segment ends at the next slash or at the end of the path. -/
theorem segment_append {s : Bytes} (hs : Segment s) (segments : List Bytes) :
    (s ++ segmentsText segments).takeWhile (· != ch '/') = s ∧
      (s ++ segmentsText segments).dropWhile (· != ch '/') = segmentsText segments := by
  have hall : ∀ c ∈ s, (c != ch '/') = true := by
    intro c hc
    have hne : c ≠ ch '/' := fun h => hs (h ▸ hc)
    simpa using hne
  rw [List.takeWhile_append_of_pos hall, List.dropWhile_append_of_pos hall]
  cases segments with
  | nil => simp
  | cons s' segments => simp

theorem removeDots_nil (out : Bytes) : removeDots out [] = out := by
  rw [removeDots, dif_pos rfl]

/-- One round, on a path of segments. -/
theorem removeDots_cons {s : Bytes} (hs : Segment s) (out : Bytes) (segments : List Bytes) :
    removeDots out (segmentsText (s :: segments)) =
      if s = "." then removeDots out (slashBefore (segmentsText segments))
      else if s = ".." then
        removeDots (dropLastSegment out) (slashBefore (segmentsText segments))
      else removeDots (out ++ ch '/' :: s) (segmentsText segments) := by
  obtain ⟨htake, hdrop⟩ := segment_append hs segments
  rw [removeDots, dif_neg (by simp)]
  simp only [dotStep, segmentsText_cons, List.head?_cons, if_true, List.tail_cons, htake, hdrop]
  split
  · rfl
  · split <;> rfl

/-- **Plain segments are moved to the output.** -/
theorem removeDots_plain {front : List Bytes} (hfront : ∀ s ∈ front, Plain s) (out : Bytes)
    (segments : List Bytes) :
    removeDots out (segmentsText (front ++ segments)) =
      removeDots (out ++ segmentsText front) (segmentsText segments) := by
  induction front generalizing out with
  | nil => simp
  | cons s front ih =>
      obtain ⟨hs, hdot, hdotdot⟩ := hfront s (by simp)
      rw [List.cons_append, removeDots_cons hs, if_neg hdot, if_neg hdotdot,
        ih fun s hs => hfront s (by simp [hs])]
      simp

/-- A path of plain segments stays as it is. -/
theorem removeDotSegments_plain {segments : List Bytes} (h : ∀ s ∈ segments, Plain s) :
    removeDotSegments (segmentsText segments) = segmentsText segments := by
  have hall := removeDots_plain h [] []
  rw [List.append_nil, segmentsText_nil, removeDots_nil, List.nil_append] at hall
  exact hall

/-- A lone slash is an empty segment, which is moved. -/
theorem removeDots_slashBefore (out : Bytes) {segments : List Bytes} (h : ∀ s ∈ segments, Plain s) :
    removeDots out (slashBefore (segmentsText segments)) =
      out ++ slashBefore (segmentsText segments) := by
  have hslash : slashBefore (segmentsText segments) =
      segmentsText (if segments = [] then [[]] else segments) := by
    unfold slashBefore
    cases segments <;> simp
  rw [hslash]
  have hall : ∀ s ∈ (if segments = [] then [[]] else segments), Plain s := by
    split
    · intro s hs
      obtain rfl : s = [] := by simpa using hs
      exact ⟨by simp [Segment], by decide, by decide⟩
    · exact h
  have hmove := removeDots_plain hall out []
  rw [List.append_nil, segmentsText_nil, removeDots_nil] at hmove
  exact hmove

/-- A segment `.` between plain segments is left out. -/
theorem removeDots_dot {front back : List Bytes} (hfront : ∀ s ∈ front, Plain s)
    (hback : ∀ s ∈ back, Plain s) :
    removeDotSegments (segmentsText (front ++ ofString "." :: back)) =
      segmentsText front ++ slashBefore (segmentsText back) := by
  rw [removeDotSegments, removeDots_plain hfront, removeDots_cons (by decide), if_pos rfl,
    removeDots_slashBefore _ hback, List.nil_append]

/-- A segment `..` between plain segments is left out, and the segment before it too. -/
theorem removeDots_dotdot {front back : List Bytes} {s : Bytes} (hfront : ∀ s ∈ front, Plain s)
    (hs : Plain s) (hback : ∀ s ∈ back, Plain s) :
    removeDotSegments (segmentsText (front ++ s :: ofString ".." :: back)) =
      segmentsText front ++ slashBefore (segmentsText back) := by
  have hall : ∀ c ∈ s.reverse, (c != ch '/') = true := by
    intro c hc
    have hne : c ≠ ch '/' := fun h => hs.1 (h ▸ by simpa using hc)
    simpa using hne
  have hdrop : dropLastSegment (segmentsText front ++ ch '/' :: s) = segmentsText front := by
    rw [dropLastSegment, List.rdropWhile, List.reverse_append, List.reverse_cons,
      List.append_assoc, List.dropWhile_append_of_pos hall]
    simp
  rw [removeDotSegments, removeDots_plain hfront, removeDots_cons hs.1, if_neg hs.2.1,
    if_neg hs.2.2, removeDots_cons (by decide), if_neg (by decide), if_pos rfl, List.nil_append,
    hdrop, removeDots_slashBefore _ hback]

/-! ### What is sent -/

/-- What is sent of a path with its query: the fragment is not, and the dot segments of the path are
removed. -/
def requestTarget (url : Bytes) : Bytes :=
  removeDotSegments (before (ch '?') (before (ch '#') url)) ++
    (before (ch '#') url).dropWhile (· != ch '?')

theorem requestTarget_append {path query : Bytes} (hpath : ch '?' ∉ path)
    (hfragment : ch '#' ∉ path ++ query) (hquery : query = [] ∨ query.head? = some (ch '?')) :
    requestTarget (path ++ query) = removeDotSegments path ++ query := by
  have hall : ∀ c ∈ path, (c != ch '?') = true := by
    intro c hc
    have hne : c ≠ ch '?' := fun h => hpath (h ▸ hc)
    simpa using hne
  rw [requestTarget, before_of_notMem hfragment, List.dropWhile_append_of_pos hall, before,
    List.takeWhile_append_of_pos hall]
  rcases hquery with rfl | hquery
  · simp
  · obtain ⟨query, rfl⟩ : ∃ rest, query = ch '?' :: rest := by
      cases query with
      | nil => cases hquery
      | cons c rest => exact ⟨rest, by simpa using hquery⟩
    simp

end UrlPath
