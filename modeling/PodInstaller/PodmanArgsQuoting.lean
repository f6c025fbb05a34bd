/-
**Quoting in `PodmanArgs=` values.**

A value is a list of words, and a word is written as pieces: plain bytes, bytes behind a backslash,
runs in single quotes and runs in double quotes, in which bytes may again stand behind a backslash.
`PodInstaller.splitPodmanArgs` undoes this: between two pieces the three flags of its loop are off,
a piece adds the bytes it stands for to the current word, and white space ends a word that is not
empty.

Main definitions:

* `PodInstaller.Piece` — a piece, with its text and the bytes it stands for;
* `PodInstaller.QuotedWord` — a word as it is written, with the white space behind it;
* `PodInstaller.quotedText` — the text of a list of words.

Main results:

* `PodInstaller.Piece.foldl_text`, `PodInstaller.SplitState.foldl_gap` — what a piece and what
  white space do;
* `PodInstaller.splitPodmanArgs_quotedText` — **splitting undoes quoting**.
-/

import PodInstaller.PodmanArgs

set_option relaxedAutoImplicit false
set_option autoImplicit false

namespace PodInstaller

open Bytes

/-! ### Pieces -/

/-- A piece of a word.  The bytes between double quotes are given with whether a backslash stands
in front of them. -/
inductive Piece
  | plain (c : UInt8)
  | escaped (c : UInt8)
  | single (run : Bytes)
  | double (run : List (Bool × UInt8))

namespace Piece

/-- A byte between double quotes. -/
def doubleText (b : Bool × UInt8) : Bytes := if b.1 then [ch '\\', b.2] else [b.2]

/-- The text of a piece. -/
def text : Piece → Bytes
  | plain c => [c]
  | escaped c => [ch '\\', c]
  | single run => [ch '\''] ++ run ++ [ch '\'']
  | double run => [ch '"'] ++ run.flatMap doubleText ++ [ch '"']

/-- The bytes that a piece stands for. -/
def value : Piece → Bytes
  | plain c => [c]
  | escaped c => [c]
  | single run => run
  | double run => run.map Prod.snd

/-- What can be written plainly, between single quotes and between double quotes. -/
def Valid : Piece → Prop
  | plain c => isspace c = false ∧ c ≠ ch '\'' ∧ c ≠ ch '"' ∧ c ≠ ch '\\'
  | escaped _ => True
  | single run => ch '\'' ∉ run
  | double run => ∀ b ∈ run, b.2 = ch '"' ∨ b.2 = ch '\\' → b.1 = true

end Piece

/-! ### The loop on a piece -/

/-- Between two pieces: no quote is open and no byte is escaped. -/
def SplitState.Between (s : SplitState) : Prop :=
  s.inSingle = false ∧ s.inDouble = false ∧ s.escaped = false

/-- The state with more bytes in the current word. -/
def SplitState.push (s : SplitState) (bytes : Bytes) : SplitState :=
  { s with current := s.current ++ bytes }

@[simp] theorem SplitState.push_nil (s : SplitState) : s.push [] = s := by
  simp [push]

@[simp] theorem SplitState.push_push (s : SplitState) (xs ys : Bytes) :
    (s.push xs).push ys = s.push (xs ++ ys) := by
  simp [push]

/-- A run in single quotes, once the quote is open. -/
theorem SplitState.foldl_single {s : SplitState} {run : Bytes} (hs : s.inSingle = true)
    (hescaped : s.escaped = false) (hrun : ch '\'' ∉ run) :
    run.foldl step s = s.push run := by
  induction run generalizing s with
  | nil => simp
  | cons c run ih =>
      have hc : c ≠ ch '\'' := fun h => hrun (by simp [h])
      have hstep : s.step c = s.push [c] := by
        simp [step, hs, hescaped, hc, push]
      rw [List.foldl_cons, hstep, ih (s := s.push [c]) hs hescaped (fun h => hrun (by simp [h])),
        push_push]
      rfl

/-- A run in double quotes, once the quote is open. -/
theorem SplitState.foldl_double {s : SplitState} {run : List (Bool × UInt8)}
    (hsingle : s.inSingle = false) (hdouble : s.inDouble = true) (hescaped : s.escaped = false)
    (hrun : ∀ b ∈ run, b.2 = ch '"' ∨ b.2 = ch '\\' → b.1 = true) :
    (run.flatMap Piece.doubleText).foldl step s = s.push (run.map Prod.snd) := by
  induction run generalizing s with
  | nil => simp
  | cons b run ih =>
      have hbyte : (Piece.doubleText b).foldl step s = s.push [b.2] := by
        have hb := hrun b (by simp)
        obtain ⟨behind, c⟩ := b
        cases behind with
        | true => simp [Piece.doubleText, step, hsingle, hescaped, push]
        | false =>
            have hquote : c ≠ ch '"' := fun h => absurd (hb (.inl h)) (by simp)
            have hbackslash : c ≠ ch '\\' := fun h => absurd (hb (.inr h)) (by simp)
            simp [Piece.doubleText, step, hsingle, hdouble, hescaped, hquote, hbackslash, push]
      rw [List.flatMap_cons, List.foldl_append, hbyte,
        ih (s := s.push [b.2]) hsingle hdouble hescaped (fun b' h => hrun b' (by simp [h])),
        push_push]
      rfl

/-- **A piece adds the bytes it stands for to the current word.** -/
theorem Piece.foldl_text {s : SplitState} {piece : Piece} (hs : s.Between) (h : piece.Valid) :
    piece.text.foldl SplitState.step s = s.push piece.value := by
  obtain ⟨hsingle, hdouble, hescaped⟩ := hs
  cases piece with
  | plain c =>
      obtain ⟨hspace, hquote, hdoubleQuote, hbackslash⟩ := h
      simp [text, value, SplitState.step, SplitState.push, hsingle, hdouble, hescaped, hspace,
        hquote, hdoubleQuote, hbackslash]
  | escaped c =>
      simp [text, value, SplitState.step, SplitState.push, hsingle, hescaped]
  | single run =>
      -- the quote opens, the run is taken as it is, and the quote closes
      have hopen : s.step (ch '\'') = { s with inSingle := true } := by
        simp [SplitState.step, hsingle, hdouble, hescaped, ch]
      have hclose : ∀ t : SplitState, t.inSingle = true → t.inDouble = false → t.escaped = false →
          t.step (ch '\'') = { t with inSingle := false } := by
        intro t h₁ h₂ h₃
        simp [SplitState.step, h₁, h₂, h₃, ch]
      have hrun : run.foldl SplitState.step { s with inSingle := true } =
          ({ s with inSingle := true } : SplitState).push run :=
        SplitState.foldl_single rfl hescaped h
      rw [text, List.foldl_append, List.foldl_append]
      simp only [List.foldl_cons, List.foldl_nil]
      rw [hopen, hrun, hclose (SplitState.push { s with inSingle := true } run)
        rfl hdouble hescaped]
      simp [SplitState.push, value, ← hsingle]
  | double run =>
      have hopen : s.step (ch '"') = { s with inDouble := true } := by
        simp [SplitState.step, hsingle, hdouble, hescaped, ch]
      have hclose : ∀ t : SplitState, t.inSingle = false → t.inDouble = true → t.escaped = false →
          t.step (ch '"') = { t with inDouble := false } := by
        intro t h₁ h₂ h₃
        simp [SplitState.step, h₁, h₂, h₃, ch]
      have hrun : (run.flatMap doubleText).foldl SplitState.step { s with inDouble := true } =
          ({ s with inDouble := true } : SplitState).push (run.map Prod.snd) :=
        SplitState.foldl_double hsingle rfl hescaped h
      rw [text, List.foldl_append, List.foldl_append]
      simp only [List.foldl_cons, List.foldl_nil]
      rw [hopen, hrun,
        hclose (SplitState.push { s with inDouble := true } (run.map Prod.snd))
          hsingle rfl hescaped]
      simp [SplitState.push, value, ← hdouble]

/-- The pieces of a word, one after the other. -/
theorem SplitState.foldl_pieces {s : SplitState} {pieces : List Piece} (hs : s.Between)
    (h : ∀ piece ∈ pieces, piece.Valid) :
    (pieces.flatMap Piece.text).foldl step s = s.push (pieces.flatMap Piece.value) := by
  induction pieces generalizing s with
  | nil => simp
  | cons piece pieces ih =>
      rw [List.flatMap_cons, List.foldl_append, Piece.foldl_text hs (h piece (by simp)),
        ih (s := s.push piece.value) hs (fun p hp => h p (by simp [hp])), push_push]
      rfl

/-! ### Words -/

/-- A word as it is written: its pieces and the white space behind it. -/
structure QuotedWord where
  pieces : List Piece
  gap : Bytes

/-- The word that is meant. -/
def QuotedWord.value (word : QuotedWord) : Bytes := word.pieces.flatMap Piece.value

/-- The text of a word. -/
def QuotedWord.text (word : QuotedWord) : Bytes := word.pieces.flatMap Piece.text ++ word.gap

/-- The text of a list of words behind white space. -/
def quotedText (lead : Bytes) (words : List QuotedWord) : Bytes :=
  lead ++ words.flatMap QuotedWord.text

/-- The state after the white space that ends a word. -/
def SplitState.endWord (s : SplitState) : SplitState :=
  if s.current = [] then s else { s with tokens := s.tokens ++ [s.current], current := [] }

/-- White space ends the current word. -/
theorem SplitState.foldl_gap {s : SplitState} {gap : Bytes} (hs : s.Between)
    (hgap : ∀ c ∈ gap, isspace c = true) :
    gap.foldl step s = if gap = [] then s else s.endWord := by
  obtain ⟨hsingle, hdouble, hescaped⟩ := hs
  induction gap generalizing s with
  | nil => rfl
  | cons c gap ih =>
      have hc := hgap c (by simp)
      have hne : ∀ d : UInt8, isspace d = false → c ≠ d := by
        rintro d hd rfl
        rw [hc] at hd
        cases hd
      have hstep : s.step c = s.endWord := by
        have hquote := hne (ch '\'') (by decide)
        have hdoubleQuote := hne (ch '"') (by decide)
        have hbackslash := hne (ch '\\') (by decide)
        by_cases hcurrent : s.current = [] <;>
          simp [step, endWord, hsingle, hdouble, hescaped, hc, hquote, hdoubleQuote, hbackslash,
            hcurrent]
      have hflags : s.endWord.inSingle = false ∧ s.endWord.inDouble = false ∧
          s.endWord.escaped = false ∧ s.endWord.endWord = s.endWord := by
        by_cases hcurrent : s.current = [] <;> simp [endWord, hsingle, hdouble, hescaped, hcurrent]
      rw [List.foldl_cons, hstep, ih (fun d hd => hgap d (by simp [hd])) hflags.1 hflags.2.1
        hflags.2.2.1, hflags.2.2.2]
      simp

/-- The loop over the words that are left, with the words before them recorded. -/
theorem finish_foldl_words {words : List QuotedWord} (tokens : List Bytes)
    (hgap : ∀ word ∈ words, ∀ c ∈ word.gap, isspace c = true)
    (hsep : ∀ word ∈ words.dropLast, word.gap ≠ [])
    (hvalid : ∀ word ∈ words, ∀ piece ∈ word.pieces, piece.Valid)
    (hne : ∀ word ∈ words, word.value ≠ []) :
    ((words.flatMap QuotedWord.text).foldl SplitState.step { tokens := tokens }).finish =
      tokens ++ words.map QuotedWord.value := by
  induction words generalizing tokens with
  | nil => simp [SplitState.finish]
  | cons word words ih =>
      have hword := hne word (by simp)
      have hbetween : ({ tokens := tokens } : SplitState).Between := ⟨rfl, rfl, rfl⟩
      have hpush : (word.pieces.flatMap Piece.text).foldl SplitState.step { tokens := tokens } =
          { tokens := tokens, current := word.value } := by
        rw [SplitState.foldl_pieces hbetween (hvalid word (by simp)), SplitState.push,
          QuotedWord.value]
        rfl
      rw [List.flatMap_cons, List.foldl_append, QuotedWord.text, List.foldl_append, hpush,
        SplitState.foldl_gap ⟨rfl, rfl, rfl⟩ (hgap word (by simp))]
      by_cases hempty : word.gap = []
      · -- only the last word has no white space behind it
        cases words with
        | nil => simp [hempty, SplitState.finish, hword]
        | cons next words => exact absurd hempty (hsep word (by simp))
      · have hend : ({ tokens := tokens, current := word.value } : SplitState).endWord =
            { tokens := tokens ++ [word.value] } := by
          simp [SplitState.endWord, hword]
        rw [if_neg hempty, hend, ih _ (fun w hw => hgap w (by simp [hw])) ?_
          (fun w hw => hvalid w (by simp [hw])) (fun w hw => hne w (by simp [hw]))]
        · simp
        · intro w hw
          cases words with
          | nil => cases hw
          | cons next words => exact hsep w (by simp [hw])

/-- **Splitting undoes quoting.**  Words that are not empty, written as pieces in any way, with
white space between them and any white space at the two ends, are read back. -/
theorem splitPodmanArgs_quotedText (lead : Bytes) (words : List QuotedWord)
    (hlead : ∀ c ∈ lead, isspace c = true)
    (hgap : ∀ word ∈ words, ∀ c ∈ word.gap, isspace c = true)
    (hsep : ∀ word ∈ words.dropLast, word.gap ≠ [])
    (hvalid : ∀ word ∈ words, ∀ piece ∈ word.pieces, piece.Valid)
    (hne : ∀ word ∈ words, word.value ≠ []) :
    splitPodmanArgs (quotedText lead words) = words.map QuotedWord.value := by
  have hstart : lead.foldl SplitState.step {} = {} := by
    rw [SplitState.foldl_gap ⟨rfl, rfl, rfl⟩ hlead]
    simp [SplitState.endWord]
  rw [splitPodmanArgs, quotedText, List.foldl_append, hstart,
    finish_foldl_words [] hgap hsep hvalid hne, List.nil_append]

theorem splitPodmanArgs_label :
    splitPodmanArgs " --label 'a b'\\ \"\\\"c\\d\"\t" = ["--label", "a b \"cd"] :=
  splitPodmanArgs_quotedText " "
    [⟨(ofString "--label").map .plain, " "⟩,
      ⟨[.single "a b", .escaped 32, .double [(true, ch '"'), (false, ch 'c'), (true, ch 'd')]],
        "\t"⟩]
    (by decide +kernel) (by decide +kernel) (by decide +kernel)
    (by simp [ofString, Piece.Valid]; decide +kernel) (by decide +kernel)

end PodInstaller
