/-
**Byte strings and the character class functions of the C locale.**

A `std::string` is a finite sequence of bytes, so strings are lists of `UInt8` here; a Lean string
literal stands for the bytes of its characters.  This module supplies the operations a text
processing program leans on — trimming, lower-casing, searching for a byte, cutting a text at a
separator — together with the facts about how they compose.  Nothing here mentions any particular
program.

Main definitions:

* `Bytes`, `Bytes.ofString`, `Bytes.ch` — byte strings and literals;
* `Bytes.isspace`, `Bytes.isalnum`, `Bytes.tolower` — the character class functions;
* `Bytes.trim`, `Bytes.lower` — dropping the white space around a text, lower-casing it;
* `Bytes.before`, `Bytes.after` — the parts of a text on both sides of the first occurrence of a
  byte;
* `Bytes.pieces` — what a loop of `std::getline` calls delivers.

Main results:

* `Bytes.trim_trim`, `Bytes.trim_append_space` — trimming is idempotent and ignores the white
  space around a text;
* `Bytes.splitOn_eq_pieces` — the pieces are the blocks between separators, except that an empty
  last block is not delivered.
-/

import Mathlib.Algebra.Group.Nat.Defs
import Mathlib.Data.List.DropRight
import Mathlib.Data.List.Basic
import Mathlib.Data.List.Infix
import Mathlib.Tactic.Common

set_option relaxedAutoImplicit false
set_option autoImplicit false

/-- A byte string. -/
abbrev Bytes := List UInt8

namespace Bytes

/-! ### Literals -/

/-- The bytes of a literal: one byte for each of its (ASCII) characters. -/
def ofString (s : String) : Bytes := s.toList.map fun c => UInt8.ofNat c.toNat

instance : Coe String Bytes := ⟨ofString⟩

/-- The byte of an ASCII character. -/
def ch (c : Char) : UInt8 := UInt8.ofNat c.toNat

/-- The decimal digits of a number, as `std::to_string` prints it. -/
def decimal (n : ℕ) : Bytes := (Nat.toDigits 10 n).map fun c => UInt8.ofNat c.toNat

/-- `std::to_string` of a signed number. -/
def decimalInt (n : ℤ) : Bytes :=
  if n < 0 then ofString "-" ++ decimal n.natAbs else decimal n.natAbs

/-- The C string a byte string decays to: everything before the first NUL byte. -/
def cStr (s : Bytes) : Bytes := s.takeWhile (· != 0)

theorem cStr_eq_self {s : Bytes} (h : 0 ∉ s) : cStr s = s := by
  rw [cStr, List.takeWhile_eq_self_iff]
  intro c hc
  simpa using fun h0 : c = 0 => h (h0 ▸ hc)

/-! ### Numbers -/

theorem toNat_of_mem_toDigits {n : ℕ} {c : Char} (h : c ∈ Nat.toDigits 10 n) :
    (UInt8.ofNat c.toNat).toNat = c.toNat ∧ 48 ≤ c.toNat ∧ c.toNat ≤ 57 := by
  have hdigit := Char.isDigit_iff_toNat.1 (Nat.isDigit_of_mem_toDigits (by omega) (by omega) h)
  have hlo : '0'.toNat = 48 := rfl
  have hhi : '9'.toNat = 57 := rfl
  refine ⟨?_, by omega, by omega⟩
  rw [UInt8.toNat_ofNat', Nat.mod_eq_of_lt (by omega)]

/-- The characters of a number are digits. -/
theorem digit_of_mem_decimal {n : ℕ} {c : UInt8} (h : c ∈ decimal n) :
    48 ≤ c.toNat ∧ c.toNat ≤ 57 := by
  obtain ⟨d, hd, rfl⟩ := List.mem_map.1 h
  obtain ⟨heq, hdigit⟩ := toNat_of_mem_toDigits hd
  rw [heq]
  exact hdigit

theorem decimal_ne_nil (n : ℕ) : decimal n ≠ [] := by
  rw [decimal, Ne, List.map_eq_nil_iff]
  exact Nat.toDigits_ne_nil

/-- Different numbers have different digits. -/
theorem decimal_injective : Function.Injective decimal := by
  have hback : ∀ n, (decimal n).map (fun b => Char.ofNat b.toNat) = Nat.toDigits 10 n := by
    intro n
    rw [decimal, List.map_map]
    conv_rhs => rw [← List.map_id (Nat.toDigits 10 n)]
    refine List.map_congr_left fun c hc => ?_
    rw [Function.comp_apply, (toNat_of_mem_toDigits hc).1, Char.ofNat_toNat]
    rfl
  intro m n h
  rw [← Nat.ofDigitChars_ten_toDigits (n := m), ← hback m, h, hback n,
    Nat.ofDigitChars_ten_toDigits]

/-- The number of digits of a number, bounded by the powers of ten. -/
theorem length_decimal_le_iff {n k : ℕ} (hk : 0 < k) : (decimal n).length ≤ k ↔ n < 10 ^ k := by
  rw [decimal, List.length_map]
  exact Nat.length_toDigits_le_iff (by omega) hk

/-- Two texts that start with a run of `p` bytes and a byte that ends the run agree only if the runs
do. -/
theorem run_append_inj {p : UInt8 → Bool} {xs ys l r : Bytes} {c d : UInt8}
    (hxs : ∀ x ∈ xs, p x = true) (hys : ∀ y ∈ ys, p y = true) (hc : p c = false) (hd : p d = false)
    (h : xs ++ c :: l = ys ++ d :: r) : xs = ys ∧ c = d ∧ l = r := by
  have hrun : ∀ {zs s : Bytes} {e : UInt8}, (∀ z ∈ zs, p z = true) → p e = false →
      (zs ++ e :: s).takeWhile p = zs := by
    intro zs s e hzs he
    rw [List.takeWhile_append_of_pos hzs, List.takeWhile_cons_of_neg (by simp [he]),
      List.append_nil]
  have hxy : xs = ys := by rw [← hrun hxs hc, h, hrun hys hd]
  subst hxy
  obtain ⟨rfl, rfl⟩ := List.cons.inj (List.append_cancel_left h)
  exact ⟨rfl, rfl, rfl⟩

/-- The same from the right: the run ends the texts. -/
theorem append_run_inj {p : UInt8 → Bool} {xs ys l r : Bytes} {c d : UInt8}
    (hxs : ∀ x ∈ xs, p x = true) (hys : ∀ y ∈ ys, p y = true) (hc : p c = false) (hd : p d = false)
    (h : l ++ c :: xs = r ++ d :: ys) : l = r ∧ c = d ∧ xs = ys := by
  have hrev : xs.reverse ++ c :: l.reverse = ys.reverse ++ d :: r.reverse := by
    simpa using congrArg List.reverse h
  obtain ⟨hxy, hcd, hlr⟩ := run_append_inj (by simpa using hxs) (by simpa using hys) hc hd hrev
  exact ⟨List.reverse_inj.1 hlr, hcd, List.reverse_inj.1 hxy⟩

/-! ### Character classes -/

/-- `std::isspace`: blank, tab, line feed, vertical tab, form feed and carriage return. -/
def isspace (c : UInt8) : Bool := c == 32 || (9 ≤ c && c ≤ 13)

/-- `std::isdigit`. -/
def isdigit (c : UInt8) : Bool := 48 ≤ c && c ≤ 57

/-- `std::isalnum`. -/
def isalnum (c : UInt8) : Bool := isdigit c || (65 ≤ c && c ≤ 90) || (97 ≤ c && c ≤ 122)

/-- `std::tolower`. -/
def tolower (c : UInt8) : UInt8 := if 65 ≤ c && c ≤ 90 then c + 32 else c

theorem isdigit_of_mem_decimal {n : ℕ} {c : UInt8} (h : c ∈ decimal n) : isdigit c = true := by
  obtain ⟨hlo, hhi⟩ := digit_of_mem_decimal h
  rw [isdigit, Bool.and_eq_true, decide_eq_true_eq, decide_eq_true_eq, UInt8.le_iff_toNat_le,
    UInt8.le_iff_toNat_le]
  exact ⟨hlo, hhi⟩

/-! ### Trimming and lower-casing -/

/-- A text without the white space at its two ends. -/
def trim (s : Bytes) : Bytes := (s.dropWhile isspace).rdropWhile isspace

/-- A text with every byte lower-cased. -/
def lower (s : Bytes) : Bytes := s.map tolower

@[simp] theorem trim_nil : trim [] = [] := rfl

@[simp] theorem lower_nil : lower [] = [] := rfl

@[simp] theorem lower_cons (c : UInt8) (s : Bytes) : lower (c :: s) = tolower c :: lower s := rfl

/-- Lower-casing neither makes nor loses a byte that is no letter and no digit. -/
theorem tolower_eq_iff {c d : UInt8} (hd : isalnum d = false) : tolower c = d ↔ c = d := by
  have h65 : (65 : UInt8).toNat = 65 := rfl
  have h90 : (90 : UInt8).toNat = 90 := rfl
  have h97 : (97 : UInt8).toNat = 97 := rfl
  have h122 : (122 : UInt8).toNat = 122 := rfl
  have h32 : (32 : UInt8).toNat = 32 := rfl
  simp only [isalnum, Bool.or_eq_false_iff, Bool.and_eq_false_iff, decide_eq_false_iff_not,
    UInt8.le_iff_toNat_le] at hd
  rw [tolower]
  split
  · rename_i hc
    simp only [Bool.and_eq_true, decide_eq_true_eq, UInt8.le_iff_toNat_le] at hc
    have hval : (c + 32).toNat = c.toNat + 32 := by
      rw [UInt8.toNat_add]
      omega
    constructor
    · rintro rfl
      omega
    · rintro rfl
      omega
  · exact Iff.rfl

/-- Dropping white space in front changes nothing but the front. -/
theorem trim_space_append {l : Bytes} (hl : ∀ c ∈ l, isspace c = true) (s : Bytes) :
    trim (l ++ s) = trim s := by
  have h : (l ++ s).dropWhile isspace = s.dropWhile isspace := by
    rw [List.dropWhile_append_of_pos hl]
  rw [trim, h, trim]

/-- A text of white space only trims to nothing, and nothing else does. -/
theorem trim_eq_nil {s : Bytes} : trim s = [] ↔ ∀ c ∈ s, isspace c = true := by
  rw [trim, List.rdropWhile_eq_nil_iff]
  constructor
  · intro h
    rw [← List.dropWhile_eq_nil_iff]
    by_contra hne
    have hhead := List.head_dropWhile_not isspace hne
    have := h _ (List.head_mem hne)
    simp [this] at hhead
  · intro h c hc
    exact h c ((List.dropWhile_sublist isspace).mem hc)

theorem trim_append_space {r : Bytes} (hr : ∀ c ∈ r, isspace c = true) (s : Bytes) :
    trim (s ++ r) = trim s := by
  by_cases hs : ∀ c ∈ s, isspace c = true
  · rw [trim_space_append hs, trim_eq_nil.2 hr, trim_eq_nil.2 hs]
  · have hd : (s ++ r).dropWhile isspace = s.dropWhile isspace ++ r := by
      rw [List.dropWhile_append]
      have : (s.dropWhile isspace).isEmpty = false := by
        rw [List.isEmpty_eq_false_iff, Ne, List.dropWhile_eq_nil_iff]
        exact hs
      simp [this]
    rw [trim, hd, trim]
    rw [List.rdropWhile, List.rdropWhile, List.reverse_append,
      List.dropWhile_append_of_pos (by simpa using hr)]

/-- Every text is its trimmed part with white space on both sides. -/
theorem exists_trim_append (s : Bytes) : ∃ l r : Bytes, s = l ++ trim s ++ r ∧
    (∀ c ∈ l, isspace c = true) ∧ ∀ c ∈ r, isspace c = true := by
  refine ⟨s.takeWhile isspace, (s.dropWhile isspace).rtakeWhile isspace, ?_, ?_, ?_⟩
  · rw [trim, List.append_assoc, List.rdropWhile_append_rtakeWhile, List.takeWhile_append_dropWhile]
  · exact fun c hc => List.mem_takeWhile_imp hc
  · intro c hc
    rw [List.rtakeWhile, List.mem_reverse] at hc
    exact List.mem_takeWhile_imp hc

/-- A text that neither starts nor ends with white space is its own trimmed form. -/
theorem trim_eq_self {s : Bytes} (h₁ : ∀ c ∈ s.head?, isspace c = false)
    (h₂ : ∀ c ∈ s.getLast?, isspace c = false) : trim s = s := by
  have hd : s.dropWhile isspace = s := by
    cases s with
    | nil => rfl
    | cons c s => rw [List.dropWhile_cons_of_neg (by simp [h₁ c (by simp)])]
  rw [trim, hd, List.rdropWhile_eq_self_iff]
  intro hne
  simp [h₂ _ (List.getLast?_eq_some_getLast hne)]

/-- The first byte of a trimmed text is not white space. -/
theorem head_trim {s : Bytes} : ∀ c ∈ (trim s).head?, isspace c = false := by
  intro c hc
  rw [trim] at hc
  have hp : (s.dropWhile isspace).rdropWhile isspace <+: s.dropWhile isspace :=
    List.rdropWhile_prefix isspace _
  obtain ⟨r, hr⟩ := hp
  have hd : c ∈ (s.dropWhile isspace).head? := by
    rw [← hr, List.head?_append]
    simp [Option.mem_def.1 hc]
  cases hw : s.dropWhile isspace with
  | nil => rw [hw] at hd; simp at hd
  | cons d t =>
      rw [hw] at hd
      obtain rfl : d = c := by simpa using hd
      have := List.head_dropWhile_not isspace (l := s) (by rw [hw]; simp)
      simpa [hw] using this

/-- The last byte of a trimmed text is not white space. -/
theorem getLast_trim {s : Bytes} : ∀ c ∈ (trim s).getLast?, isspace c = false := by
  intro c hc
  by_cases hne : trim s = []
  · rw [hne] at hc; simp at hc
  · have h := List.rdropWhile_last_not isspace (s.dropWhile isspace) hne
    rw [List.getLast?_eq_some_getLast hne] at hc
    obtain rfl : (trim s).getLast hne = c := by simpa using hc
    simpa [trim] using h

@[simp] theorem trim_trim (s : Bytes) : trim (trim s) = trim s :=
  trim_eq_self head_trim getLast_trim

/-- The bytes of a trimmed text are bytes of the text. -/
theorem mem_of_mem_trim {s : Bytes} {c : UInt8} (h : c ∈ trim s) : c ∈ s := by
  obtain ⟨l, r, hs, -, -⟩ := exists_trim_append s
  rw [hs]
  simp [h]

/-- A byte that is not white space survives trimming. -/
theorem mem_trim_iff {s : Bytes} {c : UInt8} (hc : isspace c = false) : c ∈ trim s ↔ c ∈ s := by
  refine ⟨mem_of_mem_trim, fun h => ?_⟩
  obtain ⟨l, r, hs, hl, hr⟩ := exists_trim_append s
  rw [hs, List.mem_append, List.mem_append] at h
  rcases h with (h | h) | h
  · rw [hl c h] at hc; simp at hc
  · exact h
  · rw [hr c h] at hc; simp at hc

/-! ### The two sides of a byte -/

/-- What stands before the first `d`, or the whole text when there is none: `substr(0, find(d))`. -/
def before (d : UInt8) (s : Bytes) : Bytes := s.takeWhile (· != d)

/-- What stands after the first `d`, or nothing when there is none. -/
def after (d : UInt8) (s : Bytes) : Bytes := (s.dropWhile (· != d)).tail

theorem before_append_cons {d : UInt8} {l : Bytes} (hl : d ∉ l) (r : Bytes) :
    before d (l ++ d :: r) = l := by
  rw [before, List.takeWhile_append_of_pos]
  · simp
  · intro c hc
    simpa using fun h : c = d => hl (h ▸ hc)

theorem after_append_cons {d : UInt8} {l : Bytes} (hl : d ∉ l) (r : Bytes) :
    after d (l ++ d :: r) = r := by
  rw [after, List.dropWhile_append_of_pos]
  · simp
  · intro c hc
    simpa using fun h : c = d => hl (h ▸ hc)

theorem before_of_notMem {d : UInt8} {s : Bytes} (h : d ∉ s) : before d s = s := by
  rw [before, List.takeWhile_eq_self_iff]
  intro c hc
  simpa using fun h' : c = d => h (h' ▸ hc)

theorem after_of_notMem {d : UInt8} {s : Bytes} (h : d ∉ s) : after d s = [] := by
  rw [after, List.dropWhile_eq_nil_iff.2]
  · rfl
  · intro c hc
    simpa using fun h' : c = d => h (h' ▸ hc)

/-- The first occurrence of a byte splits the text in two. -/
theorem exists_of_mem {d : UInt8} {s : Bytes} (h : d ∈ s) :
    ∃ l r : Bytes, s = l ++ d :: r ∧ d ∉ l := by
  obtain ⟨l, r, hs, hl⟩ := List.eq_append_cons_of_mem h
  exact ⟨l, r, hs, hl⟩

/-! ### Cutting a text at a separator -/

/-- The pieces that `while (std::getline(in, piece, d))` reads from `s`: the blocks between the
separators, where a text that is used up delivers no further piece. -/
def pieces (d : UInt8) : Bytes → List Bytes
  | [] => []
  | c :: s =>
      if c = d then [] :: pieces d s
      else match pieces d s with
        | [] => [[c]]
        | p :: ps => (c :: p) :: ps

@[simp] theorem pieces_nil (d : UInt8) : pieces d [] = [] := rfl

theorem pieces_cons_self (d : UInt8) (s : Bytes) : pieces d (d :: s) = [] :: pieces d s := by
  simp [pieces]

/-- The pieces are the blocks of `List.splitOn`, without the last block when that one is empty. -/
theorem splitOn_eq_pieces (d : UInt8) (s : Bytes) :
    s.splitOn d = pieces d s ∨ s.splitOn d = pieces d s ++ [[]] := by
  induction s with
  | nil => exact Or.inr (by simp)
  | cons c s ih =>
      rw [List.splitOn_cons_eq_if_modifyHead]
      by_cases hc : c = d
      · subst hc
        rcases ih with h | h
        · exact Or.inl (by simp [pieces_cons_self, h])
        · exact Or.inr (by simp [pieces_cons_self, h])
      · have hb : (c == d) = false := by simpa using hc
        simp only [hb, Bool.false_eq_true, if_false, pieces, if_neg hc]
        cases hp : pieces d s with
        | nil =>
            rw [hp] at ih
            rcases ih with h | h
            · exact absurd h (List.splitOn_ne_nil d s)
            · exact Or.inl (by simp [h])
        | cons p ps =>
            rw [hp] at ih
            rcases ih with h | h
            · exact Or.inl (by simp [h])
            · exact Or.inr (by simp [h])

/-- A property that the empty piece lacks holds of some piece exactly when it holds of some
block. -/
theorem any_pieces (P : Bytes → Bool) (hP : P [] = false) (d : UInt8) (s : Bytes) :
    (pieces d s).any P = (s.splitOn d).any P := by
  rcases splitOn_eq_pieces d s with h | h
  · rw [h]
  · simp [h, hP]

/-- Text without the separator in front becomes part of the first block. -/
theorem exists_splitOn_append_left {d : UInt8} {l : Bytes} (hl : d ∉ l) (s : Bytes) :
    ∃ block rest, s.splitOn d = block :: rest ∧ (l ++ s).splitOn d = (l ++ block) :: rest := by
  induction l with
  | nil =>
      obtain ⟨block, rest, h⟩ := List.exists_cons_of_ne_nil (List.splitOn_ne_nil d s)
      exact ⟨block, rest, h, h⟩
  | cons c l ih =>
      rw [List.mem_cons, not_or] at hl
      obtain ⟨block, rest, hs, hls⟩ := ih hl.2
      refine ⟨block, rest, hs, ?_⟩
      have hc : (c == d) = false := by simpa using fun h : c = d => hl.1 h.symm
      simp [List.splitOn_cons_eq_if_modifyHead, hc, hls]

/-- Text without the separator at the end becomes part of the last block. -/
theorem exists_splitOn_append_right {d : UInt8} {r : Bytes} (hr : d ∉ r) (s : Bytes) :
    ∃ rest block, s.splitOn d = rest ++ [block] ∧ (s ++ r).splitOn d = rest ++ [block ++ r] := by
  induction s with
  | nil => exact ⟨[], [], by simp, by simp [List.splitOn_eq_singleton hr]⟩
  | cons c s ih =>
      obtain ⟨rest, block, hs, hsr⟩ := ih
      rw [List.cons_append, List.splitOn_cons_eq_if_modifyHead,
        List.splitOn_cons_eq_if_modifyHead, hs, hsr]
      by_cases hc : (c == d) = true
      · exact ⟨[] :: rest, block, by simp [hc], by simp [hc]⟩
      · cases rest with
        | nil => exact ⟨[], c :: block, by simp [hc], by simp [hc]⟩
        | cons b rest => exact ⟨(c :: b) :: rest, block, by simp [hc], by simp [hc]⟩

/-- The blocks between separators hold none. -/
theorem notMem_of_mem_splitOn {d : UInt8} {s : Bytes} : ∀ block ∈ s.splitOn d, d ∉ block := by
  induction s with
  | nil => simp
  | cons c s ih =>
      rw [List.splitOn_cons_eq_if_modifyHead]
      by_cases hc : (c == d) = true
      · simpa [hc] using ih
      · obtain ⟨b, rest, hs⟩ := List.exists_cons_of_ne_nil (List.splitOn_ne_nil d s)
        have hne : d ≠ c := fun h => hc (by simp [h])
        rw [hs] at ih
        simpa [hc, hs, hne] using ih

/-- What a text contains, apart from the separators, its blocks contain. -/
theorem mem_splitOn {d c : UInt8} (hc : c ≠ d) (s : Bytes) :
    c ∈ s ↔ ∃ block ∈ s.splitOn d, c ∈ block := by
  induction s with
  | nil => simp
  | cons b s ih =>
      obtain ⟨block, rest, hs, hbs⟩ : ∃ block rest, s.splitOn d = block :: rest ∧
          (b :: s).splitOn d = if b = d then [] :: block :: rest else (b :: block) :: rest := by
        obtain ⟨block, rest, hs⟩ := List.exists_cons_of_ne_nil (List.splitOn_ne_nil d s)
        refine ⟨block, rest, hs, ?_⟩
        rw [List.splitOn_cons_eq_if_modifyHead, hs]
        by_cases hb : b = d <;> simp [hb]
      rw [List.mem_cons, ih, hs, hbs]
      by_cases hb : b = d
      · subst hb
        simp [hc]
      · simp [hb, or_assoc]

/-- A property of the blocks that ignores the white space around a block does not see the white
space around the text. -/
theorem any_splitOn_trim {P : Bytes → Bool} {d : UInt8} (hd : isspace d = false)
    (hleft : ∀ l s : Bytes, (∀ c ∈ l, isspace c = true) → P (l ++ s) = P s)
    (hright : ∀ r s : Bytes, (∀ c ∈ r, isspace c = true) → P (s ++ r) = P s) (s : Bytes) :
    ((trim s).splitOn d).any P = (s.splitOn d).any P := by
  have hfree : ∀ l : Bytes, (∀ c ∈ l, isspace c = true) → d ∉ l := by
    intro l hl hmem
    rw [hl d hmem] at hd
    simp at hd
  obtain ⟨l, r, hs, hl, hr⟩ := exists_trim_append s
  obtain ⟨rest, block, h₁, h₂⟩ := exists_splitOn_append_right (hfree r hr) (l ++ trim s)
  obtain ⟨block', rest', h₃, h₄⟩ := exists_splitOn_append_left (hfree l hl) (trim s)
  calc ((trim s).splitOn d).any P
      = ((l ++ trim s).splitOn d).any P := by rw [h₃, h₄]; simp [hleft l _ hl]
    _ = ((l ++ trim s ++ r).splitOn d).any P := by rw [h₁, h₂]; simp [hright r _ hr]
    _ = (s.splitOn d).any P := by rw [← hs]

end Bytes
