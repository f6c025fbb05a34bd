/-
**JSON texts.**

This module is about the data format alone: values, a parser for the grammar of RFC 8259 over
bytes, and a writer without white space.  The writer leaves open how the bytes of a string are
escaped; it takes a function for that, and all that is asked of the function is that the parser
undoes it.  Then the parser undoes the writer on every value.

A number is kept as `mantissa · 10 ^ exponent`, which is exact for every number of the grammar.
Strings are byte strings; an escape `\u` stands for the UTF-8 encoding of its code point, and two
of them for the code point of a surrogate pair.

Main definitions:

* `PodInstaller.Json` — values;
* `PodInstaller.Json.parseChars`, `PodInstaller.Json.parseNumber`,
  `PodInstaller.Json.parseValue`, `PodInstaller.Json.parse` — the parser;
* `PodInstaller.Json.Escapes`, `PodInstaller.Json.render` — the writer;
* `PodInstaller.Json.UniqueKeys` — values without duplicate keys.

Main results:

* `PodInstaller.Json.parseChars_quote`, `PodInstaller.Json.parseNumber_render` — strings and
  numbers;
* `PodInstaller.Json.parseValue_render` — a value in front of other text;
* `PodInstaller.Json.parse_render` — **the parser undoes the writer**.
-/

import PodInstaller.ByteString

set_option relaxedAutoImplicit false
set_option autoImplicit false

namespace PodInstaller

open Bytes

/-! ### Values -/

/-- A number of the grammar: `mantissa · 10 ^ exponent`. -/
structure JsonNumber where
  mantissa : ℤ
  exponent : ℤ := 0
  deriving DecidableEq

/-- JSON values; the members of an object stand in their order. -/
inductive Json
  | null
  | bool (b : Bool)
  | num (n : JsonNumber)
  | str (s : Bytes)
  | arr (elements : List Json)
  | obj (members : List (Bytes × Json))

namespace Json

/-! ### Strings -/

def isWs (c : UInt8) : Bool := c == ch ' ' || c == ch '\t' || c == ch '\n' || c == ch '\r'

def skipWs (s : Bytes) : Bytes := s.dropWhile isWs

/-- The value of a hexadecimal digit, of either case. -/
def hexValue (c : UInt8) : Option ℕ :=
  if 48 ≤ c ∧ c ≤ 57 then some (c.toNat - 48)
  else if 97 ≤ c ∧ c ≤ 102 then some (c.toNat - 87)
  else if 65 ≤ c ∧ c ≤ 70 then some (c.toNat - 55)
  else none

/-- The code unit of an escape with four digits. -/
def codeUnit (a b c d : UInt8) : Option ℕ := do
  let w ← hexValue a
  let x ← hexValue b
  let y ← hexValue c
  let z ← hexValue d
  return ((w * 16 + x) * 16 + y) * 16 + z

/-- The UTF-8 encoding of a code point. -/
def utf8 (n : ℕ) : Bytes :=
  if n < 0x80 then [UInt8.ofNat n]
  else if n < 0x800 then [UInt8.ofNat (0xC0 + n / 64), UInt8.ofNat (0x80 + n % 64)]
  else if n < 0x10000 then
    [UInt8.ofNat (0xE0 + n / 4096), UInt8.ofNat (0x80 + n / 64 % 64), UInt8.ofNat (0x80 + n % 64)]
  else
    [UInt8.ofNat (0xF0 + n / 262144), UInt8.ofNat (0x80 + n / 4096 % 64),
      UInt8.ofNat (0x80 + n / 64 % 64), UInt8.ofNat (0x80 + n % 64)]

/-- The escapes of one letter. -/
def simpleEscape (c : UInt8) : Option UInt8 :=
  if c = ch '"' ∨ c = ch '\\' ∨ c = ch '/' then some c
  else if c = ch 'b' then some 8
  else if c = ch 'f' then some 12
  else if c = ch 'n' then some 10
  else if c = ch 'r' then some 13
  else if c = ch 't' then some 9
  else none

/-- Puts bytes in front of what was read. -/
def prepend (front : Bytes) (read : Option (Bytes × Bytes)) : Option (Bytes × Bytes) :=
  read.map fun p => (front ++ p.1, p.2)

/-- The bytes of a string up to the closing quote, and the text behind it. -/
def parseChars : Bytes → Option (Bytes × Bytes)
  | [] => none
  | c :: s =>
    if c = ch '"' then some ([], s)
    else if c = ch '\\' then
      match s with
      | [] => none
      | e :: s =>
        if e = ch 'u' then
          match s with
          | a :: b :: c :: d :: s =>
            match codeUnit a b c d with
            | none => none
            | some n =>
              if 0xD800 ≤ n ∧ n < 0xDC00 then
                -- a high surrogate, which a low one must follow
                match s with
                | x :: y :: a :: b :: c :: d :: s =>
                  match codeUnit a b c d with
                  | none => none
                  | some m =>
                    if x = ch '\\' ∧ y = ch 'u' ∧ 0xDC00 ≤ m ∧ m < 0xE000 then
                      prepend (utf8 (0x10000 + (n - 0xD800) * 1024 + (m - 0xDC00))) (parseChars s)
                    else none
                | _ => none
              else if 0xDC00 ≤ n ∧ n < 0xE000 then none
              else prepend (utf8 n) (parseChars s)
          | _ => none
        else
          match simpleEscape e with
          | none => none
          | some b => prepend [b] (parseChars s)
    else if c < 0x20 then none
    else prepend [c] (parseChars s)

/-! ### Numbers -/

/-- The number that digits denote. -/
def ofDigits (ds : Bytes) : ℕ := ds.foldl (fun n c => 10 * n + (c.toNat - 48)) 0

def applySign (neg : Bool) (n : ℕ) : ℤ := if neg then -(n : ℤ) else n

/-- An optional minus sign. -/
def parseSign : Bytes → Bool × Bytes
  | [] => (false, [])
  | c :: s => if c = ch '-' then (true, s) else (false, c :: s)

/-- An optional fraction: its digits. -/
def parseFrac : Bytes → Option (Bytes × Bytes)
  | [] => some ([], [])
  | c :: s =>
    if c = ch '.' then
      if s.takeWhile isdigit = [] then none
      else some (s.takeWhile isdigit, s.dropWhile isdigit)
    else some ([], c :: s)

/-- An optional exponent. -/
def parseExp : Bytes → Option (ℤ × Bytes)
  | [] => some (0, [])
  | c :: s =>
    if c = ch 'e' ∨ c = ch 'E' then
      let (neg, s) := if s.head? = some (ch '+') then (false, s.tail) else parseSign s
      if s.takeWhile isdigit = [] then none
      else some (applySign neg (ofDigits (s.takeWhile isdigit)), s.dropWhile isdigit)
    else some (0, c :: s)

/-- A number: its whole part has no leading zero. -/
def parseNumber (s : Bytes) : Option (JsonNumber × Bytes) :=
  let (neg, s) := parseSign s
  let whole := s.takeWhile isdigit
  if whole = [] ∨ (whole.head? = some (ch '0') ∧ 1 < whole.length) then none
  else do
    let (frac, s) ← parseFrac (s.dropWhile isdigit)
    let (exponent, s) ← parseExp s
    return (⟨applySign neg (ofDigits (whole ++ frac)), exponent - frac.length⟩, s)

/-! ### Values -/

/-- The rest of a text behind a word. -/
def eat (word s : Bytes) : Option Bytes := if word <+: s then some (s.drop word.length) else none

mutual

/-- A value at the start of a text, and the text behind it.  Every call reads a byte before the next
one, so that the length of the text bounds their number. -/
def parseValue : ℕ → Bytes → Option (Json × Bytes)
  | 0, _ => none
  | _ + 1, [] => none
  | n + 1, c :: s =>
    if c = ch '"' then (parseChars s).map fun p => (.str p.1, p.2)
    else if c = ch '[' then
      if (skipWs s).head? = some (ch ']') then some (.arr [], (skipWs s).tail)
      else (parseElements n s).map fun p => (.arr p.1, p.2)
    else if c = ch '{' then
      if (skipWs s).head? = some (ch '}') then some (.obj [], (skipWs s).tail)
      else (parseMembers n s).map fun p => (.obj p.1, p.2)
    else if c = ch 'n' then (eat "ull" s).map fun s => (.null, s)
    else if c = ch 't' then (eat "rue" s).map fun s => (.bool true, s)
    else if c = ch 'f' then (eat "alse" s).map fun s => (.bool false, s)
    else (parseNumber (c :: s)).map fun p => (.num p.1, p.2)

/-- The values up to the closing bracket. -/
def parseElements : ℕ → Bytes → Option (List Json × Bytes)
  | 0, _ => none
  | n + 1, s =>
    match parseValue n (skipWs s) with
    | none => none
    | some (v, s) =>
      match skipWs s with
      | [] => none
      | c :: s =>
        if c = ch ']' then some ([v], s)
        else if c = ch ',' then (parseElements n s).map fun p => (v :: p.1, p.2)
        else none

/-- The members up to the closing brace. -/
def parseMembers : ℕ → Bytes → Option (List (Bytes × Json) × Bytes)
  | 0, _ => none
  | n + 1, s =>
    match eat "\"" (skipWs s) >>= parseChars with
    | none => none
    | some (k, s) =>
      match eat ":" (skipWs s) >>= fun s => parseValue n (skipWs s) with
      | none => none
      | some (v, s) =>
        match skipWs s with
        | [] => none
        | c :: s =>
          if c = ch '}' then some ([(k, v)], s)
          else if c = ch ',' then (parseMembers n s).map fun p => ((k, v) :: p.1, p.2)
          else none

end

/-- A JSON text: one value with white space around it. -/
def parse (s : Bytes) : Option Json :=
  match parseValue (s.length + 1) (skipWs s) with
  | some (v, rest) => if skipWs rest = [] then some v else none
  | none => none

/-! ### The writer -/

/-- A way to write the bytes of a string that the parser undoes. -/
def Escapes (esc : UInt8 → Bytes) : Prop :=
  ∀ c rest, parseChars (esc c ++ rest) = prepend [c] (parseChars rest)

section

variable (esc : UInt8 → Bytes)

/-- A string in quotes. -/
def quote (s : Bytes) : Bytes := ch '"' :: (s.flatMap esc ++ [ch '"'])

/-- A number; the exponent is left out when it is zero. -/
def renderNumber (n : JsonNumber) : Bytes :=
  decimalInt n.mantissa ++ if n.exponent = 0 then [] else ch 'e' :: decimalInt n.exponent

mutual

/-- The text of a value, without white space. -/
def render : Json → Bytes
  | .null => "null"
  | .bool b => if b then "true" else "false"
  | .num n => renderNumber n
  | .str s => quote esc s
  | .arr vs => ch '[' :: (renderElements vs ++ [ch ']'])
  | .obj ms => ch '{' :: (renderMembers ms ++ [ch '}'])

def renderElements : List Json → Bytes
  | [] => []
  | [v] => render v
  | v :: w :: vs => render v ++ ch ',' :: renderElements (w :: vs)

def renderMembers : List (Bytes × Json) → Bytes
  | [] => []
  | [(k, v)] => quote esc k ++ ch ':' :: render v
  | (k, v) :: m :: ms => quote esc k ++ ch ':' :: (render v ++ ch ',' :: renderMembers (m :: ms))

end

end

mutual

/-- No object in the value has two members with one key. -/
def UniqueKeys : Json → Prop
  | .arr vs => UniqueElements vs
  | .obj ms => (ms.map Prod.fst).Nodup ∧ UniqueMembers ms
  | _ => True

def UniqueElements : List Json → Prop
  | [] => True
  | v :: vs => UniqueKeys v ∧ UniqueElements vs

def UniqueMembers : List (Bytes × Json) → Prop
  | [] => True
  | (_, v) :: ms => UniqueKeys v ∧ UniqueMembers ms

end

theorem uniqueElements_iff {vs : List Json} : UniqueElements vs ↔ ∀ v ∈ vs, UniqueKeys v := by
  induction vs with
  | nil => simp [UniqueElements]
  | cons v vs ih => rw [UniqueElements, ih, List.forall_mem_cons]

theorem uniqueMembers_iff {ms : List (Bytes × Json)} :
    UniqueMembers ms ↔ ∀ m ∈ ms, UniqueKeys m.2 := by
  induction ms with
  | nil => simp [UniqueMembers]
  | cons m ms ih => rw [UniqueMembers, ih, List.forall_mem_cons]

/-! ### Reading digits back -/

/-- The characters of a number denote it. -/
theorem ofDigits_decimal (n : ℕ) : ofDigits (decimal n) = n := by
  have hfold : ∀ (cs : List Char) (acc : ℕ), (∀ c ∈ cs, (UInt8.ofNat c.toNat).toNat = c.toNat) →
      (cs.map fun c => UInt8.ofNat c.toNat).foldl (fun n c => 10 * n + (c.toNat - 48)) acc =
        Nat.ofDigitChars 10 cs acc := by
    intro cs
    induction cs with
    | nil => exact fun _ _ => by simp
    | cons c cs ih =>
        intro acc h
        rw [List.forall_mem_cons] at h
        rw [List.map_cons, List.foldl_cons, ih _ h.2, h.1, Nat.ofDigitChars_cons]
        rfl
  rw [ofDigits, decimal, hfold _ _ fun c hc => (toNat_of_mem_toDigits hc).1,
    Nat.ofDigitChars_ten_toDigits]

/-- No number but zero starts with the digit zero. -/
theorem decimal_head (n : ℕ) : (decimal n).head? = some (ch '0') → decimal n = [ch '0'] := by
  have hhead : ∀ n : ℕ, 0 < n → (Nat.toDigits 10 n).head? ≠ some '0' := by
    intro n
    induction n using Nat.strongRecOn with
    | ind n ih =>
        intro hpos
        rw [Nat.toDigits_eq_if (by omega)]
        split_ifs with hlt
        · have hall : ∀ d : Fin 10, 0 < d.val → [Nat.digitChar d.val].head? ≠ some '0' := by decide
          exact hall ⟨n, hlt⟩ hpos
        · rw [List.head?_append_of_ne_nil _ Nat.toDigits_ne_nil]
          exact ih (n / 10) (by omega) (by omega)
  rcases Nat.eq_zero_or_pos n with rfl | hpos
  · exact fun _ => by decide
  · intro h
    exfalso
    rw [decimal, List.head?_map, Option.map_eq_some_iff] at h
    obtain ⟨c, hc, heq⟩ := h
    have hmem := List.mem_of_mem_head? (Option.mem_def.2 hc)
    have hnat := congrArg UInt8.toNat heq
    rw [(toNat_of_mem_toDigits hmem).1] at hnat
    have hzero : c = '0' := Char.ext (UInt32.toNat_inj.1 hnat)
    exact hhead n hpos (hzero ▸ hc)

/-- A text that does not go on with a number. -/
def NumberEnd (rest : Bytes) : Prop :=
  ∀ c ∈ rest.head?, isdigit c = false ∧ c ≠ ch '.' ∧ c ≠ ch 'e' ∧ c ≠ ch 'E'

theorem takeWhile_decimal {n : ℕ} {rest : Bytes} (h : ∀ c ∈ rest.head?, isdigit c = false) :
    (decimal n ++ rest).takeWhile isdigit = decimal n ∧
      (decimal n ++ rest).dropWhile isdigit = rest := by
  have hall : ∀ c ∈ decimal n, isdigit c = true := fun c hc => isdigit_of_mem_decimal hc
  rw [List.takeWhile_append_of_pos hall, List.dropWhile_append_of_pos hall]
  cases rest with
  | nil => simp
  | cons c rest =>
      have hc := h c rfl
      simp [hc]

theorem parseSign_decimalInt (m : ℤ) (rest : Bytes) :
    parseSign (decimalInt m ++ rest) = (decide (m < 0), decimal m.natAbs ++ rest) := by
  rw [decimalInt]
  by_cases hm : m < 0
  · rw [if_pos hm]
    simp [parseSign, hm, ofString]
    rfl
  · rw [if_neg hm]
    obtain ⟨c, t, hct⟩ := List.exists_cons_of_ne_nil (decimal_ne_nil m.natAbs)
    have hdigit := digit_of_mem_decimal (n := m.natAbs) (c := c) (by rw [hct]; simp)
    have hne : c ≠ ch '-' := by
      rintro rfl
      exact absurd hdigit.1 (by decide)
    rw [hct, List.cons_append, parseSign, if_neg hne]
    simp [hm]

theorem applySign_natAbs (m : ℤ) : applySign (decide (m < 0)) m.natAbs = m := by
  by_cases hm : m < 0
  · rw [decide_eq_true hm, applySign, if_pos rfl]
    omega
  · rw [decide_eq_false hm, applySign, if_neg Bool.false_ne_true]
    omega

/-- The first byte of a signed number. -/
theorem exists_decimalInt_cons (m : ℤ) :
    ∃ c t, decimalInt m = c :: t ∧ (c = ch '-' ∨ isdigit c = true) := by
  rw [decimalInt]
  split_ifs
  · exact ⟨ch '-', _, rfl, .inl rfl⟩
  · obtain ⟨c, t, hct⟩ := List.exists_cons_of_ne_nil (decimal_ne_nil m.natAbs)
    exact ⟨c, t, hct, .inr (isdigit_of_mem_decimal (by rw [hct]; simp))⟩

theorem ne_of_sign_or_digit {c d : UInt8} (hc : c = ch '-' ∨ isdigit c = true) (hminus : d ≠ ch '-')
    (hdigit : isdigit d = false) : c ≠ d := by
  rintro rfl
  rcases hc with rfl | hc
  · exact hminus rfl
  · rw [hdigit] at hc
    cases hc

theorem parseFrac_end {rest : Bytes} (h : rest.head? ≠ some (ch '.')) :
    parseFrac rest = some ([], rest) := by
  cases rest with
  | nil => rfl
  | cons c rest =>
      have hne : c ≠ ch '.' := fun heq => h (by rw [heq, List.head?_cons])
      rw [parseFrac, if_neg hne]

theorem parseExp_end {rest : Bytes} (h : ∀ c ∈ rest.head?, c ≠ ch 'e' ∧ c ≠ ch 'E') :
    parseExp rest = some (0, rest) := by
  cases rest with
  | nil => rfl
  | cons c rest =>
      have hne := h c rfl
      rw [parseExp, if_neg (by tauto)]

theorem parseExp_decimalInt (e : ℤ) {rest : Bytes} (h : ∀ c ∈ rest.head?, isdigit c = false) :
    parseExp (ch 'e' :: (decimalInt e ++ rest)) = some (e, rest) := by
  have hplus : (decimalInt e ++ rest).head? ≠ some (ch '+') := by
    obtain ⟨c, t, hct, hc⟩ := exists_decimalInt_cons e
    rw [hct, List.cons_append, List.head?_cons, Ne, Option.some.injEq]
    exact ne_of_sign_or_digit hc (by decide) (by decide)
  obtain ⟨htake, hdrop⟩ := takeWhile_decimal (n := e.natAbs) h
  rw [parseExp, if_pos (.inl rfl), if_neg hplus, parseSign_decimalInt]
  dsimp only
  rw [htake, hdrop, if_neg (decimal_ne_nil _), ofDigits_decimal, applySign_natAbs]

/-- A number in front of a text that does not go on with it. -/
theorem parseNumber_render (n : JsonNumber) {rest : Bytes} (h : NumberEnd rest) :
    parseNumber (renderNumber n ++ rest) = some (n, rest) := by
  obtain ⟨m, e⟩ := n
  obtain ⟨tail, htail, hdigit, hfrac, hexp⟩ : ∃ tail, renderNumber ⟨m, e⟩ ++ rest =
      decimalInt m ++ tail ∧ (∀ c ∈ tail.head?, isdigit c = false) ∧
        tail.head? ≠ some (ch '.') ∧ parseExp tail = some (e, rest) := by
    rw [renderNumber]
    by_cases he : e = 0
    · subst he
      refine ⟨rest, by simp, fun c hc => (h c hc).1, fun hc => (h _ hc).2.1 rfl, ?_⟩
      exact parseExp_end fun c hc => (h c hc).2.2
    · refine ⟨ch 'e' :: (decimalInt e ++ rest), by simp [he], ?_, ?_, ?_⟩
      · intro c hc
        obtain rfl : ch 'e' = c := Option.some.inj hc
        decide
      · rw [List.head?_cons]
        decide
      · exact parseExp_decimalInt e fun c hc => (h c hc).1
  obtain ⟨htake, hdrop⟩ := takeWhile_decimal (n := m.natAbs) hdigit
  have hzero : ¬ (decimal m.natAbs = [] ∨
      (decimal m.natAbs).head? = some (ch '0') ∧ 1 < (decimal m.natAbs).length) := by
    rintro (hnil | ⟨hhead, hlen⟩)
    · exact decimal_ne_nil _ hnil
    · rw [decimal_head _ hhead] at hlen
      exact absurd hlen (by decide)
  rw [htail, parseNumber, parseSign_decimalInt]
  dsimp only
  rw [htake, hdrop, if_neg hzero, parseFrac_end hfrac]
  simp [hexp, ofDigits_decimal, applySign_natAbs]

/-! ### Reading values back -/

section

variable {esc : UInt8 → Bytes}

/-- A string in front of other text. -/
theorem parseChars_quote (hesc : Escapes esc) (s rest : Bytes) :
    parseChars (s.flatMap esc ++ ch '"' :: rest) = some (s, rest) := by
  induction s with
  | nil =>
      rw [List.flatMap_nil, List.nil_append]
      unfold parseChars
      rw [if_pos rfl]
  | cons c s ih =>
      rw [List.flatMap_cons, List.append_assoc, hesc, ih]
      rfl

/-- The first byte of a value. -/
theorem exists_render_cons (esc : UInt8 → Bytes) (v : Json) :
    ∃ c t, render esc v = c :: t ∧ isWs c = false ∧ c ≠ ch ']' ∧ c ≠ ch '}' := by
  cases v with
  | null => exact ⟨_, _, rfl, by decide, by decide, by decide⟩
  | bool b => cases b <;> exact ⟨_, _, rfl, by decide, by decide, by decide⟩
  | num n =>
      obtain ⟨c, t, hct, hc⟩ := exists_decimalInt_cons n.mantissa
      have hne := fun d hminus hdigit => ne_of_sign_or_digit (d := d) hc hminus hdigit
      refine ⟨c, t ++ if n.exponent = 0 then [] else ch 'e' :: decimalInt n.exponent, ?_, ?_,
        hne _ (by decide) (by decide), hne _ (by decide) (by decide)⟩
      · rw [render, renderNumber, hct, List.cons_append]
      · simp only [isWs, Bool.or_eq_false_iff, beq_eq_false_iff_ne]
        exact ⟨⟨⟨hne _ (by decide) (by decide), hne _ (by decide) (by decide)⟩,
          hne _ (by decide) (by decide)⟩, hne _ (by decide) (by decide)⟩
  | str s => exact ⟨_, _, rfl, by decide, by decide, by decide⟩
  | arr vs => exact ⟨_, _, rfl, by decide, by decide, by decide⟩
  | obj ms => exact ⟨_, _, rfl, by decide, by decide, by decide⟩

theorem skipWs_cons {c : UInt8} (h : isWs c = false) (s : Bytes) : skipWs (c :: s) = c :: s := by
  simp [skipWs, h]

theorem skipWs_render (v : Json) (rest : Bytes) :
    skipWs (render esc v ++ rest) = render esc v ++ rest := by
  obtain ⟨c, t, hct, hc, -⟩ := exists_render_cons esc v
  rw [hct, List.cons_append, skipWs_cons hc]

theorem eat_cons (c : UInt8) (s : Bytes) : eat [c] (c :: s) = some s := by
  simp [eat]

theorem numberEnd_cons {c : UInt8} (h : c = ch ',' ∨ c = ch ']' ∨ c = ch '}') (s : Bytes) :
    NumberEnd (c :: s) := by
  intro d hd
  obtain rfl : c = d := Option.some.inj hd
  rcases h with rfl | rfl | rfl <;> decide

/-- The words for the constants. -/
theorem eat_append (word rest : Bytes) : eat word (word ++ rest) = some rest := by
  simp [eat]

theorem parseValue_num {n : ℕ} {number : JsonNumber} {rest : Bytes} (h : NumberEnd rest) :
    parseValue (n + 1) (renderNumber number ++ rest) = some (.num number, rest) := by
  have hread := parseNumber_render number h
  obtain ⟨c, t, hct, hc⟩ := exists_decimalInt_cons number.mantissa
  have hne := fun d hminus hdigit => ne_of_sign_or_digit (d := d) hc hminus hdigit
  rw [renderNumber, hct, List.cons_append, List.cons_append] at hread ⊢
  rw [parseValue, if_neg (hne _ (by decide) (by decide)), if_neg (hne _ (by decide) (by decide)),
    if_neg (hne _ (by decide) (by decide)), if_neg (hne _ (by decide) (by decide)),
    if_neg (hne _ (by decide) (by decide)), if_neg (hne _ (by decide) (by decide)), hread]
  rfl

theorem exists_renderElements_cons (esc : UInt8 → Bytes) (v : Json) (vs : List Json) :
    ∃ c t, renderElements esc (v :: vs) = c :: t ∧ isWs c = false ∧ c ≠ ch ']' ∧ c ≠ ch '}' := by
  obtain ⟨c, t, hct, hc⟩ := exists_render_cons esc v
  cases vs with
  | nil => exact ⟨c, t, by rw [renderElements, hct], hc⟩
  | cons w vs => exact ⟨c, _, by rw [renderElements, hct, List.cons_append], hc⟩

theorem exists_renderMembers_cons (esc : UInt8 → Bytes) (m : Bytes × Json)
    (ms : List (Bytes × Json)) :
    ∃ t, renderMembers esc (m :: ms) = ch '"' :: t := by
  cases ms with
  | nil => exact ⟨_, by rw [renderMembers, quote, List.cons_append]⟩
  | cons m' ms => exact ⟨_, by rw [renderMembers, quote, List.cons_append]⟩

/-- The text of a member in front of other text. -/
theorem parseMember_quote (hesc : Escapes esc) (k rest : Bytes) :
    (eat "\"" (skipWs (quote esc k ++ rest)) >>= parseChars) = some (k, rest) := by
  have hquote : isWs (ch '"') = false := by decide
  rw [quote, List.cons_append, skipWs_cons hquote, show ("\"" : Bytes) = [ch '"'] by rfl, eat_cons,
    List.append_assoc, List.singleton_append]
  exact parseChars_quote hesc k rest

mutual

/-- **A value in front of other text** is read back, if the text does not go on with a number. -/
theorem parseValue_render (hesc : Escapes esc) : ∀ (v : Json) (n : ℕ) (rest : Bytes),
    (render esc v).length ≤ n → NumberEnd rest →
      parseValue n (render esc v ++ rest) = some (v, rest)
  | v, 0, rest, hlen, _ => by
      obtain ⟨c, t, hct, -⟩ := exists_render_cons esc v
      rw [hct] at hlen
      simp at hlen
  | .null, n + 1, rest, _, _ => by
      rw [render]
      exact congrArg (Option.map _) (eat_append "ull" rest)
  | .bool true, n + 1, rest, _, _ => by
      rw [render]
      exact congrArg (Option.map _) (eat_append "rue" rest)
  | .bool false, n + 1, rest, _, _ => by
      rw [render]
      exact congrArg (Option.map _) (eat_append "alse" rest)
  | .num number, n + 1, rest, _, hend => by
      rw [render]
      exact parseValue_num hend
  | .str s, n + 1, rest, _, _ => by
      rw [render, quote, List.cons_append, parseValue, if_pos rfl, List.append_assoc,
        List.singleton_append, parseChars_quote hesc]
      rfl
  | .arr vs, n + 1, rest, hlen, _ => by
      rw [render, List.cons_append, List.append_assoc, List.singleton_append, parseValue,
        if_neg (by decide), if_pos rfl]
      rw [render, List.length_cons, List.length_append, List.length_singleton] at hlen
      cases vs with
      | nil => simp [renderElements, skipWs_cons (show isWs (ch ']') = false by decide)]
      | cons v vs =>
          obtain ⟨c, t, hct, hws, hbracket, -⟩ := exists_renderElements_cons esc v vs
          -- the text of an element does not start with the closing bracket
          have hopen : (skipWs (renderElements esc (v :: vs) ++ ch ']' :: rest)).head? ≠
              some (ch ']') := by
            rw [hct, List.cons_append, skipWs_cons hws]
            simpa using hbracket
          rw [if_neg hopen, parseElements_render hesc v vs n rest (by omega)]
          rfl
  | .obj ms, n + 1, rest, hlen, _ => by
      rw [render, List.cons_append, List.append_assoc, List.singleton_append, parseValue,
        if_neg (by decide), if_neg (by decide), if_pos rfl]
      rw [render, List.length_cons, List.length_append, List.length_singleton] at hlen
      cases ms with
      | nil => simp [renderMembers, skipWs_cons (show isWs (ch '}') = false by decide)]
      | cons m ms =>
          obtain ⟨k, v⟩ := m
          obtain ⟨t, hct⟩ := exists_renderMembers_cons esc (k, v) ms
          -- the text of a member starts with a quote
          have hopen : (skipWs (renderMembers esc ((k, v) :: ms) ++ ch '}' :: rest)).head? ≠
              some (ch '}') := by
            rw [hct, List.cons_append, skipWs_cons (by decide), List.head?_cons]
            decide
          rw [if_neg hopen, parseMembers_render hesc k v ms n rest (by omega)]
          rfl

/-- Elements in front of the closing bracket. -/
theorem parseElements_render (hesc : Escapes esc) : ∀ (v : Json) (vs : List Json) (n : ℕ)
    (rest : Bytes), (renderElements esc (v :: vs)).length < n →
      parseElements n (renderElements esc (v :: vs) ++ ch ']' :: rest) = some (v :: vs, rest)
  | v, vs, 0, rest, hlen => absurd hlen (Nat.not_lt_zero _)
  | v, [], n + 1, rest, hlen => by
      rw [renderElements] at hlen ⊢
      rw [parseElements, skipWs_render,
        parseValue_render hesc v n _ (by omega) (numberEnd_cons (by tauto) _)]
      dsimp only
      rw [skipWs_cons (by decide)]
      simp
  | v, w :: vs, n + 1, rest, hlen => by
      rw [renderElements] at hlen ⊢
      simp only [List.length_append, List.length_cons] at hlen
      rw [List.append_assoc, List.cons_append, parseElements, skipWs_render,
        parseValue_render hesc v n _ (by omega) (numberEnd_cons (by tauto) _)]
      dsimp only
      rw [skipWs_cons (by decide)]
      dsimp only
      rw [if_neg (by decide), if_pos rfl, parseElements_render hesc w vs n rest (by omega)]
      rfl

/-- Members in front of the closing brace. -/
theorem parseMembers_render (hesc : Escapes esc) : ∀ (k : Bytes) (v : Json)
    (ms : List (Bytes × Json)) (n : ℕ) (rest : Bytes),
    (renderMembers esc ((k, v) :: ms)).length < n →
      parseMembers n (renderMembers esc ((k, v) :: ms) ++ ch '}' :: rest) =
        some ((k, v) :: ms, rest)
  | k, v, ms, 0, rest, hlen => absurd hlen (Nat.not_lt_zero _)
  | k, v, [], n + 1, rest, hlen => by
      rw [renderMembers] at hlen ⊢
      simp only [List.length_append, List.length_cons] at hlen
      rw [List.append_assoc, List.cons_append, parseMembers, parseMember_quote hesc]
      dsimp only
      rw [skipWs_cons (by decide), show (":" : Bytes) = [ch ':'] by rfl, eat_cons,
        Option.bind_eq_bind, Option.bind_some, skipWs_render,
        parseValue_render hesc v n _ (by omega) (numberEnd_cons (by tauto) _)]
      dsimp only
      rw [skipWs_cons (by decide)]
      simp
  | k, v, (k', w) :: ms, n + 1, rest, hlen => by
      rw [renderMembers] at hlen ⊢
      simp only [List.length_append, List.length_cons] at hlen
      rw [List.append_assoc, List.cons_append, List.append_assoc, List.cons_append, parseMembers,
        parseMember_quote hesc]
      dsimp only
      rw [skipWs_cons (by decide), show (":" : Bytes) = [ch ':'] by rfl, eat_cons,
        Option.bind_eq_bind, Option.bind_some, skipWs_render,
        parseValue_render hesc v n _ (by omega) (numberEnd_cons (by tauto) _)]
      dsimp only
      rw [skipWs_cons (by decide)]
      dsimp only
      rw [if_neg (by decide), if_pos rfl, parseMembers_render hesc k' w ms n rest (by omega)]
      rfl

end

/-- A member is not read if its value is not. -/
theorem parseMembers_value_none (hesc : Escapes esc) (k : Bytes) {s : Bytes}
    (h : ∀ n, parseValue n (skipWs s) = none) (n : ℕ) :
    parseMembers n (quote esc k ++ ch ':' :: s) = none := by
  cases n with
  | zero => rfl
  | succ n =>
      rw [parseMembers, parseMember_quote hesc]
      dsimp only
      rw [skipWs_cons (by decide), show (":" : Bytes) = [ch ':'] by rfl, eat_cons,
        Option.bind_eq_bind, Option.bind_some, h]

/-- **The parser undoes the writer.** -/
theorem parse_render (hesc : Escapes esc) (v : Json) : parse (render esc v) = some v := by
  have hread : parseValue ((render esc v).length + 1) (skipWs (render esc v)) = some (v, []) := by
    have hws : skipWs (render esc v ++ []) = render esc v ++ [] := skipWs_render v []
    rw [List.append_nil] at hws
    rw [hws]
    have hval := parseValue_render hesc v ((render esc v).length + 1) [] (by omega)
      (fun c hc => by cases hc)
    rwa [List.append_nil] at hval
  rw [parse, hread]
  rfl

end

end Json

end PodInstaller
