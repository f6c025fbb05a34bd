/-
**Percent-encoding of URL components.**

`PodInstaller.urlEncodeComponent` and `PodInstaller.urlDecodeComponent` are two loops written
separately.  Between them stands the way a component is read from left to right: as a sequence of
tokens, each a literal byte or an escape with its two digits.  The decoder accepts a text exactly
when it has such a reading and replaces every token by the byte it stands for, so that two texts
whose readings agree token by token decode alike; the encoder writes one token for each byte.

Main definitions:

* `PodInstaller.hexValue`, `PodInstaller.urlEncodeComponent`, `PodInstaller.urlDecodeComponent`;
* `PodInstaller.UrlToken` — a literal or an escape, with its text and the byte it stands for;
* `PodInstaller.ReadUpTo` — the rest of a text at which its reading from left to right arrives;
* `PodInstaller.UrlToken.Respelled` — the other spellings of a token.

Main results:

* `PodInstaller.urlDecodeComponent_eq_ok` — the decoder replaces the tokens of a reading;
* `PodInstaller.urlDecodeComponent_urlEncodeComponent` — decoding undoes encoding;
* `PodInstaller.urlDecodeComponent_respelled` — respelling does not change the result;
* `PodInstaller.urlCodec` — the codec as a whole.
-/

import PodInstaller.ErrorModel

set_option relaxedAutoImplicit false
set_option autoImplicit false

namespace PodInstaller

open Bytes

/-! ### The two loops -/

/-- `hex_value`. -/
def hexValue (c : UInt8) : ℤ :=
  if ch '0' ≤ c ∧ c ≤ ch '9' then (c.toNat : ℤ) - 48
  else if ch 'a' ≤ c ∧ c ≤ ch 'f' then (c.toNat : ℤ) - 97 + 10
  else if ch 'A' ≤ c ∧ c ≤ ch 'F' then (c.toNat : ℤ) - 65 + 10
  else -1

/-- The bytes that `url_encode_component` leaves alone. -/
def unreserved (c : UInt8) : Bool :=
  isalnum c || c == ch '-' || c == ch '_' || c == ch '.' || c == ch '~'

/-- A digit as `std::uppercase << std::hex` prints it. -/
def upperHexDigit (n : ℕ) : UInt8 := UInt8.ofNat (if n < 10 then 48 + n else 55 + n)

/-- One round of the loop of `url_encode_component`.  The number is printed in a field of two
characters that is filled up with zeros. -/
def urlEncodeByte (c : UInt8) : Bytes :=
  if unreserved c then [c]
  else [ch '%', upperHexDigit (c.toNat / 16), upperHexDigit (c.toNat % 16)]

/-- `url_encode_component`. -/
def urlEncodeComponent (input : Bytes) : Bytes := input.flatMap urlEncodeByte

/-- The byte of an escape: `(hi << 4) | lo`. -/
def escapedByte (hi lo : UInt8) : UInt8 :=
  UInt8.ofNat ((hexValue hi).toNat <<< 4 ||| (hexValue lo).toNat)

/-- The loop of `url_decode_component`, over the input that is left. -/
def urlDecodeComponent (plusAsSpace : Bool) : Bytes → Result Bytes
  | [] => return []
  | c :: rest =>
    if c = ch '+' ∧ plusAsSpace = true then do
      let out ← urlDecodeComponent plusAsSpace rest
      return ch ' ' :: out
    else if c ≠ ch '%' then do
      let out ← urlDecodeComponent plusAsSpace rest
      return c :: out
    else
      match rest with
      | hi :: lo :: rest =>
        if hexValue hi < 0 ∨ hexValue lo < 0 then
          throw (makeError .invalidArgument "invalid percent escape in URL component")
        else do
          let out ← urlDecodeComponent plusAsSpace rest
          return escapedByte hi lo :: out
      | _ => throw (makeError .invalidArgument "incomplete percent escape in URL component")

/-! ### Hexadecimal digits -/

/-- A byte that `hex_value` knows. -/
def IsHexDigit (c : UInt8) : Prop := 0 ≤ hexValue c

instance (c : UInt8) : Decidable (IsHexDigit c) := inferInstanceAs (Decidable (_ ≤ _))

/-- A digit that the encoder writes. -/
def IsUpperHexDigit (c : UInt8) : Prop := (ch '0' ≤ c ∧ c ≤ ch '9') ∨ (ch 'A' ≤ c ∧ c ≤ ch 'F')

/-- The value of a byte, by its number. -/
theorem hexValue_eq (c : UInt8) : hexValue c =
    if 48 ≤ c.toNat ∧ c.toNat ≤ 57 then (c.toNat : ℤ) - 48
    else if 97 ≤ c.toNat ∧ c.toNat ≤ 102 then (c.toNat : ℤ) - 97 + 10
    else if 65 ≤ c.toNat ∧ c.toNat ≤ 70 then (c.toNat : ℤ) - 65 + 10
    else -1 := by
  simp only [hexValue, UInt8.le_iff_toNat_le]
  rfl

/-- A digit has the same value in both cases. -/
theorem hexValue_tolower (c : UInt8) : hexValue (tolower c) = hexValue c := by
  rw [tolower]
  split
  · rename_i h
    rw [Bool.and_eq_true, decide_eq_true_eq, decide_eq_true_eq, UInt8.le_iff_toNat_le,
      UInt8.le_iff_toNat_le] at h
    have h₁ : (65 : UInt8).toNat = 65 := rfl
    have h₂ : (90 : UInt8).toNat = 90 := rfl
    have hto : (c + 32).toNat = c.toNat + 32 := by
      rw [UInt8.toNat_add]
      have : (32 : UInt8).toNat = 32 := rfl
      omega
    rw [hexValue_eq, hexValue_eq, hto]
    split_ifs <;> omega
  · rfl

theorem toNat_upperHexDigit {n : ℕ} (hn : n < 16) :
    (upperHexDigit n).toNat = if n < 10 then 48 + n else 55 + n := by
  rw [upperHexDigit, UInt8.toNat_ofNat', Nat.mod_eq_of_lt]
  split <;> omega

theorem hexValue_upperHexDigit {n : ℕ} (hn : n < 16) : hexValue (upperHexDigit n) = n := by
  rw [hexValue_eq, toNat_upperHexDigit hn]
  split_ifs <;> omega

theorem isUpperHexDigit_upperHexDigit {n : ℕ} (hn : n < 16) :
    IsUpperHexDigit (upperHexDigit n) := by
  have h₁ : (ch '0').toNat = 48 := rfl
  have h₂ : (ch '9').toNat = 57 := rfl
  have h₃ : (ch 'A').toNat = 65 := rfl
  have h₄ : (ch 'F').toNat = 70 := rfl
  simp only [IsUpperHexDigit, UInt8.le_iff_toNat_le, toNat_upperHexDigit hn, h₁, h₂, h₃, h₄]
  split <;> omega

/-- The byte of an escape depends on the values of its digits. -/
theorem escapedByte_congr {hi lo hi' lo' : UInt8} (h₁ : hexValue hi = hexValue hi')
    (h₂ : hexValue lo = hexValue lo') : escapedByte hi lo = escapedByte hi' lo' := by
  rw [escapedByte, escapedByte, h₁, h₂]

/-- The digits of a byte make up the byte. -/
theorem escapedByte_upperHexDigit (c : UInt8) :
    escapedByte (upperHexDigit (c.toNat / 16)) (upperHexDigit (c.toNat % 16)) = c := by
  have hc := c.toNat_lt
  rw [escapedByte, hexValue_upperHexDigit (by omega), hexValue_upperHexDigit (by omega),
    Int.toNat_natCast, Int.toNat_natCast, ← Nat.shiftLeft_add_eq_or_of_lt (by omega),
    Nat.shiftLeft_eq]
  have hsum : c.toNat / 16 * 2 ^ 4 + c.toNat % 16 = c.toNat := by omega
  rw [hsum, UInt8.ofNat_toNat]

/-! ### Tokens -/

/-- What a component is read as: a byte that stands for itself, or an escape. -/
inductive UrlToken
  | literal (c : UInt8)
  | escape (hi lo : UInt8)

namespace UrlToken

/-- The text of a token. -/
def text : UrlToken → Bytes
  | literal c => [c]
  | escape hi lo => [ch '%', hi, lo]

/-- A percent sign only starts escapes, and the two bytes after it are digits. -/
def Valid : UrlToken → Prop
  | literal c => c ≠ ch '%'
  | escape hi lo => IsHexDigit hi ∧ IsHexDigit lo

/-- The byte that a token stands for. -/
def meaning (plusAsSpace : Bool) : UrlToken → UInt8
  | literal c => if c = ch '+' ∧ plusAsSpace = true then ch ' ' else c
  | escape hi lo => escapedByte hi lo

/-- A token that the encoder writes. -/
def Encoded : UrlToken → Prop
  | literal c => unreserved c = true
  | escape hi lo => IsUpperHexDigit hi ∧ IsUpperHexDigit lo

/-- The other spellings of a token: the digits of an escape in another case, and a literal byte
escaped, unless it is a plus sign that stands for a space. -/
inductive Respelled (plusAsSpace : Bool) : UrlToken → UrlToken → Prop
  | same (tok : UrlToken) : Respelled plusAsSpace tok tok
  | recased {hi lo hi' lo' : UInt8} (h₁ : tolower hi' = tolower hi)
      (h₂ : tolower lo' = tolower lo) :
      Respelled plusAsSpace (escape hi lo) (escape hi' lo')
  | escaped {c hi lo : UInt8} (hplus : ¬ (c = ch '+' ∧ plusAsSpace = true))
      (hdigits : IsHexDigit hi ∧ IsHexDigit lo) (hc : escapedByte hi lo = c) :
      Respelled plusAsSpace (literal c) (escape hi lo)

end UrlToken

/-- The text of a sequence of tokens. -/
def tokensText (tokens : List UrlToken) : Bytes := tokens.flatMap UrlToken.text

@[simp] theorem tokensText_cons (tok : UrlToken) (tokens : List UrlToken) :
    tokensText (tok :: tokens) = tok.text ++ tokensText tokens := rfl

/-! ### The decoder -/

/-- One token of the decoder: a valid token is replaced by its byte. -/
theorem urlDecodeComponent_token {plusAsSpace : Bool} {tok : UrlToken} (h : tok.Valid)
    (rest : Bytes) :
    urlDecodeComponent plusAsSpace (tok.text ++ rest) =
      (urlDecodeComponent plusAsSpace rest).map (tok.meaning plusAsSpace :: ·) := by
  have hmap : ∀ (r : Result Bytes) (c : UInt8),
      (r >>= fun out => pure (c :: out)) = r.map (c :: ·) := by
    intro r c
    cases r <;> rfl
  cases tok with
  | literal c =>
      have hc : c ≠ ch '%' := h
      rw [UrlToken.text, List.singleton_append, urlDecodeComponent.eq_def]
      simp only [UrlToken.meaning]
      by_cases hplus : c = ch '+' ∧ plusAsSpace = true
      · rw [if_pos hplus, if_pos hplus, hmap]
      · rw [if_neg hplus, if_neg hplus, if_pos hc, hmap]
  | escape hi lo =>
      obtain ⟨h₁, h₂⟩ : 0 ≤ hexValue hi ∧ 0 ≤ hexValue lo := h
      have hpercent : ¬ (ch '%' = ch '+' ∧ plusAsSpace = true) := by
        rintro ⟨h, -⟩
        exact absurd h (by decide)
      have hdigits : ¬ (hexValue hi < 0 ∨ hexValue lo < 0) := by omega
      rw [UrlToken.text, List.cons_append, List.cons_append, List.singleton_append,
        urlDecodeComponent.eq_def]
      simp only
      rw [if_neg hpercent, if_neg (by simp), if_neg hdigits, hmap]
      rfl

/-- The decoder replaces the tokens of a reading by their bytes. -/
theorem urlDecodeComponent_tokens {plusAsSpace : Bool} {tokens : List UrlToken}
    (h : ∀ tok ∈ tokens, tok.Valid) :
    urlDecodeComponent plusAsSpace (tokensText tokens) =
      .ok (tokens.map (UrlToken.meaning plusAsSpace)) := by
  induction tokens with
  | nil => rfl
  | cons tok tokens ih =>
      rw [tokensText_cons, urlDecodeComponent_token (h tok (by simp)),
        ih fun tok' h' => h tok' (by simp [h'])]
      rfl

/-- The start of a text as the decoder sees it: nothing is left, the text starts with a valid
token, or with a percent sign that two digits do not follow. -/
theorem exists_token (t : Bytes) :
    t = [] ∨ (∃ tok rest, UrlToken.Valid tok ∧ t = tok.text ++ rest) ∨
      ∃ u, t = ch '%' :: u ∧
        ¬ ∃ hi lo rest, u = hi :: lo :: rest ∧ IsHexDigit hi ∧ IsHexDigit lo := by
  cases t with
  | nil => exact .inl rfl
  | cons c u =>
      by_cases hc : c = ch '%'
      · subst hc
        by_cases hdigits : ∃ hi lo rest, u = hi :: lo :: rest ∧ IsHexDigit hi ∧ IsHexDigit lo
        · obtain ⟨hi, lo, rest, rfl, hhi, hlo⟩ := hdigits
          exact .inr (.inl ⟨.escape hi lo, rest, ⟨hhi, hlo⟩, rfl⟩)
        · exact .inr (.inr ⟨u, rfl, hdigits⟩)
      · exact .inr (.inl ⟨.literal c, u, hc, rfl⟩)

/-- A percent sign that two digits do not follow is rejected. -/
theorem urlDecodeComponent_broken {plusAsSpace : Bool} {u : Bytes}
    (h : ¬ ∃ hi lo rest, u = hi :: lo :: rest ∧ IsHexDigit hi ∧ IsHexDigit lo) (s : Bytes) :
    urlDecodeComponent plusAsSpace (ch '%' :: u) ≠ .ok s := by
  have hpercent : ¬ (ch '%' = ch '+' ∧ plusAsSpace = true) := by
    rintro ⟨h, -⟩
    exact absurd h (by decide)
  rw [urlDecodeComponent.eq_def]
  simp only
  rw [if_neg hpercent, if_neg (by simp)]
  match u, h with
  | [], _ => exact fun h => by cases h
  | [_], _ => exact fun h => by cases h
  | hi :: lo :: rest, h =>
      have hdigits : hexValue hi < 0 ∨ hexValue lo < 0 := by
        by_contra hneg
        have hhi : 0 ≤ hexValue hi := by omega
        have hlo : 0 ≤ hexValue lo := by omega
        exact h ⟨hi, lo, rest, rfl, hhi, hlo⟩
      simp only
      rw [if_pos hdigits]
      exact fun h => by cases h

/-- **The decoder accepts the texts that can be read as valid tokens, and replaces every token by
the byte it stands for.** -/
theorem urlDecodeComponent_eq_ok {plusAsSpace : Bool} {t s : Bytes} :
    urlDecodeComponent plusAsSpace t = .ok s ↔
      ∃ tokens, (∀ tok ∈ tokens, UrlToken.Valid tok) ∧ tokensText tokens = t ∧
        s = tokens.map (UrlToken.meaning plusAsSpace) := by
  constructor
  · intro h
    -- a token is one byte or three, so that the text gets shorter
    induction hn : t.length using Nat.strongRecOn generalizing t s with
    | ind n ih =>
        rcases exists_token t with rfl | ⟨tok, rest, htok, rfl⟩ | ⟨u, rfl, hbroken⟩
        · exact ⟨[], by simp, rfl, (Except.ok.inj h).symm⟩
        · rw [urlDecodeComponent_token htok] at h
          have hlt : rest.length < n := by
            rw [← hn, List.length_append]
            cases tok <;> simp [UrlToken.text]
          cases hrest : urlDecodeComponent plusAsSpace rest with
          | error e =>
              rw [hrest] at h
              cases h
          | ok out =>
              rw [hrest] at h
              obtain ⟨tokens, hvalid, htext, hout⟩ := ih rest.length hlt hrest rfl
              refine ⟨tok :: tokens, ?_, by rw [tokensText_cons, htext], ?_⟩
              · intro tok' htok'
                rcases List.mem_cons.1 htok' with rfl | htok'
                · exact htok
                · exact hvalid tok' htok'
              · rw [List.map_cons, ← hout]
                exact (Except.ok.inj h).symm
        · exact absurd h (urlDecodeComponent_broken hbroken s)
  · rintro ⟨tokens, hvalid, rfl, rfl⟩
    exact urlDecodeComponent_tokens hvalid

example : urlDecodeComponent true (ofString "a+b%2Fc") = .ok (ofString "a b/c") := by
  decide +kernel

/-! ### Reading from left to right -/

/-- The rest of a text at which its reading from left to right arrives: a percent sign starts an
escape of three bytes, any other byte stands for itself. -/
inductive ReadUpTo (t : Bytes) : Bytes → Prop
  | start : ReadUpTo t t
  | literal {c : UInt8} {u : Bytes} (h : ReadUpTo t (c :: u)) (hc : c ≠ ch '%') : ReadUpTo t u
  | escape {hi lo : UInt8} {u : Bytes} (h : ReadUpTo t (ch '%' :: hi :: lo :: u)) : ReadUpTo t u

theorem ReadUpTo.trans {t u v : Bytes} (h : ReadUpTo t u) (h' : ReadUpTo u v) : ReadUpTo t v := by
  induction h' with
  | start => exact h
  | literal _ hc ih => exact .literal ih hc
  | escape _ ih => exact .escape ih

/-- Reading goes on behind a valid token. -/
theorem ReadUpTo.token {tok : UrlToken} (h : tok.Valid) (rest : Bytes) :
    ReadUpTo (tok.text ++ rest) rest := by
  cases tok with
  | literal c => exact .literal .start h
  | escape hi lo => exact .escape .start

/-- The percent signs at which an escape starts are followed by two digits. -/
def EscapesComplete (t : Bytes) : Prop :=
  ∀ u, ReadUpTo t (ch '%' :: u) →
    ∃ hi lo rest, u = hi :: lo :: rest ∧ IsHexDigit hi ∧ IsHexDigit lo

/-- The reading of accepted text only arrives at accepted text. -/
theorem ReadUpTo.accepted {plusAsSpace : Bool} {t u : Bytes} (h : ReadUpTo t u)
    (ht : ∃ s, urlDecodeComponent plusAsSpace t = .ok s) :
    ∃ s, urlDecodeComponent plusAsSpace u = .ok s := by
  have hrest : ∀ (tok : UrlToken) {rest : Bytes}, tok.Valid →
      (∃ s, urlDecodeComponent plusAsSpace (tok.text ++ rest) = .ok s) →
      ∃ s, urlDecodeComponent plusAsSpace rest = .ok s := by
    rintro tok rest htok ⟨s, hs⟩
    rw [urlDecodeComponent_token htok] at hs
    cases hr : urlDecodeComponent plusAsSpace rest with
    | error e => rw [hr] at hs; cases hs
    | ok out => exact ⟨out, rfl⟩
  induction h with
  | start => exact ht
  | @literal c u _ hc ih => exact hrest (.literal c) hc ih
  | @escape hi lo u _ ih =>
      by_cases hdigits : IsHexDigit hi ∧ IsHexDigit lo
      · exact hrest (.escape hi lo) hdigits ih
      · obtain ⟨s, hs⟩ := ih
        refine absurd hs (urlDecodeComponent_broken ?_ s)
        rintro ⟨hi', lo', rest, heq, hhi, hlo⟩
        simp only [List.cons.injEq] at heq
        obtain ⟨rfl, rfl, -⟩ := heq
        exact hdigits ⟨hhi, hlo⟩

/-- **The decoder succeeds exactly when every escape of the reading has its two digits.** -/
theorem urlDecodeComponent_succeeds {plusAsSpace : Bool} {t : Bytes} :
    (∃ s, urlDecodeComponent plusAsSpace t = .ok s) ↔ EscapesComplete t := by
  constructor
  · intro ht u hu
    obtain ⟨s, hs⟩ := hu.accepted ht
    by_contra hbroken
    exact urlDecodeComponent_broken hbroken s hs
  · intro h
    induction hn : t.length using Nat.strongRecOn generalizing t with
    | ind n ih =>
        rcases exists_token t with rfl | ⟨tok, rest, htok, rfl⟩ | ⟨u, rfl, hbroken⟩
        · exact ⟨[], rfl⟩
        · have hlt : rest.length < n := by
            rw [← hn, List.length_append]
            cases tok <;> simp [UrlToken.text]
          obtain ⟨s, hs⟩ := ih rest.length hlt
            (fun u hu => h u ((ReadUpTo.token htok rest).trans hu)) rfl
          exact ⟨tok.meaning plusAsSpace :: s, by rw [urlDecodeComponent_token htok, hs]; rfl⟩
        · exact absurd (h u .start) hbroken

/-! ### Other spellings -/

theorem UrlToken.Respelled.valid {plusAsSpace : Bool} {tok tok' : UrlToken}
    (h : Respelled plusAsSpace tok tok') (hvalid : tok.Valid) : tok'.Valid := by
  cases h with
  | same => exact hvalid
  | recased h₁ h₂ =>
      obtain ⟨hhi, hlo⟩ := hvalid
      rw [IsHexDigit, ← hexValue_tolower] at hhi hlo
      refine ⟨?_, ?_⟩
      · rw [IsHexDigit, ← hexValue_tolower, h₁]
        exact hhi
      · rw [IsHexDigit, ← hexValue_tolower, h₂]
        exact hlo
  | escaped _ hdigits _ => exact hdigits

theorem UrlToken.Respelled.meaning_eq {plusAsSpace : Bool} {tok tok' : UrlToken}
    (h : Respelled plusAsSpace tok tok') : tok'.meaning plusAsSpace = tok.meaning plusAsSpace := by
  cases h with
  | same => rfl
  | recased h₁ h₂ =>
      refine escapedByte_congr ?_ ?_
      · rw [← hexValue_tolower, h₁, hexValue_tolower]
      · rw [← hexValue_tolower, h₂, hexValue_tolower]
  | escaped hplus _ hc =>
      rw [meaning, meaning, if_neg hplus]
      exact hc

/-- **Respelling the tokens of an accepted text does not change the result.** -/
theorem urlDecodeComponent_respelled {plusAsSpace : Bool} {tokens tokens' : List UrlToken}
    (hvalid : ∀ tok ∈ tokens, UrlToken.Valid tok)
    (h : List.Forall₂ (UrlToken.Respelled plusAsSpace) tokens tokens') :
    urlDecodeComponent plusAsSpace (tokensText tokens') =
      urlDecodeComponent plusAsSpace (tokensText tokens) := by
  induction h with
  | nil => rfl
  | @cons tok tok' tokens tokens' hhead _ ih =>
      have htok := hvalid tok (by simp)
      rw [tokensText_cons, tokensText_cons, urlDecodeComponent_token (hhead.valid htok),
        urlDecodeComponent_token htok, hhead.meaning_eq, ih fun tok h => hvalid tok (by simp [h])]

/-! ### The encoder -/

/-- The token that the encoder writes for a byte. -/
def encodedToken (c : UInt8) : UrlToken :=
  if unreserved c then .literal c
  else .escape (upperHexDigit (c.toNat / 16)) (upperHexDigit (c.toNat % 16))

theorem text_encodedToken (c : UInt8) : (encodedToken c).text = urlEncodeByte c := by
  unfold encodedToken urlEncodeByte
  split <;> rfl

theorem tokensText_encodedToken (s : Bytes) :
    tokensText (s.map encodedToken) = urlEncodeComponent s := by
  induction s with
  | nil => rfl
  | cons c s ih =>
      rw [List.map_cons, tokensText_cons, ih, text_encodedToken]
      rfl

theorem encoded_encodedToken (c : UInt8) : (encodedToken c).Encoded := by
  have hc := c.toNat_lt
  unfold encodedToken
  split
  · assumption
  · exact ⟨isUpperHexDigit_upperHexDigit (by omega), isUpperHexDigit_upperHexDigit (by omega)⟩

theorem valid_encodedToken (c : UInt8) : (encodedToken c).Valid := by
  have hc := c.toNat_lt
  unfold encodedToken
  split
  · rename_i h
    rintro rfl
    exact absurd h (by decide)
  · refine ⟨?_, ?_⟩
    · rw [IsHexDigit, hexValue_upperHexDigit (by omega)]
      omega
    · rw [IsHexDigit, hexValue_upperHexDigit (by omega)]
      omega

theorem meaning_encodedToken (plusAsSpace : Bool) (c : UInt8) :
    (encodedToken c).meaning plusAsSpace = c := by
  unfold encodedToken
  split
  · rename_i h
    rw [UrlToken.meaning, if_neg]
    rintro ⟨rfl, -⟩
    exact absurd h (by decide)
  · exact escapedByte_upperHexDigit c

/-- **Decoding undoes encoding.** -/
theorem urlDecodeComponent_urlEncodeComponent (plusAsSpace : Bool) (s : Bytes) :
    urlDecodeComponent plusAsSpace (urlEncodeComponent s) = .ok s := by
  rw [← tokensText_encodedToken, urlDecodeComponent_tokens, List.map_map]
  · have hid : UrlToken.meaning plusAsSpace ∘ encodedToken = id :=
      funext (meaning_encodedToken plusAsSpace)
    rw [hid, List.map_id]
  · intro tok htok
    obtain ⟨c, -, rfl⟩ := List.mem_map.1 htok
    exact valid_encodedToken c

/-- **The codec.**  Decoding undoes encoding, in both settings of `plus_as_space`; an encoding is
made of unreserved bytes and escapes with upper-case digits; a text is accepted exactly when all
its escapes are complete; the result replaces every escape by its byte, and every literal plus sign
by a space if it is to; and no other spelling of the tokens changes the result. -/
theorem urlCodec (plusAsSpace : Bool) :
    (∀ s, urlDecodeComponent plusAsSpace (urlEncodeComponent s) = .ok s) ∧
    (∀ s, ∃ tokens, tokensText tokens = urlEncodeComponent s ∧
      ∀ tok ∈ tokens, UrlToken.Encoded tok) ∧
    (∀ t, (∃ s, urlDecodeComponent plusAsSpace t = .ok s) ↔ EscapesComplete t) ∧
    (∀ t s, urlDecodeComponent plusAsSpace t = .ok s ↔
      ∃ tokens, (∀ tok ∈ tokens, UrlToken.Valid tok) ∧ tokensText tokens = t ∧
        s = tokens.map (UrlToken.meaning plusAsSpace)) ∧
    ∀ tokens tokens', (∀ tok ∈ tokens, UrlToken.Valid tok) →
      List.Forall₂ (UrlToken.Respelled plusAsSpace) tokens tokens' →
      urlDecodeComponent plusAsSpace (tokensText tokens') =
        urlDecodeComponent plusAsSpace (tokensText tokens) := by
  refine ⟨urlDecodeComponent_urlEncodeComponent plusAsSpace, fun s => ?_,
    fun _ => urlDecodeComponent_succeeds, fun _ _ => urlDecodeComponent_eq_ok,
    fun _ _ => urlDecodeComponent_respelled⟩
  refine ⟨s.map encodedToken, tokensText_encodedToken s, fun tok htok => ?_⟩
  obtain ⟨c, -, rfl⟩ := List.mem_map.1 htok
  exact encoded_encodedToken c

end PodInstaller
