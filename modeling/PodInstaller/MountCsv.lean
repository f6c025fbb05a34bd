/-
**`Mount=` values as CSV records.**

Podman reads a `Mount=` value as one CSV record: fields separated by commas, where a field may be
enclosed in double quotes and a double quote inside is then written twice.  The check
`PodInstaller.hostPathMount` cuts the value at every comma and knows nothing about quotes.  This
module computes what it sees of a record: of an unquoted field everything, of a quoted field only
the parts behind its own commas.

Main definitions:

* `PodInstaller.CsvField`, `PodInstaller.encodeRecord` — the encodings of a list of fields;
* `PodInstaller.CsvField.exposed` — a field that the check recognises in its encoding.

Main results:

* `PodInstaller.hostPathField_escape`, `PodInstaller.hostPathField_escape_quote` — doubling the
  quotes of a part does not hide it, the closing quote hides only `type=bind`;
* `PodInstaller.hostPathMount_encodeRecord` — **what the check sees of a record**;
* `PodInstaller.mount_check_iff` — **when a record with a dangerous field is rejected**;
* `PodInstaller.quoted_bind_mount_accepted` — a record with a dangerous field that is not.
-/

import PodInstaller.QuadletPolicy

set_option relaxedAutoImplicit false
set_option autoImplicit false

namespace PodInstaller

open Bytes

/-! ### Records -/

/-- A text with its double quotes written twice. -/
def escape (s : Bytes) : Bytes := s.flatMap fun c => if c = ch '"' then [c, c] else [c]

/-- A field of a record together with the way it is written; a field with a comma or a double
quote in it must be quoted. -/
structure CsvField where
  text : Bytes
  quoted : Bool
  plain : quoted = false → ch ',' ∉ text ∧ ch '"' ∉ text

/-- The text of a field inside a record. -/
def CsvField.encode (f : CsvField) : Bytes :=
  if f.quoted then ch '"' :: (escape f.text ++ [ch '"']) else f.text

/-- The text of a record. -/
def encodeRecord (fields : List CsvField) : Bytes :=
  [ch ','].intercalate (fields.map CsvField.encode)

/-! ### Doubled quotes -/

@[simp] theorem escape_nil : escape [] = [] := rfl

theorem escape_append (s t : Bytes) : escape (s ++ t) = escape s ++ escape t :=
  List.flatMap_append

theorem escape_cons (c : UInt8) (s : Bytes) :
    escape (c :: s) = (if c = ch '"' then [c, c] else [c]) ++ escape s := rfl

theorem escape_cons_of_ne {c : UInt8} (hc : c ≠ ch '"') (s : Bytes) :
    escape (c :: s) = c :: escape s := by
  rw [escape_cons, if_neg hc]
  rfl

@[simp] theorem mem_escape {c : UInt8} {s : Bytes} : c ∈ escape s ↔ c ∈ s := by
  simp only [escape, List.mem_flatMap]
  constructor
  · rintro ⟨a, ha, hc⟩
    split at hc <;> simp_all
  · exact fun hc => ⟨c, hc, by split <;> simp⟩

theorem escape_eq_self {s : Bytes} (h : ch '"' ∉ s) : escape s = s := by
  induction s with
  | nil => rfl
  | cons c s ih =>
      rw [List.mem_cons, not_or] at h
      rw [escape_cons_of_ne (Ne.symm h.1), ih h.2]

@[simp] theorem head?_escape (s : Bytes) : (escape s).head? = s.head? := by
  cases s with
  | nil => rfl
  | cons c s => rw [escape_cons]; split <;> rfl

@[simp] theorem getLast?_escape (s : Bytes) : (escape s).getLast? = s.getLast? := by
  rcases List.eq_nil_or_concat s with rfl | ⟨s, c, rfl⟩
  · rfl
  · rw [List.concat_eq_append, escape_append, escape_cons]
    split <;> simp

@[simp] theorem escape_eq_nil {s : Bytes} : escape s = [] ↔ s = [] := by
  rw [← List.head?_eq_none_iff, head?_escape, List.head?_eq_none_iff]

/-- White space is not a quote. -/
theorem escape_space {l : Bytes} (hl : ∀ c ∈ l, isspace c = true) : escape l = l :=
  escape_eq_self fun h => by simpa [show isspace (ch '"') = false by decide] using hl _ h

theorem trim_escape (s : Bytes) : trim (escape s) = escape (trim s) := by
  obtain ⟨l, r, hs, hl, hr⟩ := exists_trim_append s
  calc trim (escape s) = trim (l ++ (escape (trim s) ++ r)) := by
        rw [hs, escape_append, escape_append, escape_space hl, escape_space hr, ← hs,
          List.append_assoc]
    _ = escape (trim s) := by
        rw [trim_space_append hl, trim_append_space hr,
          trim_eq_self (by simpa using head_trim) (by simpa using getLast_trim)]

theorem lower_escape (s : Bytes) : lower (escape s) = escape (lower s) := by
  have hquote : ∀ c : UInt8, tolower c = ch '"' ↔ c = ch '"' := fun c => tolower_eq_iff (by decide)
  induction s with
  | nil => rfl
  | cons c s ih =>
      rw [escape_cons, lower_cons, escape_cons, ← ih]
      by_cases hc : c = ch '"'
      · rw [if_pos hc, if_pos ((hquote c).2 hc)]
        simp [lower]
      · rw [if_neg hc, if_neg fun h => hc ((hquote c).1 h)]
        simp [lower]

theorem before_escape {d : UInt8} (hd : d ≠ ch '"') (s : Bytes) :
    before d (escape s) = escape (before d s) := by
  by_cases h : d ∈ s
  · obtain ⟨l, r, rfl, hl⟩ := exists_of_mem h
    rw [before_append_cons hl, escape_append, escape_cons_of_ne hd,
      before_append_cons (by simpa using hl)]
  · rw [before_of_notMem h, before_of_notMem (by simpa using h)]

theorem after_escape {d : UInt8} (hd : d ≠ ch '"') (s : Bytes) :
    after d (escape s) = escape (after d s) := by
  by_cases h : d ∈ s
  · obtain ⟨l, r, rfl, hl⟩ := exists_of_mem h
    rw [after_append_cons hl, escape_append, escape_cons_of_ne hd,
      after_append_cons (by simpa using hl)]
  · rw [after_of_notMem h, after_of_notMem (by simpa using h), escape_nil]

/-- A word without quotes is only the doubled form of itself. -/
theorem escape_eq_iff {s word : Bytes} (hword : ch '"' ∉ word) : escape s = word ↔ s = word := by
  constructor
  · rintro rfl
    exact (escape_eq_self (by simpa using hword)).symm
  · rintro rfl
    exact escape_eq_self hword

theorem splitOn_escape {d : UInt8} (hd : d ≠ ch '"') (s : Bytes) :
    (escape s).splitOn d = (s.splitOn d).map escape := by
  induction s with
  | nil => simp
  | cons c s ih =>
      obtain ⟨block, rest, hs⟩ := List.exists_cons_of_ne_nil (List.splitOn_ne_nil d s)
      by_cases hc : c = ch '"'
      · have hcd : (c == d) = false := by simpa [hc] using Ne.symm hd
        simp [escape_cons, hc ▸ hcd, hc, List.splitOn_cons_eq_if_modifyHead, ih, hs]
      · rw [escape_cons_of_ne hc, List.splitOn_cons_eq_if_modifyHead,
          List.splitOn_cons_eq_if_modifyHead, ih, hs]
        by_cases hcd : (c == d) = true
        · simp [hcd]
        · simp [hcd, escape_cons_of_ne hc]

/-! ### One part of a value -/

/-- A part that names a host path as the source of the mount. -/
def sourceField (part : Bytes) : Bool :=
  isSourceKey (lower (trim (before (ch '=') part))) &&
    looksLikeHostPath (trim (after (ch '=') part))

/-- A text that does not contain a dot adds no `..` to the text before it. -/
theorem dots_append {r : Bytes} (hr : ch '.' ∉ r) (s : Bytes) :
    (".." : Bytes) <:+: s ++ r ↔ (".." : Bytes) <:+: s := by
  have hdots : (".." : Bytes) = [ch '.', ch '.'] := rfl
  rw [hdots]
  constructor
  · intro h
    induction s with
    | nil => exact absurd (h.subset (by simp)) hr
    | cons c s ih =>
        rw [List.cons_append, List.infix_cons_iff] at h
        rw [List.infix_cons_iff]
        rcases h with h | h
        · rw [List.cons_prefix_cons] at h
          cases s with
          | nil => exact absurd (h.2.subset (by simp)) hr
          | cons d s =>
              left
              rw [List.cons_append, List.cons_prefix_cons] at h
              rw [List.cons_prefix_cons, List.cons_prefix_cons]
              exact ⟨h.1, h.2.1, List.nil_prefix⟩
        · exact .inr (ih h)
  · exact fun h => h.trans (List.prefix_append s r).isInfix

theorem dots_escape (s : Bytes) : (".." : Bytes) <:+: escape s ↔ (".." : Bytes) <:+: s := by
  have hdots : (".." : Bytes) = [ch '.', ch '.'] := rfl
  have hne : ch '.' ≠ ch '"' := by decide
  rw [hdots]
  induction s with
  | nil => rfl
  | cons c s ih =>
      rw [List.infix_cons_iff]
      by_cases hc : c = ch '"'
      · have hc' : ch '.' ≠ c := by rw [hc]; exact hne
        rw [escape_cons, if_pos hc]
        simp [List.infix_cons_iff, List.cons_prefix_cons, hc', ih]
      · -- the second dot is the first byte of the rest, doubled or not
        have hhead : [ch '.'] <+: escape s ↔ [ch '.'] <+: s := by
          rw [List.singleton_prefix_iff_head?_eq_some, List.singleton_prefix_iff_head?_eq_some,
            head?_escape]
        rw [escape_cons_of_ne hc, List.infix_cons_iff]
        simp only [List.cons_prefix_cons, hhead, ih]

/-- Doubling the quotes of a source neither hides nor adds a host path. -/
theorem looksLikeHostPath_escape (s : Bytes) :
    looksLikeHostPath (escape s) = looksLikeHostPath s := by
  have hcontains : ∀ c : UInt8, (escape s).contains c = s.contains c := by
    intro c
    rw [Bool.eq_iff_iff, List.contains_iff_mem, List.contains_iff_mem, mem_escape]
  simp only [looksLikeHostPath, head?_escape, hcontains, dots_escape]

/-- Text behind a source that contains none of the telling bytes does not make it a host path. -/
theorem looksLikeHostPath_append {s r : Bytes} (hs : s ≠ [])
    (hr : ∀ c ∈ r, isspace c = true ∨ c = ch '"') :
    looksLikeHostPath (s ++ r) = looksLikeHostPath s := by
  have hfree : ∀ c : UInt8, isspace c = false → c ≠ ch '"' → c ∉ r := by
    intro c h₁ h₂ hmem
    rcases hr c hmem with h | h
    · rw [h₁] at h
      exact Bool.false_ne_true h
    · exact h₂ h
  have hcontains : ∀ c : UInt8, isspace c = false → c ≠ ch '"' →
      (s ++ r).contains c = s.contains c := by
    intro c h₁ h₂
    rw [Bool.eq_iff_iff, List.contains_iff_mem, List.contains_iff_mem, List.mem_append,
      or_iff_left (hfree c h₁ h₂)]
  have hdots := dots_append (hfree (ch '.') (by decide) (by decide)) s
  have hhead : (s ++ r).head? = s.head? := by
    cases s with
    | nil => exact absurd rfl hs
    | cons c s => rfl
  simp only [looksLikeHostPath, hhead, hcontains (ch '/') (by decide) (by decide),
    hcontains (ch '\\') (by decide) (by decide), hcontains (ch '%') (by decide) (by decide), hdots]

/-- The words that decide a field contain no quotes, so doubled quotes do not hide a field. -/
theorem hostPathField_escape (part : Bytes) : hostPathField (escape part) = hostPathField part := by
  have hword : ∀ s word : Bytes, ch '"' ∉ word → (escape s == word) = (s == word) := by
    intro s word h
    rw [Bool.eq_iff_iff, beq_iff_eq, beq_iff_eq, escape_eq_iff h]
  have hne : ch '=' ≠ ch '"' := by decide
  simp only [hostPathField, isSourceKey, before_escape hne, after_escape hne, trim_escape,
    lower_escape, looksLikeHostPath_escape, hword _ "type" (by decide), hword _ "bind" (by decide),
    hword _ "source" (by decide), hword _ "src" (by decide), hword _ "from" (by decide)]

/-- No key of the check contains a quote. -/
theorem hostPathField_of_quote_mem {part : Bytes} (h : ch '"' ∈ before (ch '=') part) :
    hostPathField part = false := by
  have hkey : ch '"' ∈ lower (trim (before (ch '=') part)) := by
    have := (mem_trim_iff (show isspace (ch '"') = false by decide)).2 h
    exact List.mem_map.2 ⟨_, this, by decide⟩
  have hword : ∀ word : Bytes, ch '"' ∉ word →
      (lower (trim (before (ch '=') part)) == word) = false := by
    intro word hnot
    rw [beq_eq_false_iff_ne]
    rintro rfl
    exact hnot hkey
  simp only [hostPathField, isSourceKey, hword "type" (by decide), hword "source" (by decide),
    hword "src" (by decide), hword "from" (by decide), Bool.false_and, Bool.or_false]

/-- The closing quote hides the value `bind`, but not a host path. -/
theorem hostPathField_escape_quote (part : Bytes) :
    hostPathField (escape part ++ [ch '"']) = sourceField part := by
  have hne : ch '=' ≠ ch '"' := by decide
  by_cases heq : ch '=' ∈ part
  · obtain ⟨l, r, rfl, hl⟩ := exists_of_mem heq
    have hl' : ch '=' ∉ escape l := by simpa using hl
    have hsplit : escape (l ++ ch '=' :: r) ++ [ch '"'] =
        escape l ++ ch '=' :: (escape r ++ [ch '"']) := by
      rw [escape_append, escape_cons_of_ne hne]
      simp
    have hkey : ∀ word : Bytes, ch '"' ∉ word → (escape (lower (trim l)) == word) =
        (lower (trim l) == word) := by
      intro word h
      rw [Bool.eq_iff_iff, beq_iff_eq, beq_iff_eq, escape_eq_iff h]
    -- the quote is the last byte of the value, and there is none in the word
    have hbind : (lower (trim (escape r ++ [ch '"'])) == ofString "bind") = false := by
      have hmem : ch '"' ∈ lower (trim (escape r ++ [ch '"'])) := by
        have := (mem_trim_iff (show isspace (ch '"') = false by decide)).2
          (show ch '"' ∈ escape r ++ [ch '"'] by simp)
        exact List.mem_map.2 ⟨_, this, by decide⟩
      rw [beq_eq_false_iff_ne]
      intro h
      rw [h] at hmem
      revert hmem
      decide
    -- what makes a host path stands at the front of the value
    have hvalue : looksLikeHostPath (trim (escape r ++ [ch '"'])) = looksLikeHostPath (trim r) := by
      obtain ⟨front, back, hr, hfront, hback⟩ := exists_trim_append r
      have hr' : escape r ++ [ch '"'] = front ++ (escape (trim r) ++ (back ++ [ch '"'])) := by
        conv_lhs => rw [hr]
        simp [escape_append, escape_space hfront, escape_space hback]
      rw [hr', trim_space_append hfront]
      by_cases htrim : trim r = []
      · rw [htrim, escape_nil, List.nil_append, trim_space_append hback]
        decide
      · rw [trim_eq_self, looksLikeHostPath_append (by simpa using htrim), looksLikeHostPath_escape]
        · intro c hc
          rw [List.mem_append, List.mem_singleton] at hc
          exact hc.imp_left (hback c)
        · intro c hc
          rw [List.head?_append_of_ne_nil _ (by simpa using htrim), head?_escape] at hc
          exact head_trim c hc
        · intro c hc
          obtain rfl : ch '"' = c := by simpa using hc
          decide
    rw [hsplit, hostPathField, sourceField, before_append_cons hl', after_append_cons hl',
      before_append_cons hl, after_append_cons hl]
    simp only [isSourceKey, trim_escape, lower_escape,
      hkey _ (show ch '"' ∉ ofString "source" by decide),
      hkey _ (show ch '"' ∉ ofString "src" by decide),
      hkey _ (show ch '"' ∉ ofString "from" by decide), hbind, hvalue, Bool.and_false,
      Bool.false_or]
  · have hfree : ch '=' ∉ escape part ++ [ch '"'] := by simp [heq, hne]
    rw [hostPathField_of_quote_mem (by rw [before_of_notMem hfree]; simp), sourceField,
      after_of_notMem heq, trim_nil, show looksLikeHostPath [] = false by decide, Bool.and_false]

theorem hostPathField_space_append (l part : Bytes) (hl : ∀ c ∈ l, isspace c = true) :
    hostPathField (l ++ part) = hostPathField part := by
  have hfree : ch '=' ∉ l := fun h =>
    by simpa [show isspace (ch '=') = false by decide] using hl _ h
  by_cases heq : ch '=' ∈ part
  · obtain ⟨key, value, rfl, hkey⟩ := exists_of_mem heq
    have hkey' : ch '=' ∉ l ++ key := by simp [hfree, hkey]
    rw [hostPathField, hostPathField, ← List.append_assoc, before_append_cons hkey',
      after_append_cons hkey', before_append_cons hkey, after_append_cons hkey,
      trim_space_append hl]
  · have heq' : ch '=' ∉ l ++ part := by simp [hfree, heq]
    rw [hostPathField, hostPathField, before_of_notMem heq', after_of_notMem heq',
      before_of_notMem heq, after_of_notMem heq, trim_space_append hl]

theorem hostPathField_append_space (r part : Bytes) (hr : ∀ c ∈ r, isspace c = true) :
    hostPathField (part ++ r) = hostPathField part := by
  have hfree : ch '=' ∉ r := fun h =>
    by simpa [show isspace (ch '=') = false by decide] using hr _ h
  by_cases heq : ch '=' ∈ part
  · obtain ⟨key, value, rfl, hkey⟩ := exists_of_mem heq
    rw [hostPathField, hostPathField, List.append_assoc, List.cons_append, before_append_cons hkey,
      after_append_cons hkey, before_append_cons hkey, after_append_cons hkey,
      trim_append_space hr]
  · have heq' : ch '=' ∉ part ++ r := by simp [hfree, heq]
    rw [hostPathField, hostPathField, before_of_notMem heq', after_of_notMem heq',
      before_of_notMem heq, after_of_notMem heq, trim_append_space hr]

/-! ### What the check sees of a record -/

/-- The check of a value looks at every block between commas. -/
theorem hostPathMount_eq (value : Bytes) :
    hostPathMount value = (value.splitOn (ch ',')).any hostPathField := by
  rw [hostPathMount, any_pieces _ (by decide)]
  exact any_splitOn_trim (by decide) hostPathField_space_append hostPathField_append_space value

/-- A field that the check recognises in its encoding.  Of a quoted field it sees the parts behind
the commas of the field: those before the last one as they are, the last one with the closing quote
at its end. -/
def CsvField.exposed (f : CsvField) : Bool :=
  if f.quoted then
    let behind := (f.text.splitOn (ch ',')).tail
    behind.dropLast.any hostPathField || behind.getLast?.any sourceField
  else hostPathField f.text

theorem any_splitOn_encode (f : CsvField) :
    (f.encode.splitOn (ch ',')).any hostPathField = f.exposed := by
  unfold CsvField.encode CsvField.exposed
  cases hq : f.quoted with
  | false =>
      rw [if_neg Bool.false_ne_true, if_neg Bool.false_ne_true,
        List.splitOn_eq_singleton (f.plain hq).1, List.any_cons, List.any_nil, Bool.or_false]
  | true =>
      have hquote : ch ',' ∉ [ch '"'] := by decide
      obtain ⟨block, rest, h₁, h₂⟩ := exists_splitOn_append_left hquote (escape f.text ++ [ch '"'])
      obtain ⟨rest', block', h₃, h₄⟩ := exists_splitOn_append_right hquote (escape f.text)
      rw [if_pos rfl, if_pos rfl, ← List.singleton_append, h₂]
      rw [h₁] at h₄
      rw [splitOn_escape (by decide)] at h₃
      -- the first part starts with the opening quote
      have hfirst : hostPathField ([ch '"'] ++ block) = false :=
        hostPathField_of_quote_mem (by simp [before, show ch '"' ≠ ch '=' by decide])
      rw [List.any_cons, hfirst, Bool.false_or]
      cases rest' with
      | nil =>
          obtain ⟨rfl, rfl⟩ := List.cons_eq_cons.1 h₄
          obtain ⟨p, hp, -⟩ := List.map_eq_singleton_iff.1 h₃
          simp [hp]
      | cons first mid =>
          obtain ⟨rfl, rfl⟩ := List.cons_eq_cons.1 h₄
          rw [List.cons_append, List.map_eq_cons_iff] at h₃
          obtain ⟨p₀, ps, hsplit, -, hps⟩ := h₃
          obtain ⟨mid', last', rfl, rfl, hlast⟩ := List.map_eq_append_iff.1 hps
          obtain ⟨p, rfl, rfl⟩ := List.map_eq_singleton_iff.1 hlast
          rw [hsplit, List.tail_cons]
          change (mid'.map escape ++ [escape p ++ [ch '"']]).any hostPathField =
            ((mid' ++ [p]).dropLast.any hostPathField || (mid' ++ [p]).getLast?.any sourceField)
          rw [List.dropLast_concat, List.getLast?_concat, List.any_append, List.any_map,
            List.any_cons, List.any_nil, Bool.or_false, hostPathField_escape_quote]
          simp only [Function.comp_def, hostPathField_escape, Option.any_some]

/-- **What the check sees of a record**: the exposed fields. -/
theorem hostPathMount_encodeRecord (fields : List CsvField) :
    hostPathMount (encodeRecord fields) = fields.any CsvField.exposed := by
  rw [hostPathMount_eq]
  induction fields with
  | nil => decide
  | cons f fields ih =>
      cases fields with
      | nil => simp [encodeRecord, any_splitOn_encode]
      | cons g fields =>
          have hcons : encodeRecord (f :: g :: fields) =
              f.encode ++ ch ',' :: encodeRecord (g :: fields) := by
            simp [encodeRecord, List.intercalate_cons_cons]
          rw [hcons, List.splitOn_append_cons_self, List.any_append, any_splitOn_encode, ih]
          simp only [List.any_cons]

/-- **When a record with a dangerous field is rejected**: exactly when one of its fields is
exposed, and then every Quadlet with that `Mount=` value is rejected, unless the policy allows
mounts of the root. -/
theorem mount_check_iff (fields : List CsvField) :
    ((∃ f ∈ fields, hostPathField f.text = true) →
      hostPathMount (encodeRecord fields) = true ∧
        ∀ (quadlet : QuadletFile) (policy : QuadletPolicy) (parsed : ParsedQuadlet),
          parseQuadlet quadlet.contents = .ok parsed →
          trim (encodeRecord fields) ∈ parsed.values "Container" "Mount" →
          policy.allowRootMount = false → validateQuadletPolicy quadlet policy ≠ .ok ()) ↔
      ((∃ f ∈ fields, hostPathField f.text = true) → ∃ f ∈ fields, f.exposed = true) := by
  rw [hostPathMount_encodeRecord, List.any_eq_true]
  refine ⟨fun h hdanger => (h hdanger).1, fun h hdanger => ⟨h hdanger, ?_⟩⟩
  intro quadlet policy parsed hparsed hmem hroot hok
  obtain ⟨-, -, -, parsed', hparsed', hrest⟩ := validateQuadletPolicy_eq_ok.1 hok
  obtain rfl : parsed = parsed' := by
    rw [hparsed] at hparsed'
    exact Except.ok.inj hparsed'
  obtain ⟨-, -, -, -, -, -, -, -, -, -, -, hmount, -⟩ := hrest
  have hfalse := hmount _ hmem hroot
  rw [hostPathMount, trim_trim, ← hostPathMount, hostPathMount_encodeRecord,
    List.any_eq_true.2 (h hdanger)] at hfalse
  exact Bool.false_ne_true hfalse.symm

/-- A bind mount of `/etc`, with the two fields quoted that say so. -/
def quotedBindMount : List CsvField :=
  [⟨"type=bind", true, by decide⟩, ⟨"src=/etc", true, by decide⟩, ⟨"dst=/mnt", false, by decide⟩]

/-- A managed Quadlet with this mount. -/
def quotedBindQuadlet : QuadletFile where
  fileName := "web.container"
  contents := ofString ("[Container]\nImage=busybox\n" ++
    "Label=com.example.pod-installer.managed=true\nMount=") ++ encodeRecord quotedBindMount

/-- The default policy accepts the Quadlet with the bind mount of `/etc`. -/
theorem quoted_bind_mount_accepted :
    (∃ f ∈ quotedBindMount, hostPathField f.text = true) ∧
      encodeRecord quotedBindMount = ofString "\"type=bind\",\"src=/etc\",dst=/mnt" ∧
      hostPathMount (encodeRecord quotedBindMount) = false ∧
      (parseQuadlet quotedBindQuadlet.contents).map (fun parsed =>
        parsed.values "Container" "Mount") = .ok [encodeRecord quotedBindMount] ∧
      validateQuadletPolicy quotedBindQuadlet {} = .ok () := by
  decide +kernel

end PodInstaller
