/-
**Quadlet files and their parser.**

A Quadlet file is a unit file text: header lines `[Section]`, assignments `Key=Value` below a
header, comments and blank lines.  `PodInstaller.parseQuadlet` goes through the text line by line
and collects the values of each key of each section, over repeated sections and repeated keys, in
a nested ordered map.  This module is the translation of that code together with the checks on
the file name; what the map says about the text is `PodInstaller/QuadletText.lean`.

Main definitions:

* `PodInstaller.QuadletFile`, `PodInstaller.ParsedQuadlet` — the data;
* `PodInstaller.validateQuadletFileName`, `PodInstaller.serviceUnitNameFromQuadlet` — file names;
* `PodInstaller.parseQuadlet` — the parser.

Main results:

* `PodInstaller.ParsedQuadlet.values_add`, `PodInstaller.ParsedQuadlet.hasSection_add` — what
  recording one assignment does to the map;
* `PodInstaller.validateQuadletFileName_eq_ok` — the accepted file names.
-/

import PodInstaller.ErrorModel
import Std.Data.TreeMap
import Std.Data.TreeMap.Lemmas

set_option relaxedAutoImplicit false
set_option autoImplicit false

namespace PodInstaller

open Bytes

/-! ### The data -/

/-- A supplied Quadlet: its file name and its text. -/
structure QuadletFile where
  fileName : Bytes
  contents : Bytes
  deriving DecidableEq

/-- The values of each key of one section. -/
abbrev Section := Std.TreeMap Bytes (List Bytes)

/-- The sections of a parsed Quadlet. -/
structure ParsedQuadlet where
  sections : Std.TreeMap Bytes Section := ∅

namespace ParsedQuadlet

/-- `has_section`. -/
def hasSection (p : ParsedQuadlet) (sec : Bytes) : Bool := p.sections.contains sec

/-- `values`. -/
def values (p : ParsedQuadlet) (sec key : Bytes) : List Bytes :=
  match p.sections[sec]? with
  | none => []
  | some entries =>
    match entries[key]? with
    | none => []
    | some values => values

/-- `add`: `sections_[section][key].push_back(value)`. -/
def add (p : ParsedQuadlet) (sec key value : Bytes) : ParsedQuadlet where
  sections := p.sections.alter sec fun entries =>
    some ((entries.getD ∅).alter key fun values => some (values.getD [] ++ [value]))

theorem getElem?_add (p : ParsedQuadlet) (sec key value sec' : Bytes) :
    (p.add sec key value).sections[sec']? =
      if sec = sec' then some (((p.sections[sec]?).getD ∅).alter key fun values =>
        some (values.getD [] ++ [value])) else p.sections[sec']? := by
  simp only [add, Std.TreeMap.getElem?_alter, Std.LawfulEqCmp.compare_eq_iff_eq]

/-- Recording an assignment adds its value at the end of the values of its key. -/
theorem values_add (p : ParsedQuadlet) (sec key value sec' key' : Bytes) :
    (p.add sec key value).values sec' key' =
      p.values sec' key' ++ if sec = sec' ∧ key = key' then [value] else [] := by
  unfold values
  rw [getElem?_add]
  by_cases hs : sec = sec'
  · subst hs
    simp only [if_pos, true_and]
    cases hsec : p.sections[sec]? with
    | none =>
        by_cases hk : key = key'
        · subst hk; simp
        · simp [Std.TreeMap.getElem?_alter, hk]
    | some entries =>
        by_cases hk : key = key'
        · subst hk
          cases hv : entries[key]? <;> simp [hv]
        · simp [Std.TreeMap.getElem?_alter, hk]
  · simp [hs]

/-- The sections of the map after recording an assignment. -/
theorem hasSection_add (p : ParsedQuadlet) (sec key value sec' : Bytes) :
    (p.add sec key value).hasSection sec' = true ↔ sec = sec' ∨ p.hasSection sec' = true := by
  simp only [hasSection, ← Std.TreeMap.mem_iff_contains, Std.TreeMap.mem_iff_isSome_getElem?,
    getElem?_add]
  by_cases hs : sec = sec' <;> simp [hs]

/-- The keys recorded below a section name. -/
def hasKey (p : ParsedQuadlet) (sec key : Bytes) : Prop :=
  ∃ entries, p.sections[sec]? = some entries ∧ key ∈ entries

theorem hasKey_add (p : ParsedQuadlet) (sec key value sec' key' : Bytes) :
    (p.add sec key value).hasKey sec' key' ↔
      (sec = sec' ∧ key = key') ∨ p.hasKey sec' key' := by
  unfold hasKey
  rw [getElem?_add]
  by_cases hs : sec = sec'
  · subst hs
    by_cases hk : key = key'
    · subst hk; simp
    · cases p.sections[sec]? <;> simp [Std.TreeMap.mem_alter, hk]
  · simp [hs]

@[simp] theorem values_empty (sec key : Bytes) : ({} : ParsedQuadlet).values sec key = [] := by
  simp [values]

@[simp] theorem hasSection_empty (sec : Bytes) : ({} : ParsedQuadlet).hasSection sec = false := by
  simp [hasSection]

@[simp] theorem not_hasKey_empty (sec key : Bytes) : ¬ ({} : ParsedQuadlet).hasKey sec key := by
  simp [hasKey]

end ParsedQuadlet

/-! ### File names -/

/-- `contains_control_or_slash`. -/
def containsControlOrSlash (value : Bytes) : Bool :=
  value.any fun c => c < 32 || c == 127 || c == ch '/'

/-- `safe_unit_file_char`. -/
def safeUnitFileChar (c : UInt8) : Bool :=
  isalnum c || c == ch '_' || c == ch '-' || c == ch '.' || c == ch '@'

/-- `validate_quadlet_file_name`. -/
def validateQuadletFileName (fileName : Bytes) : Result Unit := do
  reject (fileName = [] ∨ 255 < fileName.length)
    (makeError .invalidArgument "Quadlet file name must be 1 to 255 bytes")
  reject (fileName = "." ∨ fileName = ".." ∨ fileName.head? = some (ch '.') ∨
      fileName.head? = some (ch '-'))
    (makeError .invalidArgument "Quadlet file name must not be hidden, relative, or option-like")
  reject (containsControlOrSlash fileName)
    (makeError .invalidArgument "Quadlet file name must not contain slashes or control characters")
  reject (fileName.all safeUnitFileChar = false)
    (makeError .invalidArgument "Quadlet file name contains unsupported characters")
  reject (¬ (".container" : Bytes) <:+ fileName)
    (makeError .invalidArgument "MVP deployment bundles require a .container Quadlet file")

/-- `service_unit_name_from_quadlet`. -/
def serviceUnitNameFromQuadlet (fileName : Bytes) : Result Bytes := do
  validateQuadletFileName fileName
  let suffix : Bytes := ".container"
  return fileName.take (fileName.length - suffix.length) ++ ofString ".service"

/-- The accepted file names, in the order of the checks. -/
theorem validateQuadletFileName_eq_ok {fileName : Bytes} :
    validateQuadletFileName fileName = .ok () ↔
      (fileName ≠ [] ∧ fileName.length ≤ 255) ∧
      (fileName.head? ≠ some (ch '.') ∧ fileName.head? ≠ some (ch '-')) ∧
      containsControlOrSlash fileName = false ∧ fileName.all safeUnitFileChar = true ∧
      (".container" : Bytes) <:+ fileName := by
  simp only [validateQuadletFileName, bind_eq_ok, reject_eq_ok, exists_const, not_or, not_lt,
    not_not, Bool.not_eq_true, Bool.not_eq_false]
  constructor
  · rintro ⟨h₁, ⟨-, -, h₂, h₃⟩, h₄, h₅, h₆⟩
    exact ⟨h₁, ⟨h₂, h₃⟩, h₄, h₅, h₆⟩
  · rintro ⟨h₁, ⟨h₂, h₃⟩, h₄, h₅, h₆⟩
    refine ⟨h₁, ⟨?_, ?_, h₂, h₃⟩, h₄, h₅, h₆⟩ <;> rintro rfl <;> exact h₂ (by decide)

/-! ### The parser -/

/-- A line without the carriage return that a CRLF ending leaves on it. -/
def dropCarriageReturn (line : Bytes) : Bytes :=
  if line.getLast? = some (ch '\r') then line.dropLast else line

/-- The body of the loop of `parse_quadlet`, line by line: the number of lines read so far, the
current section name (empty before the first header) and the assignments recorded so far. -/
def parseLines (lineNo : ℕ) (sec : Bytes) (parsed : ParsedQuadlet) :
    List Bytes → Result ParsedQuadlet
  | [] => .ok parsed
  | line :: rest =>
    let lineNo := lineNo + 1
    let trimmed := trim (dropCarriageReturn line)
    if trimmed = [] ∨ trimmed.head? = some (ch '#') ∨ trimmed.head? = some (ch ';') then
      parseLines lineNo sec parsed rest
    else if trimmed.head? = some (ch '[') ∧ trimmed.getLast? = some (ch ']') then
      let sec := trim trimmed.tail.dropLast
      if sec = [] then
        .error (makeError .invalidArgument
          (ofString "empty section name in Quadlet at line " ++ decimal lineNo))
      else parseLines lineNo sec parsed rest
    -- the errors come in this order: a line may deserve several
    else if ch '=' ∉ trimmed then
      .error (makeError .invalidArgument
        (ofString "expected key=value in Quadlet at line " ++ decimal lineNo))
    else if sec = [] then
      .error (makeError .invalidArgument
        (ofString "Quadlet key appears before any section at line " ++ decimal lineNo))
    else
      let key := trim (before (ch '=') trimmed)
      let value := trim (after (ch '=') trimmed)
      if key = [] then
        .error (makeError .invalidArgument
          (ofString "empty key in Quadlet at line " ++ decimal lineNo))
      else parseLines lineNo sec (parsed.add sec key value) rest

/-- `parse_quadlet`: the loop takes the text apart at the line feeds, where the end of the text
ends the last line too. -/
def parseQuadlet (contents : Bytes) : Result ParsedQuadlet :=
  parseLines 0 [] {} (pieces (ch '\n') contents)

end PodInstaller
