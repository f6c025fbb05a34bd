/-
**The upload of an image archive.**

curl asks for the bytes of an upload through a callback, `read_fd_upload`: whenever it has a buffer
to fill, the callback reads from the descriptor of the archive at the offset reached so far.  The
buffers have any lengths, a read may deliver less than it is asked for or be interrupted, and others
may write to the file or truncate it in between.  The arithmetic of the callback is done in the
fixed widths of the source: `size_t` and `uintmax_t` are `UInt64`, `off_t` is `Int64`.

Main definitions:

* `PodInstaller.Pread`, `PodInstaller.changingFile` — reads at an offset, from a file that changes;
* `PodInstaller.FdUpload`, `PodInstaller.readFdUpload` — the callback;
* `PodInstaller.Round`, `PodInstaller.Uploads` — any sequence of callbacks;
* `PodInstaller.FdUpload.Bounded`, `PodInstaller.ReadFits`, `PodInstaller.Round.Sends`,
  `PodInstaller.SendsFile` — what is said about them.

Main results:

* `PodInstaller.toInt_toInt64` — a cast to `off_t` that keeps the value;
* `PodInstaller.Round.Ran.sends` — **what one callback does**, without a subtraction or a cast that
  wraps;
* `PodInstaller.Uploads.sendsFile` — **a sequence of callbacks** delivers the beginning of the file.
-/

import PodInstaller.Syscalls
import Mathlib.Tactic.Linarith

set_option relaxedAutoImplicit false
set_option autoImplicit false

namespace PodInstaller

open Bytes

/-! ### Reading from a file that changes -/

/-- A call of `pread`. -/
structure Pread where
  fd : Fd
  count : UInt64
  offset : Int64

/-- The bytes that it puts into the buffer. -/
abbrev Pread.Resp (_ : Pread) : Type := Except Errno Bytes

/-- What the file holds at the time of a call, and how the call goes: how many bytes it delivers, or
the number of its error. -/
structure FileAt where
  content : Bytes
  outcome : Except Errno ℕ

/-- The bytes of a file from an offset on. -/
def FileAt.rest (file : FileAt) (offset : Int64) : Bytes := file.content.drop offset.toInt.toNat

/-- A file that others change between any two calls.  A read delivers bytes at its offset, as many
as it likes up to what is asked for; it delivers none only where the file ends.  At a negative
offset it fails. -/
def changingFile : Machine Pread.Resp Unit FileAt where
  step _ _ o file :=
    match file.outcome with
    | .error e => some (.error e, ())
    | .ok n =>
      if 0 ≤ o.offset.toInt ∧ n ≤ o.count.toNat ∧ n ≤ (file.rest o.offset).length ∧
          (n = 0 → o.count.toNat = 0 ∨ file.rest o.offset = []) then
        some (.ok ((file.rest o.offset).take n), ())
      else none

/-! ### The callback -/

/-- `FdUpload`. -/
structure FdUpload where
  fd : Fd
  offset : UInt64 := 0
  size : UInt64

/-- What a callback returns to curl: the number of bytes it has put into the buffer, which are given
here, or `CURL_READFUNC_ABORT`. -/
inductive Callback
  | delivered (bytes : Bytes)
  | abort

/-- `std::numeric_limits<ssize_t>::max()`. -/
def ssizeMax : UInt64 := 9223372036854775807

/-- There is nothing to read: the buffer is empty, or the offset has reached the size. -/
def FdUpload.isDone (upload : FdUpload) (requested : UInt64) : Bool :=
  requested == 0 || upload.size ≤ upload.offset

/-- How many bytes the callback asks for. -/
def FdUpload.toRead (upload : FdUpload) (requested : UInt64) : UInt64 :=
  min requested (min (upload.size - upload.offset) ssizeMax)

/-- The offset moves on. -/
def FdUpload.advance (upload : FdUpload) (bytes : Bytes) : FdUpload :=
  { upload with offset := upload.offset + UInt64.ofNat bytes.length }

/-- `read_fd_upload`. -/
def readFdUpload (upload : FdUpload) (size nitems : UInt64) :
    Prog Pread.Resp (Callback × FdUpload) :=
  if upload.isDone (size * nitems) then .ret (.delivered [], upload)
  else .call ⟨upload.fd, upload.toRead (size * nitems), upload.offset.toInt64⟩ interrupted fun
    | .ok bytes => .ret (.delivered bytes, upload.advance bytes)
    | .error _ => .ret (.abort, upload)

/-- One call of the callback, with what is recorded of it. -/
structure Round where
  before : FdUpload
  size : UInt64
  nitems : UInt64
  reads : List (Event Pread.Resp Unit FileAt)
  callback : Callback
  after : FdUpload

/-- The length of the buffer. -/
def Round.requested (round : Round) : ℕ := round.size.toNat * round.nitems.toNat

/-- The bytes that a callback has delivered. -/
def Round.bytes (round : Round) : Bytes :=
  match round.callback with
  | .delivered bytes => bytes
  | .abort => []

/-- The length of the buffer fits in `size_t`, and the callback has run. -/
structure Round.Ran (round : Round) : Prop where
  fits : round.requested < UInt64.size
  exec : Exec changingFile 0 () (readFdUpload round.before round.size round.nitems) round.reads ()
    (round.callback, round.after)

/-- Any sequence of callbacks for an upload. -/
inductive Uploads : FdUpload → List Round → FdUpload → Prop
  | done (upload : FdUpload) : Uploads upload [] upload
  | round {round : Round} {rounds : List Round} {upload : FdUpload} (hran : round.Ran)
      (hrest : Uploads round.after rounds upload) : Uploads round.before (round :: rounds) upload

/-! ### Arithmetic in fixed widths -/

/-- **A cast to `off_t`** keeps every value below `2 ^ 63`. -/
theorem toInt_toInt64 {n : UInt64} (h : n.toNat < 9223372036854775808) :
    n.toInt64.toInt = n.toNat := by
  have hcast : n.toInt64.toInt = (n.toNat : ℤ).bmod (2 ^ 64) := by
    change n.toBitVec.toInt = _
    rw [BitVec.toInt_eq_toNat_bmod]
    rfl
  rw [hcast, Int.bmod_eq_of_le] <;> omega

theorem toNat_min (a b : UInt64) : (min a b).toNat = min a.toNat b.toNat := by
  change (if a ≤ b then a else b).toNat = _
  split
  · rename_i h
    rw [UInt64.le_iff_toNat_le] at h
    omega
  · rename_i h
    rw [UInt64.le_iff_toNat_le] at h
    omega

theorem toNat_mul_of_lt {a b : UInt64} (h : a.toNat * b.toNat < UInt64.size) :
    (a * b).toNat = a.toNat * b.toNat := by
  rw [UInt64.toNat_mul]
  exact Nat.mod_eq_of_lt h

theorem toNat_add_ofNat {a : UInt64} {n : ℕ} (h : a.toNat + n < UInt64.size) :
    (a + UInt64.ofNat n).toNat = a.toNat + n := by
  have hn : (UInt64.ofNat n).toNat = n := UInt64.toNat_ofNat_of_lt' (by omega)
  rw [UInt64.toNat_add, hn]
  exact Nat.mod_eq_of_lt h

/-! ### One callback -/

/-- The offset has not passed the size, which `off_t` can hold. -/
structure FdUpload.Bounded (upload : FdUpload) (size : ℕ) : Prop where
  total : upload.size.toNat = size
  fits : size < 9223372036854775808
  offset : upload.offset.toNat ≤ size

/-- A read asks for what is left of the file, as far as the buffer holds it, at the offset that has
been reached: neither the difference nor the cast wraps. -/
structure ReadFits (upload : FdUpload) (requested size : ℕ) (o : Pread) : Prop where
  fd : o.fd = upload.fd
  count : o.count.toNat = min requested (size - upload.offset.toNat)
  offset : o.offset.toInt = upload.offset.toNat

section

variable {upload : FdUpload} {size requested : ℕ}

/-- **The number of bytes** that a callback asks for. -/
theorem toNat_toRead (hupload : upload.Bounded size) (buffer : UInt64) :
    (upload.toRead buffer).toNat = min buffer.toNat (size - upload.offset.toNat) := by
  have hle : upload.offset ≤ upload.size := by
    rw [UInt64.le_iff_toNat_le, hupload.total]
    exact hupload.offset
  have hleft : (upload.size - upload.offset).toNat = size - upload.offset.toNat := by
    rw [UInt64.toNat_sub_of_le _ _ hle, hupload.total]
  have hlimit : ssizeMax.toNat = 9223372036854775807 := rfl
  have hfits := hupload.fits
  rw [FdUpload.toRead, toNat_min, toNat_min, hleft, hlimit]
  omega

theorem readFits (hupload : upload.Bounded size) {buffer : UInt64}
    (hbuffer : buffer.toNat = requested) :
    ReadFits upload requested size
      ⟨upload.fd, upload.toRead buffer, upload.offset.toInt64⟩ := by
  refine ⟨rfl, ?_, toInt_toInt64 ?_⟩
  · rw [← hbuffer]
    exact toNat_toRead hupload buffer
  · have hfits := hupload.fits
    have hoffset := hupload.offset
    omega

/-- The offset moves on without wrapping. -/
theorem FdUpload.Bounded.advance (hupload : upload.Bounded size) {bytes : Bytes}
    (hbytes : bytes.length ≤ size - upload.offset.toNat) :
    (upload.advance bytes).Bounded size ∧
      (upload.advance bytes).offset.toNat = upload.offset.toNat + bytes.length := by
  have hfits := hupload.fits
  have hoffset := hupload.offset
  have hadvance : (upload.advance bytes).offset.toNat = upload.offset.toNat + bytes.length :=
    toNat_add_ofNat (by simp only [UInt64.size]; omega)
  exact ⟨⟨hupload.total, hfits, by omega⟩, hadvance⟩

/-- A read at an offset of the upload delivers bytes from there. -/
theorem changingFile_read {o : Pread} (ho : ReadFits upload requested size o) {file : FileAt}
    {bytes : Bytes} {t : ℕ}
    (h : changingFile.step t () o file = some (.ok bytes, ())) :
    bytes = (file.content.drop upload.offset.toNat).take bytes.length ∧
      bytes.length ≤ min requested (size - upload.offset.toNat) ∧
      (bytes = [] → min requested (size - upload.offset.toNat) = 0 ∨
        file.content.length ≤ upload.offset.toNat) := by
  have hrest : file.rest o.offset = file.content.drop upload.offset.toNat := by
    rw [FileAt.rest, ho.offset, Int.toNat_natCast]
  simp only [changingFile] at h
  split at h
  · cases h
  · split at h
    · rename_i n _ hread
      obtain ⟨-, hcount, hlen, hnone⟩ := hread
      rw [hrest] at h hlen hnone
      rw [ho.count] at hcount hnone
      simp only [Option.some.injEq, Prod.mk.injEq, Except.ok.injEq, and_true] at h
      obtain rfl := h
      have hlength : ((file.content.drop upload.offset.toNat).take n).length = n := by
        rw [List.length_take]
        omega
      rw [hlength]
      refine ⟨rfl, hcount, fun hnil => ?_⟩
      obtain rfl : n = 0 := by
        rw [← hlength, hnil]
        rfl
      rw [← List.drop_eq_nil_iff]
      exact hnone rfl
    · cases h

end

/-- **What one callback does**, in an upload of `size` bytes. -/
structure Round.Sends (round : Round) (size : ℕ) : Prop where
  before : round.before.Bounded size
  after : round.after.Bounded size
  -- the reads that were interrupted are among these
  reads : (readFdUpload round.before round.size round.nitems).Calls fun o _ =>
    ReadFits round.before round.requested size o
  offset : round.after.offset.toNat = round.before.offset.toNat + round.bytes.length
  buffer : round.bytes.length ≤ round.requested
  bytes : round.bytes = [] ∨ ∃ e ∈ round.reads,
    round.bytes = (e.choice.content.drop round.before.offset.toNat).take round.bytes.length
  nothing : round.callback = .delivered [] → round.requested ≠ 0 →
    round.before.offset.toNat = size ∨ ∃ e ∈ round.reads, e.choice.content.length < size

/-- The callback makes no read when there is nothing to read, and otherwise reads that fit. -/
theorem readFdUpload_calls {upload : FdUpload} {size : ℕ} (hupload : upload.Bounded size)
    {length nitems : UInt64} (hfits : length.toNat * nitems.toNat < UInt64.size) :
    (readFdUpload upload length nitems).Calls fun o _ =>
      ReadFits upload (length.toNat * nitems.toNat) size o := by
  unfold readFdUpload
  split
  · trivial
  · refine ⟨readFits hupload (toNat_mul_of_lt hfits), fun r => ?_⟩
    cases r <;> trivial

/-- **A callback that starts within the size** ends within it. -/
theorem Round.Ran.sends {round : Round} {size : ℕ} (hran : round.Ran)
    (hbefore : round.before.Bounded size) : round.Sends size := by
  obtain ⟨hfits, hexec⟩ := hran
  have hreads := readFdUpload_calls hbefore hfits
  have hrequested : (round.size * round.nitems).toNat = round.requested := toNat_mul_of_lt hfits
  obtain ⟨before, length, nitems, reads, callback, after⟩ := round
  dsimp only at hexec hbefore hreads hrequested ⊢
  unfold readFdUpload at hexec
  split at hexec
  · rename_i hdone
    obtain ⟨rfl, -, heq⟩ := exec_ret.1 hexec
    obtain ⟨rfl, rfl⟩ := Prod.mk.inj heq
    refine ⟨hbefore, hbefore, hreads, rfl, Nat.zero_le _, .inl rfl, fun _ hne => .inl ?_⟩
    -- the buffer is not empty, so the offset has reached the size
    rw [FdUpload.isDone, Bool.or_eq_true, beq_iff_eq, decide_eq_true_eq,
      UInt64.le_iff_toNat_le, hbefore.total] at hdone
    have hoffset := hbefore.offset
    rcases hdone with hzero | hle
    · rw [hzero] at hrequested
      exact absurd hrequested.symm hne
    · dsimp only
      omega
  · rename_i hmore
    obtain ⟨u, file, r, u', tr, hstep, -, hrest, rfl⟩ := exec_call hexec
    have hread := readFits hbefore hrequested
    cases r with
    | ok bytes =>
        obtain ⟨rfl, -, heq⟩ := exec_ret.1 hrest
        obtain ⟨rfl, rfl⟩ := Prod.mk.inj heq
        obtain ⟨hbytes, hcount, hnone⟩ := changingFile_read hread hstep
        obtain ⟨hafter, hoffset⟩ := hbefore.advance (le_trans hcount (min_le_right _ _))
        refine ⟨hbefore, hafter, hreads, hoffset, le_trans hcount (min_le_left _ _),
          .inr ⟨_, List.mem_singleton_self _, hbytes⟩, fun hnil hne => ?_⟩
        have hle := hbefore.offset
        rcases hnone (Callback.delivered.inj hnil) with hzero | hshort
        · left
          dsimp only at hne ⊢
          omega
        · by_cases hend : before.offset.toNat = size
          · exact .inl hend
          · refine .inr ⟨_, List.mem_singleton_self _, ?_⟩
            dsimp only
            omega
    | error e =>
        obtain ⟨rfl, -, heq⟩ := exec_ret.1 hrest
        obtain ⟨rfl, rfl⟩ := Prod.mk.inj heq
        exact ⟨hbefore, hbefore, hreads, rfl, Nat.zero_le _, .inl rfl, fun h => by cases h⟩

/-! ### Any sequence of callbacks -/

/-- **What an upload of `size` bytes sends**: every callback does as it should, and together they
have delivered as many bytes as the offset says.  These are the beginning of the file: of any file
that had the same bytes in the places that were read, when they were read. -/
structure SendsFile (size : ℕ) (rounds : List Round) (upload : FdUpload) : Prop where
  sends : ∀ round ∈ rounds, round.Sends size
  length : (rounds.flatMap Round.bytes).length = upload.offset.toNat
  start : ∀ file : Bytes, (∀ round ∈ rounds, ∀ e ∈ round.reads,
      (e.choice.content.drop round.before.offset.toNat).take round.bytes.length =
        (file.drop round.before.offset.toNat).take round.bytes.length) →
    rounds.flatMap Round.bytes = file.take upload.offset.toNat

/-- The callbacks keep to the size one after the other. -/
theorem Uploads.bounded {before upload : FdUpload} {rounds : List Round} {size : ℕ}
    (h : Uploads before rounds upload) (hbefore : before.Bounded size) :
    (∀ round ∈ rounds, round.Sends size) ∧
      upload.offset.toNat = before.offset.toNat + (rounds.flatMap Round.bytes).length := by
  induction h with
  | done upload => simp
  | @round round rounds upload hran _ ih =>
      have hround := hran.sends hbefore
      obtain ⟨hrounds, hoffset⟩ := ih hround.after
      refine ⟨fun r hr => ?_, ?_⟩
      · rw [List.mem_cons] at hr
        rcases hr with rfl | hr
        · exact hround
        · exact hrounds r hr
      · rw [List.flatMap_cons, List.length_append, hoffset, hround.offset]
        omega

/-- The callbacks deliver the file from the offset on that they start at. -/
theorem Uploads.delivers {before upload : FdUpload} {rounds : List Round} {size : ℕ}
    (h : Uploads before rounds upload) (hbefore : before.Bounded size) {file : Bytes}
    (hfile : ∀ round ∈ rounds, ∀ e ∈ round.reads,
      (e.choice.content.drop round.before.offset.toNat).take round.bytes.length =
        (file.drop round.before.offset.toNat).take round.bytes.length) :
    rounds.flatMap Round.bytes =
      (file.drop before.offset.toNat).take (rounds.flatMap Round.bytes).length := by
  induction h with
  | done upload => simp
  | @round round rounds upload hran _ ih =>
      have hround := hran.sends hbefore
      have hrest := ih hround.after fun r hr => hfile r (List.mem_cons_of_mem _ hr)
      have hfirst : round.bytes =
          (file.drop round.before.offset.toNat).take round.bytes.length := by
        rcases hround.bytes with hnil | ⟨e, he, hbytes⟩
        · simp [hnil]
        · rw [← hfile round List.mem_cons_self e he]
          exact hbytes
      rw [hround.offset, ← List.drop_drop] at hrest
      rw [List.flatMap_cons, List.length_append, List.take_add, ← hfirst, ← hrest]

/-- **An upload sends the beginning of the file**, however the buffers are cut and whatever happens
to the file meanwhile. -/
theorem Uploads.sendsFile {before upload : FdUpload} {rounds : List Round} {size : ℕ}
    (h : Uploads before rounds upload) (hbefore : before.Bounded size)
    (hstart : before.offset = 0) : SendsFile size rounds upload := by
  have hzero : before.offset.toNat = 0 := by
    rw [hstart]
    rfl
  obtain ⟨hrounds, hoffset⟩ := h.bounded hbefore
  rw [hzero, Nat.zero_add] at hoffset
  refine ⟨hrounds, hoffset.symm, fun file hfile => ?_⟩
  have hbytes := h.delivers hbefore hfile
  rwa [hzero, List.drop_zero, ← hoffset] at hbytes

end PodInstaller
