import Elkeid.Foundations.Text

/-!
# The upload of a file

`handleUpload` of `agent/transport/file_ext.go`, on a file that does not change and a connection
on which every send succeeds. A fault is a read that fails, with the number of bytes it got before.
-/

namespace Elkeid.Agent.FileExt

open Foundations List

inductive ReadEnd where
  | full
  /-- `io.EOF` or `io.ErrUnexpectedEOF` -/
  | eof
  | failed
  deriving DecidableEq

/-- `io.ReadFull`, which does not read into an empty buffer. -/
def readFull (file : Bytes) (len : Nat) (fault : Option Nat) : Bytes × ReadEnd :=
  match len, fault with
  | 0, _ => ([], .full)
  | len + 1, some got => (file.take (min got len), .failed)
  | len + 1, none => (file.take (len + 1), if file.length ≤ len then .eof else .full)

/-- What was sent when `CloseAndRecv` is called, and if a read had failed. -/
structure Upload where
  data : List Bytes
  failed : Bool
  deriving DecidableEq

/-- The test after a read looks at `err`, the result of the last send, which is nil. -/
def uploadLoop (len : Nat) : Nat → (Nat → Option Nat) → Bytes → Option Upload
  | 0, _, _ => none
  | fuel + 1, faults, file =>
    let (data, ending) := readFull file len (faults 0)
    if ending = .eof then some ⟨[data], false⟩
    else (uploadLoop len fuel (fun k => faults (k + 1)) (file.drop data.length)).map
      (fun later => ⟨data :: later.data, ending = .failed || later.failed⟩)

/-- The fuel bounds the reads. `make` panics on a negative size, which passes the check when the
product wraps. -/
def handleUpload (bufSize : Int) (fuel : Nat) (faults : Nat → Option Nat) (file : Bytes) :
    Option Upload :=
  if file.length > (bufSize * 600).bmod (2 ^ 64) ∨ bufSize < 0 then none
  else uploadLoop (min bufSize.toNat (500 * 1024)) fuel faults file

variable {faults : Nat → Option Nat}

@[simp]
theorem uploadLoop_zero (fuel : Nat) (file : Bytes) : uploadLoop 0 fuel faults file = none := by
  induction fuel generalizing faults file with
  | zero => rfl
  | succ fuel ih => simp [uploadLoop, readFull, ih]

theorem uploadLoop_iff (len : Nat) (file : Bytes) :
    (∃ fuel data, uploadLoop (len + 1) fuel faults file = some ⟨data, false⟩ ∧
        data.flatten = file) ↔ ∀ k ≤ file.length / (len + 1), faults k = none := by
  induction size : file.length using Nat.strongRecOn generalizing file faults with
  | ind size ih =>
    subst size
    cases first : faults 0 with
    | some got =>
      refine iff_of_false ?_ fun reads => ?_
      · rintro ⟨_ | fuel, data, ran, _⟩
        · cases ran
        · simp [uploadLoop, readFull, first] at ran
      · cases (reads 0 (Nat.zero_le _)).symm.trans first
    | none =>
      by_cases last : file.length ≤ len
      · refine iff_of_true ⟨1, [file], ?_, ?_⟩ fun k small => ?_
        · simp [uploadLoop, readFull, first, last, take_of_length_le (Nat.le_succ_of_le last)]
        · simp
        · rw [Nat.div_eq_of_lt (Nat.lt_succ_of_le last)] at small
          rwa [Nat.le_zero.mp small]
      · have later := @ih (file.drop (len + 1)).length (by rw [length_drop]; omega)
          (fun k => faults (k + 1)) _ rfl
        have once : ∀ fuel, uploadLoop (len + 1) (fuel + 1) faults file =
            (uploadLoop (len + 1) fuel (fun k => faults (k + 1)) (file.drop (len + 1))).map
              (fun later => ⟨file.take (len + 1) :: later.data, later.failed⟩) := by
          have taken : min (len + 1) file.length = len + 1 := by omega
          simp [uploadLoop, readFull, first, last, taken]
        rw [length_drop] at later
        rw [Nat.div_eq_sub_div (Nat.succ_pos len) (by omega)]
        constructor
        · rintro ⟨_ | fuel, data, ran, whole⟩ (_ | k) small
          · cases ran
          · cases ran
          · exact first
          · rw [once, Option.map_eq_some_iff] at ran
            obtain ⟨⟨data, _⟩, ran, ⟨⟩⟩ := ran
            refine later.mp ⟨fuel, data, ran, ?_⟩ k (Nat.le_of_succ_le_succ small)
            exact append_cancel_left (whole.trans (take_append_drop _ _).symm)
        · intro reads
          obtain ⟨fuel, data, ran, whole⟩ := later.mpr fun k small =>
            reads (k + 1) (Nat.succ_le_succ small)
          refine ⟨fuel + 1, file.take (len + 1) :: data, ?_, ?_⟩
          · rw [once, ran, Option.map_some]
          · rw [flatten_cons, whole, take_append_drop]

/-- An upload with a buffer size that passes the size check ends with the whole file sent and no
failed read exactly when the buffer is not empty and none of the reads it takes fails. -/
theorem upload_faithful_iff {bufSize : Int} {file : Bytes}
    (accepted : file.length ≤ (bufSize * 600).bmod (2 ^ 64)) :
    (∃ fuel data, handleUpload bufSize fuel faults file = some ⟨data, false⟩ ∧
        data.flatten = file) ↔
      0 < bufSize ∧ ∀ k ≤ file.length / min bufSize.toNat (500 * 1024), faults k = none := by
  unfold handleUpload
  rcases Int.lt_trichotomy bufSize 0 with negative | rfl | positive
  · simp [negative, Int.not_lt.mpr (Int.le_of_lt negative)]
  · simp
  · obtain ⟨len, isLen⟩ : ∃ len, min bufSize.toNat (500 * 1024) = len + 1 :=
      Nat.exists_eq_succ_of_ne_zero (by omega)
    have passes : ¬ (file.length > (bufSize * 600).bmod (2 ^ 64) ∨ bufSize < 0) := by omega
    simpa only [passes, if_false, isLen, positive, true_and] using uploadLoop_iff len file

theorem upload_faithful_byte : (∃ fuel data,
      handleUpload 1 fuel (fun _ => none) [0x61] = some ⟨data, false⟩ ∧ data.flatten = [0x61]) :=
  (upload_faithful_iff (by decide)).mpr ⟨by decide, fun _ _ => rfl⟩

/-- The second read fails and the upload is completed. -/
theorem failed_read_completes :
    handleUpload 1 4 (fun k => if k = 1 then some 0 else none) [0x61, 0x62] =
      some ⟨[[0x61], [], [0x62], []], true⟩ := by
  decide

/-- A completed upload has sent the file, whatever reads failed. -/
theorem upload_whole {len fuel : Nat} {file : Bytes} {upload : Upload}
    (completed : uploadLoop len fuel faults file = some upload) : upload.data.flatten = file := by
  induction fuel generalizing faults file upload with
  | zero => cases completed
  | succ fuel ih =>
    simp only [uploadLoop] at completed
    split at completed
    next isEof =>
      cases completed
      revert isEof
      fun_cases readFull file len (faults 0) <;> simp
      omega
    next =>
      obtain ⟨later, isLater, rfl⟩ := Option.map_eq_some_iff.mp completed
      rw [flatten_cons, ih isLater, ← prefix_append_drop]
      fun_cases readFull file len (faults 0) <;> first | exact take_prefix _ _ | exact nil_prefix

theorem upload_whole_failed : ∃ upload,
    uploadLoop 1 4 (fun k => if k = 1 then some 0 else none) [0x61, 0x62] = some upload ∧
      upload.failed = true ∧ upload.data.flatten = [0x61, 0x62] := by
  have completed : uploadLoop 1 4 (fun k => if k = 1 then some 0 else none) [0x61, 0x62] =
      some ⟨[[0x61], [], [0x62], []], true⟩ := rfl
  exact ⟨_, completed, rfl, upload_whole completed⟩

end Elkeid.Agent.FileExt
