import Elkeid.Foundations.Buffer
import Elkeid.Probe.ExecveAgreement

/-!
# The loop over the arguments

The loop of `get_execve_data` in `driver/LKM/src/smith_hook.c` that joins the arguments, with the
buffer it writes to and with reads of user memory that fault. Both versions of the function have
this loop. A fault costs an argument or the end of one; no fault makes the loop write outside.
-/

namespace Elkeid.Probe

open Foundations Buffer List Option Nat

/-- What cannot be read of an argument: its pointer, its length, or the end of its bytes. -/
inductive Fault
  | pointer
  | length
  | copy (missing : Nat)
  deriving DecidableEq

structure Argument where
  string : CString
  fault : Option Fault

/-- A vector of arguments is counted before it is read. Counting stops at a pointer that faults and
at a pending signal. -/
structure Interruptions where
  pointer : Nat → Bool
  signal : Nat → Bool

/-- `smith_kmalloc`. The bytes it gives have any content. -/
structure Allocator where
  kmalloc : Nat → Option Bytes
  sized : ∀ size buffer, kmalloc size = some buffer → buffer.length = size

/-- `count` and `execve_count`, with `-EFAULT` and `-ERESTARTNOHAND`. -/
def countArguments (interruptions : Interruptions) (max : Nat) : Nat → List Argument → Int
  | i, [] => if interruptions.pointer i then -14 else i
  | i, _ :: rest =>
    if interruptions.pointer i then -14
    else if max ≤ i + 1 then i + 1
    else if interruptions.signal (i + 1) then -514
    else countArguments interruptions max (i + 1) rest

/-- `smith_strnlen_user` with `MAX_ARG_STRLEN`. -/
def Argument.strnlenUser (argument : Argument) : Nat :=
  if argument.fault = some .length then 0 else Probe.strnlenUser argument.string

/-- How many of `n` bytes are not copied. -/
def Argument.missing (argument : Argument) (n : Nat) : Nat :=
  match argument.fault with
  | some (.copy missing) => min missing n
  | _ => 0

/-- `smith_copy_from_user` of `n` bytes. All of its target must lie in the buffer, also where the
copy stops early. With the buffer it gives the number of bytes that are missing. -/
def copyFromUser (buffer : Bytes) (offset : Nat) (argument : Argument) (n : Int) :
    Option (Bytes × Nat) :=
  if 0 ≤ n ∧ offset + n ≤ buffer.length then
    let missing := argument.missing n.toNat
    let copied := (argument.string.bytes ++ [0]).take (n.toNat - missing)
    (write buffer offset copied).map (fun written => (written, missing))
  else none

/-- One byte, at a place that may lie before the buffer. -/
def store (buffer : Bytes) (place : Int) (byte : UInt8) : Option Bytes :=
  if 0 ≤ place then write buffer place.toNat [byte] else none

/-- The loop, with the buffer and the offset it has reached. It has no result when it accesses
something outside of the buffer. -/
def argvLoop (argvResLen : Nat) : Bytes → Nat → List Argument → Option (Bytes × Nat)
  | argvRes, offset, [] => some (argvRes, offset)
  | argvRes, offset, argument :: rest =>
    if argument.fault = some .pointer then argvLoop argvResLen argvRes offset rest
    else
      let len := argument.strnlenUser
      if len = 0 then argvLoop argvResLen argvRes offset rest
      else if argvResLen < offset + len then
        let res : Int := argvResLen - offset
        (copyFromUser argvRes offset argument res).map
          (fun copy => (copy.1, offset + (res.toNat - copy.2)))
      else
        (copyFromUser argvRes offset argument len).bind (fun copy =>
          let offset := offset + (len - copy.2)
          if copy.2 ≠ 0 then argvLoop argvResLen copy.1 offset rest
          else
            (store copy.1 (offset - 1) 0x20).bind (fun argvRes =>
              argvLoop argvResLen argvRes offset rest))

/-- The loop and the NUL behind it; where nothing was copied the text is "<FAIL>". -/
def fillArgv (argvResLen : Nat) (argvRes : Bytes) (arguments : List Argument) : Option Bytes :=
  (argvLoop argvResLen argvRes 0 arguments).bind (fun filled =>
    if 0 < filled.2 then write filled.1 filled.2 [0]
    else write filled.1 0 (fail ++ [0]))

/-- What becomes of `data->argv`: no pointer, or the bytes it points to. -/
def getArgv (allocator : Allocator) (interruptions : Interruptions)
    (argv : Option (List Argument)) :
    Option (Option Bytes) :=
  let argvLen := (argv.map (countArguments interruptions smithMaxArgStrings 0)).getD 0
  if 0 < argvLen then
    let argvResLen := 256 * argvLen.toNat
    match allocator.kmalloc (argvResLen + 1) with
    | none => some (some (minusOne ++ [0]))
    | some argvRes => (fillArgv argvResLen argvRes ((argv.getD []).take argvLen.toNat)).map some
  else some none

/-! ## Inside the buffer -/

variable {argvResLen offset : Nat} {argvRes : Bytes} {argument : Argument}

/-- What the loop keeps: the offset leaves a byte for the NUL. -/
structure Fits (argvResLen : Nat) (argvRes : Bytes) (offset : Nat) : Prop where
  offset_le : offset ≤ argvResLen
  length_eq : argvRes.length = argvResLen + 1

theorem Argument.missing_eq_zero (argument : Argument) (undisturbed : argument.fault = none)
    (n : Nat) :
    argument.missing n = 0 := by
  unfold missing
  rw [undisturbed]

theorem Argument.strnlenUser_eq (argument : Argument) (undisturbed : argument.fault = none) :
    argument.strnlenUser = Probe.strnlenUser argument.string := by
  rw [strnlenUser, undisturbed]
  rfl

theorem Argument.strnlenUser_le (argument : Argument) :
    argument.strnlenUser ≤ argument.string.bytes.length + 1 := by
  unfold strnlenUser Probe.strnlenUser
  split
  next => omega
  next => split <;> omega

theorem take_write {buffer block written : Bytes}
    (stored : write buffer offset block = some written) :
    written.take (offset + block.length) = buffer.take offset ++ block := by
  unfold write at stored
  split at stored <;> cases stored
  next inside =>
    apply take_left'
    rw [length_append, length_take_of_le (by omega)]

theorem copyFromUser_eq_some {n : Nat} (inside : offset + n ≤ argvRes.length)
    (present : n ≤ argument.string.bytes.length + 1) :
    ∃ written, copyFromUser argvRes offset argument n = some (written, argument.missing n) ∧
      written.length = argvRes.length ∧
      written.take (offset + (n - argument.missing n)) =
        argvRes.take offset ++ (argument.string.bytes ++ [0]).take (n - argument.missing n) := by
  have guard : 0 ≤ (n : Int) ∧ (offset : Int) + n ≤ argvRes.length := by omega
  have extent : ((argument.string.bytes ++ [0]).take (n - argument.missing n)).length =
      n - argument.missing n := by
    rw [length_take_of_le]
    rw [length_append, length_singleton]
    omega
  obtain ⟨written, stored⟩ := @Buffer.write_isSome _ argvRes
    ((argument.string.bytes ++ [0]).take (n - argument.missing n)) offset (by rw [extent]; omega)
  refine ⟨written, ?_, length_of_write stored, ?_⟩
  · rw [copyFromUser, if_pos guard]
    simp [stored]
  · have taken := take_write stored
    rw [extent] at taken
    exact taken

theorem store_eq_some {byte : UInt8} (positive : 0 < offset) (inside : offset ≤ argvRes.length) :
    ∃ written, store argvRes (offset - 1) byte = some written ∧ written.length = argvRes.length ∧
      written.take offset = argvRes.take (offset - 1) ++ [byte] := by
  have place : ((offset : Int) - 1).toNat = offset - 1 := by omega
  obtain ⟨written, stored⟩ := @Buffer.write_isSome _ argvRes [byte] (offset - 1)
    (by rw [length_singleton]; omega)
  refine ⟨written, ?_, length_of_write stored, ?_⟩
  · rw [store, if_pos (by omega), place, stored]
  · have taken := take_write stored
    rw [length_singleton, Nat.sub_add_cancel positive] at taken
    exact taken

theorem strnlenUser_pos (string : CString) : 0 < strnlenUser string := by
  unfold strnlenUser
  split <;> omega

theorem strnlenUser_of_le {string : CString} {size : Nat} (small : size ≤ maxArgStrlen)
    (fits : strnlenUser string ≤ size) : strnlenUser string = string.bytes.length + 1 := by
  unfold strnlenUser at fits ⊢
  split
  next => rfl
  next tooLong =>
    rw [if_neg tooLong] at fits
    omega

section

variable (fits : Fits argvResLen argvRes offset)
include fits

theorem argvLoop_cut (rest : List Argument)
    (pointer : argument.fault ≠ some .pointer) (found : argument.strnlenUser ≠ 0)
    (tooLong : argvResLen < offset + argument.strnlenUser) :
    ∃ filled, argvLoop argvResLen argvRes offset (argument :: rest) = some filled ∧
      Fits argvResLen filled.1 filled.2 ∧
      (argument.fault = none → filled.1.take filled.2 =
        argvRes.take offset ++ (argument.string.bytes ++ [0]).take (argvResLen - offset)) := by
  obtain ⟨bounded, size⟩ := fits
  have present := argument.strnlenUser_le
  have difference : (argvResLen : Int) - offset = ((argvResLen - offset : Nat) : Int) := by omega
  obtain ⟨written, copied, sameLength, text⟩ := @copyFromUser_eq_some offset argvRes argument
    (argvResLen - offset) (by omega) (by omega)
  rw [argvLoop, if_neg pointer]
  dsimp only
  rw [if_neg found, if_pos tooLong, difference, copied, map_some, Int.toNat_natCast]
  refine ⟨_, rfl, ⟨?_, sameLength.trans size⟩, ?_⟩
  · change offset + (argvResLen - offset - argument.missing (argvResLen - offset)) ≤ argvResLen
    omega
  · intro undisturbed
    rw [argument.missing_eq_zero undisturbed] at text ⊢
    exact text

theorem argvLoop_copied (rest : List Argument)
    (pointer : argument.fault ≠ some .pointer) (found : argument.strnlenUser ≠ 0)
    (enough : offset + argument.strnlenUser ≤ argvResLen) :
    ∃ next : Bytes × Nat, argvLoop argvResLen argvRes offset (argument :: rest) =
        argvLoop argvResLen next.1 next.2 rest ∧
      Fits argvResLen next.1 next.2 ∧
      (argument.fault = none → argvResLen ≤ maxArgStrlen →
        next.1.take next.2 = argvRes.take offset ++ argument.string.bytes ++ [0x20]) := by
  obtain ⟨bounded, size⟩ := fits
  obtain ⟨written, copied, sameLength, text⟩ := @copyFromUser_eq_some offset argvRes argument
    argument.strnlenUser (by omega) argument.strnlenUser_le
  rw [argvLoop, if_neg pointer]
  rw [if_neg found, if_neg (Nat.not_lt_of_le enough), copied, bind_some]
  by_cases whole : argument.missing argument.strnlenUser = 0
  · obtain ⟨blanked, stored, sameAgain, blankText⟩ := @store_eq_some (offset + argument.strnlenUser)
      written 0x20 (by omega) (by omega)
    rw [if_neg (not_not.mpr whole), whole, Nat.sub_zero, stored, bind_some]
    refine ⟨(blanked, offset + argument.strnlenUser), rfl,
      ⟨enough, sameAgain.trans (sameLength.trans size)⟩, ?_⟩
    intro undisturbed small
    have length := argument.strnlenUser_eq undisturbed
    have exactly := @strnlenUser_of_le argument.string _ small (by omega)
    have front : written.take (offset + argument.string.bytes.length) =
        argvRes.take offset ++ argument.string.bytes := by
      rw [whole, Nat.sub_zero, length, exactly] at text
      have shorter := congrArg (List.take (offset + argument.string.bytes.length)) text
      rw [take_take, min_eq_left (by omega)] at shorter
      rw [shorter, take_of_length_le (l := argument.string.bytes ++ [0]) (by simp), ← append_assoc]
      apply take_left'
      rw [length_append, length_take_of_le (by omega)]
    have place : offset + argument.strnlenUser - 1 =
        offset + argument.string.bytes.length := by omega
    rw [blankText, place, front]
  · rw [if_pos whole]
    refine ⟨(written, offset + (argument.strnlenUser - argument.missing argument.strnlenUser)), rfl,
      ⟨?_, sameLength.trans size⟩, ?_⟩
    · dsimp only
      omega
    · intro undisturbed
      exact absurd (argument.missing_eq_zero undisturbed _) whole

theorem argvLoop_spec (arguments : List Argument) :
    ∃ filled, argvLoop argvResLen argvRes offset arguments = some filled ∧
      Fits argvResLen filled.1 filled.2 ∧
      ((∀ argument ∈ arguments, argument.fault = none) → argvResLen ≤ maxArgStrlen →
        filled.1.take filled.2 =
          joinArgv argvResLen (argvRes.take offset) (arguments.map Argument.string)) := by
  induction arguments generalizing argvRes offset with
  | nil => exact ⟨(argvRes, offset), rfl, fits, fun _ _ => rfl⟩
  | cons argument rest ih =>
    by_cases skipped : argument.fault = some .pointer ∨ argument.strnlenUser = 0
    · have goesOn : argvLoop argvResLen argvRes offset (argument :: rest) =
          argvLoop argvResLen argvRes offset rest := by
        rw [argvLoop]
        rcases skipped with pointer | notFound
        · rw [if_pos pointer]
        · dsimp only
          rw [if_pos notFound, ite_self]
      obtain ⟨filled, looped, stillFits, -⟩ := ih fits
      refine ⟨filled, goesOn.trans looped, stillFits, ?_⟩
      intro undisturbed
      have isNone := undisturbed argument mem_cons_self
      rcases skipped with pointer | notFound
      · cases isNone.symm.trans pointer
      · rw [argument.strnlenUser_eq isNone] at notFound
        exact absurd notFound (ne_of_gt (strnlenUser_pos _))
    · obtain ⟨pointer, found⟩ := not_or.mp skipped
      have taken : (argvRes.take offset).length = offset :=
        length_take_of_le (by have := fits.offset_le; have := fits.length_eq; omega)
      by_cases tooLong : argvResLen < offset + argument.strnlenUser
      · obtain ⟨filled, looped, stillFits, text⟩ := argvLoop_cut fits rest pointer found tooLong
        refine ⟨filled, looped, stillFits, ?_⟩
        intro undisturbed _
        have isNone := undisturbed argument mem_cons_self
        rw [argument.strnlenUser_eq isNone] at found tooLong
        rw [map_cons, joinArgv, if_neg found, taken, if_pos tooLong, text isNone]
      · obtain ⟨next, goesOn, nextFits, text⟩ := argvLoop_copied fits rest pointer found
          (Nat.le_of_not_lt tooLong)
        obtain ⟨filled, looped, stillFits, restText⟩ := ih nextFits
        refine ⟨filled, goesOn.trans looped, stillFits, ?_⟩
        intro undisturbed small
        obtain ⟨isNone, restUndisturbed⟩ := forall_mem_cons.mp undisturbed
        rw [argument.strnlenUser_eq isNone] at found tooLong
        rw [restText restUndisturbed small, map_cons, joinArgv, if_neg found, taken,
          if_neg tooLong, text isNone small]

end

theorem fillArgv_terminated (size : argvRes.length = argvResLen + 1) (roomy : 256 ≤ argvResLen)
    (arguments : List Argument) :
    ∃ buffer, fillArgv argvResLen argvRes arguments = some buffer ∧ 0 ∈ buffer := by
  obtain ⟨filled, looped, ⟨bounded, sameLength⟩, -⟩ := argvLoop_spec ⟨zero_le _, size⟩ arguments
  have ends {place : Nat} {block : Bytes}
      (inside : place + (block ++ [0]).length ≤ filled.1.length) :
      ∃ buffer, write filled.1 place (block ++ [0]) = some buffer ∧ 0 ∈ buffer := by
    obtain ⟨buffer, stored⟩ := write_isSome inside
    refine ⟨buffer, stored, mem_of_mem_take (i := place + (block ++ [0]).length) ?_⟩
    rw [take_write stored]
    simp
  rw [fillArgv, looped, bind_some]
  split
  next => exact @ends filled.2 [] (by simp only [nil_append, length_singleton]; omega)
  next => exact ends (by rw [sameLength]; exact le_trans (by decide) (succ_le_succ roomy))

/-! ## Without faults -/

def spaced (strings : List CString) : Bytes :=
  strings.flatMap (fun string => string.bytes ++ [0x20])

def cText (buffer : Bytes) : Bytes := buffer.takeWhile (· ≠ 0)

theorem zero_not_mem_spaced (strings : List CString) : 0 ∉ spaced strings := by
  intro membership
  obtain ⟨string, -, inside⟩ := mem_flatMap.mp membership
  rcases mem_append.mp inside with inString | isBlank
  · exact string.nulFree inString
  · exact absurd (mem_singleton.mp isBlank) (by decide)

theorem joinArgv_eq {size : Nat} {text : Bytes} (small : size ≤ maxArgStrlen)
    (room : text.length ≤ size)
    (strings : List CString) : joinArgv size text strings = (text ++ spaced strings).take size := by
  induction strings generalizing text with
  | nil =>
    rw [joinArgv, spaced, flatMap_nil, append_nil, take_of_length_le room]
  | cons string rest ih =>
    have present := Argument.strnlenUser_le ⟨string, none⟩
    have positive : strnlenUser string ≠ 0 := ne_of_gt (strnlenUser_pos string)
    change strnlenUser string ≤ string.bytes.length + 1 at present
    rw [joinArgv, if_neg positive, spaced, flatMap_cons]
    split
    next tooLong =>
      have cut : ∀ ending, (string.bytes ++ ending).take (size - text.length) =
          string.bytes.take (size - text.length) :=
        fun ending => take_append_of_le_length (by omega)
      rw [cut, take_append, take_of_length_le room, append_assoc, cut]
    next enough =>
      have length := @strnlenUser_of_le string _ small (by omega)
      rw [ih (by simp only [length_append, length_singleton]; omega),
        append_assoc text, append_assoc text]
      rfl

variable {interruptions : Interruptions}

theorem countArguments_eq {max i : Nat} (below : i < max)
    (undisturbed : ∀ i, interruptions.pointer i = false ∧ interruptions.signal i = false)
    (arguments : List Argument) :
    countArguments interruptions max i arguments = (min (i + arguments.length) max : Nat) := by
  induction arguments generalizing i with
  | nil =>
    rw [countArguments, (undisturbed i).1, if_neg Bool.false_ne_true, length_nil]
    omega
  | cons argument rest ih =>
    rw [countArguments, (undisturbed i).1, (undisturbed (i + 1)).2, if_neg Bool.false_ne_true,
      if_neg Bool.false_ne_true, length_cons]
    split
    next => omega
    next more =>
      rw [ih (Nat.lt_of_not_le more)]
      omega

theorem countArguments_le (interruptions : Interruptions) {max i : Nat} (below : i < max)
    (arguments : List Argument) : countArguments interruptions max i arguments ≤ max := by
  induction arguments generalizing i with
  | nil =>
    rw [countArguments]
    split <;> omega
  | cons argument rest ih =>
    rw [countArguments]
    split
    next => omega
    next =>
      split
      next => omega
      next more =>
        split
        next => omega
        next => exact ih (Nat.lt_of_not_le more)

theorem cText_of_take {buffer text : Bytes} (clean : 0 ∉ text)
    (ends : buffer.take (text.length + 1) = text ++ [0]) : cText buffer = text := by
  have front : buffer = text ++ 0 :: buffer.drop (text.length + 1) := by
    have whole := take_append_drop (text.length + 1) buffer
    rw [ends, append_assoc] at whole
    exact whole.symm
  have kept : ∀ byte ∈ text, decide (byte ≠ 0) = true := by
    intro byte membership
    exact decide_eq_true (fun isZero => clean (isZero ▸ membership))
  rw [cText, front, takeWhile_append_of_pos kept, takeWhile_cons_of_neg (by decide), append_nil]

theorem fillArgv_text (size : argvRes.length = argvResLen + 1) (roomy : 0 < argvResLen)
    (small : argvResLen ≤ maxArgStrlen) {arguments : List Argument} (some : arguments ≠ [])
    (undisturbed : ∀ argument ∈ arguments, argument.fault = none) :
    (fillArgv argvResLen argvRes arguments).map cText =
      Option.some ((spaced (arguments.map Argument.string)).take argvResLen) := by
  obtain ⟨filled, looped, ⟨bounded, sameLength⟩, text⟩ :=
    argvLoop_spec ⟨zero_le _, size⟩ arguments
  have isText := text undisturbed small
  rw [take_zero, joinArgv_eq small (zero_le _), nil_append] at isText
  have extent : ((spaced (arguments.map Argument.string)).take argvResLen).length = filled.2 := by
    rw [← isText]
    exact length_take_of_le (by omega)
  have positive : 0 < filled.2 := by
    obtain ⟨argument, rest, rfl⟩ := exists_cons_of_ne_nil some
    rw [← extent, map_cons, spaced, flatMap_cons, length_take]
    simp only [length_append, length_singleton]
    omega
  obtain ⟨buffer, stored⟩ := @Buffer.write_isSome _ filled.1 [0] filled.2
    (by rw [length_singleton]; omega)
  rw [fillArgv, looped, bind_some, if_pos positive, stored, map_some]
  refine congrArg Option.some (cText_of_take ?_ ?_)
  · exact fun membership => zero_not_mem_spaced _ (mem_of_mem_take membership)
  · rw [extent, ← isText]
    exact take_write stored

theorem count_undisturbed (argv : Option (List Argument))
    (undisturbed : ∀ i, interruptions.pointer i = false ∧ interruptions.signal i = false) :
    (argv.map (countArguments interruptions smithMaxArgStrings 0)).getD 0 =
      (((argv.getD []).take smithMaxArgStrings).length : Int) := by
  cases argv with
  | none => rfl
  | some arguments =>
    rw [map_some, getD_some, countArguments_eq (by decide) undisturbed,
      getD_some, length_take, zero_add, min_comm]

theorem count_le (argv : Option (List Argument)) (interruptions : Interruptions) :
    (argv.map (countArguments interruptions smithMaxArgStrings 0)).getD 0 ≤ smithMaxArgStrings := by
  cases argv with
  | none => exact Int.natCast_nonneg _
  | some arguments => exact countArguments_le interruptions (by decide) arguments

theorem getArgv_terminated (allocator : Allocator) (interruptions : Interruptions)
    (argv : Option (List Argument)) :
    ∃ result, getArgv allocator interruptions argv = some result ∧
      ∀ buffer, result = some buffer → 0 ∈ buffer := by
  unfold getArgv
  dsimp only
  split
  next positive =>
    split
    next =>
      refine ⟨_, rfl, ?_⟩
      rintro buffer ⟨⟩
      simp
    next argvRes allocated =>
      obtain ⟨buffer, filled, terminated⟩ := fillArgv_terminated (allocator.sized _ _ allocated)
        (by omega) ((argv.getD []).take _)
      refine ⟨some buffer, by rw [filled, map_some], ?_⟩
      rintro _ ⟨⟩
      exact terminated
  next => exact ⟨none, rfl, by rintro buffer ⟨⟩⟩

theorem getArgv_text (allocator : Allocator)
    {argv : Option (List Argument)} (readable : ∀ argument ∈ argv.getD [], argument.fault = none)
    (undisturbed : ∀ i, interruptions.pointer i = false ∧ interruptions.signal i = false) :
    (getArgv allocator interruptions argv).map (Option.map cText) =
      some (let strings := ((argv.getD []).take smithMaxArgStrings).map Argument.string
        if strings = [] then none
        else if (allocator.kmalloc (256 * strings.length + 1)).isNone then some minusOne
        else some ((spaced strings).take (256 * strings.length))) := by
  have counted := count_undisturbed argv undisturbed
  have bounded := count_le argv interruptions
  unfold getArgv
  dsimp only
  rw [counted] at bounded ⊢
  rw [length_map, Int.toNat_natCast]
  generalize isTaken : (argv.getD []).take smithMaxArgStrings = arguments at bounded ⊢
  have again : (argv.getD []).take arguments.length = arguments := by
    rw [← isTaken, length_take, ← take_take, take_length]
  by_cases isEmpty : arguments = []
  · subst isEmpty
    rfl
  · have positive := length_pos_iff.mpr isEmpty
    have listed : arguments.map Argument.string ≠ [] := fun none => isEmpty (map_eq_nil_iff.mp none)
    rw [if_pos (Int.natCast_pos.mpr positive), if_neg listed, again]
    cases allocated : allocator.kmalloc (256 * arguments.length + 1) with
    | none => rfl
    | some argvRes =>
      have isSmall : 256 * arguments.length ≤ maxArgStrlen := by
        have limit : (smithMaxArgStrings : Int) = 16 := rfl
        rw [limit] at bounded
        exact le_trans (mul_le_mul_left 256 (Int.ofNat_le.mp bounded)) (by decide)
      have text := fillArgv_text (allocator.sized _ _ allocated) (by omega) isSmall isEmpty
        (fun argument membership =>
          readable argument (mem_of_mem_take (isTaken.symm ▸ membership)))
      obtain ⟨buffer, filled, isText⟩ := map_eq_some_iff.mp text
      rw [isNone_some, if_neg Bool.false_ne_true, ← isText]
      dsimp only
      rw [filled]
      rfl

/-- No access of the loop leaves the buffer, for every vector, every pattern of faults and every
outcome of the allocation, and what is reported ends in a NUL. Without faults it is the first
sixteen arguments, each with a blank behind it, cut at the capacity of the buffer. -/
theorem argv_inside_and_spaced (allocator : Allocator) (interruptions : Interruptions)
    (argv : Option (List Argument)) :
    ∃ result, getArgv allocator interruptions argv = some result ∧
      (∀ buffer, result = some buffer → 0 ∈ buffer) ∧
      ((∀ argument ∈ argv.getD [], argument.fault = none) →
        (∀ i, interruptions.pointer i = false ∧ interruptions.signal i = false) →
        result.map cText =
          let strings := ((argv.getD []).take smithMaxArgStrings).map Argument.string
          if strings = [] then none
          else if (allocator.kmalloc (256 * strings.length + 1)).isNone then some minusOne
          else some ((spaced strings).take (256 * strings.length))) := by
  obtain ⟨result, got, terminated⟩ := getArgv_terminated allocator interruptions argv
  refine ⟨result, got, terminated, ?_⟩
  intro readable undisturbed
  have text := getArgv_text allocator readable undisturbed
  rw [got, map_some] at text
  exact some.inj text

def zeros : Allocator where
  kmalloc size := some (replicate size 0)
  sized := by
    rintro size buffer ⟨⟩
    exact length_replicate

/-- The single argument "ls" is reported as "ls ", with a blank that joins it to nothing. -/
theorem oneArgument_has_blank : let ls : CString := ⟨Text.ofChars ['l', 's'], by decide⟩
    (getArgv zeros ⟨fun _ => false, fun _ => false⟩ (some [⟨ls, none⟩])).map (Option.map cText) =
        some (some (Text.ofChars ['l', 's', ' '])) ∧
      Text.ofChars ['l', 's', ' '] ≠ intercalate [0x20] [ls.bytes] := by
  decide +kernel

end Elkeid.Probe
