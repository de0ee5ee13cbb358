import Elkeid.Trace.Event
import Elkeid.Trace.Scan

/-!
# Reading the trace pipe

`trace_read_pipe` of `driver/LKM/src/trace.c` over the rings of the CPUs, with the
kernel's `trace_seq` of one page. A call first hands out what an earlier one has
left; otherwise it fills the sequence with the lines of waiting events and goes
back to waiting when nothing came out. No signal arrives, recording stays on and
copies to the user succeed. While the call runs the rings only lose the events it
consumes.
-/

namespace Elkeid.Trace

open Foundations List Option Nat

def pageSize : Nat := 4096

def bufPageHdrSize : Nat := 16

def bufMaxDataSize : Nat := pageSize - bufPageHdrSize - 8

/-- An event that `tb_lock_reserve` has found room for. -/
abbrev Reserved := { event : Event // event.entrySize ≤ bufMaxDataSize }

/-- `content` are the first `len` bytes of the buffer. -/
structure TraceSeq where
  content : Bytes
  readpos : Nat
  full : Bool
  deriving DecidableEq

namespace TraceSeq

def init : TraceSeq := ⟨[], 0, false⟩

def used (seq : TraceSeq) : Nat := min seq.content.length pageSize

def hasOverflowed (seq : TraceSeq) : Bool := seq.full || pageSize < seq.content.length

/-- What does not fit as a whole is not written. -/
def printf (seq : TraceSeq) (text : Bytes) : TraceSeq :=
  if seq.full then seq
  else if seq.content.length + text.length < pageSize then
    { seq with content := seq.content ++ text }
  else { seq with full := true }

/-- The bytes copied; `none` is `-EBUSY`. -/
def toUser (seq : TraceSeq) (cnt : Nat) : Option (Bytes × TraceSeq) :=
  if cnt = 0 then some ([], seq)
  else if seq.used ≤ seq.readpos then none
  else
    let count := min cnt (seq.used - seq.readpos)
    some ((seq.content.drop seq.readpos).take count, { seq with readpos := seq.readpos + count })

end TraceSeq

inductive PrintLine where
  | partialLine
  | handled

def printTraceFmtLine (seq : TraceSeq) (event : Event) : TraceSeq × PrintLine :=
  if seq.hasOverflowed then (seq, .partialLine)
  else
    let seq := seq.printf event.line
    (seq, if seq.hasOverflowed then .partialLine else .handled)

/-- The iterator of an open pipe, with the rings it reads. -/
structure Reader where
  cpus : Cpus
  rings : Nat → List Reserved
  seq : TraceSeq
  cpu : Nat

namespace Reader

def isTraceEmpty (reader : Reader) : Bool :=
  (reader.cpus.possibleIn 0 reader.cpus.bits).all (fun cpu => (reader.rings cpu).isEmpty)

/-- The loop over the entries; `none` when it does not end within the given rounds. -/
def fill (cnt : Nat) : Nat → Reader → Option Reader
  | 0, _ => none
  | rounds + 1, reader => do
      match ← reader.cpus.findNextEntry reader.rings reader.cpu with
      | none => return reader
      | some (cpu, event) =>
        let saveLen := reader.seq.content.length
        match printTraceFmtLine reader.seq event.val with
        | (seq, .partialLine) =>
          return { reader with seq := { seq with content := seq.content.take saveLen }, cpu }
        | (seq, .handled) =>
          let rings := Function.update reader.rings cpu (reader.rings cpu).tail
          if cnt ≤ seq.used then return { reader with rings, seq, cpu }
          else fill cnt rounds { reader with rings, seq, cpu }

/-- One pass from `waitagain`: the iterator is cleared, filled and copied out. -/
def pass (cnt : Nat) (reader : Reader) : Option (Option Bytes × Reader) := do
  let reader ← fill cnt (cnt + 1) { reader with seq := .init, cpu := 0 }
  match reader.seq.toUser cnt with
  | none => return (none, { reader with seq := .init })
  | some (bytes, seq) =>
    return (some bytes, { reader with seq := if seq.used ≤ seq.readpos then .init else seq })

/-- `if (cnt >= PAGE_SIZE) cnt = PAGE_SIZE - 1` -/
def capCount (cnt : Nat) : Nat := if pageSize ≤ cnt then pageSize - 1 else cnt

/-- The passes that a call makes; with all rings empty it sleeps. -/
def waitAgain (cnt : Nat) : Nat → Reader → Option (Bytes × Reader)
  | 0, _ => none
  | passes + 1, reader =>
    if reader.isTraceEmpty then none
    else do
      match ← reader.pass (capCount cnt) with
      | (some bytes, reader) => return (bytes, reader)
      | (none, reader) => waitAgain (capCount cnt) passes reader

/-- A call of `trace_read_pipe`; `none` when it has not returned within the passes. -/
def traceReadPipe (passes cnt : Nat) (reader : Reader) : Option (Bytes × Reader) :=
  match reader.seq.toUser cnt with
  | some (bytes, seq) => some (bytes, { reader with seq })
  | none => waitAgain cnt passes { reader with seq := .init }

/-- The event that every pass looks at first. -/
def first (reader : Reader) : Option (Nat × Reserved) :=
  Cpus.firstPending reader.rings (reader.cpus.scanOrder (reader.cpus.scanStart 0))

end Reader

theorem Event.line_ne_nil (event : Event) : event.line ≠ [] :=
  append_ne_nil_of_right_ne_nil _ (cons_ne_nil _ _)

theorem TraceSeq.toUser_eq_none_iff {seq : TraceSeq} {cnt : Nat} (positive : 0 < cnt) :
    seq.toUser cnt = none ↔ seq.used ≤ seq.readpos := by
  rw [toUser, if_neg positive.ne']
  split
  next drained => exact iff_of_true rfl drained
  next unread => exact iff_of_false (some_ne_none _) unread

theorem TraceSeq.toUser_of_unread {seq : TraceSeq} {cnt : Nat} (positive : 0 < cnt)
    (unread : seq.readpos < seq.used) :
    ∃ bytes next, seq.toUser cnt = some (bytes, next) ∧ bytes ≠ [] := by
  rw [toUser, if_neg positive.ne', if_neg (not_le.mpr unread)]
  refine ⟨_, _, rfl, ?_⟩
  have inside : seq.readpos < seq.content.length := unread.trans_le (min_le_left _ _)
  apply ne_nil_of_length_pos
  rw [length_take, length_drop]
  omega

/-- A sequence that lines can still be printed to. -/
structure TraceSeq.Writable (seq : TraceSeq) : Prop where
  notFull : seq.full = false
  fits : seq.content.length < pageSize
  unread : seq.readpos = 0

theorem TraceSeq.writable_init : TraceSeq.init.Writable := ⟨rfl, by decide, rfl⟩

section Printing

variable {seq : TraceSeq} (writable : seq.Writable) (event : Event)

include writable

theorem TraceSeq.Writable.not_full : ¬ seq.full = true := by
  rw [writable.notFull]
  exact Bool.false_ne_true

theorem TraceSeq.Writable.not_overflowed : ¬ seq.hasOverflowed = true := by
  rw [TraceSeq.hasOverflowed, writable.notFull, Bool.false_or, decide_eq_true_iff]
  exact not_lt.mpr writable.fits.le

theorem TraceSeq.Writable.used_eq : seq.used = seq.content.length :=
  min_eq_left writable.fits.le

theorem print_fitting (fits : seq.content.length + event.line.length < pageSize) :
    ∃ next, printTraceFmtLine seq event = (next, .handled) ∧ next.Writable ∧
      next.content = seq.content ++ event.line := by
  have appended : TraceSeq.Writable { seq with content := seq.content ++ event.line } := by
    refine ⟨writable.notFull, ?_, writable.unread⟩
    rw [length_append]
    exact fits
  refine ⟨_, ?_, appended, rfl⟩
  rw [printTraceFmtLine, if_neg writable.not_overflowed, TraceSeq.printf,
    if_neg writable.not_full, if_pos fits]
  dsimp only
  rw [if_neg appended.not_overflowed]

theorem print_overflowing (long : pageSize ≤ seq.content.length + event.line.length) :
    printTraceFmtLine seq event = ({ seq with full := true }, .partialLine) := by
  rw [printTraceFmtLine, if_neg writable.not_overflowed, TraceSeq.printf,
    if_neg writable.not_full, if_neg (not_lt.mpr long)]
  rfl

end Printing

namespace Reader

def next (reader : Reader) : Option (Nat × Reserved) :=
  Cpus.firstPending reader.rings (reader.cpus.scanOrder (reader.cpus.scanStart reader.cpu))

theorem findNextEntry_next (reader : Reader) :
    reader.cpus.findNextEntry reader.rings reader.cpu = some reader.next :=
  Cpus.findNextEntry_eq _ _ _

variable {cnt : Nat}

theorem fill_spec {rounds : Nat} {reader : Reader} (writable : reader.seq.Writable)
    (wanting : reader.seq.content.length < cnt)
    (enough : cnt < reader.seq.content.length + rounds) :
    ∃ last, fill cnt rounds reader = some last ∧ last.seq.readpos = 0 ∧
      last.seq.content.length < pageSize ∧ reader.seq.content <+: last.seq.content ∧
      ∀ cpu event, reader.next = some (cpu, event) →
        reader.seq.content.length + event.val.line.length < pageSize →
          reader.seq.content ++ event.val.line <+: last.seq.content := by
  induction rounds generalizing reader with
  | zero => exact absurd (wanting.trans enough) (lt_irrefl _)
  | succ rounds ih =>
    rw [fill, findNextEntry_next, bind_eq_bind, bind_some]
    cases found : reader.next with
    | none =>
      refine ⟨reader, rfl, writable.unread, writable.fits, prefix_refl _, ?_⟩
      intro cpu event isNext
      cases isNext
    | some pair =>
      obtain ⟨cpu, event⟩ := pair
      dsimp only
      by_cases fits : reader.seq.content.length + event.val.line.length < pageSize
      · obtain ⟨seq, printed, writableSeq, appended⟩ := print_fitting writable event.val fits
        rw [printed]
        dsimp only
        have kept : reader.seq.content <+: seq.content := appended ▸ prefix_append _ _
        split
        next =>
          refine ⟨_, rfl, writableSeq.unread, writableSeq.fits, kept, ?_⟩
          rintro _ _ ⟨⟩ _
          exact appended ▸ prefix_refl _
        next unfilled =>
          rw [writableSeq.used_eq, not_le] at unfilled
          have longer : reader.seq.content.length + 1 ≤ seq.content.length := by
            rw [appended, length_append]
            exact Nat.add_le_add_left (length_pos_iff.mpr event.val.line_ne_nil) _
          have still : cnt < seq.content.length + rounds := by omega
          obtain ⟨last, filled, unread, small, isPrefix, _⟩ := @ih
            { reader with rings := Function.update reader.rings cpu (reader.rings cpu).tail,
                          seq, cpu } writableSeq unfilled still
          refine ⟨last, filled, unread, small, kept.trans isPrefix, ?_⟩
          rintro _ _ ⟨⟩ _
          exact appended ▸ isPrefix
      · rw [print_overflowing writable event.val (not_lt.mp fits)]
        have whole : reader.seq.content.take reader.seq.content.length = reader.seq.content :=
          take_length
        refine ⟨_, rfl, writable.unread, ?_, ?_, ?_⟩
        · dsimp only
          rw [whole]
          exact writable.fits
        · exact whole.symm ▸ prefix_refl _
        · rintro _ _ ⟨⟩ alsoFits
          exact absurd alsoFits fits

theorem pass_fitting (positive : 0 < cnt) {reader : Reader} {cpu : Nat}
    {event : Reserved} (isFirst : reader.first = some (cpu, event))
    (fits : event.val.line.length < pageSize) :
    ∃ bytes last, reader.pass cnt = some (some bytes, last) ∧ bytes ≠ [] := by
  obtain ⟨last, filled, unread, small, _, printed⟩ := @fill_spec cnt (cnt + 1)
    { reader with seq := .init, cpu := 0 } TraceSeq.writable_init positive (by simp [TraceSeq.init])
  have hasLine : event.val.line <+: last.seq.content :=
    printed cpu event isFirst (by simpa [TraceSeq.init] using fits)
  have nonempty : 0 < last.seq.content.length :=
    (length_pos_iff.mpr event.val.line_ne_nil).trans_le hasLine.length_le
  have unreadLast : last.seq.readpos < last.seq.used := by
    rw [unread, TraceSeq.used, min_eq_left small.le]
    exact nonempty
  obtain ⟨bytes, seq, copied, someBytes⟩ := TraceSeq.toUser_of_unread positive unreadLast
  refine ⟨bytes, { last with seq := if seq.used ≤ seq.readpos then .init else seq }, ?_, someBytes⟩
  rw [pass, filled, bind_eq_bind, bind_some, copied]
  rfl

theorem pass_stuck (positive : 0 < cnt) {reader : Reader}
    (long : ∀ cpu event, reader.first = some (cpu, event) → pageSize ≤ event.val.line.length) :
    ∃ cpu, reader.pass cnt = some (none, { reader with seq := .init, cpu }) := by
  have nothing {seq : TraceSeq} (drained : seq.used ≤ seq.readpos) : seq.toUser cnt = none :=
    (TraceSeq.toUser_eq_none_iff positive).mpr drained
  have filled : ∃ seq cpu, seq.used ≤ seq.readpos ∧
      fill cnt (cnt + 1) { reader with seq := .init, cpu := 0 } =
        some { reader with seq, cpu } := by
    rw [fill, findNextEntry_next, bind_eq_bind, bind_some]
    cases found : Reader.next { reader with seq := .init, cpu := 0 } with
    | none => exact ⟨.init, 0, le_refl _, rfl⟩
    | some pair =>
      obtain ⟨cpu, event⟩ := pair
      have overflows : pageSize ≤ TraceSeq.init.content.length + event.val.line.length :=
        (long cpu event found).trans (le_add_left _ _)
      dsimp only
      rw [print_overflowing TraceSeq.writable_init event.val overflows]
      exact ⟨⟨[], 0, true⟩, cpu, le_refl _, rfl⟩
  obtain ⟨seq, cpu, drained, isFilled⟩ := filled
  refine ⟨cpu, ?_⟩
  rw [pass, isFilled, bind_eq_bind, bind_some, nothing drained]
  rfl

theorem capCount_pos (positive : 0 < cnt) : 0 < capCount cnt := by
  rw [capCount]
  split
  next => decide
  next => exact positive

theorem waitAgain_stuck (positive : 0 < cnt) {reader : Reader}
    (long : ∀ cpu event, reader.first = some (cpu, event) → pageSize ≤ event.val.line.length)
    (passes : Nat) : waitAgain cnt passes reader = none := by
  induction passes generalizing cnt reader with
  | zero => rfl
  | succ passes ih =>
    rw [waitAgain]
    split
    next => rfl
    next =>
      have capped := capCount_pos positive
      obtain ⟨cpu, stuck⟩ := pass_stuck capped long
      rw [stuck, bind_eq_bind, bind_some]
      exact ih capped long

theorem awake_of_first {reader : Reader} {cpu : Nat} {event : Reserved}
    (isFirst : reader.first = some (cpu, event)) : ¬ reader.isTraceEmpty = true := by
  intro isEmpty
  obtain ⟨listed, waiting⟩ := Cpus.firstPending_eq_some isFirst
  have nothing := all_eq_true.mp isEmpty cpu
    ((reader.cpus.mem_scanOrder_iff (reader.cpus.scanStart_le 0)).mp listed)
  rw [isEmpty_iff.mp nothing] at waiting
  cases waiting

theorem waitAgain_fitting (positive : 0 < cnt) {reader : Reader} {cpu : Nat}
    {event : Reserved} (isFirst : reader.first = some (cpu, event))
    (fits : event.val.line.length < pageSize) :
    ∃ bytes last, waitAgain cnt 1 reader = some (bytes, last) ∧ bytes ≠ [] := by
  obtain ⟨bytes, last, passed, someBytes⟩ := pass_fitting (capCount_pos positive) isFirst fits
  refine ⟨bytes, last, ?_, someBytes⟩
  rw [waitAgain, if_neg (awake_of_first isFirst), passed]
  rfl

/-- A call returns bytes after finitely many passes exactly when bytes are left from
an earlier call or the first event that it finds has a line that fits the sequence. -/
theorem traceReadPipe_progress_iff (reader : Reader) {cnt : Nat} (positive : 0 < cnt) :
    (∃ passes bytes last, reader.traceReadPipe passes cnt = some (bytes, last) ∧ bytes ≠ []) ↔
      reader.seq.readpos < reader.seq.used ∨
        ∃ cpu event, reader.first = some (cpu, event) ∧ event.val.line.length < pageSize := by
  by_cases unread : reader.seq.readpos < reader.seq.used
  · obtain ⟨bytes, seq, copied, someBytes⟩ := TraceSeq.toUser_of_unread positive unread
    refine iff_of_true ⟨0, bytes, { reader with seq }, ?_, someBytes⟩ (.inl unread)
    rw [traceReadPipe, copied]
  · have drained : reader.seq.toUser cnt = none :=
      (TraceSeq.toUser_eq_none_iff positive).mpr (not_lt.mp unread)
    simp only [traceReadPipe, drained]
    constructor
    · rintro ⟨passes, bytes, last, returned, _⟩
      refine .inr ?_
      by_contra noFit
      have long : ∀ cpu event, Reader.first { reader with seq := .init } = some (cpu, event) →
          pageSize ≤ event.val.line.length := by
        intro cpu event isFirst
        by_contra fits
        exact noFit ⟨cpu, event, isFirst, not_le.mp fits⟩
      rw [waitAgain_stuck positive long] at returned
      cases returned
    · rintro (wasUnread | ⟨cpu, event, isFirst, fits⟩)
      · exact absurd wasUnread unread
      · obtain ⟨bytes, last, returned, someBytes⟩ :=
          @waitAgain_fitting cnt positive { reader with seq := .init } cpu event isFirst fits
        exact ⟨1, bytes, last, returned, someBytes⟩

def setsidEvent (exe : CString) : Event where
  cls := setsid
  registered := by decide
  values := [.int 1000000000, .string exe, .int 4194303, .int 4194302, .int 4194303, .int 4194303,
    .int 4194302, .array taskCommLen ⟨replicate 15 0x61, by decide⟩ (by decide),
    .string ⟨[0x68], by decide⟩, .unsigned 4294967295, .unsigned 4026531836, .unsigned 4026531836]
  typed := rfl

def oneWaiting (event : Reserved) : Reader :=
  ⟨⟨2, fun _ => true⟩, fun cpu => if cpu = 1 then [event] else [], .init, 0⟩

theorem progress_shortPath : ∃ passes bytes last, Reader.traceReadPipe passes 100
      (oneWaiting ⟨setsidEvent ⟨[0x2f, 0x61], by decide⟩, by decide⟩) = some (bytes, last) ∧
        bytes ≠ [] := by
  apply (traceReadPipe_progress_iff _ (by decide)).mpr
  exact .inr ⟨1, _, rfl, by decide⟩

def longPath : CString :=
  ⟨replicate 4005 0x61, fun listed => absurd (eq_of_mem_replicate listed) (by decide)⟩

/-- The entry of this event has 4072 bytes and its line 4112. -/
def longPathEvent : Reserved := ⟨setsidEvent longPath, by decide +kernel⟩

theorem longPath_never_read :
    ¬ ∃ passes result, (oneWaiting longPathEvent).traceReadPipe passes 4096 = some result := by
  rintro ⟨passes, result, read⟩
  suffices never : (oneWaiting longPathEvent).traceReadPipe passes 4096 = none by
    cases never.symm.trans read
  have long : pageSize ≤ longPathEvent.val.line.length := by decide +kernel
  have drained : TraceSeq.init.toUser 4096 = none := rfl
  rw [traceReadPipe]
  simp only [oneWaiting, drained]
  apply waitAgain_stuck (by decide)
  intro cpu event isFirst
  have found : Reader.first (oneWaiting longPathEvent) = some (1, longPathEvent) := rfl
  rw [← oneWaiting, found] at isFirst
  cases isFirst
  exact long

end Reader

end Elkeid.Trace
