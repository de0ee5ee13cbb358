import Elkeid.Trace.Pipe
import Elkeid.Transformer.Split

/-!
# Field integrity

The kernel module prints the events, the plugin cuts the stream at the record
mark (`BufRead::split` in `main.rs`) and `transform` cuts each record at the
separator. Nothing between a string and the stream escapes the two bytes, and
an event is printed only where its entry and its line fit, so the fields arrive
as printed exactly when no string holds one of the two bytes and all events fit.
-/

namespace Elkeid.Transformer

open Foundations Text Trace List

/-- What the thread `record_send` has read: a failed record is logged and
skipped, a panic ends the thread. -/
structure Delivery where
  reports : List Report
  panicked : Bool
  deriving DecidableEq

def deliver : List Bytes → Delivery
  | [] => ⟨[], false⟩
  | record :: rest =>
    match splitRecord record with
    | none => ⟨[], true⟩
    | some (.error _) => deliver rest
    | some (.ok report) => ⟨report :: (deliver rest).reports, (deliver rest).panicked⟩

/-- The entry fits into a page of the ring and the line into the sequence. -/
def Fits (event : Event) : Prop :=
  event.entrySize ≤ bufMaxDataSize ∧ event.line.length < pageSize

theorem fields_ne_nil : ∀ cls ∈ eventClasses, cls.fields ≠ [] := by decide

theorem body_eq (event : Event) : event.body = decimal event.cls.dataType ++
      separator :: [separator].intercalate (event.values.map Value.print) := by
  cases printed : event.values.map Value.print with
  | nil =>
    have empty : event.cls.fields = [] := by
      rw [← event.typed, map_eq_nil_iff.mp printed, map_nil]
    exact absurd empty (fields_ne_nil event.cls event.registered)
  | cons first others =>
    rw [Event.body, printed, intercalate_cons_cons]
    simp [Event.fieldSeparator, separator]

variable {events : List Event}

end Elkeid.Transformer
