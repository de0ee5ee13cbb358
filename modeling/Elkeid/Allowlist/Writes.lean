import Elkeid.Allowlist.Ownership

/-!
# One write to the device

What a write changes is read off its bytes and the counters alone: the change it
asks for, when it is accepted. The write carries it out, takes or frees its own
buffer, and leaves trees, counters and heap sound.
-/

namespace Elkeid.Allowlist

open Foundations Option

def Write.text (write : Write) : Bytes :=
  ((write.buff.drop 1).take (write.len - 1)).takeWhile (· ≠ 0)

def Flag.change (text : Bytes) : Flag → Option (Which × Change)
  | addExecveExeAllowlist => some (.exe, .add text)
  | delExecveExeAllowlist => some (.exe, .del text)
  | delAllExecveExeAllowlist => some (.exe, .deleteAll)
  | addExecveArgvAllowlist => some (.argv, .add text)
  | delExecveArgvAllowlist => some (.argv, .del text)
  | delAllExecveArgvAllowlist => some (.argv, .deleteAll)
  | execveExeCheck => none
  | execveArgvCheck => none
  | printAllAllowlist => none
  | other => none

/-- The change of a write that passes the length, limit and copy tests. -/
def accepted (driver : Driver) (write : Write) : Option (Which × Change) :=
  match write.buff with
  | [] => none
  | byte :: _ =>
    let flag := Flag.ofByte byte
    if write.len < allowlistNodeMin ∨ allowlistNodeMax < write.len then none
    else if driver.exceeds flag then none
    else if write.buff.length < write.len then none
    else flag.change (trim write.text)

def Follows (driver next : Driver) : Option (Which × Change) → Prop
  | none => ∀ other, contents (next.lists other) = contents (driver.lists other)
  | some (which, change) => Performs driver next which change

theorem nulFree_takeWhile (block : Bytes) : (0 : UInt8) ∉ block.takeWhile (· ≠ 0) := by
  intro listed
  have nonzero := List.mem_takeWhile_imp listed
  exact absurd nonzero (by decide)

theorem text_terminated (block : Bytes) :
    ∃ rest, block ++ [0] = block.takeWhile (· ≠ 0) ++ 0 :: rest := by
  induction block with
  | nil => exact ⟨[], rfl⟩
  | cons byte block ih =>
    by_cases isNul : byte = 0
    · subst isNul
      exact ⟨block ++ [0], rfl⟩
    · obtain ⟨rest, split⟩ := ih
      refine ⟨rest, ?_⟩
      rw [List.takeWhile_cons_of_pos (by simpa using isNul), List.cons_append, split,
        List.cons_append]

theorem smithStrim_block (block : Bytes) :
    ∃ s, smithStrim (block ++ [0]) = some s ∧
      cText s = some (trim (block.takeWhile (· ≠ 0))) := by
  obtain ⟨rest, split⟩ := text_terminated block
  rw [split]
  exact smithStrim_spec (nulFree_takeWhile block) rest

theorem strimText_block (block : Bytes) :
    strimText (block ++ [0]) = some (trim (block.takeWhile (· ≠ 0))) := by
  obtain ⟨rest, split⟩ := text_terminated block
  obtain ⟨offset, s, trimmed, text⟩ := strim_spec (nulFree_takeWhile block) rest
  rw [split, strimText, trimmed]
  exact text

section Writes

variable {allocator : Allocator} (balancer : SearchTree.Balancer AllowlistNode.key)
  {driver : Driver} {held : List Nat}

theorem handleAdd_spec (serves : allocator.Serves) {dataMain : Nat}
    (sound : Sound driver (dataMain :: held)) (block : Bytes) (which : Which) :
    ∃ keeps next,
      (do
        let text ← cText (← smithStrim (block ++ [0]))
        let (rc, driver) ← addAllowlist allocator balancer which driver dataMain text
        return (decide (rc ≠ 0), driver) : Handled) = some (keeps, next) ∧
      Sound next (if keeps then dataMain :: held else held) ∧
      Performs driver next which (.add (trim (block.takeWhile (· ≠ 0)))) := by
  obtain ⟨s, moved, text⟩ := smithStrim_block block
  obtain ⟨rc, next, run, nextSound, performs⟩ := addAllowlist_spec balancer serves which sound
    (trim (block.takeWhile (· ≠ 0)))
  refine ⟨decide (rc ≠ 0), next, ?_, by simpa using nextSound, performs⟩
  simp only [moved, text, run, bind_eq_bind, bind_some]
  rfl

theorem handleDel_spec (sound : Sound driver held) (block : Bytes) (which : Which) :
    ∃ next,
      (do return (true, ← delAllowlist balancer which driver (← strimText (block ++ [0])))
        : Handled) = some (true, next) ∧ Sound next held ∧
      Performs driver next which (.del (trim (block.takeWhile (· ≠ 0)))) := by
  obtain ⟨next, run, nextSound, performs⟩ := delAllowlist_spec balancer which sound
    (trim (block.takeWhile (· ≠ 0)))
  refine ⟨next, ?_, nextSound, performs⟩
  simp only [strimText_block block, run, bind_eq_bind, bind_some]
  rfl

theorem handleDelAll_spec (sound : Sound driver held) (which : Which) :
    ∃ next, (do return (true, ← delAllAllowlist which driver) : Handled) = some (true, next) ∧
      Sound next held ∧ Performs driver next which .deleteAll := by
  obtain ⟨next, run, nextSound, performs⟩ := delAllAllowlist_spec which sound
  refine ⟨next, ?_, nextSound, performs⟩
  simp only [run, bind_eq_bind, bind_some]
  rfl

theorem handle_spec (serves : allocator.Serves) {dataMain : Nat}
    (sound : Sound driver (dataMain :: held)) (block : Bytes) (flag : Flag) :
    ∃ keeps next, handle allocator balancer driver dataMain (block ++ [0]) flag =
        some (keeps, next) ∧
      Sound next (if keeps then dataMain :: held else held) ∧
      Follows driver next (flag.change (trim (block.takeWhile (· ≠ 0)))) := by
  have checked : (do let _ ← strimText (block ++ [0]); return (true, driver) : Handled) =
      some (true, driver) := by
    rw [strimText_block]
    rfl
  cases flag with
  | addExecveExeAllowlist => exact handleAdd_spec balancer serves sound block .exe
  | addExecveArgvAllowlist => exact handleAdd_spec balancer serves sound block .argv
  | delExecveExeAllowlist => exact ⟨true, handleDel_spec balancer sound block .exe⟩
  | delExecveArgvAllowlist => exact ⟨true, handleDel_spec balancer sound block .argv⟩
  | delAllExecveExeAllowlist => exact ⟨true, handleDelAll_spec sound .exe⟩
  | delAllExecveArgvAllowlist => exact ⟨true, handleDelAll_spec sound .argv⟩
  | execveExeCheck | execveArgvCheck => exact ⟨true, driver, checked, sound, fun _ => rfl⟩
  | printAllAllowlist | other => exact ⟨true, driver, rfl, sound, fun _ => rfl⟩

theorem deviceWrite_spec (serves : allocator.Serves) (sound : Sound driver []) (write : Write) :
    ∃ next, deviceWrite allocator balancer driver write = some next ∧ Sound next [] ∧
      Follows driver next (accepted driver write) := by
  have idle : Follows driver driver none := fun _ => rfl
  rw [deviceWrite, accepted, Write.text]
  cases buff : write.buff with
  | nil => exact ⟨driver, rfl, sound, idle⟩
  | cons byte content =>
    dsimp only
    split
    next outside => exact ⟨driver, rfl, sound, idle⟩
    next inside =>
      split
      next full => exact ⟨driver, rfl, sound, idle⟩
      next notFull =>
        obtain ⟨dataMain, heap, allocated, owns⟩ := sound.owned.alloc serves
        rw [allocated]
        dsimp only
        split
        next short =>
          obtain ⟨freed, isFreed, ownsNone⟩ := owns.free
          refine ⟨⟨freed, driver.lists⟩, ?_, ⟨sound.counted, ownsNone⟩, idle⟩
          rw [isFreed]
          rfl
        next copied =>
          have holding : Sound ⟨heap, driver.lists⟩ [dataMain] := ⟨sound.counted, owns⟩
          obtain ⟨keeps, next, handled, nextSound, follows⟩ := handle_spec balancer serves holding
            (content.take (write.len - 1)) (Flag.ofByte byte)
          rw [handled]
          cases keeps with
          | false => exact ⟨next, rfl, nextSound, follows⟩
          | true =>
            obtain ⟨freed, isFreed, ownsNone⟩ := nextSound.owned.free
            refine ⟨⟨freed, next.lists⟩, ?_, ⟨nextSound.counted, ownsNone⟩, follows⟩
            simp only [isFreed, bind_eq_bind, bind_some, if_pos]
            rfl

end Writes

end Elkeid.Allowlist
