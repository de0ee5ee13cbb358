import Elkeid.Foundations.Buffer
import Elkeid.Foundations.LittleEndian

/-!
# The mask store of one inode

`_mask_lookup`, `_mask_insert` and `_mask_remove` of `driver/LKM/src/filter.c`.
A node owns one growable byte buffer; its volumes follow each other, each with a
tag, its size, the uuid and its entries of a mask and a name. Addresses are
offsets into the buffer and every access is checked against it. Sizes are natural
numbers: `kmalloc` refuses blocks long before a 32-bit size could wrap.
-/

namespace Elkeid.FileNotify

open Foundations LittleEndian

inductive Fault where
  /-- an access outside `[data, data + size)` -/
  | outOfBounds
  /-- `BUG()` -/
  | bug
  /-- a loop that never ends -/
  | spin
  deriving DecidableEq

/-- `size` is the length of `data`; the empty buffer is the null pointer. -/
structure Node where
  used : Nat
  data : Bytes
  deriving DecidableEq

def Node.size (node : Node) : Nat := node.data.length

abbrev Uuid := { bytes : Bytes // bytes.length = 16 }

/-- `nlen` is the length of `name`. -/
structure MaskItem where
  uuid : Uuid
  name : CString
  mask : BitVec 32

structure MaskInfo where
  tag : Option Nat
  item : Option Nat
  ret : Int
  deriving DecidableEq

/-- The bytes of `|->:`. -/
def sttag : Bytes := [0x7c, 0x2d, 0x3e, 0x3a]

def sotag : Nat := 4

def sosize : Nat := sotag

def souuid : Nat := sosize + 4

def somask : Nat := souuid + 16

def soname : Nat := somask + 4

def align4 (n : Nat) : Nat := (n + 3) / 4 * 4

section

variable {α β : Type} (next : α → Except Fault β)

@[simp]
theorem ok_bind (value : α) : (Except.ok value >>= next) = next value := rfl

@[simp]
theorem error_bind (fault : Fault) : (Except.error fault >>= next) = .error fault := rfl

@[simp]
theorem pure_eq_ok (value : α) : (pure value : Except Fault α) = .ok value := rfl

end

def checked {α : Type} : Option α → Except Fault α
  | some value => .ok value
  | none => .error .outOfBounds

def load (data : Bytes) (offset count : Nat) : Except Fault Bytes :=
  checked (Buffer.read data offset count)

def save (data : Bytes) (offset : Nat) (block : Bytes) : Except Fault Bytes :=
  checked (Buffer.write data offset block)

def memmove (data : Bytes) (target source count : Nat) : Except Fault Bytes :=
  checked (Buffer.move data target source count)

def memset (data : Bytes) (offset count : Nat) : Except Fault Bytes :=
  checked (Buffer.fill data offset count 0)

def strlen (data : Bytes) (offset : Nat) : Except Fault Nat :=
  checked ((data.drop offset).findIdx? (· = 0))

def memcmp : Bytes → Bytes → Ordering
  | a :: as, b :: bs => if a < b then .lt else if b < a then .gt else memcmp as bs
  | _, _ => .eq

def tagSize (data : Bytes) (tag : Nat) : Except Fault Nat := do
  let bytes ← load data (tag + sosize) 4
  return value bytes

def loadMask (data : Bytes) (item : Nat) : Except Fault (BitVec 32) := do
  let bytes ← load data item 4
  return BitVec.ofNat 32 (value bytes)

def saveMask (data : Bytes) (item : Nat) (mask : BitVec 32) : Except Fault Bytes :=
  save data item (word mask.toNat)

/-- The search never moves on: it returns at once or not at all. -/
def maskStrstr (data : Bytes) (s sl : Nat) : Except Fault (Option Nat) :=
  if sotag < sl then do
    let bytes ← load data s sotag
    if bytes = sttag then return some s else throw .spin
  else return none

def maskAssert (node : Node) : Except Fault Bool := do
  let tag ← load node.data 0 sotag
  if tag ≠ sttag then return true
  let size ← tagSize node.data 0
  return decide (size = 0 ∨ node.used < size)

structure VolumeScan where
  /-- tag and size of the volume of the uuid -/
  found : Option (Nat × Nat)
  tag : Option Nat
  ret : Int

/-- The first loop of `_mask_lookup`. -/
def scanVolumes (node : Node) (uuid : Uuid) : Nat → Nat → VolumeScan → Except Fault VolumeScan
  | 0, _, _ => throw .spin
  | fuel + 1, s, scan => do
      match ← maskStrstr node.data s (node.used - s) with
      | none => return scan
      | some tag =>
        let len ← tagSize node.data tag
        let other ← load node.data (tag + souuid) 16
        match memcmp uuid.val other with
        | .eq => return ⟨some (tag, len), some tag, 0⟩
        | .lt =>
          if s + len < node.used then scanVolumes node uuid fuel (s + len) ⟨none, some tag, -1⟩
          else return ⟨none, some tag, -1⟩
        | .gt =>
          if s + len < node.used then scanVolumes node uuid fuel (s + len) ⟨none, some tag, 1⟩
          else return ⟨none, some tag, 1⟩

/-- The second loop of `_mask_lookup`, over the entries of the volume at `t`. -/
def scanEntries (node : Node) (item : MaskItem) (nameonly : Bool) (t len : Nat) :
    Nat → Nat → Except Fault (Option Nat)
  | 0, _ => throw .spin
  | fuel + 1, i => do
      let mask ← loadMask node.data (t + i)
      let length ← strlen node.data (t + i + 4)
      let name ← load node.data (t + i + 4) length
      if (nameonly ∨ mask &&& item.mask ≠ 0) ∧ name = item.name.bytes then return some (t + i)
      let i := i + 4 + align4 (length + 1)
      if i < len then scanEntries node item nameonly t len fuel i else return none

def maskLookup (node : Node) (item : MaskItem) (nameonly : Bool) :
    Except Fault (Node × MaskInfo) :=
  if node.data = [] ∨ node.used ≤ soname then return (node, ⟨none, none, -1⟩)
  else do
    if ← maskAssert node then
      let data ← memset node.data 0 node.size
      return (⟨0, data⟩, ⟨none, none, -1⟩)
    else
      let scan ← scanVolumes node item.uuid (node.used + 1) 0 ⟨none, none, 0⟩
      match scan.found with
      | none => return (node, ⟨scan.tag, none, scan.ret⟩)
      | some (t, len) =>
        let found ← scanEntries node item nameonly t len (len + 1) somask
        return (node, ⟨scan.tag, found, scan.ret⟩)

/-- Largest block that `kmalloc` hands out. -/
def kmallocMaxSize : Nat := 4194304

def fileNotifyChecklistLimit : Nat := 512

/-- `smith_kzalloc`; `grant` says which sizes the allocator can serve at this moment. -/
def kzalloc (grant : Nat → Bool) (size : Nat) : Option Bytes :=
  if size ≤ kmallocMaxSize ∧ grant size then some (List.replicate size 0) else none

def nextSize (size : Nat) : Nat := if size ≠ 0 then size * 2 else fileNotifyChecklistLimit

def maskRealloc (grant : Nat → Bool) (node : Node) : Except Fault (Option Node) :=
  match kzalloc grant (nextSize node.size) with
  | none => return none
  | some buf => do
      let kept ← load node.data 0 node.used
      let buf ← save buf 0 kept
      return some { node with data := buf }

/-- The stores of one entry: its mask, its name and the zeros behind it. -/
def putEntry (data : Bytes) (offset : Nat) (item : MaskItem) (padding : Nat) :
    Except Fault Bytes := do
  let data ← saveMask data offset item.mask
  let data ← save data (offset + 4) item.name.bytes
  memset data (offset + 4 + item.name.bytes.length) padding

inductive Attempt where
  | finished (rc : Int) (node : Node)
  | retry (node : Node)

def enomem : Int := -12

def enoent : Int := -2

def growThenRetry (grant : Nat → Bool) (node : Node) : Except Fault Attempt := do
  match ← maskRealloc grant node with
  | none => return .finished enomem node
  | some grown => return .retry grown

def assertTag (data : Bytes) (tag : Option Nat) : Except Fault Unit :=
  match tag with
  | none => return ()
  | some tag => do
      let bytes ← load data tag sotag
      if bytes ≠ sttag then throw .bug

/-- A new name for a volume that is there: space is made in front of its names. -/
def addEntry (node : Node) (tag : Nat) (item : MaskItem) (len : Nat) : Except Fault Node := do
  let size ← tagSize node.data tag
  let data ← save node.data (tag + sosize) (word (size + len))
  let data ← memmove data (tag + somask + len) (tag + somask) (node.used - tag)
  let data ← putEntry data (tag + somask) item (len - item.name.bytes.length - 4)
  return ⟨node.used + len, data⟩

/-- The stores of a new volume with one entry. -/
def putVolume (data : Bytes) (tag : Nat) (item : MaskItem) (len : Nat) : Except Fault Bytes := do
  let data ← save data tag sttag
  let data ← save data (tag + sosize) (word len)
  let data ← save data (tag + souuid) item.uuid.val
  putEntry data (tag + somask) item (len - item.name.bytes.length - soname)

/-- A new volume: in front of the last volume compared when the uuid is larger,
else behind all of them. -/
def addVolume (node : Node) (mi : MaskInfo) (item : MaskItem) (len : Nat) :
    Except Fault Node := do
  let (tag, data) ← match mi.tag with
    | some tag =>
      if 0 < mi.ret then do
        let data ← memmove node.data (tag + len) tag (node.used - tag)
        pure (tag, data)
      else pure (node.used, node.data)
    | none => pure (node.used, node.data)
  let data ← putVolume data tag item len
  return ⟨node.used + len, data⟩

def entryLen (item : MaskItem) : Nat := align4 (4 + item.name.bytes.length + 1)

/-- One pass of `_mask_insert` from the label `retry` on. -/
def insertOnce (grant : Nat → Bool) (node : Node) (item : MaskItem) : Except Fault Attempt := do
  let (node, mi) ← maskLookup node item true
  match mi.item with
  | some entry =>
    let mask ← loadMask node.data entry
    let data ← saveMask node.data entry (mask ||| item.mask)
    return .finished 0 { node with data := data }
  | none =>
    assertTag node.data mi.tag
    if mi.ret = 0 then
      match mi.tag with
      | none => throw .outOfBounds
      | some tag =>
        if node.size < node.used + entryLen item then growThenRetry grant node
        else return .finished 0 (← addEntry node tag item (entryLen item))
    else if node.size < node.used + (somask + entryLen item) then growThenRetry grant node
    else return .finished 0 (← addVolume node mi item (somask + entryLen item))

def insertLoop (grant : Nat → Bool) (item : MaskItem) : Nat → Node → Except Fault (Int × Node)
  | 0, _ => throw .spin
  | fuel + 1, node => do
      match ← insertOnce grant node item with
      | .finished rc node => return (rc, node)
      | .retry node => insertLoop grant item fuel node

/-- Each retry has at least doubled a buffer that `kmalloc` bounds. -/
def maskInsert (grant : Nat → Bool) (node : Node) (item : MaskItem) :
    Except Fault (Int × Node) :=
  insertLoop grant item (kmallocMaxSize + 2) node

/-- The last entry of a volume goes with the volume. -/
def dropVolume (node : Node) (tag : Nat) (data : Bytes) (len : Nat) : Except Fault Node :=
  if len < node.used then do
    let data ← memmove data tag (tag + len) (node.used - len - tag)
    let data ← memset data (node.used - len) len
    return ⟨node.used - len, data⟩
  else do
    let data ← memset data 0 data.length
    return ⟨0, data⟩

def dropEntry (node : Node) (entry : Nat) (data : Bytes) (len : Nat) : Except Fault Node := do
  let data ← memmove data entry (entry + len) (node.used - len - entry)
  let data ← memset data (node.used - len) len
  return ⟨node.used - len, data⟩

def maskRemove (node : Node) (item : MaskItem) : Except Fault (Int × Node) := do
  let (node, mi) ← maskLookup node item true
  match mi.tag, mi.item with
  | some tag, some entry =>
    assertTag node.data (some tag)
    let mask ← loadMask node.data entry
    let data ← saveMask node.data entry (mask &&& ~~~item.mask)
    if mask &&& ~~~item.mask ≠ 0 then return (0, { node with data := data })
    let size ← tagSize data tag
    let data ← save data (tag + sosize) (word (size - entryLen item))
    if size - entryLen item = somask then
      return (0, ← dropVolume node tag data (entryLen item + somask))
    else
      return (0, ← dropEntry node entry data (entryLen item))
  | _, _ => return (enoent, node)

end Elkeid.FileNotify
