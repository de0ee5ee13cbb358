import Elkeid.Allowlist.Trim
import Elkeid.Foundations.Heap
import Elkeid.Foundations.SearchTree

/-!
# The exec allowlists of the driver

The two search trees of `driver/LKM/src/filter.c` and the commands that
`device_write` takes for them. A node owns itself and the buffer of its text;
both are addresses of the heap, and freeing an address that is not allocated is
a fault (`none`), as is an access outside the buffer a command was copied to.
The commands of the file-notify checklist share the entry point but none of the
state and are left to its own model.
-/

namespace Elkeid.Allowlist

open Foundations

inductive Which where
  | exe
  | argv
  deriving DecidableEq

/-- `text` is what the buffer at `data` holds; nothing writes it once a node owns it. -/
structure AllowlistNode where
  address : Nat
  data : Nat
  text : Bytes
  deriving DecidableEq

structure Records where
  tree : SearchTree AllowlistNode
  limit : Int

structure Driver where
  heap : Heap
  lists : Which → Records

def Driver.initial : Driver := ⟨⟨0, []⟩, fun _ => ⟨.leaf, 0⟩⟩

def strcmp : Bytes → Bytes → Ordering
  | [], [] => .eq
  | [], _ :: _ => .lt
  | _ :: _, [] => .gt
  | a :: as, b :: bs => if a < b then .lt else if b < a then .gt else strcmp as bs

def searchRb (string : Bytes) : SearchTree AllowlistNode → Option AllowlistNode
  | .leaf => none
  | .node left data right =>
    match strcmp string data.text with
    | .lt => searchRb string left
    | .gt => searchRb string right
    | .eq => some data

def existRb (string : Bytes) (tree : SearchTree AllowlistNode) : Nat :=
  if (searchRb string tree).isSome then 1 else 0

/-- The loop of `insert_rb`; `none` when the text is there. -/
def linkRb (data : AllowlistNode) : SearchTree AllowlistNode → Option (SearchTree AllowlistNode)
  | .leaf => some (.node .leaf data .leaf)
  | .node left this right =>
    match strcmp data.text this.text with
    | .lt => (linkRb data left).map (fun left => .node left this right)
    | .gt => (linkRb data right).map (fun right => .node left this right)
    | .eq => none

def rbtreeClear : SearchTree AllowlistNode → Heap → Option Heap
  | .leaf, heap => some heap
  | .node left node right, heap => do
      let heap ← rbtreeClear left heap
      let heap ← rbtreeClear right heap
      let heap ← heap.free node.data
      heap.free node.address

/-- The bytes of `-1`. -/
def minusOne : Bytes := [0x2d, 0x31]

/-- The bytes of `-2`. -/
def minusTwo : Bytes := [0x2d, 0x32]

/-- `none` is a null or error pointer. -/
def execveExeCheck (list : Records) : Option CString → Nat
  | none => 0
  | some data =>
    if data.bytes = minusOne ∨ data.bytes = minusTwo then 0 else existRb data.bytes list.tree

/-- Unlike the exe check this one trims the text, after the comparisons. -/
def execveArgvCheck (list : Records) : Option CString → Option Nat
  | none => some 0
  | some data =>
    if data.bytes = minusOne ∨ data.bytes = minusTwo then some 0
    else do
      let (offset, s) ← strim (data.bytes ++ [0])
      return existRb (← cText (s.drop offset)) list.tree

def order (text : Bytes) : List Nat := text.map UInt8.toNat

def AllowlistNode.key (node : AllowlistNode) : List Nat := order node.text

def enomem : Int := 12

section Commands

variable (allocator : Allocator) (balancer : SearchTree.Balancer AllowlistNode.key)

def insertRb (data : AllowlistNode) (tree : SearchTree AllowlistNode) :
    Option (SearchTree AllowlistNode) := (linkRb data tree).map balancer.recolor

/-- `add_execve_*_allowlist`, on a buffer that holds the text; it is never null here. -/
def addAllowlist (which : Which) (driver : Driver) (data : Nat) (text : Bytes) :
    Option (Int × Driver) :=
  match driver.heap.alloc allocator with
  | (none, heap) => some (-enomem, ⟨heap, driver.lists⟩)
  | (some node, heap) =>
    let list := driver.lists which
    match insertRb balancer ⟨node, data, text⟩ list.tree with
    | some tree =>
      some (0, ⟨heap, Function.update driver.lists which ⟨tree, list.limit + 1⟩⟩)
    | none => do return (1, ⟨← heap.free node, driver.lists⟩)

def delAllowlist (which : Which) (driver : Driver) (text : Bytes) : Option Driver :=
  let list := driver.lists which
  match searchRb text list.tree with
  | none => some driver
  | some node => do
      let heap ← driver.heap.free node.data
      let heap ← heap.free node.address
      return ⟨heap, Function.update driver.lists which
        ⟨balancer.erase node.key list.tree, list.limit - 1⟩⟩

def delAllAllowlist (which : Which) (driver : Driver) : Option Driver := do
  let heap ← rbtreeClear (driver.lists which).tree driver.heap
  return ⟨heap, Function.update driver.lists which ⟨.leaf, 0⟩⟩

def addExecveExeAllowlist := addAllowlist allocator balancer .exe

def addExecveArgvAllowlist := addAllowlist allocator balancer .argv

def delExecveExeAllowlist := delAllowlist balancer .exe

def delExecveArgvAllowlist := delAllowlist balancer .argv

def delAllExecveExeAllowlist := delAllAllowlist .exe

def delAllExecveArgvAllowlist := delAllAllowlist .argv

def allowlistNodeMin : Nat := 5

def allowlistNodeMax : Nat := 4090

def allowlistLimit : Int := 128

inductive Flag where
  | addExecveExeAllowlist
  | delExecveExeAllowlist
  | delAllExecveExeAllowlist
  | execveExeCheck
  | printAllAllowlist
  | addExecveArgvAllowlist
  | delExecveArgvAllowlist
  | delAllExecveArgvAllowlist
  | execveArgvCheck
  /-- a command of the checklist, or none at all -/
  | other
  deriving DecidableEq

def Flag.ofByte : UInt8 → Flag
  | 89 => addExecveExeAllowlist
  | 70 => delExecveExeAllowlist
  | 119 => delAllExecveExeAllowlist
  | 121 => execveExeCheck
  | 46 => printAllAllowlist
  | 109 => addExecveArgvAllowlist
  | 74 => delExecveArgvAllowlist
  | 117 => delAllExecveArgvAllowlist
  | 122 => execveArgvCheck
  | _ => other

/-- "exceeds records limits ?" -/
def Driver.exceeds (driver : Driver) : Flag → Bool
  | .addExecveExeAllowlist => allowlistLimit < (driver.lists .exe).limit
  | .addExecveArgvAllowlist => allowlistLimit < (driver.lists .argv).limit
  | _ => false

/-- The bytes that can be read from the user pointer on, and the length passed. -/
structure Write where
  buff : Bytes
  len : Nat

/-- What a handler of `device_write` leaves, and whether `data_main` is still its own. -/
abbrev Handled := Option (Bool × Driver)

def strimText (content : Bytes) : Option Bytes := do
  let (offset, s) ← strim content
  cText (s.drop offset)

/-- The switch of `device_write`; the two checks and the listing only print. -/
def handle (driver : Driver) (dataMain : Nat) (content : Bytes) : Flag → Handled
  | .addExecveExeAllowlist => do
      let text ← cText (← smithStrim content)
      let (rc, driver) ← addExecveExeAllowlist allocator balancer driver dataMain text
      return (decide (rc ≠ 0), driver)
  | .addExecveArgvAllowlist => do
      let text ← cText (← smithStrim content)
      let (rc, driver) ← addExecveArgvAllowlist allocator balancer driver dataMain text
      return (decide (rc ≠ 0), driver)
  | .delExecveExeAllowlist => do
      return (true, ← delExecveExeAllowlist balancer driver (← strimText content))
  | .delExecveArgvAllowlist => do
      return (true, ← delExecveArgvAllowlist balancer driver (← strimText content))
  | .delAllExecveExeAllowlist => do return (true, ← delAllExecveExeAllowlist driver)
  | .delAllExecveArgvAllowlist => do return (true, ← delAllExecveArgvAllowlist driver)
  | .execveExeCheck => do
      let _ ← strimText content
      return (true, driver)
  | .execveArgvCheck => do
      let _ ← strimText content
      return (true, driver)
  | .printAllAllowlist => some (true, driver)
  | .other => some (true, driver)

/-- `device_write`, which returns `len` whatever happens. -/
def deviceWrite (driver : Driver) (write : Write) : Option Driver :=
  match write.buff with
  | [] => some driver
  | byte :: content =>
    let flag := Flag.ofByte byte
    if write.len < allowlistNodeMin ∨ allowlistNodeMax < write.len then some driver
    else if driver.exceeds flag then some driver
    else
      match driver.heap.alloc allocator with
      | (none, heap) => some ⟨heap, driver.lists⟩
      | (some dataMain, heap) =>
        if write.buff.length < write.len then do
          return ⟨← heap.free dataMain, driver.lists⟩
        else do
          let (held, driver) ← handle allocator balancer ⟨heap, driver.lists⟩ dataMain
            (content.take (write.len - 1) ++ [0]) flag
          if held then return ⟨← driver.heap.free dataMain, driver.lists⟩ else return driver

end Commands

end Elkeid.Allowlist
