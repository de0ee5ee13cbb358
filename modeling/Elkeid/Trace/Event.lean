import Elkeid.Foundations.Separated
import Elkeid.Foundations.Text

/-!
# Events of the kernel module

`PRINT_EVENT_DEFINE` in `driver/LKM/include/print_event.h` turns one description
of an event into a ring entry (the structure `PE_STRUCT__entry` with its strings
behind it) and into the line that `PE_printk` prints. Here a class keeps the
members of the structure in declaration order, which fix the size of the entry,
and the conversions of the format string in printing order.
-/

namespace Elkeid.Trace

open Foundations List Text

/-- Types of `__field`, `__array` and `__string` members (64-bit kernel). -/
inductive Member where
  | int
  | pidT
  | unsignedInt
  | be32
  | inAddr
  | in6Addr
  | long
  | unsignedLong
  | longLong
  | umodeT
  | array (length : Nat)
  | string
  deriving DecidableEq

def Member.size : Member → Nat
  | .int | .pidT | .unsignedInt | .be32 | .inAddr | .string => 4
  | .in6Addr => 16
  | .long | .unsignedLong | .longLong => 8
  | .umodeT => 2
  | .array length => length

def Member.alignment : Member → Nat
  | .int | .pidT | .unsignedInt | .be32 | .inAddr | .in6Addr | .string => 4
  | .long | .unsignedLong | .longLong => 8
  | .umodeT => 2
  | .array _ => 1

def alignUp (offset alignment : Nat) : Nat := (offset + alignment - 1) / alignment * alignment

/-- `sizeof` of the entry: the `unsigned short` of its head, then the members. -/
def structSize (members : List Member) : Nat :=
  let offset := members.foldl
    (fun offset member => alignUp offset member.alignment + member.size) 2
  alignUp offset (members.foldl (fun bound member => max bound member.alignment) 2)

inductive Conversion where
  /-- `%d` -/
  | int
  /-- `%u` -/
  | unsigned
  /-- `%ld` and `%lld` -/
  | long
  /-- `%lu` -/
  | unsignedLong
  /-- `%s` of a `__string` -/
  | string
  /-- `%s` of a character array -/
  | array (length : Nat)
  /-- `%d.%d.%d.%d` of `NIPQUAD` -/
  | quad
  /-- eight `%04x` of `NIP6` -/
  | ip6
  /-- a number written in the format string itself -/
  | constant (n : Int)
  deriving DecidableEq

structure EventClass where
  dataType : Nat
  members : List Member
  fields : List Conversion
  deriving DecidableEq

def taskCommLen : Nat := 16

def moduleNameLen : Nat := 56

section Classes

open Conversion

/-- uid, exe_path, pid, ppid, pgid, tgid, sid, comm, nodename, sessionid,
pid_inum and root_pid_inum, which start almost every line. -/
def processFields : List Conversion :=
  [int, string, int, int, int, int, int, array taskCommLen, string, unsigned, unsigned, unsigned]

def processMembers : List Member :=
  [.int, .string, .int, .int, .int, .int, .int, .array taskCommLen, .string,
    .unsignedInt, .unsignedInt, .unsignedInt]

def callUsermodehelperExec : EventClass :=
  ⟨607, [.string, .string, .int], [string, string, int]⟩

def securityInode4Create : EventClass where
  dataType := 602
  members := [.int, .string, .string, .int, .int, .int, .int, .int, .be32, .int, .be32, .int,
    .pidT, .array taskCommLen, .string, .unsignedInt, .unsignedInt, .unsignedInt, .string]
  fields := processFields ++ [string, quad, int, quad, int, constant 2, int, string]

def securityInodeCreateNosocket : EventClass where
  dataType := 602
  members := [.int, .string, .string, .int, .int, .int, .int, .int, .array taskCommLen, .string,
    .unsignedInt, .unsignedInt, .unsignedInt, .string]
  fields := processFields ++ [string, constant (-1), constant (-1), constant (-1), constant (-1),
    constant (-1), constant (-1), string]

def securityInode6Create : EventClass where
  dataType := 602
  members := [.int, .string, .string, .int, .int, .int, .int, .int, .in6Addr, .int, .in6Addr, .int,
    .pidT, .array taskCommLen, .string, .unsignedInt, .unsignedInt, .unsignedInt, .string]
  fields := processFields ++ [string, ip6, int, ip6, int, constant 10, int, string]

def dns : EventClass where
  dataType := 601
  members := [.int, .int, .be32, .string, .int, .int, .int, .int, .int, .array taskCommLen, .string,
    .be32, .int, .int, .int, .string, .unsignedInt, .unsignedInt, .unsignedInt]
  fields := processFields ++ [string, constant 2, quad, int, quad, int, int, int]

def dns6 : EventClass where
  dataType := 601
  members := [.int, .int, .in6Addr, .string, .int, .int, .int, .int, .int, .array taskCommLen,
    .string, .in6Addr, .int, .int, .int, .string, .unsignedInt, .unsignedInt, .unsignedInt]
  fields := processFields ++ [string, constant 10, ip6, int, ip6, int, int, int]

def execveMembers (address : List Member) (socketPid : List Member) : List Member :=
  [.int, .string, .string, .string, .int, .int, .int, .int, .int, .array taskCommLen, .string,
    .string, .string, .unsignedInt, .unsignedInt, .unsignedInt] ++ address ++
    [.string, .string] ++ socketPid ++ [.string, .string, .int]

def execve : EventClass where
  dataType := 59
  members := execveMembers [.be32, .int, .be32, .int] [.pidT]
  fields := processFields ++ [string, string, string, string, quad, int, quad, int, constant 2,
    string, string, int, string, string, int]

def execveNosocket : EventClass where
  dataType := 59
  members := execveMembers [] []
  fields := processFields ++ [string, string, string, string, constant (-1), constant (-1),
    constant (-1), constant (-1), constant (-1), string, string, constant (-1), string, string, int]

def execve6 : EventClass where
  dataType := 59
  members := execveMembers [.in6Addr, .int, .in6Addr, .int] [.pidT]
  fields := processFields ++ [string, string, string, string, ip6, int, ip6, int, constant 10,
    string, string, int, string, string, int]

/-- Entry layout of `accept`, `accept6`, `connect4` and `connect6`. -/
def peerMembers (address : Member) : List Member :=
  [.int, .int, address, .string, .int, .int, .int, .int, .int, .array taskCommLen, .string,
    address, .int, .int, .unsignedInt, .unsignedInt, .unsignedInt]

def accept : EventClass :=
  ⟨43, peerMembers .be32, processFields ++ [constant 2, quad, int, quad, int, int]⟩

def accept6 : EventClass :=
  ⟨43, peerMembers .in6Addr, processFields ++ [constant 10, ip6, int, ip6, int, int]⟩

def connect4 : EventClass :=
  ⟨42, peerMembers .be32, processFields ++ [constant 2, quad, int, quad, int, int]⟩

def connect6 : EventClass :=
  ⟨42, peerMembers .in6Addr, processFields ++ [constant 10, ip6, int, ip6, int, int]⟩

def ptrace : EventClass where
  dataType := 101
  members := [.int, .long, .long, .long, .string, .string, .string, .int, .int, .int, .int, .int,
    .array taskCommLen, .string, .unsignedInt, .unsignedInt, .unsignedInt]
  fields := processFields ++ [long, long, long, string, string]

def bindMembers (address : Member) : List Member :=
  [.int, .string, .int, .int, .int, .int, .int, .array taskCommLen, .string, address, .int, .int,
    .unsignedInt, .unsignedInt, .unsignedInt]

def bind : EventClass :=
  ⟨49, bindMembers .inAddr, processFields ++ [constant 2, quad, int, int]⟩

/-- `bind6` prints the family 2 as well. -/
def bind6 : EventClass :=
  ⟨49, bindMembers .in6Addr, processFields ++ [constant 2, ip6, int, int]⟩

def updateCred : EventClass where
  dataType := 604
  members := [.int, .string, .string, .int, .int, .int, .int, .int, .array taskCommLen, .int,
    .string, .unsignedInt, .unsignedInt, .unsignedInt, .int]
  fields := processFields ++ [string, int, int]

def doInitModule : EventClass where
  dataType := 603
  members := [.int, .string, .string, .string, .string, .int, .int, .int, .int, .int,
    .array taskCommLen, .string, .unsignedInt, .unsignedInt, .unsignedInt]
  fields := processFields ++ [string, string, string]

def renameMembers : List Member :=
  [.int, .string, .string, .string, .int, .int, .int, .int, .int, .array taskCommLen, .string,
    .unsignedInt, .unsignedInt, .unsignedInt, .string]

def rename : EventClass := ⟨82, renameMembers, processFields ++ [string, string, string]⟩

def link : EventClass := ⟨86, renameMembers, processFields ++ [string, string, string]⟩

def mprotect : EventClass where
  dataType := 10
  members := [.int, .string, .unsignedLong, .int, .string, .string, .string, .int, .int, .int, .int,
    .int, .array taskCommLen, .string, .unsignedInt, .unsignedInt, .unsignedInt]
  fields := processFields ++ [unsignedLong, int, string, string, string]

def setsid : EventClass := ⟨112, processMembers, processFields⟩

def prctl : EventClass :=
  ⟨157, processMembers ++ [.int, .string], processFields ++ [int, string]⟩

def openFile : EventClass :=
  ⟨2, processMembers ++ [.int, .umodeT, .string], processFields ++ [int, int, string]⟩

def nanosleep : EventClass :=
  ⟨35, processMembers ++ [.longLong, .long], processFields ++ [long, long]⟩

def kill : EventClass := ⟨62, processMembers ++ [.pidT, .int], processFields ++ [int, int]⟩

def tkill : EventClass := ⟨200, processMembers ++ [.pidT, .int], processFields ++ [int, int]⟩

def exit : EventClass := ⟨60, processMembers, processFields⟩

def exitGroup : EventClass := ⟨231, processMembers, processFields⟩

def securityPathRmdir : EventClass :=
  ⟨606, processMembers ++ [.string], processFields ++ [string]⟩

def securityPathUnlink : EventClass :=
  ⟨605, processMembers ++ [.string], processFields ++ [string]⟩

def write : EventClass :=
  ⟨1, processMembers ++ [.string, .string], processFields ++ [string, string]⟩

def filePermissionWrite : EventClass :=
  ⟨608, processMembers ++ [.string, .string], processFields ++ [string, string]⟩

def filePermissionRead : EventClass :=
  ⟨609, processMembers ++ [.string, .string], processFields ++ [string, string]⟩

def mount : EventClass where
  dataType := 165
  members := processMembers ++ [.string, .string, .string, .string, .unsignedLong]
  fields := processFields ++ [string, string, string, string, unsignedLong]

def udev : EventClass where
  dataType := 610
  members := processMembers ++ [.string, .string, .string, .int]
  fields := processFields ++ [string, string, string, int]

/-- Prints -1 for the executable path, which its entry does not hold. -/
def privilegeEscalation : EventClass where
  dataType := 611
  members := [.int, .int, .int, .int, .int, .int, .array taskCommLen, .string, .unsignedInt,
    .unsignedInt, .unsignedInt, .int, .string, .string, .string]
  fields := [int, constant (-1), int, int, int, int, int, array taskCommLen, string, unsigned,
    unsigned, unsigned, int, string, string, string]

def memfdCreate : EventClass where
  dataType := 356
  members := processMembers ++ [.string, .unsignedLong]
  fields := processFields ++ [string, unsignedLong]

def interrupts : EventClass :=
  ⟨703, [.array moduleNameLen, .int], [array moduleNameLen, int]⟩

def syscall : EventClass :=
  ⟨701, [.array moduleNameLen, .int], [array moduleNameLen, int]⟩

def fops : EventClass := ⟨700, [.array moduleNameLen], [array moduleNameLen]⟩

def mod : EventClass := ⟨702, [.array moduleNameLen], [array moduleNameLen]⟩

end Classes

def eventClasses : List EventClass :=
  [callUsermodehelperExec, securityInode4Create, securityInodeCreateNosocket, securityInode6Create,
    dns, dns6, execve, execveNosocket, execve6, accept, accept6, connect4, connect6, ptrace, bind,
    bind6, updateCred, doInitModule, rename, link, mprotect, setsid, prctl, openFile, nanosleep,
    kill, tkill, exit, exitGroup, securityPathRmdir, securityPathUnlink, write,
    filePermissionWrite, filePermissionRead, mount, udev, privilegeEscalation, memfdCreate,
    interrupts, syscall, fops, mod]

inductive Value where
  | int (n : BitVec 32)
  | unsigned (n : BitVec 32)
  | long (n : BitVec 64)
  | unsignedLong (n : BitVec 64)
  | string (text : CString)
  | array (length : Nat) (text : CString) (fits : text.bytes.length < length)
  | quad (first second third fourth : UInt8)
  | ip6 (groups : Fin 8 → BitVec 16)
  | constant (n : Int)

namespace Value

def conversion : Value → Conversion
  | int _ => .int
  | unsigned _ => .unsigned
  | long _ => .long
  | unsignedLong _ => .unsignedLong
  | string _ => .string
  | array length _ _ => .array length
  | quad _ _ _ _ => .quad
  | ip6 _ => .ip6
  | constant n => .constant n

def print : Value → Bytes
  | int n => signedDecimal n.toInt
  | unsigned n => decimal n.toNat
  | long n => signedDecimal n.toInt
  | unsignedLong n => decimal n.toNat
  | string text => text.bytes
  | array _ text _ => text.bytes
  | quad first second third fourth =>
    [0x2e].intercalate ([first, second, third, fourth].map (fun byte => decimal byte.toNat))
  | ip6 groups => [0x3a].intercalate ((ofFn groups).map hexadecimal)
  | constant n => signedDecimal n

/-- Bytes behind the structure of the entry: a `__string` with its NUL. -/
def dataSize : Value → Nat
  | string text => text.bytes.length + 1
  | _ => 0

end Value

structure Event where
  cls : EventClass
  registered : cls ∈ eventClasses
  values : List Value
  typed : values.map Value.conversion = cls.fields

namespace Event

def fieldSeparator : UInt8 := 0x1e

def recordMark : UInt8 := 0x17

def body (event : Event) : Bytes :=
  [fieldSeparator].intercalate (decimal event.cls.dataType :: event.values.map Value.print)

def line (event : Event) : Bytes := event.body ++ [recordMark]

def entrySize (event : Event) : Nat :=
  structSize event.cls.members + (event.values.map Value.dataSize).sum

variable {event : Event}

@[simp]
theorem values_length (event : Event) : event.values.length = event.cls.fields.length := by
  rw [← event.typed, length_map]

end Event

end Elkeid.Trace
