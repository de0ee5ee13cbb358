import Elkeid.Kmod.Filters
import Elkeid.Transformer.Filters
import Elkeid.Transformer.Split
import Elkeid.Wire.Encode

/-!
# The whole transformer

`Transformer::transform` of `plugins/driver/src/transformer.rs`. Its arms split the
record into an array, run some of the same blocks over it and encode the array under
the keys of `SCHEMA`. An arm is the list of its blocks here, with the slots each of
them reads and writes; `none` stands for a panic of the thread.
-/

namespace Elkeid.Transformer

open Foundations Option

def connectFilterTime : Nat := 60 * 30 * 10 ^ 9

def argvDynFilterQuota : Nat := 6000

def argvDynFilterWindow : Nat := 60 * 10 ^ 9

def dnsSuffixWhitelist : List Bytes := []

def ppidArgvWhitelist : List Bytes := []

def pgidArgvWhitelist : List Bytes := []

def keys (names : List String) : List Bytes := names.map (fun name => Text.ofChars name.toList)

/-- The keys that the kernel prints first in every event of a process. -/
def processKeys : List Bytes :=
  keys ["uid", "exe", "pid", "ppid", "pgid", "tgid", "sid", "comm", "nodename", "sessionid", "pns",
    "root_pns"]

def enrichedKeys : List Bytes :=
  keys ["argv", "ppid_argv", "pgid_argv", "username", "pod_name", "exe_hash"]

/-- `SCHEMA` on the data types that have an arm. -/
def schema : Nat → Option (List Bytes)
  | 42 => some (processKeys ++ keys ["sa_family", "dip", "dport", "sip", "sport", "res"] ++
      enrichedKeys ++ keys ["pid_tree"])
  | 49 => some (processKeys ++ keys ["sa_family", "sip", "sport", "res"] ++ enrichedKeys ++
      keys ["pid_tree"])
  | 59 => some (processKeys ++ keys ["argv", "run_path", "stdin", "stdout", "dip", "dport", "sip",
      "sport", "sa_family", "pid_tree", "tty", "socket_pid", "ssh", "ld_preload", "res",
      "socket_argv", "ppid_argv", "pgid_argv", "username", "pod_name", "exe_hash"])
  | 82 | 86 => some (processKeys ++ keys ["old_name", "new_name", "sb_id"] ++ enrichedKeys ++
      keys ["pid_tree"])
  | 101 => some (processKeys ++ keys ["ptrace_request", "target_pid", "addr", "data", "pid_tree"] ++
      enrichedKeys ++ keys ["target_argv"])
  | 112 => some (processKeys ++ enrichedKeys ++ keys ["pid_tree"])
  | 157 => some (processKeys ++ keys ["option", "new_name"] ++ enrichedKeys ++ keys ["pid_tree"])
  | 165 => some (processKeys ++ keys ["pid_tree", "dev", "file_path", "fstype", "flags"] ++
      enrichedKeys)
  | 356 => some (processKeys ++ keys ["fd_name", "flags"] ++ enrichedKeys ++ keys ["pid_tree"])
  | 601 =>
    some (processKeys ++ keys ["query", "sa_family", "dip", "dport", "sip", "sport", "opcode",
      "rcode"] ++ enrichedKeys ++ keys ["pid_tree"])
  | 602 => some (processKeys ++ keys ["file_path", "dip", "dport", "sip", "sport", "sa_family",
      "socket_pid", "sb_id"] ++ enrichedKeys ++ keys ["pid_tree", "socket_argv"])
  | 603 => some (processKeys ++ keys ["ko_file", "pid_tree", "run_path"] ++ enrichedKeys)
  | 604 => some (processKeys ++ keys ["pid_tree", "old_uid", "res"] ++ enrichedKeys ++
      keys ["old_username"])
  | 607 => some (keys ["exe", "argv", "wait"])
  | 608 | 609 => some (processKeys ++ keys ["file", "sb_id"] ++ enrichedKeys ++ keys ["pid_tree"])
  | 610 => some (processKeys ++ keys ["product_info", "manufacturer", "serial", "action"] ++
      enrichedKeys ++ keys ["pid_tree"])
  | 611 => some (processKeys ++ keys ["dpid", "pid_tree", "dcred", "cred"] ++ enrichedKeys ++
      keys ["pid_tree", "dpid_argv"])
  | 700 | 702 => some (keys ["module_name"])
  | 701 => some (keys ["module_name", "syscall_number"])
  | 703 => some (keys ["module_name", "interrupt_number"])
  | _ => none

/-- What the caches of the transformer and the parsers of addresses answer. The caches
look into `/proc` and the user database; all of these functions return. -/
structure Lookups (Caches : Type) where
  argvGet : Caches → Bytes → Bytes × Caches
  argvPut : Caches → Bytes → Bytes → Caches
  userGet : Caches → Bytes → Bytes × Caches
  nsGet : Caches → Bytes → Bytes → Bytes × Caches
  hashGet : Caches → Bytes → Bytes × Caches
  pidTreeGet : Caches → Bytes → Option Bytes × Caches
  pidTreeInsert : Caches → Bytes → Bytes → Caches
  parseIpv4 : Bytes → Option (BitVec 32)
  parseIpv6 : Bytes → Option (BitVec 128)

/-- `IPV4_FILTER`, the network 127.0.0.0/8. -/
def ipv4Filter (address : BitVec 32) : Bool := address >>> 24 == 0x7f

/-- `IPV6_FILTER`, the networks fe80::/10 and ::ffff:127.0.0.0/104 and the address ::1. -/
def ipv6Filter (address : BitVec 128) : Bool :=
  address >>> 118 == 0x3fa || address >>> 24 == 0xffff7f || address == 1

/-- The bytes of `-3`. -/
def unknownValue : Bytes := [0x2d, 0x33]

/-- A `Kmod` before its drop: the controler is open. -/
abbrev LiveKmod := { queues : Kmod.Queues // queues.controler = true }

variable {queues next : Kmod.Queues} {written : List Bytes}

theorem added_controler {full : Prop} [Decidable full] {entries : List Kmod.Entry}
    {replaced : Kmod.Entry → List Kmod.Entry → Kmod.Queues × List Bytes}
    {appended : Kmod.Queues × List Bytes}
    (added : (if queues.controler then
        if full then
          match entries with
          | [] => none
          | front :: rest => some (replaced front rest)
        else some appended
      else none) = some (next, written))
    (replacedKeeps : ∀ front rest, (replaced front rest).1.controler = queues.controler)
    (appendedKeeps : appended.1.controler = queues.controler) : next.controler = true := by
  split at added
  next opened =>
    split at added
    next =>
      split at added
      next => cases added
      next front rest =>
        have keeps := replacedKeeps front rest
        rw [some.inj added] at keeps
        exact keeps.trans opened
    next =>
      rw [some.inj added] at appendedKeeps
      exact appendedKeeps.trans opened
  next => cases added

theorem addFilteredExe_controler {now : Nat} {exe : Bytes}
    (added : queues.addFilteredExe now exe = some (next, written)) :
    next.controler = true := added_controler added (fun _ _ => rfl) rfl

theorem addFilteredArgv_controler {now : Nat} {argv : Bytes}
    (added : queues.addFilteredArgv now argv = some (next, written)) :
    next.controler = true := added_controler added (fun _ _ => rfl) rfl

def LiveKmod.call (kmod : LiveKmod) (now : Nat) : Call → Option LiveKmod
  | .addFilteredExe exe =>
    match added : kmod.val.addFilteredExe now exe with
    | none => none
    | some (next, _) => some ⟨next, addFilteredExe_controler added⟩
  | .addFilteredArgv argv =>
    match added : kmod.val.addFilteredArgv now argv with
    | none => none
    | some (next, _) => some ⟨next, addFilteredArgv_controler added⟩

structure State (Caches : Type) where
  caches : Caches
  connectFilter : TtlCache
  filters : Filters
  argvDynFilter : TtlCache
  kmod : LiveKmod

/-- The blocks that the arms are made of. -/
inductive Step where
  /-- counts `values[1]` in `exe_filter` -/
  | exeFilter
  /-- the same for data type 59, which looks for `values[12]` in `argv_filter` too -/
  | execveFilter
  | connectFilter
  | dnsWhitelist
  /-- `values[slot] = argv_cache.get(values[pid])` -/
  | argv (pid slot : Nat)
  /-- the same, unless the whitelist has it -/
  | argvUnless (pid slot : Nat) (whitelist : List Bytes)
  /-- the same, unless `argv_dyn_filter` has seen it too often -/
  | argvDynamic (pid slot : Nat)
  | username (uid slot : Nat)
  | podName (slot : Nat)
  | exeHash (slot : Nat)
  | pidTree (slot : Nat)
  | putArgv
  /-- `pid_tree_cache.insert(values[5], values[tree])` -/
  | insertPidTree (tree : Nat)

/-- Where a block leaves the arm: before the next one, or with `Ok(0)`. -/
inductive Progress (Caches : Type) where
  | next (state : State Caches) (values : List Bytes)
  | skipped (state : State Caches)

section Blocks

variable {Caches : Type} (lookups : Lookups Caches)

def filteredAddress (family address : Bytes) : Bool :=
  if family = [0x31, 0x30] then (lookups.parseIpv6 address).any ipv6Filter
  else (lookups.parseIpv4 address).any ipv4Filter

/-- The test of the arm for data type 42: whether the event is dropped, and the filter
behind it. -/
def filterConnect (connectFilter : TtlCache) (time : Nat) (values : List Bytes) :
    Option (Bool × TtlCache) := do
  let address ← values[13]?
  if filteredAddress lookups (← values[12]?) address then some (true, connectFilter)
  else
    let key := (← values[6]?) ++ address ++ (← values[14]?) ++ (← values[17]?)
    if (connectFilter.getMut time key).isSome then some (true, connectFilter)
    else some (false, connectFilter.insert time key 0 connectFilterTime)

/-- The block that counts an argv in `argv_dyn_filter`, and whether the event is dropped. -/
def countDynamic (argvDynFilter : TtlCache) (time : Nat) (argv : Bytes) : Bool × TtlCache :=
  if argv = unknownValue then (false, argvDynFilter)
  else
    match argvDynFilter.getMut time argv with
    | some counter =>
      if argvDynFilterQuota < counter.value then (true, argvDynFilter)
      else (false, Function.update argvDynFilter argv
        (some { counter with value := counter.value + 1 }))
    | none => (false, argvDynFilter.insert time argv 0 argvDynFilterWindow)

variable (time : Nat)

def perform (state : State Caches) (values : List Bytes) : Step → Option (Progress Caches)
  | .exeFilter => do
      if excluded (← values[1]?) then some (.next state values)
      else
        let (exeFilter, calls) := countExe state.filters.exeFilter ⟨time, values⟩
        let kmod ← calls.foldlM (fun kmod call => LiveKmod.call kmod time call) state.kmod
        some (.next { state with filters := { state.filters with exeFilter }, kmod } values)
  | .execveFilter => do
      let _ ← values[1]?
      let _ ← values[12]?
      let (filters, outcome) := filterExecve state.filters ⟨time, values⟩
      let kmod ← outcome.calls.foldlM (fun kmod call => LiveKmod.call kmod time call) state.kmod
      some (.next { state with filters, kmod } values)
  | .connectFilter => do
      let (dropped, connectFilter) ← filterConnect lookups state.connectFilter time values
      if dropped then some (.skipped { state with connectFilter })
      else some (.next { state with connectFilter } values)
  | .dnsWhitelist => do
      -- the loop breaks after the first suffix
      let query ← values[12]?
      if dnsSuffixWhitelist.head?.any (·.isSuffixOf query) then some (.skipped state)
      else some (.next state values)
  | .argv pid slot => do
      let (argv, caches) := lookups.argvGet state.caches (← values[pid]?)
      some (.next { state with caches } (← store values slot argv))
  | .argvUnless pid slot whitelist => do
      let (argv, caches) := lookups.argvGet state.caches (← values[pid]?)
      if whitelist.contains argv then some (.skipped { state with caches })
      else some (.next { state with caches } (← store values slot argv))
  | .argvDynamic pid slot => do
      let (argv, caches) := lookups.argvGet state.caches (← values[pid]?)
      let (dropped, argvDynFilter) := countDynamic state.argvDynFilter time argv
      if dropped then some (.skipped { state with caches, argvDynFilter })
      else some (.next { state with caches, argvDynFilter } (← store values slot argv))
  | .username uid slot => do
      let (username, caches) := lookups.userGet state.caches (← values[uid]?)
      some (.next { state with caches } (← store values slot username))
  | .podName slot => do
      let pns ← values[10]?
      if pns ≠ (← values[11]?) then
        let (podName, caches) := lookups.nsGet state.caches pns (← values[6]?)
        some (.next { state with caches } (← store values slot podName))
      else some (.next state (← store values slot unknownValue))
  | .exeHash slot => do
      let (exeHash, caches) := lookups.hashGet state.caches (← values[1]?)
      some (.next { state with caches } (← store values slot exeHash))
  | .pidTree slot => do
      let (pidTree, caches) := lookups.pidTreeGet state.caches (← values[5]?)
      some (.next { state with caches } (← store values slot (pidTree.getD unknownValue)))
  | .putArgv => do
      let caches := lookups.argvPut state.caches (← values[5]?) (← values[12]?)
      some (.next { state with caches } values)
  | .insertPidTree tree => do
      let caches := lookups.pidTreeInsert state.caches (← values[5]?) (← values[tree]?)
      some (.next { state with caches } values)

def performAll (state : State Caches) (values : List Bytes) :
    List Step → Option (Progress Caches)
  | [] => some (.next state values)
  | step :: steps => do
      match ← perform lookups time state values step with
      | .next state values => performAll state values steps
      | .skipped state => some (.skipped state)

end Blocks

/-- The lookups behind the argv of the process, into the slots from `slot + 1` on. -/
def enrichParents (slot : Nat) : List Step :=
  [.argv 3 (slot + 1), .argv 4 (slot + 2), .username 0 (slot + 3), .podName (slot + 4),
    .exeHash (slot + 5)]

def enrich (slot : Nat) : List Step := .argv 5 slot :: enrichParents slot

/-- What the arm of a data type does between the splitting and the encoding. -/
def steps : Nat → List Step
  | 42 => .exeFilter :: .connectFilter :: enrich 18 ++ [.pidTree 24]
  | 49 => .exeFilter :: enrich 16 ++ [.pidTree 22]
  | 59 => [.putArgv, .insertPidTree 21, .execveFilter, .argv 23 27,
      .argvUnless 3 28 ppidArgvWhitelist, .argvUnless 4 29 pgidArgvWhitelist, .username 0 30,
      .podName 31, .exeHash 32]
  | 82 | 86 => .exeFilter :: enrich 15 ++ [.pidTree 21]
  | 101 => enrich 17 ++ [.argv 13 23, .insertPidTree 16]
  | 112 => .exeFilter :: enrich 12 ++ [.pidTree 18]
  | 157 => .exeFilter :: .argvDynamic 5 14 :: enrichParents 14 ++ [.pidTree 20]
  | 165 => .exeFilter :: enrich 17 ++ [.insertPidTree 12]
  | 356 => enrich 14 ++ [.pidTree 20]
  | 601 => .dnsWhitelist :: .exeFilter :: enrich 20 ++ [.pidTree 26]
  | 602 => .exeFilter :: .argvDynamic 5 20 :: enrichParents 20 ++ [.pidTree 26, .argv 18 27]
  | 603 => enrich 15 ++ [.insertPidTree 13]
  | 604 => enrich 15 ++ [.insertPidTree 12, .username 13 21]
  | 608 | 609 => enrich 14 ++ [.pidTree 20]
  | 610 => enrich 16 ++ [.pidTree 22]
  | 611 => enrich 16 ++ [.pidTree 22, .argv 12 23]
  | _ => []

inductive Failure where
  | record (error : TransformError)
  | encoding (error : Wire.EncodeError)

/-- The bytes written and the buffer, or the error, and the transformer behind the call;
`time` is the instant of the call and `timestamp` the second since the epoch. -/
def transform {Caches : Type} (lookups : Lookups Caches) (state : State Caches) (time : Nat)
    (timestamp : UInt64) (data dst : Bytes) :
    Option (Except Failure (Nat × Bytes) × State Caches) := do
  match ← splitRecord data with
  | .error error => some (.error (.record error), state)
  | .ok report =>
    let keys ← schema report.dataType
    match ← performAll lookups time state report.values (steps report.dataType) with
    | .skipped state => some (.ok (0, dst), state)
    | .next state values =>
      match ← Wire.protobufEncode timestamp.toNat keys values dst report.dataType with
      | .error error => some (.error (.encoding error), state)
      | .ok written => some (.ok written, state)

end Elkeid.Transformer
