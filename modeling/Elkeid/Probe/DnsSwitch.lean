import Elkeid.Foundations.Machine
import Elkeid.Foundations.Positions

/-!
# The switch of the DNS probes

`driver/LKM/src/smith_hook.c`: the return probes of `udp_recvmsg` and `udpv6_recvmsg` are
registered and unregistered by a worker thread that looks at the traffic once per second. Packets
and requests are counted at any time between the operations of the worker. The module parameters
have their default values. When the module exits, the worker is stopped before the probes are
removed.
-/

namespace Elkeid.Probe

/-- `struct smith_dns_switch`, with `*regs` and the state of the probe in the kernel. The counters
are signed in the source. -/
structure DnsSwitch where
  armed : Bool
  krp : BitVec 32
  ops : BitVec 32
  start : BitVec 64
  regs : Bool
  registered : Bool
  deriving DecidableEq

def newDnsSwitch : DnsSwitch where
  armed := false
  krp := 0
  ops := 0
  start := 0
  regs := false
  registered := false

def dnsThreshold : BitVec 64 := 800
def udpThreshold : BitVec 64 := 80000
def krpInterval : BitVec 64 := 10
def netInterval : BitVec 64 := 20

/-- The next operation of the worker on a switch: `off` to `disable` in `smith_dns_kretprobe`, `on`
to `rollback` in `smith_dns_try_switch`, and the end that both have. -/
inductive Point
  | check
  | off
  | offKrp (delta : BitVec 64)
  | offOps (delta : BitVec 64)
  | disarm
  | disable
  | on
  | onOps (delta : BitVec 64)
  | arm
  | enable
  | rollback
  | clearKrp
  | clearOps
  | restart
  deriving DecidableEq

/-- `smith_dns_work_handler`. A worker that could not be created counts as exited. -/
inductive Worker
  | starting (index : Nat)
  | sleeping
  | working (index : Nat) (point : Point)
  | looping
  | exited
  deriving DecidableEq

/-- `smith_exit`: not called, in `kthread_stop`, at a probe in `uninstall_kprobe`. -/
inductive Exit
  | running
  | stopping
  | uninstalling (index : Nat)
  deriving DecidableEq

/-- The switches are those of IPv4 and, where it is configured, of IPv6. -/
structure Driver where
  dnsHook : Bool
  switches : List DnsSwitch
  worker : Worker
  exit : Exit
  deriving DecidableEq

def newDriver (dnsHook : Bool) (count : Nat) (created : Bool) : Driver where
  dnsHook := dnsHook
  switches := List.replicate count newDnsSwitch
  worker := if created then .starting 0 else .exited
  exit := .running

inductive DriverAction
  /-- A UDP packet comes in, `smith_nf_udp_v4_handler`. -/
  | packet (index : Nat)
  /-- The probe sees a DNS request, `smith_count_dnsv4_kretprobe`. -/
  | request (index : Nat)
  /-- The time is over, or the worker is woken up before. -/
  | wake (signalled : Bool)
  | work (now : BitVec 64) (fails : Bool)
  | smithExit
  /-- The worker is stopped before it has begun. -/
  | abandon
  | uninstall

inductive Call
  | register (failed : Bool)
  | unregister
  deriving DecidableEq

inductive DriverEvent
  | called (index : Nat) (call : Call)
  | silent
  deriving DecidableEq

namespace DnsSwitch

/-- `register_udp_recvmsg_kprobe`. The kernel refuses a probe that is registered. -/
def enable (switch : DnsSwitch) (fails : Bool) : DnsSwitch × Bool :=
  if fails ∨ switch.registered then (switch, true)
  else ({ switch with registered := true, regs := true }, false)

def disable (switch : DnsSwitch) : DnsSwitch := { switch with registered := false, regs := false }

end DnsSwitch

namespace Driver

def goOn (driver : Driver) (index : Nat) (switch : DnsSwitch) (point : Point) : Driver :=
  { driver with switches := driver.switches.set index switch, worker := .working index point }

def leave (driver : Driver) (index : Nat) (switch : DnsSwitch) : Driver :=
  { driver with
    switches := driver.switches.set index switch
    worker := .working (index + 1) .check }

/-- One operation on a switch. The counters are compared as unsigned numbers of 64 bits. -/
def workAt (driver : Driver) (index : Nat) (switch : DnsSwitch) (now : BitVec 64) (fails : Bool) :
    Point → Driver × DriverEvent
  | .check =>
    (driver.goOn index switch (if switch.armed && switch.regs then .off else .on), .silent)
  | .off =>
    let delta := now - switch.start
    (if krpInterval < delta then driver.goOn index switch (.offKrp delta)
      else driver.leave index switch, .silent)
  | .offKrp delta =>
    (driver.goOn index switch
      (if delta * dnsThreshold < switch.krp.signExtend 64 then .disarm else .offOps delta), .silent)
  | .offOps delta =>
    (driver.goOn index switch
      (if delta * udpThreshold < switch.ops.signExtend 64 then .disarm else .clearKrp), .silent)
  | .disarm =>
    (if switch.armed then driver.goOn index { switch with armed := false } .disable
      else driver.goOn index switch .clearKrp, .silent)
  | .disable => (driver.goOn index switch.disable .clearKrp, .called index .unregister)
  | .on =>
    let delta := now - switch.start
    (if driver.dnsHook = false ∨ switch.armed ∨ switch.regs then driver.leave index switch
      else if netInterval < delta then driver.goOn index switch (.onOps delta)
      else driver.leave index switch, .silent)
  | .onOps delta =>
    (driver.goOn index switch
      (if switch.ops.signExtend 64 < delta * udpThreshold then .arm else .clearKrp), .silent)
  | .arm =>
    (if switch.armed then driver.goOn index switch .clearKrp
      else driver.goOn index { switch with armed := true } .enable, .silent)
  | .enable =>
    let (switch, failed) := switch.enable fails
    (driver.goOn index switch (if failed then .rollback else .clearKrp),
      .called index (.register failed))
  | .rollback => (driver.goOn index { switch with armed := false } .clearKrp, .silent)
  | .clearKrp => (driver.goOn index { switch with krp := 0 } .clearOps, .silent)
  | .clearOps => (driver.goOn index { switch with ops := 0 } .restart, .silent)
  | .restart => (driver.leave index { switch with start := now }, .silent)

def work (driver : Driver) (now : BitVec 64) (fails : Bool) : Option (Driver × DriverEvent) :=
  match driver.worker with
  | .starting index =>
    match driver.switches[index]? with
    | some switch =>
      some ({ driver with
        switches := driver.switches.set index { switch with start := now }
        worker := .starting (index + 1) }, .silent)
    | none => some ({ driver with worker := .sleeping }, .silent)
  | .working index point =>
    match driver.switches[index]? with
    | some switch => some (driver.workAt index switch now fails point)
    | none => some ({ driver with worker := .looping }, .silent)
  | .looping =>
    some ({ driver with worker := if driver.exit = .running then .sleeping else .exited }, .silent)
  | _ => none

def uninstall (driver : Driver) : Option (Driver × DriverEvent) :=
  match driver.exit with
  | .stopping =>
    if driver.worker = .exited then some ({ driver with exit := .uninstalling 0 }, .silent)
    else none
  | .uninstalling index =>
    match driver.switches[index]? with
    | some switch =>
      if switch.regs then
        some ({ driver with
          switches := driver.switches.set index switch.disable
          exit := .uninstalling (index + 1) }, .called index .unregister)
      else some ({ driver with exit := .uninstalling (index + 1) }, .silent)
    | none => none
  | .running => none

def step (driver : Driver) : DriverAction → Option (Driver × DriverEvent)
  | .packet index =>
    match driver.switches[index]? with
    | some switch =>
      some ({ driver with
        switches := driver.switches.set index { switch with ops := switch.ops + 1 } }, .silent)
    | none => none
  | .request index =>
    match driver.switches[index]? with
    | some switch =>
      if switch.registered then
        some ({ driver with
          switches := driver.switches.set index { switch with krp := switch.krp + 1 } }, .silent)
      else none
    | none => none
  | .wake signalled =>
    if driver.worker = .sleeping then
      some ({ driver with worker := if signalled then .looping else .working 0 .check }, .silent)
    else none
  | .work now fails => driver.work now fails
  | .smithExit =>
    if driver.exit = .running then some ({ driver with exit := .stopping }, .silent) else none
  | .abandon =>
    if driver.worker = .starting 0 ∧ driver.exit = .stopping then
      some ({ driver with worker := .exited }, .silent)
    else none
  | .uninstall => driver.uninstall

end Driver

end Elkeid.Probe
