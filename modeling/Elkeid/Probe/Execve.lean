import Elkeid.Foundations.Text

/-!
# What is reported of an exec

The two versions of `get_execve_data` in `driver/LKM/src/smith_hook.c`, for kernels from 3.0 on and
for older ones. They join the arguments into one text and look for two variables in the environment.
Reads of user memory do not fault and no fatal signal is pending; memory may be short. The value of
a string is what stands before its NUL.
-/

namespace Elkeid.Probe

open Foundations

/-- The strings of a vector up to its NULL; there may be no vector. -/
abbrev Vector := Option (List CString)

def smithMaxArgStrings : Nat := 16
def maxArgStrings : Nat := 0x7fffffff
def maxArgStrlen : Nat := 131072

def countFrom (max : Nat) : Nat → List CString → Nat
  | i, [] => i
  | i, _ :: rest => if max ≤ i + 1 then i + 1 else countFrom max (i + 1) rest

def count (vector : Vector) (max : Nat) : Nat := (vector.map (countFrom max 0)).getD 0

def execveCount (vector : Vector) (max : Nat) : Nat := (vector.map (countFrom max 0)).getD 0

/-- `smith_strnlen_user` with `MAX_ARG_STRLEN`: the NUL counts, and a string that is too long gives
more than the limit. -/
def strnlenUser (string : CString) : Nat :=
  if string.bytes.length + 1 ≤ maxArgStrlen then string.bytes.length + 1 else maxArgStrlen + 1

structure Memory where
  argv : Bool
  sshConnection : Bool
  ldPreload : Bool

structure ExecveData where
  argv : Option Bytes
  sshConnection : Bytes
  ldPreload : Bytes
  freeArgv : Bool
  freeLdPreload : Bool
  freeSshConnection : Bool
  deriving DecidableEq

def minusOne : Bytes := Text.ofChars ['-', '1']
def fail : Bytes := Text.ofChars "<FAIL>".toList

/-! ## Arguments -/

/-- The loop over the arguments, with the bytes written so far. A NUL becomes a blank, and the
argument that does not fit is cut. -/
def joinArgv (size : Nat) : Bytes → List CString → Bytes
  | buffer, [] => buffer
  | buffer, string :: rest =>
    let len := strnlenUser string
    if len = 0 then joinArgv size buffer rest
    else if size < buffer.length + len then
      buffer ++ (string.bytes ++ [0]).take (size - buffer.length)
    else joinArgv size (buffer ++ string.bytes ++ [0x20]) rest

def argvText (memory : Memory) (argv : Vector) (argvLen : Nat) : Option Bytes :=
  if 0 < argvLen then
    if memory.argv then
      let text := joinArgv (256 * argvLen) [] ((argv.getD []).take argvLen)
      some (if 0 < text.length then text else fail)
    else some minusOne
  else none

/-! ## Variables -/

inductive EnvName
  | sshConnection
  | ldPreload
  deriving DecidableEq

/-- "SSH_CONNECT", the first eleven characters of "SSH_CONNECTION=" -/
def sshConnect : Bytes := Text.ofChars "SSH_CONNECT".toList
def ldPreloadIs : Bytes := Text.ofChars "LD_PRELOAD=".toList

/-- The variable of a string of the environment, with its value. Both names are compared on eleven
characters. -/
def variableOf (string : CString) : Option (EnvName × Bytes) :=
  if 14 < strnlenUser string ∧ strnlenUser string < 256 then
    if string.bytes.take 11 = sshConnect then some (.sshConnection, string.bytes.drop 15)
    else if string.bytes.take 11 = ldPreloadIs then some (.ldPreload, string.bytes.drop 11)
    else none
  else none

abbrev Found := EnvName → Option Bytes

def Found.both (found : Found) : Bool := (found .ldPreload).isSome && (found .sshConnection).isSome

def Found.take (found : Found) (string : CString) : Found :=
  match variableOf string with
  | some (name, value) => Function.update found name (some value)
  | none => found

def report (found : Found) (name : EnvName) (allocated : Bool) : Bytes :=
  if allocated then (found name).getD minusOne else minusOne

def execveData (memory : Memory) (argv : Option Bytes) (found : Found) : ExecveData where
  argv := argv
  sshConnection := report found .sshConnection memory.sshConnection
  ldPreload := report found .ldPreload memory.ldPreload
  freeArgv := argv.isSome && memory.argv
  freeLdPreload := memory.ldPreload
  freeSshConnection := memory.sshConnection

namespace Modern

def scanEnv : Found → List CString → Found
  | found, [] => found
  | found, string :: rest => if found.both then found else scanEnv (found.take string) rest

/-- `get_execve_data` from 3.0 on. -/
def getExecveData (memory : Memory) (argv env : Vector) : ExecveData :=
  let envLen := count env maxArgStrings
  let argvLen := count argv smithMaxArgStrings
  execveData memory (argvText memory argv argvLen)
    (if 0 < envLen then scanEnv (fun _ => none) ((env.getD []).take envLen) else fun _ => none)

end Modern

namespace Legacy

/-- The loop over the environment, which counts to the number of arguments. At the NULL of the
environment the length is zero. -/
def scanEnv : Nat → Found → List CString → Found
  | 0, found, _ => found
  | _ + 1, found, [] => found
  | left + 1, found, string :: rest =>
    if found.both then found
    else if maxArgStrlen < strnlenUser string then found
    else scanEnv left (found.take string) rest

/-- `get_execve_data` before 3.0. -/
def getExecveData (memory : Memory) (argv env : Vector) : ExecveData :=
  let envLen := execveCount env maxArgStrings
  let argvLen := execveCount argv smithMaxArgStrings
  execveData memory (argvText memory argv argvLen)
    (if 0 < envLen then scanEnv argvLen (fun _ => none) (env.getD []) else fun _ => none)

end Legacy

end Elkeid.Probe
