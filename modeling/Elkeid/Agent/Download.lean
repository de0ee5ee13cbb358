import Elkeid.Foundations.Text

/-!
# Fetching an executable

`CheckSignature` and `Download` of `agent/utils/download.go` with the two ways to
unpack a body in `decompress.go`. Every system call and every answer from the network
has an outcome of its own, given beforehand. SHA-256 and the reader of gzipped
archives are parameters. A disk maps clean absolute paths to the contents of regular
files; no two paths lead to one file. What was written is logged with the body it came
from.
-/

namespace Elkeid.Agent

open Foundations List

/-- The components of a clean absolute path. -/
abbrev Path := List Bytes

/-- `filepath.Join` of a path and a name: the name is taken apart at each slash, and
dots are resolved. -/
def Path.join (root : Path) (name : Bytes) : Path :=
  (name.splitOn 0x2f).foldl
    (fun path part =>
      if part = [] ∨ part = [0x2e] then path
      else if part = [0x2e, 0x2e] then path.dropLast
      else path ++ [part])
    root

def Path.dir (path : Path) : Path := path.dropLast

structure Config where
  name : Bytes
  type : Bytes
  version : Bytes
  sha256 : Bytes
  signature : Bytes
  downloadUrls : List Bytes
  deriving DecidableEq

inductive Fault where
  | hex
  /-- a system call failed -/
  | os
  /-- "signature doesn't match" -/
  | signature
  | request
  | transport
  /-- "http error: " and the status -/
  | http (status : Nat)
  | body
  /-- "checksum doesn't match" -/
  | checksum
  | gzip
  | tar
  deriving DecidableEq

def fromHexChar (character : UInt8) : Option UInt8 :=
  if 0x30 ≤ character ∧ character ≤ 0x39 then some (character - 0x30)
  else if 0x61 ≤ character ∧ character ≤ 0x66 then some (character - 0x57)
  else if 0x41 ≤ character ∧ character ≤ 0x46 then some (character - 0x37)
  else none

/-- `hex.DecodeString`; `none` is an error. -/
def decodeString : Bytes → Option Bytes
  | [] => some []
  | [_] => none
  | high :: low :: rest => do
      let high ← fromHexChar high
      let low ← fromHexChar low
      return (high * 16 + low) :: (← decodeString rest)

structure Disk where
  files : Path → Option Bytes
  /-- the paths written since the log was cleared, each with the body it was written from -/
  wrote : List (Path × Bytes)

namespace Disk

def write (disk : Disk) (path : Path) (content body : Bytes) : Disk :=
  { files := Function.update disk.files path (some content), wrote := (path, body) :: disk.wrote }

def removeAll (disk : Disk) (root : Path) : Disk :=
  { disk with files := fun path => if root.isPrefixOf path then none else disk.files path }

def holdsDir (disk : Disk) (path : Path) : Bool :=
  path.inits.all (fun parent => (disk.files parent).isNone)

end Disk

structure ReadCalls where
  opens : Bool
  copies : Bool

/-- What writing a file comes to: it may fail to open, or fail after some bytes. -/
inductive WriteCalls where
  | closed
  | short (count : Nat)
  | whole
  deriving DecidableEq

def ReadCalls.run (calls : ReadCalls) (disk : Disk) (path : Path) : Except Fault Bytes :=
  match disk.files path with
  | none => .error .os
  | some content => if calls.opens ∧ calls.copies then .ok content else .error .os

inductive Answer where
  | badRequest
  | noResponse
  /-- `none` when the body cannot be read -/
  | response (status : Nat) (body : Option Bytes)

inductive Entry where
  | dir (name : Bytes)
  /-- `intact` unless the archive ends inside the contents -/
  | reg (name content : Bytes) (intact : Bool)
  | other (name : Bytes)

structure Archive where
  entries : List Entry
  /-- `Next` ends with `io.EOF` -/
  ends : Bool

structure DownloadCalls where
  old : ReadCalls
  /-- by the position of the address in the list -/
  answer : Nat → Answer
  mkdirAll : Bool
  /-- by the position of the entry in the archive -/
  mkdir : Nat → Bool
  write : Nat → WriteCalls

section Parameters

variable (hash : Bytes → Bytes) (unpack : Bytes → Option Archive)

def checkSignature (calls : ReadCalls) (disk : Disk) (dst : Path) (sign : Bytes) : Option Fault :=
  if (disk.files dst).isNone ∨ ¬ calls.opens then some .os
  else
    match decodeString sign with
    | none => some .hex
    | some signBytes =>
      match calls.run disk dst with
      | .error fault => some fault
      | .ok content => if hash content = signBytes then none else some .signature

/-- Write a file whose contents may be cut: the error if any, and the disk. -/
def writeFile (calls : WriteCalls) (disk : Disk) (path : Path) (content : Bytes) (intact : Bool)
    (body : Bytes) : Option Fault × Disk :=
  if ¬ disk.holdsDir path.dir then (some .os, disk)
  else
    match calls with
    | .closed => (some .os, disk)
    | .short count => (some .os, disk.write path (content.take count) body)
    | .whole => (if intact then none else some .tar, disk.write path content body)

def extract (calls : DownloadCalls) (root : Path) (body : Bytes) (ends : Bool) :
    Nat → List Entry → Disk → Option Fault × Disk
  | _, [], disk => (if ends then none else some .tar, disk)
  | position, .dir name :: rest, disk =>
    if disk.holdsDir (root.join name) ∧ calls.mkdir position then
      extract calls root body ends (position + 1) rest disk
    else (some .os, disk)
  | position, .reg name content intact :: rest, disk =>
    match writeFile (calls.write position) disk (root.join name) content intact body with
    | (none, disk) => extract calls root body ends (position + 1) rest disk
    | failed => failed
  | position, .other _ :: rest, disk => extract calls root body ends (position + 1) rest disk

/-- A failure after the directory was made removes the directory. -/
def orRemove (root : Path) : Option Fault × Disk → Option Fault × Disk
  | (none, disk) => (none, disk)
  | (some fault, disk) => (some fault, disk.removeAll root)

def decompressTarGz (calls : DownloadCalls) (disk : Disk) (dst : Path) (body : Bytes) :
    Option Fault × Disk :=
  match unpack body with
  | none => (some .gzip, disk)
  | some archive =>
    let root := dst.dir
    if disk.holdsDir root ∧ calls.mkdirAll then
      orRemove root (extract calls root body archive.ends 0 archive.entries disk)
    else (some .os, disk)

def decompressDefault (calls : DownloadCalls) (disk : Disk) (dst : Path) (body : Bytes) :
    Option Fault × Disk :=
  let root := dst.dir
  if disk.holdsDir root ∧ calls.mkdirAll then
    orRemove root (writeFile (calls.write 0) disk dst body true body)
  else (some .os, disk)

def tarGz : Bytes := Text.ofChars ['t', 'a', 'r', '.', 'g', 'z']

def decompress (calls : DownloadCalls) (type : Bytes) (disk : Disk) (dst : Path) (body : Bytes) :
    Option Fault × Disk :=
  if type = tarGz then decompressTarGz unpack calls disk dst body
  else decompressDefault calls disk dst body

/-- The body behind one address, with the right checksum. -/
def fetch (checksum : Bytes) : Answer → Except Fault Bytes
  | .badRequest => .error .request
  | .noResponse => .error .transport
  | .response status body =>
    if ¬ (200 ≤ status ∧ status < 300) then .error (.http status)
    else
      match body with
      | none => .error .body
      | some buf => if hash buf = checksum then .ok buf else .error .checksum

/-- The loop over the addresses; the first argument is the error variable. -/
def downloadLoop (calls : DownloadCalls) (type checksum : Bytes) (dst : Path) (disk : Disk) :
    Option Fault → List Answer → Option Fault × Disk
  | err, [] => (err, disk)
  | _, answer :: rest =>
    match fetch hash checksum answer with
    | .error fault => downloadLoop calls type checksum dst disk (some fault) rest
    | .ok body => decompress unpack calls type disk dst body

def download (calls : DownloadCalls) (disk : Disk) (dst : Path) (config : Config) :
    Option Fault × Disk :=
  match decodeString config.sha256 with
  | none => (some .hex, disk)
  | some checksum =>
    let answers := (range config.downloadUrls.length).map calls.answer
    match calls.old.run disk dst with
    | .error fault =>
      downloadLoop hash unpack calls config.type checksum dst disk (some fault) answers
    | .ok content =>
      if hash content = checksum then (none, disk)
      else downloadLoop hash unpack calls config.type checksum dst disk none answers

end Parameters

def Entry.target (root : Path) : Entry → Option Path
  | .reg name _ _ => some (root.join name)
  | _ => none

/-- No file is at the path or above it, also when there are files at the given paths. -/
def Disk.Clear (disk : Disk) (written : List Path) (path : Path) : Prop :=
  ∀ parent, parent <+: path → disk.files parent = none ∧ parent ∉ written

/-- All entries of an archive can be made, from a position on. -/
def Unpacks (calls : DownloadCalls) (disk : Disk) (root : Path) :
    Nat → List Path → List Entry → Prop
  | _, _, [] => True
  | position, written, .dir name :: rest =>
    disk.Clear written (root.join name) ∧ calls.mkdir position = true ∧
      Unpacks calls disk root (position + 1) written rest
  | position, written, .reg name _ intact :: rest =>
    disk.Clear written (root.join name).dir ∧ calls.write position = .whole ∧ intact = true ∧
      Unpacks calls disk root (position + 1) (written ++ [root.join name]) rest
  | position, written, .other _ :: rest => Unpacks calls disk root (position + 1) written rest

/-- An archive can be unpacked into a directory. -/
def Archive.Opens (archive : Archive) (calls : DownloadCalls) (disk : Disk) (root : Path) : Prop :=
  disk.Clear [] root ∧ calls.mkdirAll = true ∧ archive.ends = true ∧
    Unpacks calls disk root 0 [] archive.entries

structure Disk.Wrote (disk : Disk) (targets : List Path) (body : Bytes) (next : Disk) : Prop where
  log : next.wrote = targets.reverse.map (fun path => (path, body)) ++ disk.wrote
  others : ∀ path, path ∉ targets → next.files path = disk.files path
  isFile : ∀ path ∈ targets, next.files path ≠ none

theorem Disk.Wrote.refl (disk : Disk) (body : Bytes) : disk.Wrote [] body disk :=
  ⟨rfl, fun _ _ => rfl, fun _ listed => absurd listed not_mem_nil⟩

theorem Disk.Wrote.write {disk next : Disk} {targets : List Path} {path : Path}
    {content body : Bytes}
    (wrote : (disk.write path content body).Wrote targets body next) :
    disk.Wrote (path :: targets) body next := by
  obtain ⟨log, others, isFile⟩ := wrote
  refine ⟨?_, ?_, ?_⟩
  · simp [log, Disk.write]
  · intro other notListed
    rw [mem_cons, not_or] at notListed
    rw [others other notListed.2]
    exact Function.update_of_ne notListed.1 _ _
  · intro other listed
    by_cases later : other ∈ targets
    · exact isFile other later
    · rw [others other later, (mem_cons.mp listed).resolve_right later, Disk.write]
      simp

theorem Disk.holdsDir_iff {disk : Disk} {path : Path} :
    disk.holdsDir path = true ↔ disk.Clear [] path := by
  simp [Disk.holdsDir, Disk.Clear]

theorem Disk.clear_write {disk : Disk} {target path : Path} {content body : Bytes}
    {written : List Path} :
    (disk.write target content body).Clear written path ↔ disk.Clear (target :: written) path := by
  refine forall₂_congr fun parent _ => ?_
  by_cases same : parent = target <;> simp [Disk.write, same]

theorem Disk.Wrote.clear_iff {disk next : Disk} {targets : List Path} {path : Path} {body : Bytes}
    (wrote : disk.Wrote targets body next) : next.Clear [] path ↔ disk.Clear targets path := by
  refine forall₂_congr fun parent _ => ?_
  by_cases listed : parent ∈ targets
  · simp [wrote.isFile parent listed, listed]
  · simp [wrote.others parent listed, listed]

section Unpacking

variable {calls : DownloadCalls} {disk next : Disk} {body : Bytes}

theorem writeFile_ok {how : WriteCalls} {path : Path} {content : Bytes} {intact : Bool}
    (written : writeFile how disk path content intact body = (none, next)) :
    next = disk.write path content body := by
  unfold writeFile at written
  split at written
  next => cases written
  next =>
    cases how with
    | closed | short => cases written
    | whole => exact (Prod.mk.inj written).2.symm

theorem extract_ok {root : Path} {ends : Bool} {position : Nat} {entries : List Entry}
    (extracted : extract calls root body ends position entries disk = (none, next)) :
    disk.Wrote (entries.filterMap (Entry.target root)) body next := by
  induction entries generalizing position disk with
  | nil =>
    cases (Prod.mk.inj extracted).2
    exact .refl _ body
  | cons entry rest ih =>
    cases entry with
    | dir name =>
      rw [extract] at extracted
      split at extracted
      next => exact ih extracted
      next => cases extracted
    | reg name content intact =>
      rw [extract] at extracted
      split at extracted
      next written isWritten =>
        cases writeFile_ok isWritten
        exact (ih extracted).write
      next notWritten =>
        exact absurd extracted (notWritten next)
    | other name =>
      rw [extract] at extracted
      exact ih extracted

theorem unpacks_write {root target : Path} {content : Bytes} {entries : List Entry} {position : Nat}
    {written : List Path} :
    Unpacks calls (disk.write target content body) root position written entries ↔
      Unpacks calls disk root position (target :: written) entries := by
  induction entries generalizing position written with
  | nil => exact Iff.rfl
  | cons entry rest ih => cases entry <;> simp only [Unpacks, Disk.clear_write, ih, cons_append]

theorem extract_ok_iff {root : Path} {ends : Bool} {position : Nat} {entries : List Entry} :
    (extract calls root body ends position entries disk).1 = none ↔
      ends = true ∧ Unpacks calls disk root position [] entries := by
  induction entries generalizing position disk with
  | nil => cases ends <;> simp [extract, Unpacks]
  | cons entry rest ih =>
    cases entry with
    | dir name =>
      rw [extract, Unpacks, ← Disk.holdsDir_iff]
      split
      next succeeds => simp [ih, succeeds]
      next fails =>
        refine iff_of_false nofun ?_
        rintro ⟨_, holds, makes, _⟩
        exact fails ⟨holds, makes⟩
    | reg name content intact =>
      rw [extract, Unpacks, ← Disk.holdsDir_iff]
      cases holds : disk.holdsDir (root.join name).dir with
      | false => simp [writeFile, holds]
      | true =>
        cases writes : calls.write position with
        | closed | short count => simp [writeFile, holds]
        | whole => cases intact <;> simp [writeFile, holds, ih, unpacks_write]
    | other name => exact ih

theorem orRemove_ok {root : Path} {result : Option Fault × Disk}
    (kept : orRemove root result = (none, next)) : result = (none, next) := by
  obtain ⟨fault, disk⟩ := result
  cases fault with
  | none => exact kept
  | some fault => cases kept

theorem decompressDefault_ok {dst : Path}
    (unpacked : decompressDefault calls disk dst body = (none, next)) :
    disk.Wrote [dst] body next := by
  rw [decompressDefault] at unpacked
  split at unpacked
  next =>
    cases writeFile_ok (orRemove_ok unpacked)
    exact (Disk.Wrote.refl _ body).write
  next => cases unpacked

theorem decompressTarGz_ok {unpack : Bytes → Option Archive} {dst : Path}
    (unpacked : decompressTarGz unpack calls disk dst body = (none, next)) :
    ∃ archive, unpack body = some archive ∧
      disk.Wrote (archive.entries.filterMap (Entry.target dst.dir)) body next := by
  rw [decompressTarGz] at unpacked
  cases isArchive : unpack body with
  | none =>
    rw [isArchive] at unpacked
    cases unpacked
  | some archive =>
    rw [isArchive] at unpacked
    dsimp only at unpacked
    split at unpacked
    next => exact ⟨archive, rfl, extract_ok (orRemove_ok unpacked)⟩
    next => cases unpacked

theorem decompressTarGz_ok_iff {unpack : Bytes → Option Archive} {dst : Path} {archive : Archive}
    (isArchive : unpack body = some archive) :
    (decompressTarGz unpack calls disk dst body).1 = none ↔ archive.Opens calls disk dst.dir := by
  have keeps (root : Path) (result : Option Fault × Disk) : (orRemove root result).1 =
      result.1 := by
    rcases result with ⟨_ | fault, disk⟩ <;> rfl
  rw [decompressTarGz, isArchive, Archive.Opens, ← Disk.holdsDir_iff]
  dsimp only
  split
  next makes => simp [makes, keeps, extract_ok_iff]
  next fails =>
    refine iff_of_false nofun ?_
    rintro ⟨holds, makes, _⟩
    exact fails ⟨holds, makes⟩

end Unpacking

theorem fetch_ok {hash : Bytes → Bytes} {checksum body : Bytes} {answer : Answer}
    (fetched : fetch hash checksum answer = .ok body) : hash body = checksum := by
  cases answer with
  | badRequest | noResponse => cases fetched
  | response status content =>
    simp only [fetch] at fetched
    split at fetched
    next => cases fetched
    next =>
      cases content with
      | none => cases fetched
      | some buf =>
        simp only at fetched
        split at fetched <;> cases fetched
        next matched => exact matched

/-- The loop unpacks the first body with the checksum; without one it ends with the
error of the last address, or with the error it began with when there is none. -/
theorem downloadLoop_eq (hash : Bytes → Bytes) (unpack : Bytes → Option Archive)
    (calls : DownloadCalls) (type checksum : Bytes) (dst : Path) (disk : Disk) (err : Option Fault)
    (answers : List Answer) :
    (∃ body, answers.findSome? (fun answer => (fetch hash checksum answer).toOption) = some body ∧
      hash body = checksum ∧ downloadLoop hash unpack calls type checksum dst disk err answers =
        decompress unpack calls type disk dst body) ∨
    (answers.findSome? (fun answer => (fetch hash checksum answer).toOption) = none ∧
      ∃ last, downloadLoop hash unpack calls type checksum dst disk err answers = (last, disk) ∧
        (answers = [] ∧ last = err ∨ answers ≠ [] ∧ last ≠ none)) := by
  induction answers generalizing err with
  | nil => exact .inr ⟨rfl, err, rfl, .inl ⟨rfl, rfl⟩⟩
  | cons answer rest ih =>
    rw [findSome?_cons, downloadLoop]
    cases fetched : fetch hash checksum answer with
    | ok body => exact .inl ⟨body, rfl, fetch_ok fetched, rfl⟩
    | error fault =>
      simp only [Except.toOption]
      obtain found | ⟨nothing, last, ended, isEmpty | ⟨_, isFault⟩⟩ :=
        ih (some fault)
      · exact .inl found
      · refine .inr ⟨nothing, last, ended, .inr ⟨cons_ne_nil _ _, ?_⟩⟩
        rw [isEmpty.2]
        exact Option.some_ne_none fault
      · exact .inr ⟨nothing, last, ended, .inr ⟨cons_ne_nil _ _, isFault⟩⟩

end Elkeid.Agent
