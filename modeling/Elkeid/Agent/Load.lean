import Elkeid.Agent.Download
import Elkeid.Foundations.Separated

/-!
# Loading a plugin

`Load` of `agent/plugin/plugin_linux.go` up to the start of the process. The file at
the plugin's path is checked against the signature, and downloaded when the check
fails. Which file is then started is compared with the hashes of the configuration:
a file that was there before and that has none of them is started exactly when
`Download` reports success without having written that path.
-/

namespace Elkeid.Agent

open Foundations List Function

structure Stored where
  version : Bytes
  /-- `cmd.ProcessState != nil` -/
  exited : Bool

inductive Lookup where
  | duplicate
  | proceed (shutdown : Bool)
  deriving DecidableEq

def lookup (stored : Option Stored) (config : Config) : Lookup :=
  match stored with
  | none => .proceed false
  | some plugin =>
    if plugin.version = config.version ∧ plugin.exited = false then .duplicate
    else .proceed (decide (plugin.version ≠ config.version ∧ plugin.exited = false))

structure LoadCalls where
  removeStderr : Bool
  removeStdout : Bool
  check : ReadCalls
  download : DownloadCalls
  rxPipe : Bool
  txPipe : Bool
  stderr : Bool
  start : Bool

/-- The calls for the process succeed. -/
def LoadCalls.Starts (calls : LoadCalls) : Prop :=
  calls.rxPipe = true ∧ calls.txPipe = true ∧ calls.stderr = true ∧ calls.start = true

inductive LoadResult where
  /-- `ErrDuplicatePlugin` -/
  | duplicate
  | failed (fault : Fault)
  /-- the process runs the given file -/
  | started (content : Bytes)
  deriving DecidableEq

def pluginDir : Bytes := Text.ofChars ['p', 'l', 'u', 'g', 'i', 'n']

def dotStderr : Bytes := Text.ofChars ['.', 's', 't', 'd', 'e', 'r', 'r']

def dotStdout : Bytes := Text.ofChars ['.', 's', 't', 'd', 'o', 'u', 't']

/-- The path that a text is appended to. -/
def Path.extend (path : Path) (text : Bytes) : Path :=
  path.dropLast ++ [path.getLast?.getD [] ++ text]

def Disk.remove (disk : Disk) (succeeds : Bool) (path : Path) : Disk :=
  if succeeds then { disk with files := update disk.files path none } else disk

def Config.withSignature (config : Config) : Config :=
  if config.signature = [] then { config with signature := config.sha256 } else config

section Parameters

variable (hash : Bytes → Bytes) (unpack : Bytes → Option Archive)
variable (agentDirectory : Path)

def workingDirectory (name : Bytes) : Path := (agentDirectory.join pluginDir).join name

def execPath (name : Bytes) : Path := (workingDirectory agentDirectory name).join name

def startProcess (calls : LoadCalls) (disk : Disk) (name : Bytes) : LoadResult × Disk :=
  let exec := execPath agentDirectory name
  if ¬ (calls.rxPipe ∧ calls.txPipe) then (.failed .os, disk)
  else if ¬ (disk.holdsDir (workingDirectory agentDirectory name) ∧ calls.stderr) then
    (.failed .os, disk)
  else
    let disk := { disk with files := update disk.files (exec.extend dotStderr) (some []) }
    match disk.files exec with
    | none => (.failed .os, disk)
    | some content => if calls.start then (.started content, disk) else (.failed .os, disk)

/-- Files of earlier versions are removed "for compatibility". -/
def removeOutputs (calls : LoadCalls) (disk : Disk) (name : Bytes) : Disk :=
  let directory := workingDirectory agentDirectory name
  (disk.remove calls.removeStderr (directory.join (name ++ dotStderr))).remove calls.removeStdout
    (directory.join (name ++ dotStdout))

def launch (calls : LoadCalls) (disk : Disk) (config : Config) : LoadResult × Disk :=
  let config := config.withSignature
  let disk := removeOutputs agentDirectory calls disk config.name
  let exec := execPath agentDirectory config.name
  match checkSignature hash calls.check disk exec config.signature with
  | none => startProcess agentDirectory calls disk config.name
  | some _ =>
    match download hash unpack calls.download disk exec config with
    | (some fault, disk) => (.failed fault, disk)
    | (none, disk) => startProcess agentDirectory calls disk config.name

/-- `Load`; the log of writes is cleared first. -/
def load (calls : LoadCalls) (disk : Disk) (stored : Option Stored) (config : Config) :
    LoadResult × Disk :=
  match lookup stored config with
  | .duplicate => (.duplicate, disk)
  | .proceed _ => launch hash unpack agentDirectory calls { disk with wrote := [] } config

/-- The hash of a text is the one written in hexadecimal. -/
def HasHash (text content : Bytes) : Prop := decodeString text = some (hash content)

/-- The file that was started has one of the hashes, or this download has written it
from a body with the checksum. -/
def Verified (config : Config) (content : Bytes) (disk : Disk) : Prop :=
  HasHash hash config.withSignature.signature content ∨ HasHash hash config.sha256 content ∨
    ∃ body, (execPath agentDirectory config.name, body) ∈ disk.wrote ∧
      HasHash hash config.sha256 body

/-- The first body with the checksum. -/
def acceptedBody (calls : DownloadCalls) (config : Config) (checksum : Bytes) : Option Bytes :=
  ((range config.downloadUrls.length).map calls.answer).findSome?
    (fun answer => (fetch hash checksum answer).toOption)

/-- `Download` succeeds without writing its destination, although the file there does not
have the checksum; the last argument is what it writes. -/
inductive Untouched (calls : DownloadCalls) (disk : Disk) (dst : Path) (config : Config)
    (checksum : Bytes) : List Path → Prop
  /-- there is no address, and the file could be read -/
  | noAddress : config.downloadUrls = [] → calls.old.opens = true → calls.old.copies = true →
      Untouched calls disk dst config checksum []
  /-- an archive with the checksum can be unpacked and has no such file -/
  | noEntry {body archive} : acceptedBody hash calls config checksum = some body →
      config.type = tarGz → unpack body = some archive → archive.Opens calls disk dst.dir →
      dst ∉ archive.entries.filterMap (Entry.target dst.dir) →
      Untouched calls disk dst config checksum (archive.entries.filterMap (Entry.target dst.dir))

/-- A file without any of the hashes is at the plugin's path, `Download` leaves it there
and reports success, and nothing else fails. -/
structure LeftUnverified (calls : LoadCalls) (disk : Disk) (stored : Option Stored)
    (config : Config) : Prop where
  proceeds : lookup stored config ≠ .duplicate
  unverified : ∃ content, disk.files (execPath agentDirectory config.name) = some content ∧
    ¬ HasHash hash config.withSignature.signature content ∧ ¬ HasHash hash config.sha256 content
  untouched : ∃ checksum written, decodeString config.sha256 = some checksum ∧
    Untouched hash unpack calls.download
      (removeOutputs agentDirectory calls { disk with wrote := [] } config.name)
      (execPath agentDirectory config.name) config checksum written ∧
    (removeOutputs agentDirectory calls { disk with wrote := [] } config.name).Clear written
      (workingDirectory agentDirectory config.name)
  starts : calls.Starts

end Parameters

theorem Path.join_append_ne (root : Path) (name : Bytes) {text : Bytes} (noSlash : 0x2f ∉ text)
    (long : 2 < text.length) : root.join (name ++ text) ≠ root.join name := by
  obtain ⟨front, last, split, splitText⟩ := Separated.splitOn_append_of_not_mem name noSlash
  have plain : ∀ dots : Bytes, dots.length ≤ 2 → last ++ text ≠ dots := by
    rintro dots short rfl
    rw [length_append] at short
    omega
  have nonempty : text ≠ [] := by
    rintro rfl
    exact absurd long (by decide)
  simp only [Path.join, split, splitText, foldl_append, foldl_cons, foldl_nil,
    plain [] (by decide), plain [0x2e] (by decide), plain [0x2e, 0x2e] (by decide), or_self,
    if_false]
  generalize front.foldl _ root = parent
  intro same
  split at same
  next =>
    have length := congrArg length same
    simp at length
  next =>
    split at same
    next =>
      have length := congrArg length same
      simp at length
      omega
    next => simp [nonempty] at same

theorem Path.extend_ne (path : Path) {text : Bytes} (nonempty : text ≠ []) :
    path.extend text ≠ path := by
  rw [Path.extend]
  rcases eq_nil_or_concat path with rfl | ⟨front, last, rfl⟩
  · simp
  · simp [nonempty]

theorem Disk.remove_other {disk : Disk} {succeeds : Bool} {path other : Path}
    (differs : other ≠ path) :
    (disk.remove succeeds path).files other = disk.files other := by
  rw [Disk.remove]
  split
  next => exact update_of_ne differs _ _
  next => rfl

theorem Disk.remove_wrote {disk : Disk} {succeeds : Bool} {path : Path} :
    (disk.remove succeeds path).wrote = disk.wrote := by
  rw [Disk.remove]
  split <;> rfl

section Loading

variable {hash : Bytes → Bytes} {unpack : Bytes → Option Archive} {agentDirectory : Path}
variable {calls : LoadCalls} {disk : Disk} {config : Config}

theorem withSignature_name : config.withSignature.name = config.name := by
  rw [Config.withSignature]
  split <;> rfl

theorem withSignature_version : config.withSignature.version = config.version := by
  rw [Config.withSignature]
  split <;> rfl

theorem download_withSignature (how : DownloadCalls) (dst : Path) :
    download hash unpack how disk dst config.withSignature =
      download hash unpack how disk dst config := by
  rw [Config.withSignature]
  split <;> rfl

theorem removeOutputs_exec (name : Bytes) :
    (removeOutputs agentDirectory calls disk name).files (execPath agentDirectory name) =
      disk.files (execPath agentDirectory name) := by
  have notStderr := (Path.join_append_ne (workingDirectory agentDirectory name) name
    (by decide : 0x2f ∉ dotStderr) (by decide)).symm
  have notStdout := (Path.join_append_ne (workingDirectory agentDirectory name) name
    (by decide : 0x2f ∉ dotStdout) (by decide)).symm
  rw [execPath, removeOutputs, Disk.remove_other notStdout, Disk.remove_other notStderr]

theorem removeOutputs_wrote (name : Bytes) :
    (removeOutputs agentDirectory calls disk name).wrote = disk.wrote := by
  rw [removeOutputs, Disk.remove_wrote, Disk.remove_wrote]

variable {content checksum : Bytes} {how : DownloadCalls} {next : Disk} {dst : Path}
  {written : List Path}

theorem ReadCalls.run_ok {how : ReadCalls} {path : Path} (ran : how.run disk path = .ok content) :
    disk.files path = some content ∧ how.opens = true ∧ how.copies = true := by
  rw [ReadCalls.run] at ran
  split at ran
  next => cases ran
  next isFile =>
    split at ran <;> cases ran
    next succeeds => exact ⟨isFile, succeeds⟩

theorem checkSignature_ok {how : ReadCalls} {dst : Path} {sign : Bytes}
    (checked : checkSignature hash how disk dst sign = none) :
    ∃ content, disk.files dst = some content ∧ HasHash hash sign content := by
  rw [checkSignature] at checked
  split at checked
  next => cases checked
  next =>
    split at checked
    next => cases checked
    next signBytes decoded =>
      split at checked
      next => cases checked
      next content ran =>
        split at checked
        next isHash =>
          exact ⟨content, (ReadCalls.run_ok ran).1, decoded.trans (congrArg some isHash.symm)⟩
        next => cases checked

theorem startProcess_started_iff {name : Bytes} :
    (∃ last, startProcess agentDirectory calls disk name = (.started content, last)) ↔
      disk.files (execPath agentDirectory name) = some content ∧
        disk.Clear [] (workingDirectory agentDirectory name) ∧ calls.Starts := by
  have other := Path.extend_ne (execPath agentDirectory name) (by decide : dotStderr ≠ [])
  rw [startProcess, LoadCalls.Starts, ← Disk.holdsDir_iff]
  simp only [update_of_ne other.symm]
  cases disk.files (execPath agentDirectory name) <;> split_ifs <;> simp_all

theorem startProcess_wrote {name : Bytes} {result : LoadResult} {last : Disk}
    (ran : startProcess agentDirectory calls disk name = (result, last)) :
    last.wrote = disk.wrote := by
  rw [show last = (startProcess agentDirectory calls disk name).2 by rw [ran], startProcess]
  dsimp only
  repeat' split
  all_goals rfl

theorem download_ok
    (downloaded : download hash unpack how disk dst config = (none, next)) :
    ∃ checksum, decodeString config.sha256 = some checksum ∧
      ((∃ content, disk.files dst = some content ∧ hash content = checksum ∧ next = disk) ∨
        (config.downloadUrls = [] ∧ how.old.opens = true ∧ how.old.copies = true ∧ next = disk) ∨
        ∃ body, acceptedBody hash how config checksum = some body ∧ hash body = checksum ∧
          decompress unpack how config.type disk dst body = (none, next)) := by
  rw [download] at downloaded
  cases decoded : decodeString config.sha256 with
  | none =>
    rw [decoded] at downloaded
    cases downloaded
  | some checksum =>
    rw [decoded] at downloaded
    refine ⟨checksum, rfl, ?_⟩
    have loops (err : Option Fault)
        (ended : downloadLoop hash unpack how config.type checksum dst disk err
          ((range config.downloadUrls.length).map how.answer) = (none, next)) :
        (∃ body, acceptedBody hash how config checksum = some body ∧ hash body = checksum ∧
          decompress unpack how config.type disk dst body = (none, next)) ∨
        (config.downloadUrls = [] ∧ err = none ∧ next = disk) := by
      obtain ⟨body, found, isHash, loop⟩ | ⟨_, last, loop, noAnswers | failing⟩ :=
        downloadLoop_eq hash unpack how config.type checksum dst disk err
          ((range config.downloadUrls.length).map how.answer)
      · exact .inl ⟨body, found, isHash, loop.symm.trans ended⟩
      · cases loop.symm.trans ended
        exact .inr ⟨by simpa using noAnswers.1, noAnswers.2.symm, rfl⟩
      · cases loop.symm.trans ended
        exact absurd rfl failing.2
    cases ran : how.old.run disk dst with
    | error fault =>
      simp only [ran] at downloaded
      obtain found | ⟨_, noFault, _⟩ := loops _ downloaded
      · exact .inr (.inr found)
      · cases noFault
    | ok content =>
      simp only [ran] at downloaded
      obtain ⟨isFile, opens, copies⟩ := ReadCalls.run_ok ran
      split at downloaded
      next isHash =>
        cases downloaded
        exact .inl ⟨content, isFile, isHash, rfl⟩
      next =>
        obtain found | ⟨noUrls, _, unchanged⟩ := loops _ downloaded
        · exact .inr (.inr found)
        · exact .inr (.inl ⟨noUrls, opens, copies, unchanged⟩)

theorem Untouched.not_mem (untouched : Untouched hash unpack how disk dst config checksum written) :
    dst ∉ written := by
  cases untouched with
  | noAddress => exact not_mem_nil
  | noEntry _ _ _ _ notTarget => exact notTarget

theorem download_untouched (isFile : disk.files dst = some content)
    (decoded : decodeString config.sha256 = some checksum) (unverified : hash content ≠ checksum)
    (untouched : Untouched hash unpack how disk dst config checksum written) :
    ∃ next body, disk.Wrote written body next ∧
      download hash unpack how disk dst config = (none, next) := by
  have loops (err : Option Fault) {body : Bytes}
      (accepted : acceptedBody hash how config checksum = some body) :
      downloadLoop hash unpack how config.type checksum dst disk err
          ((range config.downloadUrls.length).map how.answer) =
        decompress unpack how config.type disk dst body := by
    obtain ⟨found, isFound, _, loop⟩ | ⟨nothing, _⟩ := downloadLoop_eq hash unpack how config.type
      checksum dst disk err ((range config.downloadUrls.length).map how.answer)
    · cases isFound.symm.trans accepted
      exact loop
    · cases nothing.symm.trans accepted
  cases untouched with
  | noAddress noUrls opens copies =>
    refine ⟨disk, [], .refl disk [], ?_⟩
    simp [download, decoded, ReadCalls.run, isFile, opens, copies, unverified, noUrls, downloadLoop]
  | @noEntry body archive accepted isTarGz isArchive opens _ =>
    obtain ⟨next, unpacked⟩ : ∃ next, decompressTarGz unpack how disk dst body = (none, next) :=
      ⟨_, Prod.ext ((decompressTarGz_ok_iff isArchive).mpr opens) rfl⟩
    obtain ⟨_, alsoArchive, wrote⟩ := decompressTarGz_ok unpacked
    cases isArchive.symm.trans alsoArchive
    refine ⟨next, body, wrote, ?_⟩
    rw [download, decoded]
    simp only
    split
    next => rw [loops _ accepted, decompress, if_pos isTarGz, unpacked]
    next found ran =>
      cases isFile.symm.trans (ReadCalls.run_ok ran).1
      rw [if_neg unverified, loops _ accepted, decompress, if_pos isTarGz, unpacked]

theorem Disk.Wrote.mem {targets : List Path} {path : Path} {body : Bytes}
    (wrote : disk.Wrote targets body next) (listed : path ∈ targets) :
    (path, body) ∈ next.wrote := by
  rw [wrote.log]
  exact mem_append_left _ (mem_map_of_mem (mem_reverse.mpr listed))

/-- A download that reports success and after which nothing verified is at its destination
has left the file there untouched. -/
theorem untouched_of_download
    (downloaded : download hash unpack how disk dst config = (none, next))
    (isFile : next.files dst = some content) (notHash : ¬ HasHash hash config.sha256 content)
    (notWritten : ∀ body, HasHash hash config.sha256 body → (dst, body) ∉ next.wrote) :
    ∃ checksum written body, decodeString config.sha256 = some checksum ∧
      Untouched hash unpack how disk dst config checksum written ∧
        disk.Wrote written body next := by
  obtain ⟨checksum, decoded, ways⟩ := download_ok downloaded
  obtain ⟨old, wasFile, isHash, rfl⟩ | ⟨noUrls, opens, copies, rfl⟩ |
    ⟨body, accepted, isHash, unpacked⟩ := ways
  · cases wasFile.symm.trans isFile
    exact absurd (decoded.trans (congrArg some isHash.symm)) notHash
  · exact ⟨checksum, [], [], decoded, .noAddress noUrls opens copies, .refl next []⟩
  · have fromBody : HasHash hash config.sha256 body := decoded.trans (congrArg some isHash.symm)
    rw [decompress] at unpacked
    split at unpacked
    next isTarGz =>
      obtain ⟨archive, isArchive, wrote⟩ := decompressTarGz_ok unpacked
      have opens := (decompressTarGz_ok_iff isArchive).mp (congrArg Prod.fst unpacked)
      have notTarget : dst ∉ archive.entries.filterMap (Entry.target dst.dir) :=
        fun listed => notWritten body fromBody (wrote.mem listed)
      exact ⟨checksum, _, body, decoded, .noEntry accepted isTarGz isArchive opens notTarget, wrote⟩
    next =>
      exact absurd ((decompressDefault_ok unpacked).mem mem_cons_self) (notWritten body fromBody)

end Loading

/-- What `Load` starts is verified, except when an unverified file is left at the
plugin's path by a download that reports success. -/
theorem load_verified_iff (hash : Bytes → Bytes) (unpack : Bytes → Option Archive)
    (agentDirectory : Path) (calls : LoadCalls) (disk : Disk) (stored : Option Stored)
    (config : Config) :
    (∀ content last, load hash unpack agentDirectory calls disk stored config =
        (.started content, last) → Verified hash agentDirectory config content last) ↔
      ¬ LeftUnverified hash unpack agentDirectory calls disk stored config := by
  have kept : (removeOutputs agentDirectory calls { disk with wrote := [] } config.name).files
      (execPath agentDirectory config.name) = disk.files (execPath agentDirectory config.name) :=
    removeOutputs_exec config.name
  have noLog : (removeOutputs agentDirectory calls { disk with wrote := [] } config.name).wrote =
      [] :=
    removeOutputs_wrote config.name
  constructor
  · rintro verified ⟨proceeds, ⟨old, isFile, notSignature, notSha⟩,
      ⟨checksum, written, decoded, untouched, clear⟩, starts⟩
    obtain ⟨next, body, wrote, downloaded⟩ := download_untouched (kept.trans isFile) decoded
      (fun same => notSha (decoded.trans (congrArg some same.symm))) untouched
    have stillFile := (wrote.others _ untouched.not_mem).trans (kept.trans isFile)
    obtain ⟨last, started⟩ :=
      startProcess_started_iff.mpr ⟨stillFile, wrote.clear_iff.mpr clear, starts⟩
    have loaded : load hash unpack agentDirectory calls disk stored config =
        (.started old, last) := by
      rw [load]
      cases looked : lookup stored config with
      | duplicate => exact absurd looked proceeds
      | proceed shutdown =>
        simp only [launch, withSignature_name, download_withSignature]
        split
        next checked =>
          obtain ⟨found, wasFound, isSignature⟩ := checkSignature_ok checked
          cases (kept.trans isFile).symm.trans wasFound
          exact absurd isSignature notSignature
        next => simp [downloaded, started]
    obtain isSignature | isSha | ⟨body, listed, _⟩ := verified old last loaded
    · exact notSignature isSignature
    · exact notSha isSha
    · rw [startProcess_wrote started, wrote.log, noLog, append_nil] at listed
      obtain ⟨path, isTarget, ⟨⟩⟩ := mem_map.mp listed
      exact untouched.not_mem (mem_reverse.mp isTarget)
  · intro notLeft content last loaded
    by_contra unverified
    simp only [Verified, not_or, not_exists, not_and'] at unverified
    obtain ⟨notSignature, notSha, notWritten⟩ := unverified
    apply notLeft
    rw [load] at loaded
    cases looked : lookup stored config with
    | duplicate =>
      rw [looked] at loaded
      cases loaded
    | proceed shutdown =>
      simp only [looked, launch, withSignature_name, download_withSignature] at loaded
      split at loaded
      next checked =>
        obtain ⟨found, wasFound, isSignature⟩ := checkSignature_ok checked
        cases wasFound.symm.trans (startProcess_started_iff.mp ⟨last, loaded⟩).1
        exact absurd isSignature notSignature
      next =>
        split at loaded
        next => cases loaded
        next next downloaded =>
          obtain ⟨isStarted, clear, starts⟩ := startProcess_started_iff.mp ⟨last, loaded⟩
          obtain ⟨checksum, written, body, decoded, untouched, wrote⟩ :=
            untouched_of_download downloaded isStarted notSha
              (fun body isHash => startProcess_wrote loaded ▸ notWritten body isHash)
          have wasFile := (wrote.others _ untouched.not_mem).symm.trans isStarted
          exact ⟨looked ▸ Lookup.noConfusion,
            ⟨content, kept.symm.trans wasFile, notSignature, notSha⟩,
            ⟨checksum, written, decoded, untouched, wrote.clear_iff.mp clear⟩, starts⟩

def noAddressConfig : Config :=
  ⟨[0x78], [], [0x31], Text.ofChars ['0', '0'], [], []⟩

def allSucceed : LoadCalls :=
  ⟨true, true, ⟨true, true⟩,
    ⟨⟨true, true⟩, fun _ => .noResponse, true, fun _ => true, fun _ => .whole⟩,
    true, true, true, true⟩

def oldFile : Disk :=
  ⟨fun path => if path = execPath [] [0x78] then some [0x55] else none, []⟩

/-- With an injective hash, the old file is started although it has none of the hashes. -/
theorem noAddress_starts_unverified :
    ∃ content last, load id (fun _ => none) [] allSucceed oldFile none noAddressConfig =
        (.started content, last) ∧ ¬ Verified id [] noAddressConfig content last := by
  refine ⟨[0x55], _, rfl, ?_⟩
  have notHash : decodeString noAddressConfig.sha256 ≠ some [0x55] := by decide
  rintro (isSignature | isSha | ⟨body, written, _⟩)
  · exact notHash isSignature
  · exact notHash isSha
  · cases written

end Elkeid.Agent
