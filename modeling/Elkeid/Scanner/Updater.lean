import Elkeid.Scanner.Detector

/-!
# Updates of the rule database

`load`, `update`, `download` and `extract` of `scanner/src/model/engine/clamav/updater.rs`, and what
the work loop of the detector does with a message of new rules. The two directories of the plugin
are maps from file names to contents. Directories can be removed and files read; storing a
downloaded archive may fail. The digest, hexadecimal texts, trimming and the zip format are given
by libraries.
-/

namespace Elkeid.Scanner

open Foundations Option

structure Library where
  /-- `Sha256` -/
  sha256 : Bytes → Bytes
  /-- `{:x}` of a digest -/
  hex : Bytes → Bytes
  /-- `hex::decode` -/
  decode : Bytes → Option Bytes
  /-- `trim` -/
  trim : Bytes → Bytes
  /-- the contents are a text -/
  isText : Bytes → Bool
  /-- The files that an archive holds under a password, by the last part of their names, up to
  the first that cannot be read; and whether all can. -/
  unzip : Bytes → Bytes → List (Bytes × Bytes) × Bool

abbrev Directory := Bytes → Option Bytes

def Directory.empty : Directory := fun _ => none

def Directory.write (directory : Directory) (files : List (Bytes × Bytes)) : Directory :=
  files.foldl (fun directory file => Function.update directory file.1 (some file.2)) directory

structure Disk where
  /-- `TMP_PATH` -/
  tmp : Directory
  /-- `DB_PATH` -/
  dat : Directory

structure DBManager where
  version : Bytes
  dbname : Bytes
  url : List Bytes
  sha256 : Bytes
  passwd : Bytes
  deriving DecidableEq

inductive Fault where
  | notFound
  | archive
  | read
  | version
  | sha256
  | noUrls
  | io
  | failed
  deriving DecidableEq

def versionFile : Bytes := Text.ofChars ['v', 'e', 'r', 's', 'i', 'o', 'n']

def zipName (name : Bytes) : Bytes := name ++ Text.ofChars ['.', 'z', 'i', 'p']

/-- `urls[0].split('/').last()` -/
def fileName (url : Bytes) : Bytes := (url.splitOn 0x2f).getLastD []

inductive Reply where
  | lost
  /-- the body is `none` when it cannot be read -/
  | answered (success : Bool) (body : Option Bytes)
  deriving DecidableEq

/-- What an address answers for its archive and for its signature. -/
structure Host where
  zip : Reply
  sign : Reply
  deriving DecidableEq

inductive WriteCalls where
  | closed
  | short (count : Nat)
  | whole
  deriving DecidableEq

structure UpdateCalls where
  /-- `create_dir_all` and the builder of the client -/
  ready : Bool
  /-- `File::create`, `write_all` and `sync_all` -/
  write : WriteCalls

/-- The message of new rules, with what its addresses answer. -/
structure Rules where
  version : Bytes
  sha256 : Bytes
  passwd : Bytes
  addresses : List (Bytes × Host)

section Model

variable (library : Library)

def extract (disk : Disk) (src passwd : Bytes) : Option Fault × Disk :=
  match disk.tmp src with
  | none => (some .notFound, disk)
  | some archive =>
    let unzipped := library.unzip archive passwd
    (if unzipped.2 then none else some .archive, { disk with dat := disk.dat.write unzipped.1 })

def readVersion (dat : Directory) : Option Bytes :=
  match dat versionFile with
  | none => none
  | some content => if library.isText content then some (library.trim content) else none

def getFileSha256 (disk : Disk) (name : Bytes) : Bytes :=
  match disk.tmp name with
  | none => []
  | some content => library.hex (library.sha256 content)

def load (manager : DBManager) (disk : Disk) : Option Fault × Disk :=
  match extract library { disk with dat := Directory.empty } (zipName manager.dbname)
      manager.passwd with
  | (some fault, disk) => (some fault, disk)
  | (none, disk) =>
    match readVersion library disk.dat with
    | none => (some .read, disk)
    | some version =>
      if version ≠ manager.version then (some .version, disk)
      else if getFileSha256 library disk (zipName manager.dbname) ≠ manager.sha256 then
        (some .sha256, disk)
      else (none, disk)

def archiveOf (host : Host) : Option Bytes :=
  match host.zip, host.sign with
  | .answered true (some archive), .answered true (some sign) =>
    if library.sha256 archive = (library.decode (library.trim sign)).getD [] then some archive
    else none
  | _, _ => none

def downloadLoop (calls : UpdateCalls) (name : Bytes) (disk : Disk) :
    List (Bytes × Host) → Option Fault × Disk
  | [] => (some .failed, disk)
  | (_, host) :: rest =>
    match archiveOf library host with
    | none => downloadLoop calls name disk rest
    | some archive =>
      match calls.write with
      | .closed => (some .io, disk)
      | .short count =>
        (some .io, { disk with tmp := disk.tmp.write [(name, archive.take count)] })
      | .whole => (none, { disk with tmp := disk.tmp.write [(name, archive)] })

def download (calls : UpdateCalls) (addresses : List (Bytes × Host)) (disk : Disk) :
    Option Fault × Disk :=
  match addresses with
  | [] => (some .noUrls, disk)
  | (url, _) :: _ =>
    if calls.ready then downloadLoop library calls (zipName (fileName url)) disk addresses
    else (some .io, disk)

def update (calls : UpdateCalls) (rules : Rules) (manager : DBManager) (disk : Disk) :
    Option Fault × DBManager × Disk :=
  if rules.version = manager.version ∧ rules.sha256 = manager.sha256 then (none, manager, disk)
  else
    match download library calls rules.addresses { disk with tmp := Directory.empty } with
    | (some fault, disk) => (some fault, manager, disk)
    | (none, disk) =>
      match extract library { disk with dat := Directory.empty } (zipName manager.dbname)
          manager.passwd with
      | (some fault, disk) => (some fault, manager, disk)
      | (none, disk) =>
        (none, { manager with
          url := rules.addresses.map Prod.fst
          sha256 := rules.sha256
          version := rules.version
          passwd := rules.passwd }, disk)

/-- The branch of `work` for a message of new rules; the report and `Scanner::new` may fail. -/
def Detector.receiveRules (detector : Detector) (calls : UpdateCalls) (sends inits : Bool)
    (rules : Rules) (manager : DBManager) (disk : Disk) : Detector × DBManager × Disk :=
  let (_, manager, disk) := update library calls rules manager disk
  if ¬ sends then (detector.stop, manager, disk)
  else
    match load library manager disk with
    | (some _, disk) => ({ detector with scanner := false }.stop, manager, disk)
    | (none, disk) =>
      if inits then ({ detector with scanner := true }, manager, disk)
      else ({ detector with scanner := false }.stop, manager, disk)

/-! ## What is asked of an update -/

/-- An archive loads under a password, a version and a digest. -/
def Opens (passwd version sha256 archive : Bytes) : Prop :=
  (library.unzip archive passwd).2 = true ∧
    readVersion library (Directory.empty.write (library.unzip archive passwd).1) = some version ∧
      library.hex (library.sha256 archive) = sha256

/-- Some address serves an archive as announced. -/
def Offered (rules : Rules) : Prop :=
  ∃ address ∈ rules.addresses, ∃ archive, address.2.zip = .answered true (some archive) ∧
    Opens library rules.passwd rules.version rules.sha256 archive

structure Survives (calls : UpdateCalls) (rules : Rules) (manager : DBManager) (disk : Disk) :
    Prop where
  /-- What is announced is installed. -/
  installs : Offered library rules →
    (update library calls rules manager disk).1 = none ∧
      (update library calls rules manager disk).2.1.version = rules.version ∧
        (load library (update library calls rules manager disk).2.1
          (update library calls rules manager disk).2.2).1 = none
  /-- After an error the old database loads, and the detector goes on. -/
  keeps : (update library calls rules manager disk).1 ≠ none →
    (update library calls rules manager disk).2.1.version = manager.version ∧
      (load library (update library calls rules manager disk).2.1
        (update library calls rules manager disk).2.2).1 = none ∧
      ∀ detector : Detector, detector.running = true →
        (detector.receiveRules library calls true true rules manager disk).1.running = true

/-- The first archive with a right signature. -/
def served (rules : Rules) : Option Bytes :=
  rules.addresses.findSome? (fun address => archiveOf library address.2)

def storedName (rules : Rules) : Option Bytes :=
  rules.addresses.head?.map (fun address => fileName address.1)

/-- The archive that comes is stored under the name of the database and opens with the old password;
and it is the announced one where that is offered. Or it is cut off where the old archive
ends. -/
def Prepared (calls : UpdateCalls) (rules : Rules) (manager : DBManager) : Prop :=
  calls.ready = true ∧ storedName rules = some manager.dbname ∧
    ∃ archive, served library rules = some archive ∧
      ((calls.write = .whole ∧ (library.unzip archive manager.passwd).2 = true ∧
          (Offered library rules → Opens library rules.passwd rules.version rules.sha256 archive)) ∨
        ∃ count, calls.write = .short count ∧ ¬ Offered library rules ∧
          Opens library manager.passwd manager.version manager.sha256 (archive.take count))

end Model

section Results

variable {library : Library} {calls : UpdateCalls} {rules : Rules} {manager : DBManager}
  {disk : Disk}

theorem load_eq_none_iff (library : Library) (manager : DBManager) (disk : Disk) :
    (load library manager disk).1 = none ↔
      ∃ archive, disk.tmp (zipName manager.dbname) = some archive ∧
      Opens library manager.passwd manager.version manager.sha256 archive := by
  unfold load extract
  cases stored : disk.tmp (zipName manager.dbname) with
  | none => exact iff_of_false nofun (fun ⟨_, found, _⟩ => nomatch found)
  | some archive =>
    simp only [Option.some.injEq, exists_eq_left', Opens]
    cases whole : (library.unzip archive manager.passwd).2 with
    | false => simp
    | true =>
      simp only [if_true, true_and, getFileSha256, stored]
      cases read : readVersion library
          (Directory.empty.write (library.unzip archive manager.passwd).1) with
      | none => simp
      | some version =>
        simp only [Option.some.injEq]
        split
        next other => exact iff_of_false nofun (fun same => other same.1)
        next same =>
          split
          next other => exact iff_of_false nofun (fun equal => other equal.2)
          next equal => exact iff_of_true rfl ⟨not_not.mp same, not_not.mp equal⟩

theorem receiveRules_running {detector : Detector} (isRunning : detector.running = true) :
    (detector.receiveRules library calls true true rules manager disk).1.running = true ↔
      (load library (update library calls rules manager disk).2.1
        (update library calls rules manager disk).2.2).1 = none := by
  unfold Detector.receiveRules
  simp only [not_true_eq_false, if_false, if_true]
  generalize load library _ _ = loaded
  obtain ⟨fault, disk⟩ := loaded
  cases fault with
  | none => exact iff_of_true isRunning rfl
  | some fault => exact iff_of_false nofun nofun

theorem downloadLoop_eq (name : Bytes) (disk : Disk) (addresses : List (Bytes × Host)) :
    downloadLoop library calls name disk addresses =
      match addresses.findSome? (fun address => archiveOf library address.2) with
      | none => (some .failed, disk)
      | some archive =>
        match calls.write with
        | .closed => (some .io, disk)
        | .short count =>
          (some .io, { disk with tmp := disk.tmp.write [(name, archive.take count)] })
        | .whole => (none, { disk with tmp := disk.tmp.write [(name, archive)] }) := by
  induction addresses with
  | nil => rfl
  | cons address rest ih =>
    rw [downloadLoop, List.findSome?_cons]
    cases archiveOf library address.2 with
    | none => exact ih
    | some archive => rfl

variable {name content : Bytes}

theorem write_singleton_eq_some {directory : Directory} {other found : Bytes} :
    directory.write [(name, content)] other = some found ↔
      (other = name ∧ content = found) ∨ (other ≠ name ∧ directory other = some found) := by
  by_cases same : other = name
  · subst same
    simp [Directory.write]
  · simp [Directory.write, same]

theorem stored_iff {other found : Bytes} :
    Directory.empty.write [(zipName name, content)] (zipName other) = some found ↔
      other = name ∧ content = found := by
  rw [write_singleton_eq_some]
  simp [zipName, Directory.empty]

theorem load_ne_none (library : Library) (manager : DBManager)
    (empty : disk.tmp = Directory.empty) :
    (load library manager disk).1 ≠ none := by
  intro loads
  obtain ⟨_, found, _⟩ := (load_eq_none_iff library manager disk).mp loads
  rw [empty] at found
  cases found

theorem load_stored_iff (library : Library) (manager : DBManager)
    (tmp : disk.tmp = Directory.empty.write [(zipName name, content)]) :
    (load library manager disk).1 = none ↔ manager.dbname = name ∧
      Opens library manager.passwd manager.version manager.sha256 content := by
  rw [load_eq_none_iff, tmp]
  simp only [stored_iff]
  constructor
  · rintro ⟨_, ⟨isName, rfl⟩, opens⟩
    exact ⟨isName, opens⟩
  · rintro ⟨isName, opens⟩
    exact ⟨content, ⟨isName, rfl⟩, opens⟩

/-- What a real update leaves behind. -/
inductive Updated (library : Library) (calls : UpdateCalls) (rules : Rules) (manager : DBManager) :
    Option Fault × DBManager × Disk → Prop
  | nothing {fault : Fault} {disk : Disk} (empty : disk.tmp = Directory.empty)
      (unready : calls.ready = true → served library rules ≠ none → calls.write = .closed) :
      Updated library calls rules manager (some fault, manager, disk)
  | cut {fault : Fault} {name archive : Bytes} {count : Nat} {disk : Disk}
      (ready : calls.ready = true)
      (isNamed : storedName rules = some name) (isServed : served library rules = some archive)
      (short : calls.write = .short count)
      (tmp : disk.tmp = Directory.empty.write [(zipName name, archive.take count)]) :
      Updated library calls rules manager (some fault, manager, disk)
  | unopened {fault : Fault} {name archive : Bytes} {disk : Disk}
      (isNamed : storedName rules = some name)
      (isServed : served library rules = some archive) (whole : calls.write = .whole)
      (tmp : disk.tmp = Directory.empty.write [(zipName name, archive)])
      (unopened : manager.dbname = name → (library.unzip archive manager.passwd).2 = false) :
      Updated library calls rules manager (some fault, manager, disk)
  | installed {installed : DBManager} {archive : Bytes} {disk : Disk} (ready : calls.ready = true)
      (isNamed : storedName rules = some manager.dbname)
      (isServed : served library rules = some archive) (whole : calls.write = .whole)
      (tmp : disk.tmp = Directory.empty.write [(zipName manager.dbname, archive)])
      (opened : (library.unzip archive manager.passwd).2 = true)
      (isVersion : installed.version = rules.version) (isSha256 : installed.sha256 = rules.sha256)
      (isPasswd : installed.passwd = rules.passwd) (isName : installed.dbname = manager.dbname) :
      Updated library calls rules manager (none, installed, disk)

theorem update_updated (disk : Disk)
    (isNew : ¬ (rules.version = manager.version ∧ rules.sha256 = manager.sha256)) :
    Updated library calls rules manager (update library calls rules manager disk) := by
  rw [update, if_neg isNew]
  unfold download
  cases isAddresses : rules.addresses with
  | nil =>
    refine .nothing rfl (fun _ isServed => absurd ?_ isServed)
    rw [served, isAddresses]
    rfl
  | cons address rest =>
    have isNamed : storedName rules = some (fileName address.1) := by
      rw [storedName, isAddresses]
      rfl
    have isServed : served library rules = _ := congrArg (List.findSome? _) isAddresses
    cases ready : calls.ready with
    | false => exact .nothing rfl (fun isReady => nomatch ready.symm.trans isReady)
    | true =>
      simp only [if_true]
      rw [downloadLoop_eq]
      rw [← isServed]
      cases found : served library rules with
      | none => exact .nothing rfl (fun _ isFound => absurd found isFound)
      | some archive =>
        cases write : calls.write with
        | closed => exact .nothing rfl (fun _ _ => write)
        | short count => exact .cut ready isNamed found write rfl
        | whole =>
          -- the archive is stored; the file of the old name is extracted
          simp only [extract]
          cases stored : Directory.empty.write [(zipName (fileName address.1), archive)]
              (zipName manager.dbname) with
          | none =>
            refine .unopened isNamed found write rfl (fun isName => ?_)
            rw [stored_iff.mpr ⟨isName, rfl⟩] at stored
            cases stored
          | some content =>
            obtain ⟨isName, rfl⟩ := stored_iff.mp stored
            cases opened : (library.unzip archive manager.passwd).2 with
            | false =>
              simp only [opened, Bool.false_eq_true, if_false]
              exact .unopened isNamed found write rfl (fun _ => opened)
            | true =>
              rw [← isName] at isNamed ⊢
              simp only [opened, if_true]
              exact .installed ready isNamed found write rfl opened rfl rfl rfl rfl

theorem survives_iff : Survives library calls rules manager disk ↔ (Offered library rules →
        (update library calls rules manager disk).1 = none ∧
          (update library calls rules manager disk).2.1.version = rules.version ∧
            (load library (update library calls rules manager disk).2.1
              (update library calls rules manager disk).2.2).1 = none) ∧
      ((update library calls rules manager disk).1 ≠ none →
        (update library calls rules manager disk).2.1.version = manager.version ∧
          (load library (update library calls rules manager disk).2.1
            (update library calls rules manager disk).2.2).1 = none) := by
  constructor
  · intro survives
    exact ⟨survives.installs,
      fun failed => ⟨(survives.keeps failed).1, (survives.keeps failed).2.1⟩⟩
  · rintro ⟨installs, keeps⟩
    refine ⟨installs, fun failed => ?_⟩
    obtain ⟨isVersion, loads⟩ := keeps failed
    exact ⟨isVersion, loads, fun _ isRunning => (receiveRules_running isRunning).mpr loads⟩

theorem update_survives_iff (library : Library) (calls : UpdateCalls) (rules : Rules)
    (manager : DBManager) (disk : Disk) (loads : (load library manager disk).1 = none) :
    Survives library calls rules manager disk ↔
      (rules.version = manager.version ∧ rules.sha256 = manager.sha256) ∨
        Prepared library calls rules manager := by
  by_cases isOld : rules.version = manager.version ∧ rules.sha256 = manager.sha256
  · refine iff_of_true ?_ (.inl isOld)
    have unchanged : update library calls rules manager disk = (none, manager, disk) := if_pos isOld
    rw [survives_iff, unchanged]
    exact ⟨fun _ => ⟨rfl, isOld.1.symm, loads⟩, fun failed => absurd rfl failed⟩
  · rw [or_iff_right isOld, survives_iff]
    have updated : Updated library calls rules manager _ := update_updated disk isOld
    generalize update library calls rules manager disk = result at updated ⊢
    cases updated with
    | nothing empty unready =>
      refine iff_of_false ?_ ?_
      · rintro ⟨_, keeps⟩
        exact load_ne_none library manager empty (keeps (some_ne_none _)).2
      · rintro ⟨ready, _, archive, isServed, stored⟩
        have closed := unready ready (isServed ▸ some_ne_none archive)
        rcases stored with ⟨whole, _⟩ | ⟨_, short, _⟩
        · cases closed.symm.trans whole
        · cases closed.symm.trans short
    | cut ready isNamed isServed short tmp =>
      have nextLoad := load_stored_iff library manager tmp
      constructor
      · rintro ⟨installs, keeps⟩
        obtain ⟨isName, opens⟩ := nextLoad.mp (keeps (some_ne_none _)).2
        refine ⟨ready, isName ▸ isNamed, _, isServed, .inr ⟨_, short, ?_, opens⟩⟩
        exact fun offered => nomatch (installs offered).1
      · rintro ⟨_, isDbname, _, isServed', ⟨whole, _⟩ | ⟨_, short', notOffered, opens⟩⟩
        · cases short.symm.trans whole
        · cases short.symm.trans short'
          cases isServed.symm.trans isServed'
          cases isNamed.symm.trans isDbname
          exact ⟨fun offered => absurd offered notOffered,
            fun _ => ⟨rfl, nextLoad.mpr ⟨rfl, opens⟩⟩⟩
    | unopened isNamed isServed whole tmp unopened =>
      refine iff_of_false ?_ ?_
      · rintro ⟨_, keeps⟩
        obtain ⟨isName, opens⟩ :=
          (load_stored_iff library manager tmp).mp (keeps (some_ne_none _)).2
        exact nomatch (unopened isName).symm.trans opens.1
      · rintro ⟨_, isDbname, _, isServed', ⟨_, opened, _⟩ | ⟨_, short, _⟩⟩
        · cases isServed.symm.trans isServed'
          cases isNamed.symm.trans isDbname
          exact nomatch (unopened rfl).symm.trans opened
        · cases whole.symm.trans short
    | @installed next archive disk ready isNamed isServed whole tmp opened isVersion isSha256
        isPasswd isName =>
      have nextLoad := load_stored_iff library next tmp
      rw [isPasswd, isVersion, isSha256, and_iff_right isName] at nextLoad
      constructor
      · rintro ⟨installs, _⟩
        refine ⟨ready, isNamed, _, isServed, .inl ⟨whole, opened, fun offered => ?_⟩⟩
        exact nextLoad.mp (installs offered).2.2
      · rintro ⟨_, _, _, isServed', ⟨_, _, announced⟩ | ⟨_, short, _⟩⟩
        · cases isServed.symm.trans isServed'
          exact ⟨fun offered => ⟨rfl, isVersion, nextLoad.mpr (announced offered)⟩,
            fun failed => absurd rfl failed⟩
        · cases whole.symm.trans short

end Results

/-! ## Two updates -/

/-- Digests and texts are plain; the first byte of an archive is its password, the rest its
version. -/
def plainLibrary : Library where
  sha256 := id
  hex := id
  decode := some
  trim := id
  isText := fun _ => true
  unzip archive passwd := ([(versionFile, archive.drop 1)], archive.take 1 = passwd)

def oldManager : DBManager := ⟨[1], [0x61], [], [7, 1], [7]⟩

def oldDisk : Disk := ⟨Directory.empty.write [(zipName [0x61], [7, 1])], Directory.empty⟩

def allWorks : UpdateCalls := ⟨true, .whole⟩

def sameName : Rules :=
  ⟨[2], [7, 2], [7], [([0x61], ⟨.answered true (some [7, 2]), .answered true (some [7, 2])⟩)]⟩

theorem update_survives_sameName : (load plainLibrary oldManager oldDisk).1 = none ∧
      Survives plainLibrary allWorks sameName oldManager oldDisk := by
  have loads : (load plainLibrary oldManager oldDisk).1 = none := by decide
  have opens : Opens plainLibrary [7] [2] [7, 2] [7, 2] := ⟨by decide, by decide, rfl⟩
  refine ⟨loads,
    (update_survives_iff plainLibrary allWorks sameName oldManager oldDisk loads).mpr ?_⟩
  exact .inr ⟨rfl, by decide, [7, 2], by decide, .inl ⟨rfl, by decide, fun _ => opens⟩⟩

def unreachable : Rules := ⟨[2], [7, 2], [7], [([0x61], ⟨.lost, .lost⟩)]⟩

theorem failed_update_stops_detector : (load plainLibrary oldManager oldDisk).1 = none ∧
      (update plainLibrary allWorks unreachable oldManager oldDisk).1 = some .failed ∧
      (load plainLibrary (update plainLibrary allWorks unreachable oldManager oldDisk).2.1
        (update plainLibrary allWorks unreachable oldManager oldDisk).2.2).1 = some .notFound ∧
      (fresh.receiveRules plainLibrary allWorks true true unreachable oldManager
        oldDisk).1.running =
        false := by
  decide

end Elkeid.Scanner
