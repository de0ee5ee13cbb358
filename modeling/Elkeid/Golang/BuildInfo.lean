import Elkeid.Foundations.Separated
import Elkeid.Foundations.Text
import Elkeid.Foundations.Varint

/-!
# The modules of a Go program

`readModuleInfo` of `rasp/golang/go/symbol/build_info.cpp`. The toolchain describes a program by
lines of fields between tabs: its path, the main module and the dependencies, each with path,
version and sum, and a line of the same form behind a module that is replaced. A module that is
replaced is printed without its sum, and the reader takes only lines with four fields.
-/

namespace Elkeid.Golang

open Foundations Varint Separated List Option Nat

def tab : UInt8 := 0x09
def newline : UInt8 := 0x0a

def wordPath : Bytes := Text.ofChars ['p', 'a', 't', 'h']
def wordMod : Bytes := Text.ofChars ['m', 'o', 'd']
def wordDep : Bytes := Text.ofChars ['d', 'e', 'p']
def wordReplace : Bytes := Text.ofChars ['=', '>']
def wordBuild : Bytes := Text.ofChars ['b', 'u', 'i', 'l', 'd']

/-! ## The two strings -/

/-- The loop of `readUVarInt`, with the number of turns left, inside the bytes that are there. The
bits of all bytes but the last are kept in 32 bits; the last byte is added in 64. -/
def readUVarIntFrom : Nat → BitVec 32 → Nat → Bytes → Option (BitVec 64 × Bytes)
  | 0, _, _, _ => none
  | _ + 1, _, _, [] => none
  | left + 1, v, shift, byte :: p =>
    let b := BitVec.ofNat 64 byte.toNat
    if b < 0x80 then
      if left = 0 ∧ b > 1 then none else some (v.setWidth 64 ||| b <<< shift, p)
    else readUVarIntFrom left (v ||| ((b &&& 0x7f) <<< shift).setWidth 32) (shift + 7) p

/-- `MAX_VAR_INT_LENGTH` is 10. -/
def readUVarInt (p : Bytes) : Option (BitVec 64 × Bytes) := readUVarIntFrom 10 0 0 p

def pointerFree (p : Bytes) : Option (Bytes × Bytes) :=
  (readUVarInt p).bind (fun version =>
    (readUVarInt (version.2.drop version.1.toNat)).map (fun modInfo =>
      (version.2.take version.1.toNat, modInfo.2.take modInfo.1.toNat)))

/-! ## The reader -/

structure PlainModule where
  path : Bytes
  version : Bytes
  sum : Bytes
  deriving DecidableEq

structure Module extends PlainModule where
  replace : Option PlainModule
  deriving DecidableEq

structure ModuleInfo where
  path : Bytes
  main : Module
  deps : List Module
  deriving DecidableEq

def ModuleInfo.empty : ModuleInfo := ⟨[], ⟨⟨[], [], []⟩, none⟩, []⟩

def startsWith (text word : Bytes) : Bool := word.isPrefixOf text

def readEntry (m : Bytes) : Option PlainModule :=
  match m.splitOn tab with
  | [_, path, version, sum] => some ⟨path, version, sum⟩
  | _ => none

/-- One line. There is no result when a replacement is attached to the last element of an empty
list. -/
def readLine (info : ModuleInfo) (m : Bytes) : Option ModuleInfo :=
  if startsWith m wordPath then
    match m.splitOn tab with
    | [_, path] => some { info with path }
    | _ => some info
  else if startsWith m wordMod then
    match readEntry m with
    | none => some info
    | some module => some { info with main := ⟨module, none⟩ }
  else if startsWith m wordDep then
    match readEntry m with
    | none => some info
    | some module => some { info with deps := info.deps ++ [⟨module, none⟩] }
  else if startsWith m wordReplace then
    match readEntry m with
    | none => some info
    | some module =>
      match info.deps.getLast? with
      | none => none
      | some last =>
        some { info with deps := info.deps.dropLast ++ [{ last with replace := some module }] }
  else some info

def readLines : ModuleInfo → List Bytes → Option ModuleInfo
  | info, [] => some info
  | info, m :: rest => (readLine info m).bind (fun info => readLines info rest)

/-- What is returned, and what `mModuleInfo` becomes. -/
def readModuleInfo (info : ModuleInfo) (modInfo : Bytes) : Option (Bool × ModuleInfo) :=
  if modInfo.length < 32 then some (false, info)
  else
    (readLines info (((modInfo.drop 16).take (modInfo.length - 32)).splitOn newline)).map
      (fun info => (true, info))

/-! ## What the toolchain prints -/

structure Field where
  bytes : Bytes
  noTab : tab ∉ bytes
  noNewline : newline ∉ bytes

/-- The line of a module, or of what replaces it. It may have no sum. -/
structure ModuleLine where
  path : Field
  version : Field
  sum : Option Field
  named : path.bytes ≠ []

structure Described where
  line : ModuleLine
  replace : Option ModuleLine

/-- A description. The lines with settings of the build are behind the modules. -/
structure Description where
  path : Field
  main : Option Described
  deps : List Described
  build : List Field

def ModuleLine.text (word : Bytes) (line : ModuleLine) : Bytes :=
  [tab].intercalate
    (word :: line.path.bytes :: line.version.bytes :: (line.sum.map Field.bytes).toList)

def Described.lines (word : Bytes) (described : Described) : List Bytes :=
  described.line.text word :: (described.replace.map (ModuleLine.text wordReplace)).toList

def Description.lines (description : Description) : List Bytes :=
  [tab].intercalate [wordPath, description.path.bytes] ::
    ((description.main.map (Described.lines wordMod)).getD [] ++
      description.deps.flatMap (Described.lines wordDep) ++
      description.build.map (fun setting => [tab].intercalate [wordBuild, setting.bytes]))

/-- The description between its two marks of sixteen bytes. -/
def Description.modInfo (description : Description) (start finish : Bytes) : Bytes :=
  start ++ terminated newline description.lines ++ finish

def ModuleLine.plainModule (line : ModuleLine) : PlainModule where
  path := line.path.bytes
  version := line.version.bytes
  sum := (line.sum.map Field.bytes).getD []

def Described.module (described : Described) : Module where
  toPlainModule := described.line.plainModule
  replace := described.replace.map ModuleLine.plainModule

def Description.info (description : Description) : ModuleInfo where
  path := description.path.bytes
  main := (description.main.map Described.module).getD ModuleInfo.empty.main
  deps := description.deps.map Described.module

/-! ## Lengths -/

theorem last_byte : ∀ k < 128,
    BitVec.ofNat 64 (UInt8.ofNat k).toNat = BitVec.ofNat 64 k ∧ BitVec.ofNat 64 k < 0x80 := by
  decide +kernel

theorem other_byte : ∀ k < 128,
    BitVec.ofNat 64 (UInt8.ofNat (k + 128)).toNat &&& 0x7f = BitVec.ofNat 64 k ∧
      ¬ BitVec.ofNat 64 (UInt8.ofNat (k + 128)).toNat < 0x80 := by
  decide +kernel

theorem setWidth_shift {group shift : Nat} (fits : group * 2 ^ shift < 2 ^ 32) :
    (BitVec.ofNat 64 group <<< shift).setWidth 32 = BitVec.ofNat 32 group <<< shift := by
  have small : group < 2 ^ 32 :=
    lt_of_le_of_lt (Nat.le_mul_of_pos_right group (Nat.two_pow_pos shift)) fits
  apply BitVec.eq_of_toNat_eq
  rw [BitVec.toNat_setWidth, BitVec.toNat_shiftLeft, BitVec.toNat_shiftLeft, BitVec.toNat_ofNat,
    BitVec.toNat_ofNat, mod_eq_of_lt small, mod_eq_of_lt (by omega : group < 2 ^ 64),
    shiftLeft_eq, mod_eq_of_lt fits, mod_eq_of_lt (by omega : group * 2 ^ shift < 2 ^ 64),
    mod_eq_of_lt fits]

theorem readUVarIntFrom_encode {left low shift n : Nat} (turns : 7 * left + shift = 70)
    (narrow : shift < 32) (below : low < 2 ^ shift) (fits : low + n * 2 ^ shift < 2 ^ 32)
    (rest : Bytes) :
    readUVarIntFrom left (BitVec.ofNat 32 low) shift (encode n ++ rest) =
      some (BitVec.ofNat 64 (low + n * 2 ^ shift), rest) := by
  induction n using Nat.strongRecOn generalizing left low shift with
  | ind n ih =>
    obtain ⟨left, rfl⟩ := exists_eq_succ_of_ne_zero (by omega : left ≠ 0)
    by_cases small : n < 128
    · obtain ⟨value, short⟩ := last_byte n small
      have wide : (BitVec.ofNat 32 low).setWidth 64 = BitVec.ofNat 64 low := by
        apply BitVec.eq_of_toNat_eq
        rw [BitVec.toNat_setWidth, BitVec.toNat_ofNat, BitVec.toNat_ofNat,
          mod_eq_of_lt (by omega : low < 2 ^ 32)]
      rw [encode_of_lt small, singleton_append, readUVarIntFrom, value, if_pos short,
        if_neg (by omega), wide, or_shift below (by omega)]
    · obtain ⟨group, long⟩ := other_byte (n % 128) (Nat.mod_lt n (by decide))
      obtain ⟨narrowNext, belowNext, sum⟩ := next_shift below (Nat.le_of_not_lt small) fits
      rw [encode_of_ge (by omega), cons_append, readUVarIntFrom, if_neg long, group,
        setWidth_shift (by omega), or_shift below (by omega),
        ih (n / 128) (by omega) (by omega) narrowNext belowNext (by omega), sum]

theorem readUVarInt_encode {n : Nat} (fits : n < 2 ^ 32) (rest : Bytes) :
    readUVarInt (encode n ++ rest) = some (BitVec.ofNat 64 n, rest) := by
  have read := @readUVarIntFrom_encode 10 0 0 n rfl (by decide) (by decide) (by omega) rest
  rw [pow_zero, mul_one, zero_add] at read
  exact read

theorem pointerFree_eq {version modInfo : Bytes} (versionFits : version.length < 2 ^ 32)
    (modInfoFits : modInfo.length < 2 ^ 32) (rest : Bytes) :
    pointerFree (encode version.length ++ (version ++
      (encode modInfo.length ++ (modInfo ++ rest)))) = some (version, modInfo) := by
  have toNat {n : Nat} (fits : n < 2 ^ 32) : (BitVec.ofNat 64 n).toNat = n := by
    rw [BitVec.toNat_ofNat, mod_eq_of_lt (by omega)]
  rw [pointerFree, readUVarInt_encode versionFits, bind_some]
  rw [toNat versionFits, drop_left, readUVarInt_encode modInfoFits, map_some,
    toNat modInfoFits, take_left, take_left]

theorem pointerFree_eq_go : pointerFree (encode 2 ++ ([0x67, 0x6f] ++
    (encode 0 ++ ([] ++ [])))) = some ([0x67, 0x6f], []) :=
  @pointerFree_eq [0x67, 0x6f] [] (by decide) (by decide) []

/-! ## One line -/

variable {info : ModuleInfo} {word : Bytes}

theorem splitOn_intercalate_fields {fields : List Field} (plain : tab ∉ word) :
    ([tab].intercalate (word :: fields.map Field.bytes)).splitOn tab =
      word :: fields.map Field.bytes := by
  apply splitOn_intercalate tab
  · intro text membership
    rcases mem_cons.mp membership with rfl | inFields
    · exact plain
    · obtain ⟨field, -, rfl⟩ := mem_map.mp inFields
      exact field.noTab
  · exact cons_ne_nil _ _

theorem ModuleLine.text_eq (word : Bytes) (line : ModuleLine) : line.text word =
      [tab].intercalate
        (word :: (line.path :: line.version :: line.sum.toList).map Field.bytes) := by
  cases sum : line.sum <;> simp [ModuleLine.text, sum]

theorem ModuleLine.text_append (word : Bytes) (line : ModuleLine) :
    ∃ rest, line.text word = word ++ rest := by
  rw [ModuleLine.text, intercalate_cons_cons, append_assoc]
  exact ⟨_, rfl⟩

theorem readEntry_text (plain : tab ∉ word) (line : ModuleLine) :
    readEntry (line.text word) = line.sum.map (fun _ => line.plainModule) := by
  rw [readEntry, line.text_eq, splitOn_intercalate_fields plain]
  cases sum : line.sum with
  | none => rfl
  | some field => simp [ModuleLine.plainModule, sum]

theorem readLine_path (info : ModuleInfo) (path : Field) :
    readLine info ([tab].intercalate [wordPath, path.bytes]) =
      some { info with path := path.bytes } := by
  have tokens := @splitOn_intercalate_fields wordPath [path] (by decide)
  have isPath : startsWith ([tab].intercalate [wordPath, path.bytes]) wordPath = true := by
    rw [intercalate_cons_cons]
    rfl
  rw [readLine, if_pos isPath]
  simp only [map_cons, map_nil] at tokens
  rw [tokens]

theorem readLine_build (info : ModuleInfo) (setting : Field) :
    readLine info ([tab].intercalate [wordBuild, setting.bytes]) = some info := by
  rw [intercalate_cons_cons]
  rfl

theorem readLine_mod (info : ModuleInfo) (line : ModuleLine) : readLine info (line.text wordMod) =
      some (if line.sum.isSome then { info with main := ⟨line.plainModule, none⟩ } else info) := by
  obtain ⟨rest, shape⟩ := line.text_append wordMod
  obtain ⟨notPath, isMod⟩ : startsWith (line.text wordMod) wordPath = false ∧
      startsWith (line.text wordMod) wordMod = true := by
    rw [shape]
    exact ⟨rfl, rfl⟩
  rw [readLine, notPath, isMod, if_neg Bool.false_ne_true, if_pos rfl, readEntry_text (by decide)]
  cases line.sum <;> rfl

theorem readLine_dep (info : ModuleInfo) (line : ModuleLine) : readLine info (line.text wordDep) =
      some (if line.sum.isSome then { info with deps := info.deps ++ [⟨line.plainModule, none⟩] }
        else info) := by
  obtain ⟨rest, shape⟩ := line.text_append wordDep
  obtain ⟨notPath, notMod, isDep⟩ : startsWith (line.text wordDep) wordPath = false ∧
      startsWith (line.text wordDep) wordMod = false ∧
      startsWith (line.text wordDep) wordDep = true := by
    rw [shape]
    exact ⟨rfl, rfl, rfl⟩
  rw [readLine, notPath, notMod, isDep, if_neg Bool.false_ne_true, if_neg Bool.false_ne_true,
    if_pos rfl, readEntry_text (by decide)]
  cases line.sum <;> rfl

theorem readLine_replace (info : ModuleInfo) (line : ModuleLine) :
    readLine info (line.text wordReplace) = if line.sum.isSome then
        info.deps.getLast?.map (fun last =>
          { info with
            deps := info.deps.dropLast ++ [{ last with replace := some line.plainModule }] })
      else some info := by
  obtain ⟨rest, shape⟩ := line.text_append wordReplace
  obtain ⟨notPath, notMod, notDep, isReplace⟩ :
      startsWith (line.text wordReplace) wordPath = false ∧
      startsWith (line.text wordReplace) wordMod = false ∧
      startsWith (line.text wordReplace) wordDep = false ∧
      startsWith (line.text wordReplace) wordReplace = true := by
    rw [shape]
    exact ⟨rfl, rfl, rfl, rfl⟩
  rw [readLine, notPath, notMod, notDep, isReplace, if_neg Bool.false_ne_true,
    if_neg Bool.false_ne_true, if_neg Bool.false_ne_true, if_pos rfl, readEntry_text (by decide)]
  cases line.sum with
  | none => rfl
  | some sum => cases info.deps.getLast? <;> rfl

/-! ## All lines -/

@[simp]
theorem readLines_append (info : ModuleInfo) (first second : List Bytes) :
    readLines info (first ++ second) =
      (readLines info first).bind (fun info => readLines info second) := by
  induction first generalizing info with
  | nil => rfl
  | cons m rest ih =>
    rw [cons_append, readLines, readLines, bind_assoc]
    simp [ih]

theorem readLines_build (info : ModuleInfo) (settings : List Field) :
    readLines info (settings.map (fun setting => [tab].intercalate [wordBuild, setting.bytes])) =
      some info := by
  induction settings with
  | nil => rfl
  | cons setting rest ih =>
    rw [map_cons, readLines, readLine_build, bind_some, ih]

theorem readLines_main (described : Described) (none : info.deps = []) :
    readLines info (described.lines wordMod) =
      if described.replace.any (fun line => line.sum.isSome) then Option.none
      else some (if described.line.sum.isSome then
        { info with main := ⟨described.line.plainModule, Option.none⟩ } else info) := by
  rw [Described.lines, readLines, readLine_mod, bind_some]
  cases described.replace with
  | none => rfl
  | some line =>
    have stillNone : (if described.line.sum.isSome then
        { info with main := ⟨described.line.plainModule, Option.none⟩ } else info).deps = [] := by
      split
      · exact none
      · exact none
    rw [map_some, toList_some, readLines, readLine_replace, stillNone]
    cases sum : line.sum <;> simp [sum, readLines]

def Described.readAs (described : Described) : Module where
  toPlainModule := described.line.plainModule
  replace := described.replace.bind (fun line => line.sum.map (fun _ => line.plainModule))

theorem readLines_dep (info : ModuleInfo) {described : Described}
    (taken : described.line.sum.isSome) :
    readLines info (described.lines wordDep) =
      some { info with deps := info.deps ++ [described.readAs] } := by
  rw [Described.lines, readLines, readLine_dep, bind_some, if_pos taken, Described.readAs]
  cases described.replace with
  | none => rfl
  | some line =>
    rw [map_some, toList_some, readLines, readLine_replace]
    cases sum : line.sum <;> simp [sum, readLines]

theorem readLines_dep_dropped {next : ModuleInfo} {described : Described}
    (dropped : described.line.sum.isSome = false)
    (read : readLines info (described.lines wordDep) = some next) :
    next.deps.length = info.deps.length := by
  rw [Described.lines, readLines, readLine_dep, bind_some, if_neg (by rw [dropped]; decide)] at read
  cases replace : described.replace with
  | none =>
    rw [replace] at read
    cases read
    rfl
  | some line =>
    rw [replace, map_some, toList_some, readLines, readLine_replace] at read
    obtain ⟨afterLine, lineRead, ⟨⟩⟩ := bind_eq_some_iff.mp read
    split at lineRead
    next =>
      obtain ⟨last, found, rfl⟩ := map_eq_some_iff.mp lineRead
      have positive : info.deps ≠ [] := by
        intro isNone
        rw [isNone] at found
        cases found
      have := length_pos_iff.mpr positive
      simp only [length_append, length_dropLast, length_singleton]
      omega
    next =>
      cases lineRead
      rfl

theorem readLines_deps (info : ModuleInfo) {deps : List Described}
    (taken : ∀ described ∈ deps, described.line.sum.isSome) :
    readLines info (deps.flatMap (Described.lines wordDep)) =
      some { info with deps := info.deps ++ deps.map Described.readAs } := by
  induction deps generalizing info with
  | nil => simp [readLines]
  | cons described rest ih =>
    obtain ⟨isTaken, restTaken⟩ := forall_mem_cons.mp taken
    rw [flatMap_cons, readLines_append, readLines_dep info isTaken, bind_some,
      ih _ restTaken, map_cons, append_assoc]
    rfl

theorem taken_of_length {next : ModuleInfo} {deps : List Described}
    (read : readLines info (deps.flatMap (Described.lines wordDep)) = some next) :
    next.deps.length ≤ info.deps.length + deps.length ∧
      (next.deps.length = info.deps.length + deps.length →
        ∀ described ∈ deps, described.line.sum.isSome) := by
  induction deps generalizing info with
  | nil =>
    cases read
    exact ⟨le_refl _, fun _ described membership => absurd membership not_mem_nil⟩
  | cons described rest ih =>
    rw [flatMap_cons, readLines_append] at read
    obtain ⟨middle, readFirst, readRest⟩ := bind_eq_some_iff.mp read
    obtain ⟨shorter, whenEqual⟩ := ih readRest
    rw [length_cons]
    cases isTaken : described.line.sum.isSome with
    | true =>
      rw [readLines_dep info isTaken] at readFirst
      cases readFirst
      rw [length_append, length_singleton] at shorter whenEqual
      refine ⟨by omega, ?_⟩
      intro equal
      exact forall_mem_cons.mpr ⟨isTaken, whenEqual (by omega)⟩
    | false =>
      have sameLength := readLines_dep_dropped isTaken readFirst
      exact ⟨by omega, by omega⟩

/-! ## Descriptions -/

theorem newline_not_mem_fields {fields : List Field} (plain : newline ∉ word) :
    newline ∉ [tab].intercalate (word :: fields.map Field.bytes) := by
  intro membership
  rcases mem_intercalate membership with isTab | ⟨text, listed, inside⟩
  · exact absurd isTab (by decide)
  · rcases mem_cons.mp listed with rfl | inFields
    · exact plain inside
    · obtain ⟨field, -, rfl⟩ := mem_map.mp inFields
      exact field.noNewline inside

theorem Described.newline_not_mem (plain : newline ∉ word) (described : Described) :
    ∀ line ∈ described.lines word, newline ∉ line := by
  intro line membership
  rcases mem_cons.mp membership with rfl | isReplace
  · rw [ModuleLine.text_eq]
    exact newline_not_mem_fields plain
  · obtain ⟨replace, -, rfl⟩ := map_eq_some_iff.mp (mem_toList.mp isReplace)
    rw [ModuleLine.text_eq]
    exact newline_not_mem_fields (by decide)

theorem Description.newline_not_mem (description : Description) :
    ∀ line ∈ description.lines, newline ∉ line := by
  intro line membership
  rcases mem_cons.mp membership with rfl | others
  · exact @newline_not_mem_fields wordPath [description.path] (by decide)
  · rcases mem_append.mp others with modules | isBuild
    · rcases mem_append.mp modules with inMain | inDeps
      · cases main : description.main with
        | none =>
          rw [main] at inMain
          exact absurd inMain not_mem_nil
        | some described =>
          rw [main] at inMain
          exact described.newline_not_mem (by decide) line inMain
      · obtain ⟨described, -, inLines⟩ := mem_flatMap.mp inDeps
        exact described.newline_not_mem (by decide) line inLines
    · obtain ⟨setting, -, rfl⟩ := mem_map.mp isBuild
      exact @newline_not_mem_fields wordBuild [setting] (by decide)

theorem readModuleInfo_eq (description : Description) {start finish : Bytes}
    (startLength : start.length = 16) (finishLength : finish.length = 16) :
    readModuleInfo .empty (description.modInfo start finish) =
      (readLines .empty description.lines).map (fun info => (true, info)) := by
  have length : (description.modInfo start finish).length =
      32 + (terminated newline description.lines).length := by
    rw [Description.modInfo, length_append, length_append]
    omega
  have inner : ((description.modInfo start finish).drop 16).take
      ((description.modInfo start finish).length - 32) = terminated newline description.lines := by
    rw [length, Nat.add_sub_cancel_left, Description.modInfo, append_assoc,
      drop_left' startLength, take_left]
  have ignored (info : ModuleInfo) : readLines info [[]] = some info := rfl
  rw [readModuleInfo, if_neg (by omega), inner, splitOn_terminated description.newline_not_mem,
    readLines_append]
  simp [ignored]

def Description.readMain (description : Description) : Module :=
  match description.main with
  | some described =>
    if described.line.sum.isSome then ⟨described.line.plainModule, none⟩ else ModuleInfo.empty.main
  | none => ModuleInfo.empty.main

def Description.readFront (description : Description) : ModuleInfo :=
  ⟨description.path.bytes, description.readMain, []⟩

theorem readLines_front (description : Description) : readLines .empty description.lines =
      if (description.main.bind Described.replace).any (fun line => line.sum.isSome) then none
      else readLines description.readFront
        (description.deps.flatMap (Described.lines wordDep)) := by
  rw [Description.lines, readLines, readLine_path, bind_some, readLines_append, readLines_append]
  simp only [readLines_build, bind_fun_some]
  cases main : description.main with
  | none => simp [readLines, Description.readFront, Description.readMain, main, ModuleInfo.empty]
  | some described =>
    rw [map_some, getD_some, readLines_main described rfl, bind_some]
    split
    next => rfl
    next =>
      rw [bind_some, Description.readFront, Description.readMain, main]
      dsimp only
      split <;> rfl

/-- Every line has a sum, and the main module is not replaced. -/
def Description.Summed (description : Description) : Prop :=
  (∀ described, description.main = some described →
    described.line.sum.isSome ∧ described.replace = none) ∧
  ∀ described ∈ description.deps, described.line.sum.isSome ∧
    ∀ line, described.replace = some line → line.sum.isSome

theorem readAs_eq_module_iff (described : Described) :
    described.readAs = described.module ↔ ∀ line, described.replace = some line →
      line.sum.isSome := by
  cases replace : described.replace with
  | none => simp [Described.readAs, Described.module, replace]
  | some line => cases sum : line.sum <;> simp [Described.readAs, Described.module, replace, sum]

theorem readMain_eq_iff (description : Description) :
    description.readMain = (description.main.map Described.module).getD ModuleInfo.empty.main ↔
      ∀ described, description.main = some described →
        described.line.sum.isSome ∧ described.replace = none := by
  cases main : description.main with
  | none => simp [Description.readMain, main]
  | some described =>
    have named := described.line.named
    cases sum : described.line.sum <;> cases replace : described.replace <;>
        simp [Description.readMain, main, sum, replace, Described.module, ModuleInfo.empty,
          ModuleLine.plainModule, Ne.symm named]

/-- A description is read as it is, without an access to an empty list, if and only if every line
of a module and of a replacement has a sum and the main module is not replaced. -/
theorem readModuleInfo_exact_iff (description : Description) {start finish : Bytes}
    (startLength : start.length = 16) (finishLength : finish.length = 16) :
    readModuleInfo .empty (description.modInfo start finish) = some (true, description.info) ↔
      description.Summed := by
  have result : readModuleInfo .empty (description.modInfo start finish) =
      some (true, description.info) ↔
      readLines .empty description.lines = some description.info := by
    rw [readModuleInfo_eq description startLength finishLength]
    simp
  rw [result, readLines_front]
  constructor
  · intro read
    split at read
    next => cases read
    next =>
      have taken := (taken_of_length read).2 (by simp [Description.readFront, Description.info])
      rw [readLines_deps _ taken] at read
      simp only [Description.readFront, Description.info, nil_append, Option.some.injEq,
        ModuleInfo.mk.injEq, true_and] at read
      refine ⟨(readMain_eq_iff description).mp read.1, ?_⟩
      intro described membership
      refine ⟨taken described membership, (readAs_eq_module_iff described).mp ?_⟩
      exact map_inj_left.mp read.2 described membership
  · rintro ⟨mainSummed, depsSummed⟩
    have notReplaced : (description.main.bind Described.replace).any (fun line => line.sum.isSome) =
        false := by
      cases main : description.main with
      | none => rfl
      | some described => rw [bind_some, (mainSummed described main).2, any_none]
    rw [notReplaced, if_neg Bool.false_ne_true,
      readLines_deps _ (fun described membership => (depsSummed described membership).1)]
    simp only [Description.readFront, Description.info, nil_append, Option.some.injEq,
      ModuleInfo.mk.injEq, true_and]
    refine ⟨(readMain_eq_iff description).mpr mainSummed, map_inj_left.mpr ?_⟩
    intro described membership
    exact (readAs_eq_module_iff described).mpr (depsSummed described membership).2

def letter (i : Fin 26) : Field where
  bytes := [UInt8.ofNat (0x61 + i)]
  noTab := by
    revert i
    decide
  noNewline := by
    revert i
    decide

def sampleLine (path : Fin 26) (sum : Option (Fin 26)) : ModuleLine :=
  ⟨letter path, letter 21, sum.map letter, cons_ne_nil _ _⟩

def sampleDescription : Description where
  path := letter 15
  main := some ⟨sampleLine 12 (some 0), none⟩
  deps := [⟨sampleLine 3 (some 1), none⟩, ⟨sampleLine 4 (some 2), some (sampleLine 5 (some 3))⟩]
  build := [letter 18]

theorem sampleDescription_read : sampleDescription.Summed ∧
      readModuleInfo .empty (sampleDescription.modInfo (replicate 16 0) (replicate 16 0)) =
        some (true, sampleDescription.info) := by
  have summed : sampleDescription.Summed := by
    refine ⟨?_, ?_⟩
    · rintro described ⟨⟩
      exact ⟨rfl, rfl⟩
    · simp [sampleDescription, sampleLine]
  exact ⟨summed, (readModuleInfo_exact_iff sampleDescription (by decide) (by decide)).mpr summed⟩

/-- Module e is replaced by f, so its line has no sum. As the only dependency it makes the reader
access the last element of an empty list. Behind module d it is dropped, and d is taken to be
replaced by f. -/
theorem replacedModule_misread :
    let replaced : Described := ⟨sampleLine 4 none, some (sampleLine 5 (some 3))⟩
    let other : Described := ⟨sampleLine 3 (some 1), none⟩
    let read := fun deps : List Described => readModuleInfo .empty
      (Description.modInfo ⟨letter 15, none, deps, []⟩ (replicate 16 0) (replicate 16 0))
    read [replaced] = none ∧ (read [other, replaced]).map (fun result => result.2.deps) =
        some [⟨(sampleLine 3 (some 1)).plainModule, some (sampleLine 5 (some 3)).plainModule⟩] := by
  decide +kernel

end Elkeid.Golang
