import Elkeid.Agent.Download

/-!
# Fetching an executable, call by call

`Download` of `agent/utils/download.go` and the two ways to unpack a body in `decompress.go` over
a tree with directories and their modes, one system call a step. Every call has an outcome of its
own. The calls that look at the tree and do not change it are seen as one that is quiet.
-/

namespace Elkeid.Agent.Unpacking

open Foundations

inductive Node where
  | file (content : Bytes)
  | dir (mode : BitVec 12)
  deriving DecidableEq

abbrev Tree := Path → Option Node

inductive Call where
  | quiet
  | put (path : Path) (node : Node)
  /-- `os.RemoveAll`, which leaves what it cannot delete -/
  | removeAll (root : Path) (kept : Path → Bool)

def Call.apply (tree : Tree) : Call → Tree
  | .quiet => tree
  | .put path node => Function.update tree path (some node)
  | .removeAll root kept =>
    fun path => if root.isPrefixOf path ∧ kept path = false then none else tree path

/-- One directory of `os.MkdirAll`; `none` is an error. -/
def mkdir (tree : Tree) (path : Path) (mode : BitVec 12) : Option Call :=
  match tree path with
  | some (.dir _) => some .quiet
  | some (.file _) => none
  | none => some (.put path (.dir mode))

/-- `os.Chmod` of a directory; the source does not look at its error. -/
def chmod (tree : Tree) (path : Path) (mode : BitVec 12) : Call :=
  match tree path with
  | some (.dir _) => .put path (.dir mode)
  | _ => .quiet

/-- `os.OpenFile` with `O_CREATE`, `O_RDWR` and `O_TRUNC`; `none` is an error. -/
def openFile (tree : Tree) (path : Path) : Option Call :=
  match tree path.dir, tree path with
  | some (.dir _), some (.dir _) => none
  | some (.dir _), _ => some (.put path (.file []))
  | _, _ => none

inductive Outcome where
  | fails
  | works
  | answers (answer : Answer)
  /-- a copy that ends after so many bytes -/
  | copies (count : Nat)
  | removes (kept : Path → Bool)

/-- The verified body, as its reader gives it. -/
inductive Package where
  | pending
  | archive (opened : Archive)
  | plain (body : Bytes)

inductive Phase where
  /-- opening and hashing what stands at the destination -/
  | start
  | asking (checksum : Bytes) (err : Option Fault) (urls : List Bytes)
  /-- `os.MkdirAll(root, …)`, by what is made and what is not -/
  | makeRoot (made rest : Path)
  | setMode
  | openDst (body : Bytes)
  /-- `tr.Next()` -/
  | extract (left : List Entry)
  /-- `os.MkdirAll(target, 0755)` -/
  | makeDir (made rest : Path) (left : List Entry)
  | openTarget (target : Path) (content : Bytes) (intact : Bool) (left : List Entry)
  /-- `io.Copy`; the entries that are left when it copies from an archive -/
  | copy (target : Path) (content : Bytes) (intact : Bool) (left : Option (List Entry))
  /-- the deferred function has an error -/
  | cleanup (fault : Fault)
  | ended (err : Option Fault)

structure State where
  phase : Phase
  package : Package
  tree : Tree

def State.begin (tree : Tree) : State := ⟨.start, .pending, tree⟩

namespace State

def go (state : State) (call : Call) (phase : Phase) : State × Call :=
  ({ state with phase := phase, tree := call.apply state.tree }, call)

def turn (state : State) (phase : Phase) : State × Call := state.go .quiet phase

end State

section Parameters

variable (hash : Bytes → Bytes) (unpack : Bytes → Option Archive) (umask : BitVec 12)
  (dst : Path) (config : Config)

def begin (state : State) (outcome : Outcome) (checksum : Bytes) : State × Call :=
  match outcome, state.tree dst with
  | .works, some (.file content) =>
    if hash content = checksum then state.turn (.ended none)
    else state.turn (.asking checksum none config.downloadUrls)
  | _, _ => state.turn (.asking checksum (some .os) config.downloadUrls)

def receive (state : State) (body : Bytes) : State × Call :=
  if config.type = tarGz then
    match unpack body with
    | none => state.turn (.ended (some .gzip))
    | some opened => { state with package := .archive opened }.turn (.makeRoot [] dst.dir)
  else { state with package := .plain body }.turn (.makeRoot [] dst.dir)

/-- What follows when the directory of the destination is made. -/
def Package.next : Package → Phase
  | .pending => .ended none
  | .archive _ => .setMode
  | .plain body => .openDst body

/-- The mode `os.MkdirAll` gives the directory of the destination. -/
def Package.rootMode : Package → BitVec 12
  | .plain _ => 0o0700
  | _ => 0o0701

/-- `os.MkdirAll` goes on with the next name, or fails and `failed` is next. -/
def makeNext (state : State) (outcome : Outcome) (path : Path) (mode : BitVec 12)
    (next failed : Phase) : State × Call :=
  match outcome, mkdir state.tree path (mode &&& ~~~umask) with
  | .works, some call => state.go call next
  | _, _ => state.turn failed

def openNext (state : State) (outcome : Outcome) (path : Path) (next : Phase) : State × Call :=
  match outcome, openFile state.tree path with
  | .works, some call => state.go call next
  | _, _ => state.turn (.cleanup .os)

/-- The loop of `DecompressTarGz`. -/
def extractNext (state : State) : List Entry → State × Call
  | [] =>
    match state.package with
    | .archive opened =>
      state.turn (if opened.ends then .ended none else .cleanup .tar)
    | _ => state.turn (.ended none)
  | .dir name :: left => state.turn (.makeDir [] (dst.dir.join name) left)
  | .reg name content intact :: left =>
    state.turn (.openTarget (dst.dir.join name) content intact left)
  | .other _ :: left => state.turn (.extract left)

def copyNext (state : State) (outcome : Outcome) (target : Path) (content : Bytes) (intact : Bool)
    (left : Option (List Entry)) : State × Call :=
  match outcome with
  | .works =>
    state.go (.put target (.file content))
      (if intact then (match left with
        | none => .ended none
        | some left => .extract left)
      else .cleanup .tar)
  | .copies count => state.go (.put target (.file (content.take count))) (.cleanup .os)
  | _ => state.turn (.cleanup .os)

def step (state : State) (outcome : Outcome) : Option (State × Call) :=
  match state.phase with
  | .start => some (match decodeString config.sha256 with
      | none => state.turn (.ended (some .hex))
      | some checksum => begin hash dst config state outcome checksum)
  | .asking _ err [] => some (state.turn (.ended err))
  | .asking checksum _ (_ :: urls) =>
    match outcome with
    | .answers answer => some (match fetch hash checksum answer with
        | .error fault => state.turn (.asking checksum (some fault) urls)
        | .ok body => receive unpack dst config state body)
    | _ => none
  | .makeRoot _ [] => some (state.turn state.package.next)
  | .makeRoot made (name :: rest) =>
    some (makeNext umask state outcome (made ++ [name]) state.package.rootMode
      (.makeRoot (made ++ [name]) rest) (.ended (some .os)))
  | .setMode =>
    match state.package, outcome with
    | .archive opened, .works =>
      some (state.go (chmod state.tree dst.dir 0o0701) (.extract opened.entries))
    | .archive opened, _ => some (state.turn (.extract opened.entries))
    | _, _ => none
  | .openDst body => some (openNext state outcome dst (.copy dst body true none))
  | .extract left => some (extractNext dst state left)
  | .makeDir _ [] left => some (state.turn (.extract left))
  | .makeDir made (name :: rest) left =>
    some (makeNext umask state outcome (made ++ [name]) 0o0755
      (.makeDir (made ++ [name]) rest left) (.cleanup .os))
  | .openTarget target content intact left =>
    some (openNext state outcome target (.copy target content intact (some left)))
  | .copy target content intact left => some (copyNext state outcome target content intact left)
  | .cleanup fault =>
    match outcome with
    | .removes kept => some (state.go (.removeAll dst.dir kept) (.ended (some fault)))
    | _ => none
  | .ended _ => none

end Parameters

def tmp : Path := [Text.ofChars ['t', 'm', 'p']]

/-- The destination of `Update`: the product with "-updater.pkg" in "/tmp". -/
def updateDst (product : Bytes) : Path :=
  tmp.join (product ++ Text.ofChars ['-', 'u', 'p', 'd', 'a', 't', 'e', 'r', '.', 'p', 'k', 'g'])

end Elkeid.Agent.Unpacking
