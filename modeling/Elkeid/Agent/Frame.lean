import Elkeid.Agent.Unpacking
import Elkeid.Foundations.Machine

/-!
# What a download may touch

A download that has a verified body may create, change or delete the file at its destination, or
the paths below the directory of the destination that the archive names, and the directory itself
where there was none. The program keeps to that as long as the directories above that one exist,
an old directory has the mode that the program sets, the names of the entries do not lead out of
it, and a failure after it was made finds nothing of others in it.
-/

namespace Elkeid.Agent.Unpacking

open Foundations Machine List

def Entry.name : Entry → Bytes
  | .dir name | .reg name _ _ | .other name => name

def Below (root path : Path) : Prop := root <+: path ∧ path ≠ root

theorem not_below_of_above {root path : Path} (above : path <+: root) : ¬ Below root path := by
  rintro ⟨below, differs⟩
  exact differs (above.eq_of_length_le below.length_le)

theorem below_of_dir {root path : Path} (below : Below root path.dir) : Below root path := by
  have shorter : path.dir <+: path := dropLast_prefix path
  refine ⟨below.1.trans shorter, ?_⟩
  rintro rfl
  exact not_below_of_above shorter below

/-- The archive names a path when the path leads to one of its entries. -/
def Package.Names (dst : Path) : Package → Path → Prop
  | .pending, _ => False
  | .archive opened, path =>
    Below dst.dir path ∧ ∃ entry ∈ opened.entries, path <+: dst.dir.join (Entry.name entry)
  | .plain _, path => path = dst

section Frame

variable (dst : Path) (first : Tree)

def NewRoot (path : Path) : Prop := path = dst.dir ∧ first path = none

def Allowed (package : Package) (path : Path) : Prop :=
  package.Names dst path ∨ NewRoot dst first path

/-- Since the first tree, nothing was created, changed or deleted but what is allowed. -/
def TouchesOnly (state : State) : Prop :=
  ∀ path, state.tree path ≠ first path → Allowed dst first state.package path

/-! ## The condition -/

/-- Inside the directory of the destination, or that directory where there was none. -/
def Inside (path : Path) : Prop := Below dst.dir path ∨ NewRoot dst first path

/-- A file can be opened there. -/
def Opens (tree : Tree) (path : Path) : Prop :=
  (∃ mode, tree path.dir = some (.dir mode)) ∧ ∀ mode, tree path ≠ some (.dir mode)

theorem openFile_eq (tree : Tree) (path : Path) :
    Opens tree path ∧ openFile tree path = some (.put path (.file [])) ∨
      ¬ Opens tree path ∧ openFile tree path = none := by
  unfold openFile
  split
  next _ found => exact .inr ⟨fun opens => opens.2 _ found, rfl⟩
  next found notDir => exact .inl ⟨⟨⟨_, found⟩, notDir⟩, rfl⟩
  next notFound _ => exact .inr ⟨fun opens => opens.1.elim notFound, rfl⟩

/-- What `io.Copy` leaves in the file. -/
def Outcome.written (content : Bytes) : Outcome → Option Bytes
  | .works => some content
  | .copies count => some (content.take count)
  | _ => none

/-- What the first tree and the archive must be like where the next call succeeds: a directory that
is not inside was there; an old directory of the destination has the mode; a file that is not
inside cannot be opened, or has the very contents; and where an error leads to `RemoveAll`, the
download names what was in the directory or it stays. -/
def Safe (state : State) (outcome : Outcome) : Prop :=
  match state.phase with
  | .makeRoot made (name :: _) | .makeDir made (name :: _) _ =>
    outcome = .works → Inside dst first (made ++ [name]) ∨ first (made ++ [name]) ≠ none
  | .setMode => outcome = .works → ∀ mode, first dst.dir = some (.dir mode) → mode = 0o0701
  | .openTarget target _ _ _ =>
    outcome = .works →
      Inside dst first target ∨ ¬ Opens first target ∨ first target = some (.file [])
  | .copy target content _ (some _) =>
    ∀ written, outcome.written content = some written →
      Inside dst first target ∨ first target = some (.file written)
  | .cleanup _ =>
    ∀ kept, outcome = .removes kept → ∀ path, dst.dir <+: path → first path ≠ none →
      kept path = true ∨ state.package.Names dst path
  | _ => True

end Frame

/-! ## What a call does to the frame -/

section Calls

variable {dst path : Path} {first : Tree} {state : State} {phase : Phase}

section

variable (touchesOnly : TouchesOnly dst first state)
include touchesOnly

theorem TouchesOnly.same (outside : ¬ Allowed dst first state.package path) :
    state.tree path = first path :=
  of_not_not fun touched => outside (touchesOnly path touched)

theorem TouchesOnly.put_iff {node : Node} :
    TouchesOnly dst first (state.go (.put path node) phase).1 ↔
      Allowed dst first state.package path ∨ first path = some node := by
  have new : (state.go (.put path node) phase).1.tree path = some node := Function.update_self ..
  constructor
  · intro after
    by_cases same : first path = some node
    · exact .inr same
    · exact .inl (after path fun isFirst => same (isFirst.symm.trans new))
  · intro allowed other touched
    by_cases isPath : other = path
    · subst isPath
      exact allowed.resolve_right fun same => touched (new.trans same.symm)
    · have old : (state.go (.put path node) phase).1.tree other = state.tree other :=
        Function.update_of_ne isPath ..
      exact touchesOnly other (old ▸ touched)

theorem TouchesOnly.removeAll_iff {kept : Path → Bool} :
    TouchesOnly dst first (state.go (.removeAll dst.dir kept) phase).1 ↔
      ∀ path, dst.dir <+: path → first path ≠ none →
        kept path = true ∨ state.package.Names dst path := by
  have removed : ∀ path, (state.go (.removeAll dst.dir kept) phase).1.tree path =
      if dst.dir <+: path ∧ kept path = false then none else state.tree path := by
    intro path
    simp [State.go, Call.apply]
  constructor
  · intro after path below existed
    cases isKept : kept path with
    | true => exact .inl rfl
    | false =>
      have deleted := (removed path).trans (if_pos ⟨below, isKept⟩)
      rcases after path (deleted ▸ existed.symm) with named | isNew
      · exact .inr named
      · exact absurd isNew.2 existed
  · intro spares other touched
    rw [removed] at touched
    split at touched
    next deleted =>
      rcases spares other deleted.1 touched.symm with isKept | named
      · cases isKept.symm.trans deleted.2
      · exact .inl named
    next => exact touchesOnly other touched

end

end Calls

/-! ## The program -/

/-- The paths the program is working on come from the package. -/
def Phase.Placed (dst : Path) (package : Package) : Phase → Prop
  | .start | .asking _ _ _ => package = .pending
  | .makeRoot made rest => made ++ rest = dst.dir
  | .setMode => ∃ opened, package = .archive opened
  | .cleanup _ | .ended _ => True
  | .openDst body => package = .plain body
  | .extract left => ∃ opened, package = .archive opened ∧ left ⊆ opened.entries
  | .makeDir made rest left => ∃ opened, package = .archive opened ∧ left ⊆ opened.entries ∧
      ∃ entry ∈ opened.entries, made ++ rest = dst.dir.join (Entry.name entry)
  | .openTarget target _ _ left | .copy target _ _ (some left) =>
    ∃ opened, package = .archive opened ∧ left ⊆ opened.entries ∧
      ∃ entry ∈ opened.entries, target = dst.dir.join (Entry.name entry)
  | .copy target _ _ none => target = dst ∧ ∃ body, package = .plain body

/-- A step keeps the paths in place, and the frame exactly when it is safe. -/
structure Moved (dst : Path) (first : Tree) (safe : Prop) (result : State × Call) : Prop where
  placed : result.1.phase.Placed dst result.1.package
  exact : TouchesOnly dst first result.1 ↔ safe

section Steps

variable {dst path : Path} {first : Tree} {state : State} {phase next failed : Phase}
  {outcome : Outcome} {config : Config} {safe : Prop} {opened : Archive} {entry : Entry}

theorem allowed_iff_of_above {package : Package} (notRoot : path ≠ []) (above : path <+: dst.dir) :
    Allowed dst first package path ↔ Inside dst first path := by
  have notBelow : ¬ Below dst.dir path := not_below_of_above above
  refine or_congr_left (iff_of_false ?_ notBelow)
  cases package with
  | pending => exact id
  | archive opened => exact fun named => notBelow named.1
  | plain body =>
    rintro rfl
    have shorter := above.length_le
    have nonempty := length_pos_iff.mpr notRoot
    rw [Path.dir, length_dropLast] at shorter
    omega

theorem allowed_iff_of_entry (listed : entry ∈ opened.entries)
    (leads : path <+: dst.dir.join (Entry.name entry)) :
    Allowed dst first (.archive opened) path ↔ Inside dst first path :=
  or_congr_left ⟨And.left, fun below => ⟨below, entry, listed, leads⟩⟩

theorem allowed_archive (allowed : Allowed dst first (.archive opened) path) :
    Inside dst first path :=
  allowed.imp_left And.left

variable (touchesOnly : TouchesOnly dst first state)

include touchesOnly

theorem turn_moved (placed : phase.Placed dst state.package) (isSafe : safe) :
    Moved dst first safe (state.turn phase) :=
  ⟨placed, iff_of_true touchesOnly isSafe⟩

theorem put_moved {node : Node} (placed : phase.Placed dst state.package)
    (allowed : Allowed dst first state.package path ↔ Inside dst first path) :
    Moved dst first (Inside dst first path ∨ first path = some node)
      (state.go (.put path node) phase) :=
  ⟨placed, touchesOnly.put_iff.trans (or_congr_left allowed)⟩

theorem makeNext_moved {umask mode : BitVec 12}
    (allowed : Allowed dst first state.package path ↔ Inside dst first path)
    (placedNext : next.Placed dst state.package) (placedFailed : failed.Placed dst state.package) :
    Moved dst first (outcome = .works → Inside dst first path ∨ first path ≠ none)
      (makeNext umask state outcome path mode next failed) := by
  -- a path outside is as it was, so what is there now was there at first
  have wasThere (there : state.tree path ≠ none) :
      Inside dst first path ∨ first path ≠ none := by
    by_cases inside : Inside dst first path
    · exact .inl inside
    · exact .inr (touchesOnly.same (mt allowed.mp inside) ▸ there)
  unfold makeNext mkdir
  cases outcome with
  | works =>
    cases found : state.tree path with
    | none =>
      refine ⟨placedNext, (put_moved touchesOnly placedNext allowed).exact.trans ?_⟩
      refine Iff.trans (or_congr_right' fun outside => ?_) (imp_iff_right rfl).symm
      rw [← touchesOnly.same (mt allowed.mp outside), found]
      exact iff_of_false nofun fun absent => absent rfl
    | some node =>
      have isSafe := wasThere (found ▸ nofun)
      cases node with
      | dir old => exact turn_moved touchesOnly placedNext fun _ => isSafe
      | file content => exact turn_moved touchesOnly placedFailed fun _ => isSafe
  | _ => exact turn_moved touchesOnly placedFailed nofun

/-- The directory of the destination is allowed only where it is new. -/
theorem chmod_moved (isPackage : state.package = .archive opened)
    (placedNext : next.Placed dst state.package) :
    Moved dst first (∀ mode, first dst.dir = some (.dir mode) → mode = 0o0701)
      (state.go (chmod state.tree dst.dir 0o0701) next) := by
  have isNew (allowed : Allowed dst first state.package dst.dir) : first dst.dir = none := by
    rw [isPackage] at allowed
    exact ((allowed_archive allowed).resolve_left fun below => below.2 rfl).2
  unfold chmod
  split
  next mode found =>
    refine ⟨placedNext, touchesOnly.put_iff.trans ⟨?_, fun keepsMode => ?_⟩⟩
    · rintro (allowed | same) mode was
      · cases was.symm.trans (isNew allowed)
      · cases same.symm.trans was
        rfl
    · by_cases allowed : Allowed dst first state.package dst.dir
      · exact .inl allowed
      · have was := (touchesOnly.same allowed).symm.trans found
        cases keepsMode mode was
        exact .inr was
  next notDir =>
    refine turn_moved touchesOnly placedNext fun mode was => absurd ?_ (notDir mode)
    refine (touchesOnly.same fun allowed => ?_).trans was
    cases was.symm.trans (isNew allowed)

theorem openNext_moved (isPackage : state.package = .archive opened)
    (allowed : Allowed dst first state.package path ↔ Inside dst first path)
    (placedNext : next.Placed dst state.package) :
    Moved dst first (outcome = .works →
        Inside dst first path ∨ ¬ Opens first path ∨ first path = some (.file []))
      (openNext state outcome path next) := by
  -- outside, the file and its directory are as they were
  have sameOpens (outside : ¬ Inside dst first path) :
      Opens state.tree path ↔ Opens first path := by
    have dirOutside : ¬ Allowed dst first state.package path.dir := by
      intro isAllowed
      rw [isPackage] at isAllowed
      rcases allowed_archive isAllowed with below | ⟨isRoot, absent⟩
      · exact outside (.inl (below_of_dir below))
      · refine outside ?_
        by_cases atRoot : path = dst.dir
        · exact .inr ⟨atRoot, atRoot ▸ isRoot ▸ absent⟩
        · exact .inl ⟨isRoot ▸ dropLast_prefix path, atRoot⟩
    rw [Opens, Opens, touchesOnly.same (mt allowed.mp outside), touchesOnly.same dirOutside]
  unfold openNext
  cases outcome with
  | works =>
    rcases openFile_eq state.tree path with ⟨opens, isOpened⟩ | ⟨opensNot, isOpened⟩
    · rw [isOpened]
      refine ⟨placedNext, (put_moved touchesOnly placedNext allowed).exact.trans ?_⟩
      refine Iff.trans (or_congr_right' fun outside => ?_) (imp_iff_right rfl).symm
      exact (or_iff_right (not_not.mpr ((sameOpens outside).mp opens))).symm
    · rw [isOpened]
      refine turn_moved touchesOnly trivial fun _ => or_iff_not_imp_left.mpr fun outside => ?_
      exact .inl (mt (sameOpens outside).mpr opensNot)
  | _ => exact turn_moved touchesOnly trivial nofun

theorem openDst_moved (allowed : Allowed dst first state.package dst)
    (placedNext : next.Placed dst state.package) :
    Moved dst first True (openNext state outcome dst next) := by
  unfold openNext
  split
  next call isOpened =>
    rcases openFile_eq state.tree dst with ⟨_, isPut⟩ | ⟨_, fails⟩
    · cases isOpened.symm.trans isPut
      exact ⟨placedNext, touchesOnly.put_iff.trans (iff_true_intro (.inl allowed))⟩
    · cases isOpened.symm.trans fails
  next => exact turn_moved touchesOnly trivial trivial

theorem copyNext_moved {target : Path} {content : Bytes} {intact : Bool}
    {left : Option (List Entry)} {fits : Bytes → Prop}
    (exact : ∀ written,
      Allowed dst first state.package target ∨ first target = some (.file written) ↔ fits written)
    (placedNext : ∀ entries ∈ left, (Phase.extract entries).Placed dst state.package) :
    Moved dst first (∀ written, outcome.written content = some written → fits written)
      (copyNext state outcome target content intact left) := by
  have puts {written : Bytes} (copied : outcome.written content = some written) (phase : Phase) :
      TouchesOnly dst first (state.go (.put target (.file written)) phase).1 ↔
        ∀ written, outcome.written content = some written → fits written := by
    rw [touchesOnly.put_iff, exact, copied]
    exact ⟨fun isFit _ same => Option.some.inj same ▸ isFit, fun allFit => allFit written rfl⟩
  cases outcome with
  | works =>
    refine ⟨?_, puts rfl _⟩
    cases intact with
    | false => exact trivial
    | true =>
      cases left with
      | none => exact trivial
      | some entries => exact placedNext entries rfl
  | copies count => exact ⟨trivial, puts rfl _⟩
  | _ => exact turn_moved touchesOnly trivial nofun

theorem extractNext_moved {left : List Entry}
    (placed : (Phase.extract left).Placed dst state.package) :
    Moved dst first True (extractNext dst state left) := by
  obtain ⟨opened, isPackage, listed⟩ := placed
  cases left with
  | nil =>
    unfold extractNext
    rw [isPackage]
    refine turn_moved touchesOnly ?_ trivial
    cases opened.ends <;> exact trivial
  | cons entry left =>
    obtain ⟨isEntry, rest⟩ := cons_subset.mp listed
    cases entry with
    | dir name =>
      exact turn_moved touchesOnly ⟨opened, isPackage, rest, .dir name, isEntry, rfl⟩ trivial
    | reg name content intact =>
      exact turn_moved touchesOnly ⟨opened, isPackage, rest, .reg name content intact, isEntry, rfl⟩
        trivial
    | other name => exact turn_moved touchesOnly ⟨opened, isPackage, rest⟩ trivial

theorem begin_moved {hash : Bytes → Bytes} {checksum : Bytes} (pending : state.package = .pending) :
    Moved dst first True (begin hash dst config state outcome checksum) := by
  unfold begin
  split
  next =>
    split
    next => exact turn_moved touchesOnly trivial trivial
    next => exact turn_moved touchesOnly pending trivial
  next => exact turn_moved touchesOnly pending trivial

theorem receive_moved {unpack : Bytes → Option Archive} {body : Bytes}
    (pending : state.package = .pending) :
    Moved dst first True (receive unpack dst config state body) := by
  -- what was allowed before the package has come is a new directory
  have arrives (package : Package) : TouchesOnly dst first { state with package } := by
    intro path touched
    have allowed := touchesOnly path touched
    rw [pending] at allowed
    exact .inr (allowed.resolve_left id)
  unfold receive
  split
  next =>
    split
    next => exact turn_moved touchesOnly trivial trivial
    next opened isArchive => exact turn_moved (arrives _) rfl trivial
  next => exact turn_moved (arrives _) rfl trivial

theorem step_moved {hash : Bytes → Bytes} {unpack : Bytes → Option Archive} {umask : BitVec 12}
    {result : State × Call} (placed : state.phase.Placed dst state.package)
    (stepped : step hash unpack umask dst config state outcome = some result) :
    Moved dst first (Safe dst first state outcome) result := by
  obtain ⟨phase, package, tree⟩ := state
  cases phase with
  | start =>
    cases stepped
    split
    next => exact turn_moved touchesOnly trivial trivial
    next => exact begin_moved touchesOnly placed
  | asking checksum err urls =>
    cases urls with
    | nil =>
      cases stepped
      exact turn_moved touchesOnly trivial trivial
    | cons url urls =>
      cases outcome with
      | answers answer =>
        cases stepped
        split
        next => exact turn_moved touchesOnly placed trivial
        next => exact receive_moved touchesOnly placed
      | _ => cases stepped
  | makeRoot made rest =>
    cases rest with
    | nil =>
      cases stepped
      refine turn_moved touchesOnly ?_ trivial
      cases package with
      | pending => exact trivial
      | archive opened => exact ⟨opened, rfl⟩
      | plain body => exact rfl
    | cons name rest =>
      cases stepped
      have whole : (made ++ [name]) ++ rest = dst.dir := by
        rw [append_assoc]
        exact placed
      exact makeNext_moved touchesOnly (allowed_iff_of_above (by simp) ⟨rest, whole⟩) whole trivial
  | setMode =>
    obtain ⟨opened, rfl⟩ := placed
    have placedNext : (Phase.extract opened.entries).Placed dst (.archive opened) :=
      ⟨opened, rfl, List.Subset.refl _⟩
    cases outcome with
    | works =>
      cases stepped
      have moved := chmod_moved touchesOnly rfl placedNext
      exact ⟨moved.placed, moved.exact.trans (imp_iff_right rfl).symm⟩
    | _ =>
      cases stepped
      exact turn_moved touchesOnly placedNext nofun
  | openDst body =>
    cases stepped
    cases placed
    exact openDst_moved touchesOnly (.inl rfl) ⟨rfl, body, rfl⟩
  | extract left =>
    cases stepped
    exact extractNext_moved touchesOnly placed
  | makeDir made rest left =>
    obtain ⟨opened, rfl, listed, entry, isEntry, leads⟩ := placed
    cases rest with
    | nil =>
      cases stepped
      exact turn_moved touchesOnly ⟨opened, rfl, listed⟩ trivial
    | cons name rest =>
      cases stepped
      have whole : (made ++ [name]) ++ rest = dst.dir.join (Entry.name entry) := by
        rw [append_assoc]
        exact leads
      exact makeNext_moved touchesOnly (allowed_iff_of_entry isEntry ⟨rest, whole⟩)
        ⟨opened, rfl, listed, entry, isEntry, whole⟩ trivial
  | openTarget target content intact left =>
    cases stepped
    have placedNext : (Phase.copy target content intact (some left)).Placed dst package := placed
    obtain ⟨opened, rfl, _, entry, isEntry, leads⟩ := placed
    exact openNext_moved touchesOnly rfl (allowed_iff_of_entry isEntry (leads ▸ prefix_refl _))
      placedNext
  | copy target content intact left =>
    cases stepped
    cases left with
    | none =>
      obtain ⟨rfl, body, rfl⟩ := placed
      have moved : Moved target first (∀ written, outcome.written content = some written → True)
          (copyNext _ outcome target content intact none) :=
        copyNext_moved touchesOnly (fun _ => iff_true_intro (.inl (.inl rfl))) (by rintro _ ⟨⟩)
      exact ⟨moved.placed, moved.exact.trans (iff_of_true (fun _ _ => trivial) trivial)⟩
    | some left =>
      obtain ⟨opened, rfl, listed, entry, isEntry, leads⟩ := placed
      have allowed : Allowed dst first (.archive opened) target ↔ Inside dst first target :=
        allowed_iff_of_entry isEntry (leads ▸ prefix_refl _)
      refine copyNext_moved touchesOnly (fun _ => or_congr_left allowed) ?_
      rintro entries ⟨⟩
      exact ⟨opened, rfl, listed⟩
  | cleanup fault =>
    cases outcome with
    | removes kept =>
      cases stepped
      refine ⟨trivial, touchesOnly.removeAll_iff.trans ⟨fun spares _ same => ?_, fun safe => ?_⟩⟩
      · cases same
        exact spares
      · exact safe kept rfl
    | _ => cases stepped
  | ended err => cases stepped

end Steps

theorem safe_of_stuck {hash : Bytes → Bytes} {unpack : Bytes → Option Archive} {umask : BitVec 12}
    {dst : Path} {config : Config} {first : Tree} {state : State} {outcome : Outcome}
    (placed : state.phase.Placed dst state.package)
    (stuck : step hash unpack umask dst config state outcome = none) :
    Safe dst first state outcome := by
  obtain ⟨phase, package, tree⟩ := state
  cases phase with
  | makeRoot made rest => cases rest <;> cases stuck
  | makeDir made rest left => cases rest <;> cases stuck
  | setMode =>
    obtain ⟨opened, rfl⟩ := placed
    cases outcome <;> cases stuck
  | cleanup fault =>
    rintro kept rfl
    cases stuck
  | copy target content intact left => cases stuck
  | openTarget target content intact left => cases stuck
  | _ => exact trivial

/-- A download keeps to what is allowed in every state of a run exactly when every step is safe. -/
theorem touches_only_named_iff (hash : Bytes → Bytes) (unpack : Bytes → Option Archive)
    (umask : BitVec 12) (dst : Path) (config : Config) (first : Tree) (outcomes : List Outcome) :
    Always (step hash unpack umask dst config) (fun _ state => TouchesOnly dst first state) []
        (.begin first) outcomes ↔
      AllMeet (step hash unpack umask dst config)
        (fun _ state outcome => Safe dst first state outcome) [] (.begin first) outcomes := by
  apply always_iff_meets (fun _ state => state.phase.Placed dst state.package)
  · intro _ state outcome next call placed touchesOnly stepped
    exact (step_moved touchesOnly placed stepped).placed
  · intro _ state outcome next call placed touchesOnly stepped
    exact (step_moved touchesOnly placed stepped).exact
  · exact fun _ _ _ => safe_of_stuck
  · rfl
  · intro path touched
    exact absurd rfl touched

/-! ## An update of the agent -/

def product : Bytes := Text.ofChars ['e', 'l', 'k', 'e', 'i', 'd', '-', 'a', 'g', 'e', 'n', 't']

def otherFile : Path := tmp ++ [Text.ofChars ['x']]

def busyTmp : Tree := fun path =>
  if path = [] then some (.dir 0o0755)
  else if path = tmp then some (.dir 0o1777)
  else if path = otherFile then some (.file [1])
  else none

def updateConfig : Config :=
  ⟨product, [], [], Text.ofChars ['0', '1'], [], [[]]⟩

def unwritable : List Outcome :=
  [.works, .answers (.response 200 (some [1])), .works, .works, .fails, .removes (fun _ => false)]

theorem update_deletes_others :
    ∃ last calls, run (step id (fun _ => none) 0o0022 (updateDst product) updateConfig)
        (.begin busyTmp) unwritable = some (last, calls) ∧
      (match last.phase with
        | .ended err => err = some .os
        | _ => False) ∧
      busyTmp otherFile = some (.file [1]) ∧ last.tree otherFile = none ∧
        ¬ TouchesOnly (updateDst product) busyTmp last := by
  have existed : busyTmp otherFile = some (.file [1]) := by decide
  refine ⟨_, _, rfl, rfl, existed, rfl, ?_⟩
  intro touchesOnly
  rcases touchesOnly otherFile (existed ▸ nofun) with named | isNew
  · have isDst : otherFile = updateDst product := named
    exact absurd isDst (by decide)
  · rw [isNew.2] at existed
    cases existed

end Elkeid.Agent.Unpacking
