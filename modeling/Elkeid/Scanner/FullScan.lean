import Elkeid.Foundations.Separated
import Elkeid.Foundations.Walk
import Elkeid.Scanner.Detector

/-!
# The full-disk step of a full scan

`Filter::catch` of `scanner/src/filter.rs` and the loop of the second step of `FullScan` in
`fulldiskscan.rs` over a depth-first walk of the disk. A name stands for the text that
`to_string_lossy` makes of it. The set of filtered directories is given in the order in which its
iterator happens to go through it.
-/

namespace Elkeid.Scanner

open Foundations Walk List

structure Name where
  text : Bytes
  slashFree : 0x2f ∉ text
  deriving DecidableEq

def below (path : List Name) : Bytes := path.flatMap (fun name => 0x2f :: name.text)

def pathText : List Name → Bytes
  | [] => [0x2f]
  | path => below path

/-- `catch`: 0 for a path that no filtered directory catches. -/
def catch_ : List Bytes → Bytes → Nat
  | [], _ => 0
  | each :: rest, path =>
    if each.isPrefixOf path then
      if (path.splitOn 0x2f).length > (each.splitOn 0x2f).length then 2 else 1
    else catch_ rest path

abbrev Leaf := Option Metadata

/-- The metadata and the size of an entry let it be scanned. -/
def scanTask : Item Name Leaf → Option DetectTask
  | .error | .dir _ | .leaf _ none => none
  | .leaf path (some metadata) =>
    if ¬ metadata.isFile then none
    else if metadata.len ≤ 4 ∨ metadata.len > 1024 * 1024 * 100 then none
    else some ⟨.dir, -1, pathText path, pathText path, metadata.len, metadata.btime,
      metadata.mtime, [], none⟩

/-- The path whose text goes to the filter. -/
def flagOf (filter : List Bytes) : Item Name Leaf → Nat
  | .error => 0
  | .dir path | .leaf path _ => catch_ filter (pathText path)

section Loop

variable (filter : List Bytes)

/-- The loop, with the tasks it sends; `none` when it does not come to an end. -/
def scanLoop : Nat → Stack Name Leaf → Option (List DetectTask)
  | 0, _ => none
  | fuel + 1, stack =>
    match stack.next with
    | none => some []
    | some (.error, _) => some []
    | some (item, later) =>
      if flagOf filter item = 1 then scanLoop fuel later
      else if flagOf filter item = 2 then scanLoop fuel later.skip
      else
        match scanTask item with
        | none => scanLoop fuel later
        | some task => (scanLoop fuel later).map (task :: ·)

/-- The walk yields the root first; `none` is a root that cannot be read. -/
def fullScan : Option (Listing Name Leaf) → Option (List DetectTask)
  | none => some []
  | some root =>
    if flagOf filter (.dir []) = 2 then scanLoop filter 1 []
    else scanLoop filter (root.size + 1) [([], root)]

end Loop

/-! ## What is asked for -/

/-- Equal to or below a filtered directory, component by component. -/
def Filtered (dirs : List (List Name)) (path : List Name) : Prop := ∃ dir ∈ dirs, dir <+: path

instance (dirs : List (List Name)) (path : List Name) : Decidable (Filtered dirs path) :=
  inferInstanceAs (Decidable (∃ dir ∈ dirs, dir <+: path))

/-- The task for a readable regular file of the right size outside the filtered directories. -/
def wantedTask (dirs : List (List Name)) : Item Name Leaf → Option DetectTask
  | .leaf path metadata => if Filtered dirs path then none else scanTask (.leaf path metadata)
  | _ => none

def filterTexts (dirs : List (List Name)) : List Bytes := dirs.map pathText

def skips (filter : List Bytes) (path : List Name) : Bool := catch_ filter (pathText path) = 2

def entries : Option (Listing Name Leaf) → List (Item Name Leaf)
  | none => []
  | some root => root.items []

/-- What the walk would come to if no error ended it. -/
def visited (filter : List Bytes) : Option (Listing Name Leaf) → List (Item Name Leaf)
  | none => []
  | some root => root.trace (skips filter) []

def isEntry : Item Name Leaf → Bool
  | .error => false
  | _ => true

/-- No wanted file is caught by the text of a directory it does not lie in, or is reached after
an error. -/
structure Undisturbed (dirs : List (List Name)) (root : Option (Listing Name Leaf)) : Prop where
  uncaught : ∀ item ∈ entries root, wantedTask dirs item ≠ none →
    flagOf (filterTexts dirs) item = 0
  reached : ∀ item ∈ (visited (filterTexts dirs) root).dropWhile isEntry,
    wantedTask dirs item = none

/-! ## Texts of paths -/

variable {path : List Name}

theorem pathText_append (nonempty : path ≠ []) (more : List Name) :
    pathText (path ++ more) = pathText path ++ below more := by
  cases path with
  | nil => exact absurd rfl nonempty
  | cons name rest => exact flatMap_append

theorem pathText_mono {dir : List Name} (inside : dir <+: path) :
    pathText dir <+: pathText path := by
  obtain ⟨more, rfl⟩ := inside
  cases dir with
  | nil =>
    cases more with
    | nil => exact prefix_refl _
    | cons name rest => exact ⟨name.text ++ below rest, rfl⟩
  | cons name rest =>
    rw [pathText_append (cons_ne_nil name rest)]
    exact prefix_append _ _

theorem count_below (path : List Name) : (below path).count 0x2f = path.length := by
  induction path with
  | nil => rfl
  | cons name rest ih =>
    rw [below, flatMap_cons, ← below, cons_append, count_cons_self,
      count_append, count_eq_zero.mpr name.slashFree, zero_add, ih,
      length_cons]

theorem one_le_count_pathText (path : List Name) : 1 ≤ (pathText path).count 0x2f := by
  cases path with
  | nil => exact le_refl _
  | cons name rest =>
    have count : (pathText (name :: rest)).count 0x2f = _ := count_below (name :: rest)
    rw [count, length_cons]
    exact Nat.le_add_left _ _

theorem prefix_of_count_lt {name : Name} {each : Bytes} (slash : 1 ≤ each.count 0x2f)
    (starts : each <+: pathText (path ++ [name]))
    (fewer : each.count 0x2f < (pathText (path ++ [name])).count 0x2f) :
    each <+: pathText path := by
  have total : (pathText (path ++ [name])).count 0x2f = path.length + 1 := by
    rw [show pathText (path ++ [name]) = below (path ++ [name]) by cases path <;> rfl, count_below,
      length_append, length_singleton]
  rw [total] at fewer
  cases path with
  | nil =>
    rw [length_nil] at fewer
    omega
  | cons first rest =>
    have nonempty := cons_ne_nil first rest
    rw [pathText_append nonempty] at starts
    rcases prefix_or_prefix_of_prefix starts (prefix_append _ (below [name])) with
      inside | beyond
    · exact inside
    · obtain ⟨more, rfl⟩ := beyond
      have tail : more <+: below [name] := (prefix_append_right_inj _).mp starts
      rw [count_append, show pathText (first :: rest) = below (first :: rest) from rfl,
        count_below] at fewer
      cases more with
      | nil => exact ⟨[], by simp only [append_nil]⟩
      | cons slash later =>
        -- the text goes on with the slash before the last name
        obtain ⟨isSlash, _⟩ := cons_prefix_cons.mp tail
        rw [isSlash, count_cons_self] at fewer
        omega

/-! ## The filter -/

theorem catch_cases (filter : List Bytes) (path : Bytes) :
    catch_ filter path = 0 ∨ catch_ filter path = 1 ∨ catch_ filter path = 2 := by
  induction filter with
  | nil => exact .inl rfl
  | cons each rest ih =>
    unfold catch_
    split
    next =>
      split
      next => exact .inr (.inr rfl)
      next => exact .inr (.inl rfl)
    next => exact ih

theorem catch_eq_zero_iff (filter : List Bytes) (path : Bytes) :
    catch_ filter path = 0 ↔ ∀ each ∈ filter, ¬ each <+: path := by
  induction filter with
  | nil => exact iff_of_true rfl (forall_mem_nil _)
  | cons each rest ih =>
    rw [forall_mem_cons, catch_]
    by_cases starts : each <+: path
    · have same := isPrefixOf_iff_prefix.mpr starts
      rw [if_pos same]
      refine iff_of_false ?_ (fun none => none.1 starts)
      split <;> decide
    · rw [if_neg (mt isPrefixOf_iff_prefix.mp starts), ih, and_iff_right starts]

theorem exists_of_catch_eq_two {filter : List Bytes} {path : Bytes}
    (flag : catch_ filter path = 2) :
    ∃ each ∈ filter, each <+: path ∧ each.count 0x2f < path.count 0x2f := by
  induction filter with
  | nil => cases flag
  | cons each rest ih =>
    rw [catch_] at flag
    split at flag
    next starts =>
      split at flag
      next longer =>
        rw [Separated.length_splitOn, Separated.length_splitOn] at longer
        exact ⟨each, mem_cons_self, isPrefixOf_iff_prefix.mp starts, Nat.lt_of_succ_lt_succ longer⟩
      next => cases flag
    next =>
      obtain ⟨other, listed, found⟩ := ih flag
      exact ⟨other, mem_cons_of_mem _ listed, found⟩

section Dirs

variable {dirs : List (List Name)}

theorem not_filtered_of_uncaught {path : List Name}
    (uncaught : catch_ (filterTexts dirs) (pathText path) = 0) : ¬ Filtered dirs path := by
  rintro ⟨dir, listed, inside⟩
  exact (catch_eq_zero_iff _ _).mp uncaught (pathText dir) (mem_map_of_mem listed)
    (pathText_mono inside)

theorem caught_of_skips {path : List Name} {name : Name}
    (skipped : skips (filterTexts dirs) (path ++ [name]) = true) {other : List Name}
    (inside : path <+: other) : catch_ (filterTexts dirs) (pathText other) ≠ 0 := by
  obtain ⟨each, listed, starts, fewer⟩ := exists_of_catch_eq_two (of_decide_eq_true skipped)
  obtain ⟨dir, _, rfl⟩ := mem_map.mp listed
  intro uncaught
  apply (catch_eq_zero_iff _ _).mp uncaught (pathText dir) listed
  exact (prefix_of_count_lt (one_le_count_pathText dir) starts fewer).trans (pathText_mono inside)

/-- The task the loop sends for an entry it comes to. -/
def sentTask (filter : List Bytes) (item : Item Name Leaf) : Option DetectTask :=
  if flagOf filter item = 0 then scanTask item else none

theorem sentTask_eq (item : Item Name Leaf) : sentTask (filterTexts dirs) item =
      if flagOf (filterTexts dirs) item = 0 then wantedTask dirs item else none := by
  unfold sentTask
  split
  next uncaught =>
    cases item with
    | error => rfl
    | dir path => rfl
    | leaf path metadata => exact (if_neg (not_filtered_of_uncaught uncaught)).symm
  next => rfl

theorem filterMap_visited (dirs : List (List Name)) (root : Option (Listing Name Leaf)) :
    (visited (filterTexts dirs) root).filterMap (sentTask (filterTexts dirs)) =
      (entries root).filterMap (sentTask (filterTexts dirs)) := by
  cases root with
  | none => rfl
  | some root =>
    apply Listing.filterMap_trace
    intro path name item skipped inside
    cases item with
    | error => rfl
    | dir | leaf => exact if_neg (caught_of_skips skipped inside)

theorem visited_subset (filter : List Bytes) (root : Option (Listing Name Leaf)) :
    visited filter root ⊆ entries root := by
  cases root with
  | none => exact List.Subset.refl _
  | some root => exact (Listing.trace_sublist_items _ _ _).subset

end Dirs

/-! ## The loop -/

section Loop

variable {filter : List Bytes}

theorem flag_cases (filter : List Bytes) (item : Item Name Leaf) :
    flagOf filter item = 0 ∨ flagOf filter item = 1 ∨ flagOf filter item = 2 := by
  cases item with
  | error => exact .inl rfl
  | leaf path metadata => exact catch_cases filter (pathText path)
  | dir path => exact catch_cases filter (pathText path)

theorem skipped_iff (item : Item Name Leaf) :
    item.skipped (skips filter) = true ↔ flagOf filter item = 2 := by
  cases item with
  | error => exact iff_of_false nofun nofun
  | leaf | dir => exact decide_eq_true_iff

theorem scanLoop_entry {fuel : Nat} {stack later : Stack Name Leaf} {item : Item Name Leaf}
    (yielded : stack.next = some (item, later)) (entry : isEntry item = true) :
    scanLoop filter (fuel + 1) stack = if flagOf filter item = 1 then scanLoop filter fuel later
      else if flagOf filter item = 2 then scanLoop filter fuel later.skip
      else
        match scanTask item with
        | none => scanLoop filter fuel later
        | some task => (scanLoop filter fuel later).map (task :: ·) := by
  rw [scanLoop, yielded]
  cases item with
  | error => cases entry
  | _ => rfl

theorem scanLoop_eq {fuel : Nat} (stack : Stack Name Leaf) (enough : stack.size < fuel) :
    scanLoop filter fuel stack =
      some (((stack.trace (skips filter)).takeWhile isEntry).filterMap (sentTask filter)) := by
  induction fuel generalizing stack with
  | zero => exact absurd enough (Nat.not_lt_zero _)
  | succ fuel ih =>
    cases yielded : stack.next with
    | none =>
      rw [Stack.trace_of_next_none yielded, scanLoop, yielded]
      rfl
    | some result =>
      obtain ⟨item, later⟩ := result
      have smaller := Stack.size_of_next yielded
      have smallerSkip := Stack.size_skip_le later
      have goesOn := ih later (by omega)
      have goesOnSkip := ih later.skip (by omega)
      rw [Stack.trace_of_next yielded]
      cases entry : isEntry item with
      | false =>
        -- the walk yields an error, and the loop is left
        cases item with
        | error =>
          rw [scanLoop, yielded]
          rfl
        | _ => cases entry
      | true =>
        rw [scanLoop_entry yielded entry, takeWhile_cons_of_pos entry, filterMap_cons, sentTask]
        rcases flag_cases filter item with flag | flag | flag
        · rw [if_neg (fun skipped => nomatch flag.symm.trans ((skipped_iff item).mp skipped)),
            if_neg (by omega), if_neg (by omega), if_pos flag, goesOn]
          cases scanTask item <;> rfl
        · rw [if_neg (fun skipped => nomatch flag.symm.trans ((skipped_iff item).mp skipped)),
            if_pos flag, if_neg (by omega), goesOn]
        · rw [if_pos ((skipped_iff item).mpr flag), if_neg (by omega), if_pos flag,
            if_neg (by omega), goesOnSkip]

end Loop

theorem fullScan_eq (dirs : List (List Name)) (root : Option (Listing Name Leaf)) :
    fullScan (filterTexts dirs) root =
      some (((visited (filterTexts dirs) root).takeWhile isEntry).filterMap
        (sentTask (filterTexts dirs))) := by
  cases root with
  | none => rfl
  | some root =>
    -- no text of a directory has fewer slashes than the root
    have rootGoesOn : flagOf (filterTexts dirs) (.dir []) ≠ 2 := by
      intro flag
      obtain ⟨each, listed, _, fewer⟩ := exists_of_catch_eq_two flag
      obtain ⟨dir, _, rfl⟩ := mem_map.mp listed
      exact absurd (one_le_count_pathText dir) (Nat.not_le.mpr fewer)
    have enough : Stack.size [(([] : List Name), root)] < root.size + 1 := Nat.lt_succ_self _
    rw [fullScan, if_neg rootGoesOn, scanLoop_eq _ enough, Stack.trace_cons]
    simp [visited, Stack.trace]

/-! ## Coverage -/

theorem filterMap_sentTask (dirs : List (List Name)) (items : List (Item Name Leaf)) :
    items.filterMap (sentTask (filterTexts dirs)) =
      (items.filter (fun item => flagOf (filterTexts dirs) item = 0)).filterMap
        (wantedTask dirs) := by
  rw [filterMap_filter]
  apply filterMap_congr
  intro item _
  simp [sentTask_eq]

theorem kept_of_length_le {Entry Value : Type} {keeps : Entry → Bool} {value : Entry → Option Value}
    {items : List Entry}
    (noneLost : (items.filterMap value).length ≤ ((items.filter keeps).filterMap value).length) :
    ∀ item ∈ items, value item ≠ none → keeps item = true := by
  have parts := ((filter_append_perm keeps items).filterMap value).length_eq
  rw [filterMap_append, length_append] at parts
  have dropped : ((items.filter (fun item => !keeps item)).filterMap value).length = 0 := by omega
  intro item listed valued
  cases kept : keeps item with
  | true => rfl
  | false =>
    refine absurd ?_ valued
    apply filterMap_eq_nil_iff.mp (length_eq_zero_iff.mp dropped)
    exact mem_filter.mpr ⟨listed, by rw [kept]; rfl⟩

theorem covers_wanted_iff (dirs : List (List Name)) (root : Option (Listing Name Leaf)) :
    (∃ tasks, fullScan (filterTexts dirs) root = some tasks ∧
        tasks.Perm ((entries root).filterMap (wantedTask dirs))) ↔ Undisturbed dirs root := by
  -- what is sent, and what would be sent after the first error, is what the filter lets through
  have cut := filterMap_visited dirs root
  rw [← takeWhile_append_dropWhile (p := isEntry) (l := visited (filterTexts dirs) root),
    filterMap_append] at cut
  rw [fullScan_eq]
  constructor
  · rintro ⟨tasks, scanned, perm⟩
    cases scanned
    have lengths := congrArg length cut
    rw [length_append, perm.length_eq, filterMap_sentTask dirs (entries root)] at lengths
    have uncaught := kept_of_length_le (lengths ▸ Nat.le_add_right _ _)
    have fewer := ((filter_sublist (p := fun item => flagOf (filterTexts dirs) item = 0)
      (l := entries root)).filterMap (wantedTask dirs)).length_le
    have nothingLate := filterMap_eq_nil_iff.mp
      (length_eq_zero_iff.mp (Nat.add_left_cancel (lengths.trans (le_antisymm fewer
        (lengths ▸ Nat.le_add_right _ _)))))
    refine ⟨fun item listed wanted => of_decide_eq_true (uncaught item listed wanted), ?_⟩
    intro item late
    by_contra wanted
    have onDisk := visited_subset _ root ((dropWhile_sublist isEntry).subset late)
    have notSent := nothingLate item late
    rw [sentTask_eq, if_pos (of_decide_eq_true (uncaught item onDisk wanted))] at notSent
    exact wanted notSent
  · rintro ⟨uncaught, reached⟩
    have nothingLate : ((visited (filterTexts dirs) root).dropWhile isEntry).filterMap
        (sentTask (filterTexts dirs)) = [] := by
      apply filterMap_eq_nil_iff.mpr
      intro item late
      rw [sentTask_eq, reached item late, ite_self]
    have allSent : (entries root).filterMap (sentTask (filterTexts dirs)) =
        (entries root).filterMap (wantedTask dirs) := by
      apply filterMap_congr
      intro item listed
      rw [sentTask_eq]
      cases wanted : wantedTask dirs item with
      | none => exact ite_self none
      | some task => exact if_pos (uncaught item listed (wanted ▸ Option.some_ne_none task))
    rw [nothingLate, append_nil, allSent] at cut
    exact ⟨_, rfl, cut ▸ List.Perm.refl _⟩

/-! ## A disk with an entry that cannot be read -/

def plainName : Name := ⟨[0x61], by decide⟩

def procName : Name := ⟨Text.ofChars ['p', 'r', 'o', 'c'], by decide⟩

def unreadableFirst : Listing Name Leaf :=
  .error (.leaf plainName (some ⟨true, 10, 1, 2⟩) .done)

theorem error_ends_scan : fullScan (filterTexts [[procName]]) (some unreadableFirst) = some [] ∧
      (entries (some unreadableFirst)).filterMap (wantedTask [[procName]]) =
        [⟨.dir, -1, [0x2f, 0x61], [0x2f, 0x61], 10, 1, 2, [], none⟩] := by
  decide

end Elkeid.Scanner
