import Mathlib

/-!
# Depth-first walks with skipping

An iterator over a finite tree that keeps a stack of the directories being read. It yields a
directory before what is inside, it yields an error for an entry that cannot be read, and the
caller may drop what is left of the directory on top of the stack. What it yields is a function of
the tree and of the paths at which the caller skips.
-/

namespace Elkeid.Foundations.Walk

open List Bool

variable {Name Leaf : Type}

/-- What is left to read of a directory. A directory that cannot be opened holds one error. -/
inductive Listing (Name Leaf : Type) where
  | done
  | error (rest : Listing Name Leaf)
  | leaf (name : Name) (leaf : Leaf) (rest : Listing Name Leaf)
  | dir (name : Name) (inside rest : Listing Name Leaf)

inductive Item (Name Leaf : Type) where
  | error
  | leaf (path : List Name) (leaf : Leaf)
  | dir (path : List Name)

/-- The directories being read, the innermost first. -/
abbrev Stack (Name Leaf : Type) := List (List Name × Listing Name Leaf)

namespace Stack

def next : Stack Name Leaf → Option (Item Name Leaf × Stack Name Leaf)
  | [] => none
  | (_, .done) :: outer => next outer
  | (path, .error rest) :: outer => some (.error, (path, rest) :: outer)
  | (path, .leaf name leaf rest) :: outer =>
    some (.leaf (path ++ [name]) leaf, (path, rest) :: outer)
  | (path, .dir name inside rest) :: outer =>
    some (.dir (path ++ [name]), (path ++ [name], inside) :: (path, rest) :: outer)

def skip (stack : Stack Name Leaf) : Stack Name Leaf := stack.tail

end Stack

def Item.skipped (skips : List Name → Bool) : Item Name Leaf → Bool
  | .error => false
  | .leaf path _ | .dir path => skips path

def Item.Inside (path : List Name) : Item Name Leaf → Prop
  | .error => True
  | .leaf other _ | .dir other => path <+: other

namespace Listing

/-- What the walk yields of a directory. -/
def trace (skips : List Name → Bool) (path : List Name) : Listing Name Leaf → List (Item Name Leaf)
  | .done => []
  | .error rest => .error :: rest.trace skips path
  | .leaf name value rest =>
    .leaf (path ++ [name]) value :: if skips (path ++ [name]) then [] else rest.trace skips path
  | .dir name inside rest =>
    .dir (path ++ [name]) ::
      ((if skips (path ++ [name]) then [] else inside.trace skips (path ++ [name])) ++
        rest.trace skips path)

def items (path : List Name) (listing : Listing Name Leaf) : List (Item Name Leaf) :=
  listing.trace (fun _ => false) path

def size : Listing Name Leaf → Nat
  | .done => 0
  | .error rest => rest.size + 1
  | .leaf _ _ rest => rest.size + 1
  | .dir _ inside rest => inside.size + rest.size + 1

end Listing

namespace Stack

def trace (skips : List Name → Bool) (stack : Stack Name Leaf) : List (Item Name Leaf) :=
  stack.flatMap (fun (path, listing) => listing.trace skips path)

def size : Stack Name Leaf → Nat
  | [] => 0
  | (_, listing) :: outer => listing.size + size outer

theorem trace_cons (skips : List Name → Bool) (path : List Name) (listing : Listing Name Leaf)
    (outer : Stack Name Leaf) :
    trace skips ((path, listing) :: outer) = listing.trace skips path ++ trace skips outer :=
  flatMap_cons

variable {stack : Stack Name Leaf}

theorem trace_of_next_none {skips : List Name → Bool}
    (ended : stack.next = none) : stack.trace skips = [] := by
  induction stack with
  | nil => rfl
  | cons frame outer ih =>
    obtain ⟨path, listing⟩ := frame
    cases listing with
    | done =>
      rw [trace_cons]
      exact ih ended
    | _ => cases ended

theorem trace_of_next {skips : List Name → Bool} {later : Stack Name Leaf}
    {item : Item Name Leaf} (yielded : stack.next = some (item, later)) :
    stack.trace skips = item :: (if item.skipped skips then later.skip else later).trace skips := by
  induction stack with
  | nil => cases yielded
  | cons frame outer ih =>
    obtain ⟨path, listing⟩ := frame
    rw [trace_cons]
    cases listing with
    | done => exact ih yielded
    | error rest =>
      cases yielded
      have next : trace skips ((path, rest) :: outer) = _ := trace_cons skips path rest outer
      simp only [Item.skipped, false_eq_true, if_false, next]
      rfl
    | leaf name value rest =>
      cases yielded
      cases isSkipped : skips (path ++ [name]) with
      | true => simp [Listing.trace, Item.skipped, isSkipped, skip]
      | false => simp [Listing.trace, Item.skipped, isSkipped, trace_cons]
    | dir name inside rest =>
      cases yielded
      cases isSkipped : skips (path ++ [name]) with
      | true => simp [Listing.trace, Item.skipped, isSkipped, skip, trace_cons]
      | false => simp [Listing.trace, Item.skipped, isSkipped, trace_cons]

theorem size_of_next {later : Stack Name Leaf} {item : Item Name Leaf}
    (yielded : stack.next = some (item, later)) : later.size < stack.size := by
  induction stack with
  | nil => cases yielded
  | cons frame outer ih =>
    obtain ⟨path, listing⟩ := frame
    cases listing with
    | done =>
      have smaller := ih yielded
      simpa only [size, Listing.size, zero_add] using smaller
    | _ =>
      cases yielded
      simp only [size, Listing.size]
      omega

theorem size_skip_le (stack : Stack Name Leaf) : stack.skip.size ≤ stack.size := by
  cases stack with
  | nil => exact le_refl _
  | cons frame outer => exact Nat.le_add_left _ _

end Stack

namespace Listing

theorem inside_of_mem_items {path : List Name} {listing : Listing Name Leaf} {item : Item Name Leaf}
    (listed : item ∈ listing.items path) : item.Inside path := by
  unfold items at listed
  induction listing generalizing path with
  | done => cases listed
  | error rest ih =>
    rcases mem_cons.mp listed with rfl | later
    · trivial
    · exact ih later
  | leaf name leaf rest ih =>
    rcases mem_cons.mp listed with rfl | later
    · exact prefix_append path [name]
    · exact ih later
  | dir name inside rest insideHypothesis restHypothesis =>
    rcases mem_cons.mp listed with rfl | later
    · exact prefix_append path [name]
    · rcases mem_append.mp later with isInside | isAfter
      · have deeper := insideHypothesis isInside
        cases item with
        | error => trivial
        | leaf | dir => exact (prefix_append path [name]).trans deeper
      · exact restHypothesis isAfter

theorem trace_sublist_items (skips : List Name → Bool) (path : List Name)
    (listing : Listing Name Leaf) : (listing.trace skips path).Sublist (listing.items path) := by
  unfold items
  induction listing generalizing path with
  | done => exact .slnil
  | error rest ih => exact (ih path).cons_cons _
  | leaf name value rest ih =>
    refine List.Sublist.cons_cons _ ?_
    split
    next => exact nil_sublist _
    next => exact ih path
  | dir name inside rest insideHypothesis restHypothesis =>
    refine List.Sublist.cons_cons _ (List.Sublist.append ?_ (restHypothesis path))
    split
    next => exact nil_sublist _
    next => exact insideHypothesis (path ++ [name])

theorem filterMap_items_eq_nil {Value : Type} {value : Item Name Leaf → Option Value}
    {path : List Name} (nothing : ∀ item, item.Inside path → value item = none)
    (listing : Listing Name Leaf) : (listing.items path).filterMap value = [] :=
  filterMap_eq_nil_iff.mpr (fun _ listed => nothing _ (inside_of_mem_items listed))

theorem filterMap_trace {Value : Type} {value : Item Name Leaf → Option Value}
    {skips : List Name → Bool}
    (worthless : ∀ path name item, skips (path ++ [name]) = true → Item.Inside path item →
      value item = none) (path : List Name) (listing : Listing Name Leaf) :
    (listing.trace skips path).filterMap value = (listing.items path).filterMap value := by
  induction listing generalizing path with
  | done => rfl
  | error rest ih =>
    simp only [items, trace, filterMap_cons] at ih ⊢
    rw [ih path]
  | leaf name leaf rest ih =>
    have same : (if skips (path ++ [name]) then [] else rest.trace skips path).filterMap value =
        (rest.items path).filterMap value := by
      split
      next skipped =>
        exact (filterMap_items_eq_nil (fun item => worthless path name item skipped) rest).symm
      next => exact ih path
    simp [items, trace, filterMap_cons, same]
  | dir name inside rest insideHypothesis restHypothesis =>
    have same : (if skips (path ++ [name]) then []
        else inside.trace skips (path ++ [name])).filterMap value =
          (inside.items (path ++ [name])).filterMap value := by
      split
      next skipped =>
        refine (filterMap_items_eq_nil (fun item isInside => ?_) inside).symm
        apply worthless path name item skipped
        cases item with
        | error => trivial
        | leaf | dir => exact (prefix_append path [name]).trans isInside
      next => exact insideHypothesis (path ++ [name])
    simp [items, trace, filterMap_cons, same, restHypothesis]

end Listing

end Elkeid.Foundations.Walk
