import Mathlib

/-!
# Search trees under an arbitrary rebalancing

Binary trees searched by a key. Insertion links a leaf where the search ends and
then rebalances; erasing one key rebalances too. How a tree is rebalanced is left
open: a `Balancer` only promises the in-order contents.
-/

namespace Elkeid.Foundations

open List

inductive SearchTree (α : Type) where
  | leaf
  | node (left : SearchTree α) (value : α) (right : SearchTree α)
  deriving DecidableEq

namespace SearchTree

variable {α κ : Type} [LinearOrder κ] (key : α → κ)

def inorder : SearchTree α → List α
  | leaf => []
  | node left value right => left.inorder ++ value :: right.inorder

def find (target : κ) : SearchTree α → Option α
  | leaf => none
  | node left value right =>
    if target < key value then left.find target
    else if key value < target then right.find target
    else some value

/-- Link a new leaf; a tree that has the key stays as it is. -/
def link (new : α) : SearchTree α → SearchTree α
  | leaf => node leaf new leaf
  | node left value right =>
    if key new < key value then node (left.link new) value right
    else if key value < key new then node left value (right.link new)
    else node left value right

/-- Exchange the value that has the key of the new one. -/
def replace (new : α) : SearchTree α → SearchTree α
  | leaf => leaf
  | node left value right =>
    if key new < key value then node (left.replace new) value right
    else if key value < key new then node left value (right.replace new)
    else node left new right

def Sorted (tree : SearchTree α) : Prop :=
  tree.inorder.Pairwise (fun first second => key first < key second)

structure Balancer where
  recolor : SearchTree α → SearchTree α
  erase : κ → SearchTree α → SearchTree α
  inorder_recolor : ∀ tree, (recolor tree).inorder = tree.inorder
  inorder_erase : ∀ target tree, tree.Sorted key →
    (erase target tree).inorder = tree.inorder.filter (fun value => key value ≠ target)

variable {key} {value : α}

theorem sorted_node {left right : SearchTree α} :
    (node left value right).Sorted key ↔ left.Sorted key ∧ right.Sorted key ∧
      (∀ other ∈ left.inorder, key other < key value) ∧
      ∀ other ∈ right.inorder, key value < key other := by
  simp only [Sorted, inorder, pairwise_append, pairwise_cons, mem_cons, forall_eq_or_imp]
  constructor
  · rintro ⟨sortedLeft, ⟨above, sortedRight⟩, across⟩
    exact ⟨sortedLeft, sortedRight, fun other listed => (across other listed).1, above⟩
  · rintro ⟨sortedLeft, sortedRight, below, above⟩
    refine ⟨sortedLeft, ⟨above, sortedRight⟩, ?_⟩
    intro other listed
    exact ⟨below other listed, fun third later => (below other listed).trans (above third later)⟩

@[simp]
theorem mem_inorder_node {left right : SearchTree α} {other : α} :
    other ∈ (node left value right).inorder ↔
      other ∈ left.inorder ∨ other = value ∨ other ∈ right.inorder := by
  simp [inorder]

theorem find_eq_some_iff {tree : SearchTree α} (sorted : tree.Sorted key) {target : κ} :
    tree.find key target = some value ↔ value ∈ tree.inorder ∧ key value = target := by
  induction tree with
  | leaf => simp [find, inorder]
  | node left root right leftHypothesis rightHypothesis =>
    obtain ⟨sortedLeft, sortedRight, below, above⟩ := sorted_node.mp sorted
    rw [find, mem_inorder_node]
    rcases lt_trichotomy target (key root) with less | equal | greater
    · rw [if_pos less, leftHypothesis sortedLeft]
      constructor
      · rintro ⟨listed, isTarget⟩
        exact ⟨.inl listed, isTarget⟩
      · rintro ⟨listed | rfl | listed, isTarget⟩
        · exact ⟨listed, isTarget⟩
        · exact absurd isTarget less.ne'
        · exact absurd isTarget (less.trans (above value listed)).ne'
    · rw [if_neg equal.not_lt, if_neg equal.symm.not_lt, Option.some.injEq]
      constructor
      · rintro rfl
        exact ⟨.inr (.inl rfl), equal.symm⟩
      · rintro ⟨listed | same | listed, isTarget⟩
        · exact absurd (isTarget.trans equal) (below value listed).ne
        · exact same.symm
        · exact absurd (isTarget.trans equal) (above value listed).ne'
    · rw [if_neg greater.not_gt, if_pos greater, rightHypothesis sortedRight]
      constructor
      · rintro ⟨listed, isTarget⟩
        exact ⟨.inr (.inr listed), isTarget⟩
      · rintro ⟨listed | rfl | listed, isTarget⟩
        · exact absurd isTarget ((below value listed).trans greater).ne
        · exact absurd isTarget greater.ne
        · exact ⟨listed, isTarget⟩

theorem find_eq_none_iff {tree : SearchTree α} (sorted : tree.Sorted key) {target : κ} :
    tree.find key target = none ↔ ∀ value ∈ tree.inorder, key value ≠ target := by
  constructor
  · intro missing value listed isTarget
    have found := (find_eq_some_iff sorted).mpr ⟨listed, isTarget⟩
    rw [missing] at found
    cases found
  · intro absent
    cases found : tree.find key target with
    | none => rfl
    | some value =>
      obtain ⟨listed, isTarget⟩ := (find_eq_some_iff sorted).mp found
      exact absurd isTarget (absent value listed)

section Link

variable {new : α} {tree : SearchTree α}

theorem perm_link (absent : ∀ value ∈ tree.inorder, key value ≠ key new) :
    (tree.link key new).inorder.Perm (new :: tree.inorder) := by
  induction tree with
  | leaf => exact List.Perm.refl _
  | node left root right leftHypothesis rightHypothesis =>
    simp only [mem_inorder_node] at absent
    have inLeft := leftHypothesis (fun value listed => absent value (.inl listed))
    have inRight := rightHypothesis (fun value listed => absent value (.inr (.inr listed)))
    have distinct := absent root (.inr (.inl rfl))
    rw [link]
    rcases lt_or_gt_of_ne distinct with less | greater
    · rw [if_neg less.not_gt, if_pos less, inorder, inorder]
      calc left.inorder ++ root :: (right.link key new).inorder
          |>.Perm (left.inorder ++ root :: new :: right.inorder) :=
            (inRight.cons root).append_left _
        _ |>.Perm (left.inorder ++ new :: root :: right.inorder) :=
            (List.Perm.swap new root _).append_left _
        _ |>.Perm (new :: (left.inorder ++ root :: right.inorder)) := perm_middle
    · rw [if_pos greater, inorder, inorder]
      exact inLeft.append_right _

theorem mem_link (absent : ∀ value ∈ tree.inorder, key value ≠ key new)
    (other : α) : other ∈ (tree.link key new).inorder ↔ other = new ∨ other ∈ tree.inorder := by
  rw [(perm_link absent).mem_iff, mem_cons]

section

variable (sorted : tree.Sorted key)
include sorted

theorem sorted_link
    (absent : ∀ value ∈ tree.inorder, key value ≠ key new) : (tree.link key new).Sorted key := by
  induction tree with
  | leaf => simp [link, Sorted, inorder]
  | node left root right leftHypothesis rightHypothesis =>
    obtain ⟨sortedLeft, sortedRight, below, above⟩ := sorted_node.mp sorted
    simp only [mem_inorder_node] at absent
    have leftAbsent : ∀ value ∈ left.inorder, key value ≠ key new :=
      fun value listed => absent value (.inl listed)
    have rightAbsent : ∀ value ∈ right.inorder, key value ≠ key new :=
      fun value listed => absent value (.inr (.inr listed))
    have distinct := absent root (.inr (.inl rfl))
    rw [link]
    rcases lt_or_gt_of_ne distinct with less | greater
    · rw [if_neg less.not_gt, if_pos less, sorted_node]
      refine ⟨sortedLeft, rightHypothesis sortedRight rightAbsent, below, ?_⟩
      intro other listed
      rcases (mem_link rightAbsent other).mp listed with rfl | old
      · exact less
      · exact above other old
    · rw [if_pos greater, sorted_node]
      refine ⟨leftHypothesis sortedLeft leftAbsent, sortedRight, ?_, above⟩
      intro other listed
      rcases (mem_link leftAbsent other).mp listed with rfl | old
      · exact greater
      · exact below other old

theorem inorder_replace : (tree.replace key new).inorder =
      tree.inorder.map (fun value => if key value = key new then new else value) := by
  have untouched {items : List α} (distinct : ∀ value ∈ items, key value ≠ key new) :
      items.map (fun value => if key value = key new then new else value) = items := by
    calc items.map (fun value => if key value = key new then new else value)
        = items.map id := map_congr_left (fun value listed => if_neg (distinct value listed))
      _ = items := map_id items
  induction tree with
  | leaf => rfl
  | node left root right leftHypothesis rightHypothesis =>
    obtain ⟨sortedLeft, sortedRight, below, above⟩ := sorted_node.mp sorted
    rw [replace]
    rcases lt_trichotomy (key new) (key root) with less | equal | greater
    · have later : ∀ value ∈ root :: right.inorder, key value ≠ key new := by
        intro value listed
        rcases mem_cons.mp listed with rfl | inRight
        · exact less.ne'
        · exact (less.trans (above value inRight)).ne'
      rw [if_pos less, inorder, inorder, leftHypothesis sortedLeft, map_append, untouched later]
    · have leftDistinct : ∀ value ∈ left.inorder, key value ≠ key new := by
        intro value listed
        rw [equal]
        exact (below value listed).ne
      have rightDistinct : ∀ value ∈ right.inorder, key value ≠ key new := by
        intro value listed
        rw [equal]
        exact (above value listed).ne'
      rw [if_neg equal.not_lt, if_neg equal.symm.not_lt, inorder, inorder, map_append,
        map_cons, if_pos equal.symm, untouched leftDistinct, untouched rightDistinct]
    · have earlier : ∀ value ∈ left.inorder, key value ≠ key new := by
        intro value listed
        exact ((below value listed).trans greater).ne
      rw [if_neg greater.not_gt, if_pos greater, inorder, inorder, rightHypothesis sortedRight,
        map_append, map_cons, untouched earlier, if_neg greater.ne]

theorem sorted_replace : (tree.replace key new).Sorted key := by
  have sameKey (value : α) : key (if key value = key new then new else value) = key value := by
    split
    next same => exact same.symm
    next => rfl
  rw [Sorted, inorder_replace sorted, pairwise_map]
  simp only [sameKey]
  exact sorted

theorem mem_replace {other : α} (listed : other ∈ (tree.replace key new).inorder) :
    other = new ∨ other ∈ tree.inorder ∧ key other ≠ key new := by
  rw [inorder_replace sorted] at listed
  obtain ⟨value, inTree, rfl⟩ := mem_map.mp listed
  by_cases same : key value = key new
  · rw [if_pos same]
    exact .inl rfl
  · rw [if_neg same]
    exact .inr ⟨inTree, same⟩

theorem mem_replace_of_mem (new : α) {value : α} (listed : value ∈ tree.inorder) :
    (if key value = key new then new else value) ∈ (tree.replace key new).inorder := by
  rw [inorder_replace sorted]
  exact mem_map_of_mem listed

end

end Link

namespace Balancer

variable (balancer : Balancer key) {tree : SearchTree α}

section

variable (sorted : tree.Sorted key)
include sorted

theorem sorted_recolor : (balancer.recolor tree).Sorted key := by
  rw [Sorted, balancer.inorder_recolor]
  exact sorted

theorem sorted_erase (target : κ) : (balancer.erase target tree).Sorted key := by
  rw [Sorted, balancer.inorder_erase target tree sorted]
  exact List.Pairwise.filter _ sorted

theorem mem_erase {target : κ} {value : α} :
    value ∈ (balancer.erase target tree).inorder ↔ value ∈ tree.inorder ∧ key value ≠ target := by
  rw [balancer.inorder_erase target tree sorted, mem_filter, decide_eq_true_eq]

theorem perm_erase {value : α} (listed : value ∈ tree.inorder) :
    tree.inorder.Perm (value :: (balancer.erase (key value) tree).inorder) := by
  rw [balancer.inorder_erase _ tree sorted]
  rw [Sorted] at sorted
  generalize tree.inorder = items at sorted listed ⊢
  induction items with
  | nil => cases listed
  | cons head tail ih =>
    obtain ⟨above, sortedTail⟩ := pairwise_cons.mp sorted
    rcases mem_cons.mp listed with rfl | inTail
    · have others : tail.filter (fun other => key other ≠ key value) = tail :=
        filter_eq_self.mpr (fun other later => by simpa using (above other later).ne')
      rw [filter_cons_of_neg (by simp), others]
    · have distinct : key head ≠ key value := (above value inTail).ne
      rw [filter_cons_of_pos (by simpa using distinct)]
      exact ((ih sortedTail inTail).cons head).trans (List.Perm.swap value head _)

end

end Balancer

def spine : List α → SearchTree α
  | [] => leaf
  | head :: tail => node leaf head (spine tail)

theorem inorder_spine (items : List α) : (spine items).inorder = items := by
  induction items with
  | nil => rfl
  | cons head tail ih => rw [spine, inorder, inorder, ih, nil_append]

/-- Rebalancing that keeps the shape on insertion and makes a list on erasure. -/
def Balancer.plain (key : α → κ) : Balancer key where
  recolor := id
  erase target tree := spine (tree.inorder.filter (fun value => key value ≠ target))
  inorder_recolor _ := rfl
  inorder_erase _ _ _ := inorder_spine _

end SearchTree

end Elkeid.Foundations
