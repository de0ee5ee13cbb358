import Elkeid.Allowlist.Device

/-!
# What the tree operations keep

Between two commands the trees are sorted by `strcmp`, each counter counts its
nodes, and the heap holds the nodes and buffers of the two trees and nothing
else. Inside a command the handler holds further addresses.
-/

namespace Elkeid.Allowlist

open Foundations List Function

theorem order_injective : Function.Injective order :=
  map_injective_iff.mpr (fun _ _ same => UInt8.toNat_inj.mp same)

theorem strcmp_compares (first second : Bytes) :
    (strcmp first second).Compares (order first) (order second) := by
  induction first generalizing second with
  | nil =>
    cases second with
    | nil => rfl
    | cons b bs => exact nil_lt_cons _ _
  | cons a as ih =>
    cases second with
    | nil => exact nil_lt_cons _ _
    | cons b bs =>
      rw [strcmp]
      split
      next less => exact cons_lt_cons_iff.mpr (.inl less)
      next notLess =>
        split
        next greater => exact cons_lt_cons_iff.mpr (.inl greater)
        next notGreater =>
          have same : a = b := UInt8.le_antisymm (UInt8.not_lt.mp notGreater)
            (UInt8.not_lt.mp notLess)
          subst same
          have rest := ih bs
          cases result : strcmp as bs with
          | lt | gt =>
            rw [result] at rest
            exact cons_lt_cons_iff.mpr (.inr ⟨rfl, rest⟩)
          | eq =>
            rw [result] at rest
            exact congrArg (a.toNat :: ·) rest

theorem searchRb_eq_find (string : Bytes) (tree : SearchTree AllowlistNode) :
    searchRb string tree = tree.find AllowlistNode.key (order string) := by
  induction tree with
  | leaf => rfl
  | node left data right leftHypothesis rightHypothesis =>
    have compares : (strcmp string data.text).Compares (order string) data.key :=
      strcmp_compares _ _
    rw [searchRb, SearchTree.find]
    cases result : strcmp string data.text with
    | lt =>
      rw [result] at compares
      have less : order string < data.key := compares
      rw [if_pos less]
      exact leftHypothesis
    | eq =>
      rw [result] at compares
      have same : order string = data.key := compares
      rw [same, if_neg (lt_irrefl _), if_neg (lt_irrefl _)]
    | gt =>
      rw [result] at compares
      have greater : data.key < order string := compares
      rw [if_neg greater.not_gt, if_pos greater]
      exact rightHypothesis

theorem linkRb_eq (data : AllowlistNode) (tree : SearchTree AllowlistNode) :
    linkRb data tree = if (searchRb data.text tree).isSome then none
      else some (tree.link AllowlistNode.key data) := by
  induction tree with
  | leaf => rfl
  | node left this right leftHypothesis rightHypothesis =>
    have compares : (strcmp data.text this.text).Compares data.key this.key :=
      strcmp_compares _ _
    rw [linkRb, searchRb, SearchTree.link]
    cases result : strcmp data.text this.text with
    | lt =>
      rw [result] at compares
      have less : data.key < this.key := compares
      rw [leftHypothesis, if_pos less]
      dsimp only
      split <;> rfl
    | eq => rfl
    | gt =>
      rw [result] at compares
      have greater : this.key < data.key := compares
      rw [rightHypothesis, if_neg greater.not_gt, if_pos greater]
      dsimp only
      split <;> rfl

def contents (list : Records) : Finset Bytes := (list.tree.inorder.map AllowlistNode.text).toFinset

variable {list : Records} {heap : Heap}

theorem mem_contents {text : Bytes} :
    text ∈ contents list ↔ ∃ node ∈ list.tree.inorder, node.text = text := by
  rw [contents, mem_toFinset, mem_map]

theorem card_contents (sorted : list.tree.Sorted AllowlistNode.key) :
    (contents list).card = list.tree.inorder.length := by
  have nodup : (list.tree.inorder.map AllowlistNode.text).Nodup := by
    apply pairwise_map.mpr
    apply List.Pairwise.imp _ sorted
    intro first second less same
    exact absurd (congrArg order same) less.ne
  rw [contents, toFinset_card_of_nodup nodup, length_map]

theorem search_isSome_iff (sorted : list.tree.Sorted AllowlistNode.key)
    (text : Bytes) : (searchRb text list.tree).isSome ↔ text ∈ contents list := by
  rw [searchRb_eq_find, Option.isSome_iff_exists, mem_contents]
  constructor
  · rintro ⟨node, found⟩
    obtain ⟨listed, same⟩ := (SearchTree.find_eq_some_iff sorted).mp found
    exact ⟨node, listed, order_injective same⟩
  · rintro ⟨node, listed, same⟩
    exact ⟨node, (SearchTree.find_eq_some_iff sorted).mpr ⟨listed, congrArg order same⟩⟩

def nodeAddresses (node : AllowlistNode) : List Nat := [node.data, node.address]

def Records.addresses (list : Records) : List Nat := list.tree.inorder.flatMap nodeAddresses

def Which.other : Which → Which
  | exe => argv
  | argv => exe

def Driver.owned (driver : Driver) : List Nat :=
  (driver.lists .exe).addresses ++ (driver.lists .argv).addresses

theorem Driver.owned_perm (driver : Driver) (which : Which) :
    driver.owned.Perm ((driver.lists which).addresses ++ (driver.lists which.other).addresses) := by
  cases which with
  | exe => exact List.Perm.refl _
  | argv => exact perm_append_comm

structure Records.Counted (list : Records) : Prop where
  sorted : list.tree.Sorted AllowlistNode.key
  counted : list.limit = list.tree.inorder.length

/-- `held` are the addresses of the running command. -/
structure Sound (driver : Driver) (held : List Nat) : Prop where
  counted : ∀ which, (driver.lists which).Counted
  owned : driver.heap.Owns (held ++ driver.owned)

theorem sound_initial : Sound Driver.initial [] :=
  ⟨fun _ => ⟨List.Pairwise.nil, rfl⟩, Heap.owns_empty 0⟩

section Sound

variable {driver : Driver} {held : List Nat}

theorem Sound.split (sound : Sound driver held) (which : Which) :
    driver.heap.Owns (held ++ ((driver.lists which).addresses ++
      (driver.lists which.other).addresses)) :=
  sound.owned.perm ((driver.owned_perm which).append_left held)

theorem Sound.update (sound : Sound driver held) {which : Which} {heap : Heap} {list : Records}
    {left : List Nat} (counted : list.Counted)
    (owns : heap.Owns (left ++ (list.addresses ++ (driver.lists which.other).addresses))) :
    Sound ⟨heap, Function.update driver.lists which list⟩ left := by
  refine ⟨?_, owns.perm (List.Perm.append_left left ?_)⟩
  · intro other
    dsimp only
    by_cases same : other = which
    · subst same
      rw [update_self]
      exact counted
    · rw [update_of_ne same]
      exact sound.counted other
  · have distinct : which.other ≠ which := by cases which <;> decide
    apply List.Perm.symm
    apply (Driver.owned_perm _ which).trans
    dsimp only
    rw [update_self, update_of_ne distinct]

end Sound

inductive Change where
  | add (text : Bytes)
  | del (text : Bytes)
  | deleteAll
  deriving DecidableEq

def Change.apply (texts : Finset Bytes) : Change → Finset Bytes
  | add text => insert text texts
  | del text => texts.erase text
  | deleteAll => ∅

def Performs (driver next : Driver) (which : Which) (change : Change) : Prop :=
  ∀ other, contents (next.lists other) =
    if other = which then change.apply (contents (driver.lists other))
    else contents (driver.lists other)

theorem performs_update {driver : Driver} {which : Which} {change : Change}
    (changed : contents list = change.apply (contents (driver.lists which))) :
    Performs driver ⟨heap, Function.update driver.lists which list⟩ which change := by
  intro other
  dsimp only
  by_cases same : other = which
  · subst same
    rw [if_pos rfl, update_self, changed]
  · rw [if_neg same, update_of_ne same]

theorem performs_unchanged {driver : Driver} {which : Which} {change : Change}
    (idle : change.apply (contents (driver.lists which)) = contents (driver.lists which)) :
    Performs driver ⟨heap, driver.lists⟩ which change := by
  intro other
  by_cases same : other = which
  · subst same
    rw [if_pos rfl, idle]
  · rw [if_neg same]

theorem rbtreeClear_spec (tree : SearchTree AllowlistNode) {rest : List Nat}
    (owns : heap.Owns (tree.inorder.flatMap nodeAddresses ++ rest)) :
    ∃ next, rbtreeClear tree heap = some next ∧ next.Owns rest := by
  induction tree generalizing heap rest with
  | leaf => exact ⟨heap, rfl, owns⟩
  | node left node right leftHypothesis rightHypothesis =>
    rw [SearchTree.inorder, flatMap_append, flatMap_cons, append_assoc] at owns
    obtain ⟨afterLeft, clearedLeft, ownsLeft⟩ := leftHypothesis owns
    have rightFirst : (nodeAddresses node ++ right.inorder.flatMap nodeAddresses ++ rest).Perm
        (right.inorder.flatMap nodeAddresses ++ (nodeAddresses node ++ rest)) := by
      rw [← append_assoc]
      exact perm_append_comm.append_right rest
    obtain ⟨afterRight, clearedRight, ownsRight⟩ := rightHypothesis (ownsLeft.perm rightFirst)
    obtain ⟨withoutData, freedData, ownsAddress⟩ := ownsRight.free
    obtain ⟨next, freedNode, ownsRest⟩ := ownsAddress.free
    refine ⟨next, ?_, ownsRest⟩
    simp only [rbtreeClear, clearedLeft, clearedRight, freedData, Option.bind_eq_bind,
      Option.bind_some]
    exact freedNode

theorem contents_perm {rest : Records} {node : AllowlistNode}
    (split : list.tree.inorder.Perm (node :: rest.tree.inorder)) :
    contents list = insert node.text (contents rest) := by
  rw [contents, toFinset_eq_of_perm _ _ (split.map _), map_cons, toFinset_cons]
  rfl

theorem addresses_perm {rest : Records} {node : AllowlistNode}
    (split : list.tree.inorder.Perm (node :: rest.tree.inorder)) (held others : List Nat) :
    (held ++ (list.addresses ++ others)).Perm
      (node.data :: node.address :: (held ++ (rest.addresses ++ others))) := by
  have first : list.addresses.Perm (nodeAddresses node ++ rest.addresses) :=
    split.flatMap_right nodeAddresses
  apply ((first.append_right others).append_left held).trans
  rw [append_assoc]
  exact perm_append_comm_assoc held (nodeAddresses node) (rest.addresses ++ others)

section Functions

variable {allocator : Allocator} (balancer : SearchTree.Balancer AllowlistNode.key)
  {driver : Driver} {held : List Nat}

theorem linked_spec {list : Records} (counted : list.Counted) {node : AllowlistNode}
    (absent : node.text ∉ contents list) {next : Records}
    (linked : next = ⟨balancer.recolor (list.tree.link AllowlistNode.key node), list.limit + 1⟩) :
    next.Counted ∧ next.tree.inorder.Perm (node :: list.tree.inorder) := by
  subst linked
  have noKey : ∀ other ∈ list.tree.inorder, other.key ≠ node.key := by
    intro other listed same
    exact absent (mem_contents.mpr ⟨other, listed, order_injective same⟩)
  have split : (balancer.recolor (list.tree.link AllowlistNode.key node)).inorder.Perm
      (node :: list.tree.inorder) := by
    rw [balancer.inorder_recolor]
    exact SearchTree.perm_link noKey
  refine ⟨⟨?_, ?_⟩, split⟩
  · exact balancer.sorted_recolor (SearchTree.sorted_link counted.sorted noKey)
  · dsimp only
    rw [split.length_eq, counted.counted, length_cons]
    exact (Int.natCast_succ _).symm

theorem erased_spec {list : Records} (counted : list.Counted) {node : AllowlistNode}
    (listed : node ∈ list.tree.inorder) {next : Records}
    (erased : next = ⟨balancer.erase node.key list.tree, list.limit - 1⟩) :
    next.Counted ∧ list.tree.inorder.Perm (node :: next.tree.inorder) ∧
      node.text ∉ contents next := by
  subst erased
  have split := balancer.perm_erase counted.sorted listed
  refine ⟨⟨balancer.sorted_erase counted.sorted _, ?_⟩, split, ?_⟩
  · dsimp only
    rw [counted.counted, split.length_eq, length_cons, Int.natCast_succ]
    exact Int.add_sub_cancel _ _
  · intro kept
    obtain ⟨other, inNext, same⟩ := mem_contents.mp kept
    exact ((balancer.mem_erase counted.sorted).mp inNext).2 (congrArg order same)

theorem addAllowlist_spec (serves : allocator.Serves) (which : Which) {data : Nat}
    (sound : Sound driver (data :: held)) (text : Bytes) :
    ∃ rc next, addAllowlist allocator balancer which driver data text = some (rc, next) ∧
      Sound next (if rc = 0 then held else data :: held) ∧
      Performs driver next which (.add text) := by
  have counted := sound.counted which
  obtain ⟨address, heap, allocated, owns⟩ := (sound.split which).alloc serves
  rw [addAllowlist, allocated]
  dsimp only
  rw [insertRb, linkRb_eq]
  by_cases present : text ∈ contents (driver.lists which)
  · have found := (search_isSome_iff counted.sorted text).mpr present
    obtain ⟨next, freed, ownsHeld⟩ := owns.free
    have same := ((driver.owned_perm which).append_left (data :: held)).symm
    refine ⟨1, ⟨next, driver.lists⟩, ?_, ⟨sound.counted, ownsHeld.perm same⟩, ?_⟩
    · rw [if_pos found, Option.map_none, freed]
      rfl
    · exact performs_unchanged (Finset.insert_eq_self.mpr present)
  · have missing := mt (search_isSome_iff counted.sorted text).mp present
    rw [if_neg missing, Option.map_some]
    obtain ⟨recounted, split⟩ := linked_spec balancer counted present (Eq.refl (Records.mk
      (balancer.recolor ((driver.lists which).tree.link AllowlistNode.key ⟨address, data, text⟩))
      ((driver.lists which).limit + 1)))
    refine ⟨0, _, rfl, sound.update recounted (owns.perm ?_), performs_update ?_⟩
    · apply (List.Perm.swap data address _).trans
      exact (addresses_perm split held _).symm
    · exact contents_perm split

theorem delAllowlist_spec (which : Which) (sound : Sound driver held) (text : Bytes) :
    ∃ next, delAllowlist balancer which driver text = some next ∧ Sound next held ∧
      Performs driver next which (.del text) := by
  have counted := sound.counted which
  rw [delAllowlist]
  cases found : searchRb text (driver.lists which).tree with
  | none =>
    have absent : text ∉ contents (driver.lists which) := by
      rw [← search_isSome_iff counted.sorted, found]
      exact Bool.false_ne_true
    exact ⟨driver, rfl, sound, performs_unchanged (Finset.erase_eq_of_notMem absent)⟩
  | some node =>
    rw [searchRb_eq_find] at found
    obtain ⟨listed, sameOrder⟩ := (SearchTree.find_eq_some_iff counted.sorted).mp found
    have sameText : node.text = text := order_injective sameOrder
    obtain ⟨recounted, split, absent⟩ := erased_spec balancer counted listed (Eq.refl (Records.mk
      (balancer.erase node.key (driver.lists which).tree) ((driver.lists which).limit - 1)))
    have apart := (sound.split which).perm (addresses_perm split held _)
    obtain ⟨withoutData, freedData, ownsAddress⟩ := apart.free
    obtain ⟨heap, freedNode, owns⟩ := ownsAddress.free
    refine ⟨_, ?_, sound.update recounted owns, performs_update ?_⟩
    · dsimp only
      rw [freedData, Option.bind_eq_bind, Option.bind_some, freedNode]
      rfl
    · rw [contents_perm split, ← sameText, Change.apply, Finset.erase_insert absent]

theorem delAllAllowlist_spec (which : Which) (sound : Sound driver held) :
    ∃ next, delAllAllowlist which driver = some next ∧ Sound next held ∧
      Performs driver next which .deleteAll := by
  have listFirst := (sound.split which).perm (perm_append_comm_assoc held _ _)
  obtain ⟨heap, cleared, owns⟩ := rbtreeClear_spec (driver.lists which).tree listFirst
  refine ⟨⟨heap, Function.update driver.lists which ⟨.leaf, 0⟩⟩, ?_, ?_, performs_update rfl⟩
  · rw [delAllAllowlist, cleared]
    rfl
  · exact sound.update ⟨List.Pairwise.nil, rfl⟩ owns

end Functions

end Elkeid.Allowlist
