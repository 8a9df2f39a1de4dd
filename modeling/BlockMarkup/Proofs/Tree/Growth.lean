import BlockMarkup.Tree
import Mathlib.Data.List.Basic

namespace BlockMarkup.Tree

variable {tree other grown : Tree} {element : Element} {id parent above : Nat}

-- What a tree may become. A child is given to an element that is there.
inductive Grows (tree : Tree) : Tree → Prop where
  | refl : Grows tree tree
  | root {grown : Tree} (before : Grows tree grown) (free : grown.Free) (tag : Text)
      (classes : List Text) : Grows tree (grown.addRoot free tag classes)
  | child {grown : Tree} (before : Grows tree grown) (free : grown.Free) {parent : Nat}
      (present : parent < grown.size) (tag : Text) (classes : List Text) :
      Grows tree (grown.appendChild free parent (Nat.ne_of_lt present) tag classes)

def Built (tree : Tree) : Prop := Grows .empty tree

theorem get?_eq_some_of_lt (present : id < tree.size) : ∃ element, tree.get? id = some element :=
  ⟨tree.elements[id], List.getElem?_eq_getElem present⟩

theorem lt_size_of_get? (found : tree.get? id = some element) : id < tree.size :=
  (List.getElem?_eq_some_iff.mp found).1

theorem parent?_eq_some_iff : tree.parent? id = some above ↔
    ∃ element, tree.get? id = some element ∧ element.parent = some above := by
  simp [parent?, Option.bind_eq_some_iff]

theorem lt_size_of_parent? (link : tree.parent? id = some above) : id < tree.size := by
  obtain ⟨element, found, _⟩ := parent?_eq_some_iff.mp link
  exact lt_size_of_get? found

structure Adds (tree other : Tree) : Prop where
  size : other.size = tree.size + 1
  parent : ∀ above, other.parent? tree.size = some above → above < tree.size
  fresh : ∀ element, other.get? tree.size = some element → element.children = []
  kept : ∀ id element, tree.get? id = some element → other.get? id = some { element with
    children := element.children ++ if other.parent? tree.size = some id then [tree.size] else [] }

theorem get?_last {front : List Element} {last : Element} (whole : tree.elements = front ++ [last])
    (length : front.length = id) : tree.get? id = some last := by
  simp [get?, whole, ← length]

theorem adds_addRoot (free : tree.Free) (tag : Text) (classes : List Text) :
    tree.Adds (tree.addRoot free tag classes) := by
  have last : (tree.addRoot free tag classes).get? tree.size =
      some (newElement tag classes none) := get?_last rfl rfl
  have noParent : (tree.addRoot free tag classes).parent? tree.size = none := by
    rw [parent?, last]
    rfl
  refine ⟨by simp [addRoot, size], ?_, ?_, ?_⟩
  · intro above link
    rw [noParent] at link
    cases link
  · intro element found
    rw [last] at found
    cases found
    rfl
  · intro id element found
    have old : (tree.addRoot free tag classes).get? id = tree.get? id :=
      List.getElem?_append_left (lt_size_of_get? found)
    rw [old, found, noParent]
    simp

theorem adds_appendChild (free : tree.Free) (present : parent < tree.size) (tag : Text)
    (classes : List Text) :
    tree.Adds (tree.appendChild free parent (Nat.ne_of_lt present) tag classes) := by
  have length : (tree.elements.modify parent (withChild tree.size)).length = tree.size :=
    List.length_modify ..
  have last : (tree.appendChild free parent (Nat.ne_of_lt present) tag classes).get? tree.size =
      some (newElement tag classes (some parent)) := get?_last rfl length
  have link : (tree.appendChild free parent (Nat.ne_of_lt present) tag classes).parent? tree.size =
      some parent := by
    rw [parent?, last]
    rfl
  refine ⟨by simp [appendChild, size], ?_, ?_, ?_⟩
  · intro above again
    rw [link] at again
    cases again
    exact present
  · intro element found
    rw [last] at found
    cases found
    rfl
  · intro id element found
    have inside : id < (tree.elements.modify parent (withChild tree.size)).length := by
      rw [length]
      exact lt_size_of_get? found
    rw [link, appendChild, get?, List.getElem?_append_left inside, List.getElem?_modify]
    change (_ <$> tree.get? id) = _
    rw [found]
    by_cases here : parent = id
    · simp [here, withChild]
    · simp [here]

def childrenOf (tree : Tree) (id : Nat) : List Nat :=
  (List.range tree.size).filter fun child => tree.parent? child = some id

structure Linked (tree : Tree) : Prop where
  parents : ∀ id above, tree.parent? id = some above → above < id
  children : ∀ id element, tree.get? id = some element → element.children = tree.childrenOf id

theorem linked_empty : Linked .empty := by
  refine ⟨fun id above link => ?_, fun id element found => ?_⟩
  · cases lt_size_of_parent? link
  · cases lt_size_of_get? found

theorem Adds.parent?_of_lt (adds : tree.Adds other) (present : id < tree.size) :
    other.parent? id = tree.parent? id := by
  obtain ⟨element, found⟩ := get?_eq_some_of_lt present
  rw [parent?, parent?, adds.kept id element found, found]
  rfl

theorem Adds.parent?_eq_some (adds : tree.Adds other) (link : other.parent? id = some above) :
    id < tree.size ∧ tree.parent? id = some above ∨ id = tree.size ∧ above < tree.size := by
  have present := lt_size_of_parent? link
  rw [adds.size] at present
  rcases Nat.lt_succ_iff_lt_or_eq.mp present with old | rfl
  · exact .inl ⟨old, adds.parent?_of_lt old ▸ link⟩
  · exact .inr ⟨rfl, adds.parent above link⟩

theorem Adds.childrenOf (adds : tree.Adds other) (id : Nat) :
    other.childrenOf id = tree.childrenOf id ++
      if other.parent? tree.size = some id then [tree.size] else [] := by
  have old : (List.range tree.size).filter (fun child => other.parent? child = some id) =
      tree.childrenOf id := by
    refine List.filter_congr fun child member => ?_
    rw [adds.parent?_of_lt (List.mem_range.mp member)]
  rw [Tree.childrenOf, adds.size, List.range_succ, List.filter_append, old]
  simp [List.filter_cons]

theorem Linked.childrenOf_eq_nil (linked : tree.Linked) (absent : tree.size ≤ id) :
    tree.childrenOf id = [] := by
  refine List.filter_eq_nil_iff.mpr fun child member => ?_
  simp only [decide_eq_true_eq]
  intro link
  have below := linked.parents child id link
  have inside := List.mem_range.mp member
  omega

theorem Linked.adds (linked : tree.Linked) (adds : tree.Adds other) : other.Linked where
  parents := by
    intro id above link
    rcases adds.parent?_eq_some link with ⟨_, old⟩ | ⟨rfl, below⟩
    · exact linked.parents id above old
    · exact below
  children := by
    intro id element found
    have present := lt_size_of_get? found
    rw [adds.size] at present
    rw [adds.childrenOf]
    rcases Nat.lt_succ_iff_lt_or_eq.mp present with old | rfl
    · obtain ⟨before, there⟩ := get?_eq_some_of_lt old
      rw [adds.kept id before there] at found
      cases found
      simp only [linked.children id before there]
    · have noLoop : other.parent? tree.size ≠ some tree.size := fun link =>
        Nat.lt_irrefl _ (adds.parent _ link)
      rw [adds.fresh element found, linked.childrenOf_eq_nil (Nat.le_refl _), if_neg noLoop]
      rfl

theorem Linked.grows (linked : tree.Linked) (grows : tree.Grows grown) : grown.Linked := by
  induction grows with
  | refl => exact linked
  | root _ free tag classes ih => exact ih.adds (adds_addRoot free tag classes)
  | child _ free present tag classes ih => exact ih.adds (adds_appendChild free present tag classes)

theorem Built.linked (built : tree.Built) : tree.Linked := linked_empty.grows built

theorem Linked.free (linked : tree.Linked) : tree.Free := by
  intro id inside link
  exact Nat.lt_asymm inside (linked.parents id tree.size link)

-- What was built from elements of the tree itself can be built on without end.
theorem Built.grows (built : tree.Built) (tag : Text) (classes : List Text) :
    (tree.addRoot built.linked.free tag classes).Built ∧
      ∀ parent, (present : parent < tree.size) →
        (tree.appendChild built.linked.free parent (Nat.ne_of_lt present) tag classes).Built :=
  ⟨.root built _ tag classes, fun _ present => .child built _ present tag classes⟩

structure Extends (tree grown : Tree) : Prop where
  size : tree.size ≤ grown.size
  kept : ∀ id element, tree.get? id = some element →
    ∃ children, grown.get? id = some { element with children := children }

theorem Extends.adds (extended : tree.Extends grown) (adds : grown.Adds other) :
    tree.Extends other := by
  refine ⟨?_, fun id element found => ?_⟩
  · rw [adds.size]
    exact Nat.le_succ_of_le extended.size
  · obtain ⟨children, there⟩ := extended.kept id element found
    exact ⟨_, adds.kept id { element with children := children } there⟩

theorem Grows.extends (grows : tree.Grows grown) : tree.Extends grown := by
  induction grows with
  | refl => exact ⟨Nat.le_refl _, fun id element found => ⟨element.children, found⟩⟩
  | root _ free tag classes ih => exact ih.adds (adds_addRoot free tag classes)
  | child _ free present tag classes ih => exact ih.adds (adds_appendChild free present tag classes)

theorem Extends.parent?_of_lt (extended : tree.Extends grown) (present : id < tree.size) :
    grown.parent? id = tree.parent? id := by
  obtain ⟨element, found⟩ := get?_eq_some_of_lt present
  obtain ⟨children, there⟩ := extended.kept id element found
  rw [parent?, parent?, there, found]
  rfl

end BlockMarkup.Tree
