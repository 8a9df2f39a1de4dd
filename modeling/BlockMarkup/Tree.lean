import BlockMarkup.Text.Blank

namespace BlockMarkup

structure Element where
  tag : Text
  classes : List Text
  parent : Option Nat
  children : List Nat
deriving DecidableEq

def Element.hasClass (element : Element) (name : Text) : Bool := element.classes.contains name

def parentAt (elements : List Element) (id : Nat) : Option Nat :=
  elements[id]?.bind Element.parent

theorem parentAt_modify {change : Element → Element}
    (kept : ∀ element, (change element).parent = element.parent) (elements : List Element)
    (place id : Nat) : parentAt (elements.modify place change) id = parentAt elements id := by
  rw [parentAt, parentAt, List.getElem?_modify]
  cases elements[id]? with
  | none => rfl
  | some element =>
    change (if place = id then change element else element).parent = element.parent
    split
    · exact kept element
    · rfl

-- A parent is there before its child, or it is of another tree: then its number is that of no element.
def Ordered (elements : List Element) : Prop :=
  ∀ id above, parentAt elements id = some above → above < id ∨ elements.length ≤ above

theorem Ordered.modify {elements : List Element} (ordered : Ordered elements) (place : Nat)
    {change : Element → Element} (kept : ∀ element, (change element).parent = element.parent) :
    Ordered (elements.modify place change) := by
  intro id above link
  rw [parentAt_modify kept] at link
  rw [List.length_modify]
  exact ordered id above link

theorem Ordered.append {elements : List Element} (ordered : Ordered elements)
    (free : ∀ id < elements.length, parentAt elements id ≠ some elements.length) {last : Element}
    (other : last.parent ≠ some elements.length) : Ordered (elements ++ [last]) := by
  intro id above link
  rw [List.length_append, List.length_singleton]
  rcases Nat.lt_trichotomy id elements.length with old | rfl | past
  · rw [parentAt, List.getElem?_append_left old] at link
    have apart : above ≠ elements.length := fun same => free id old (same ▸ link)
    have before := ordered id above link
    omega
  · rw [parentAt, List.getElem?_concat_length] at link
    have apart : above ≠ elements.length := fun same => other (same ▸ link)
    omega
  · have none : (elements ++ [last])[id]? = none :=
      List.getElem?_eq_none (by rwa [List.length_append, List.length_singleton])
    rw [parentAt, none] at link
    cases link

structure Tree where
  elements : List Element
  ordered : Ordered elements
deriving DecidableEq

namespace Tree

def empty : Tree := ⟨[], by simp [Ordered, parentAt]⟩

def size (tree : Tree) : Nat := tree.elements.length

def get? (tree : Tree) (id : Nat) : Option Element := tree.elements[id]?

def parent? (tree : Tree) (id : Nat) : Option Nat := (tree.get? id).bind Element.parent

-- No element has a parent in another tree with the number that comes next here.
def Free (tree : Tree) : Prop := ∀ id < tree.size, tree.parent? id ≠ some tree.size

instance (tree : Tree) : Decidable tree.Free := inferInstanceAs (Decidable (∀ id < _, _))

theorem free_empty : empty.Free := by decide

def newElement (tag : Text) (classes : List Text) (parent : Option Nat) : Element :=
  { tag := tag.map Char.toLower
    classes := classes.flatMap blankSeparated
    parent := parent
    children := [] }

def addRoot (tree : Tree) (free : tree.Free) (tag : Text) (classes : List Text) : Tree where
  elements := tree.elements ++ [newElement tag classes none]
  ordered := tree.ordered.append free (by simp [newElement])

def withChild (child : Nat) (element : Element) : Element :=
  { element with children := element.children ++ [child] }

def appendChild (tree : Tree) (free : tree.Free) (parent : Nat) (other : parent ≠ tree.size)
    (tag : Text) (classes : List Text) : Tree where
  elements :=
    tree.elements.modify parent (withChild tree.size) ++ [newElement tag classes (some parent)]
  ordered := by
    have kept : ∀ element, (withChild tree.size element).parent = element.parent := fun _ => rfl
    refine (tree.ordered.modify parent kept).append ?_ ?_
    · intro id old
      rw [List.length_modify] at old ⊢
      rw [parentAt_modify kept]
      exact free id old
    · rw [List.length_modify]
      exact fun same => other (Option.some.inj same)

-- An element and its ancestors, the nearest first. A parent in another tree ends the path.
def path (tree : Tree) (id : Nat) : List Nat :=
  match tree.parent? id with
  | none => [id]
  | some above => if above < id then id :: tree.path above else [id, above]
termination_by id

def isWithin (tree : Tree) (id ancestor : Nat) : Bool := (tree.path id).contains ancestor

def sameTagSiblings (tree : Tree) (parent element : Element) : List Nat :=
  parent.children.filter fun child => (tree.get? child).any fun other => other.tag = element.tag

def positionOfType? (tree : Tree) (id : Nat) : Option (Nat × Nat) :=
  match tree.get? id with
  | none => none
  | some element =>
    match element.parent.bind tree.get? with
    | none => none
    | some parent =>
      let siblings := tree.sameTagSiblings parent element
      (siblings.idxOf? id).map fun before => (before + 1, siblings.length)

end Tree
end BlockMarkup
