import BlockMarkup.Proofs.Tree.Growth
import Mathlib.Data.List.Chain
import Mathlib.Logic.Relation
import Mathlib.Order.WellFounded

namespace BlockMarkup.Tree

variable {tree grown : Tree} {id above clicked root : Nat}

def Above (tree : Tree) : Nat → Nat → Prop :=
  Relation.ReflTransGen fun id above => tree.parent? id = some above

theorem above_iff : tree.Above id above ↔
    above = id ∨ ∃ next, tree.parent? id = some next ∧ tree.Above next above := by
  rw [Above, Relation.ReflTransGen.cases_head_iff, @eq_comm _ id]

theorem Linked.wellFounded (linked : tree.Linked) :
    WellFounded fun above id => tree.parent? id = some above :=
  Subrelation.wf (fun {above id} link => linked.parents id above link) Nat.lt_wfRel.wf

theorem Linked.le_of_above (linked : tree.Linked) (climbs : tree.Above id above) : above ≤ id := by
  induction climbs with
  | refl => exact Nat.le_refl _
  | tail _ link ih => exact Nat.le_trans (Nat.le_of_lt (linked.parents _ _ link)) ih

theorem path_of_none (top : tree.parent? id = none) : tree.path id = [id] := by
  rw [path]
  split
  · rfl
  · rename_i above link
    rw [top] at link
    cases link

theorem Linked.path_of_some (linked : tree.Linked) (link : tree.parent? id = some above) :
    tree.path id = id :: tree.path above := by
  rw [path]
  split
  · rename_i top
    rw [top] at link
    cases link
  · rename_i other link'
    rw [link] at link'
    cases link'
    rw [if_pos (linked.parents id above link)]

theorem Linked.mem_path_iff (linked : tree.Linked) :
    above ∈ tree.path id ↔ tree.Above id above := by
  induction id using linked.wellFounded.induction with
  | h id ih =>
    rw [above_iff]
    cases link : tree.parent? id with
    | none => simp [path_of_none link]
    | some next => simp [linked.path_of_some link, ih next link]

theorem Linked.isWithin_iff (linked : tree.Linked) :
    tree.isWithin id above = true ↔ tree.Above id above := by
  rw [isWithin, List.contains_iff_mem, linked.mem_path_iff]

def way (tree : Tree) (clicked root : Nat) : List Nat :=
  (tree.path clicked).takeWhile fun id => id != root

-- The elements from the clicked one up to `root`, which is left out, each before its parent.
structure Way (tree : Tree) (clicked root : Nat) (way : List Nat) : Prop where
  links : (way ++ [root]).IsChain fun id above => tree.parent? id = some above
  first : (way ++ [root]).head? = some clicked
  below : root ∉ way

theorem Linked.way_root (linked : tree.Linked) : tree.way root root = [] := by
  rw [way]
  cases link : tree.parent? root with
  | none => simp [path_of_none link]
  | some above => simp [linked.path_of_some link]

theorem Linked.way_cons (linked : tree.Linked) (link : tree.parent? clicked = some above)
    (other : clicked ≠ root) : tree.way clicked root = clicked :: tree.way above root := by
  rw [way, linked.path_of_some link, List.takeWhile_cons_of_pos (by simpa using other)]
  rfl

theorem Linked.way_spec (linked : tree.Linked) (climbs : tree.Above clicked root) :
    tree.Way clicked root (tree.way clicked root) := by
  induction climbs using Relation.ReflTransGen.head_induction_on with
  | refl =>
    rw [linked.way_root]
    exact ⟨.singleton root, rfl, List.not_mem_nil⟩
  | @head clicked above link climbs ih =>
    have lower : root < clicked :=
      Nat.lt_of_le_of_lt (linked.le_of_above climbs) (linked.parents clicked above link)
    rw [linked.way_cons link (Nat.ne_of_gt lower)]
    refine ⟨?_, rfl, ?_⟩
    · obtain ⟨rest, cut⟩ := List.head?_eq_some_iff.mp ih.first
      rw [List.cons_append, cut]
      exact .cons_cons link (cut ▸ ih.links)
    · exact List.not_mem_cons_of_ne_of_not_mem (Nat.ne_of_lt lower) ih.below

theorem Linked.way_unique (linked : tree.Linked) {way : List Nat}
    (spec : tree.Way clicked root way) : tree.Above clicked root ∧ way = tree.way clicked root := by
  induction way generalizing clicked with
  | nil =>
    have here : root = clicked := by simpa using spec.first
    rw [← here, linked.way_root]
    exact ⟨.refl, rfl⟩
  | cons id rest ih =>
    obtain ⟨links, first, below⟩ := spec
    obtain ⟨other, below⟩ := List.ne_and_not_mem_of_not_mem_cons below
    have here : id = clicked := by simpa using first
    subst here
    obtain ⟨next, more, cut⟩ := List.exists_cons_of_ne_nil (l := rest ++ [root]) (by simp)
    rw [List.cons_append, cut, List.isChain_cons_cons] at links
    obtain ⟨climbs, same⟩ := ih ⟨cut ▸ links.2, by rw [cut, List.head?_cons], below⟩
    exact ⟨above_iff.mpr (.inr ⟨next, links.1, climbs⟩),
      by rw [linked.way_cons links.1 (Ne.symm other), same]⟩

theorem Linked.way_self (linked : tree.Linked) (climbs : tree.Above clicked root)
    (other : clicked ≠ root) :
    ∃ rest, tree.way clicked root = clicked :: rest ∧ clicked < tree.size := by
  rcases above_iff.mp climbs with rfl | ⟨above, link, _⟩
  · exact absurd rfl other
  · exact ⟨tree.way above root, linked.way_cons link other, lt_size_of_parent? link⟩

theorem Linked.lt_size_of_mem_way (linked : tree.Linked) (climbs : tree.Above clicked root)
    (member : id ∈ tree.way clicked root) : id < tree.size := by
  by_cases same : clicked = root
  · rw [same, linked.way_root] at member
    cases member
  · obtain ⟨_, _, present⟩ := linked.way_self climbs same
    have onPath : id ∈ tree.path clicked := (List.takeWhile_subset _) member
    exact Nat.lt_of_le_of_lt (linked.le_of_above (linked.mem_path_iff.mp onPath)) present

theorem Linked.path_grown (linked : tree.Linked) (extended : tree.Extends grown)
    (after : grown.Linked) (present : id < tree.size) : grown.path id = tree.path id := by
  induction id using linked.wellFounded.induction with
  | h id ih =>
    have same := extended.parent?_of_lt present
    cases link : tree.parent? id with
    | none => rw [path_of_none link, path_of_none (same.trans link)]
    | some above =>
      have lower := linked.parents id above link
      rw [linked.path_of_some link, after.path_of_some (same.trans link),
        ih above link (Nat.lt_trans lower present)]

end BlockMarkup.Tree
