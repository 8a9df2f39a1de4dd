import BlockMarkup.Proofs.Identifier
import BlockMarkup.Proofs.Tree.Landing
import Mathlib.Data.List.Nodup

namespace BlockMarkup.Tree

variable {tree : Tree} {options : TargetOptions} {element : Element} {tag : Text}
variable {id before clicked root parent first second : Nat}

def taggedChildren (tree : Tree) (parent : Nat) (tag : Text) : List Nat :=
  (List.range tree.size).filter fun id =>
    (tree.get? id).any fun element => element.parent = some parent ∧ element.tag = tag

theorem nodup_taggedChildren : (tree.taggedChildren parent tag).Nodup := List.nodup_range.filter _

theorem mem_taggedChildren_iff : id ∈ tree.taggedChildren parent tag ↔
    ∃ element, tree.get? id = some element ∧ element.parent = some parent ∧ element.tag = tag := by
  rw [taggedChildren, List.mem_filter, List.mem_range, Option.any_eq_true]
  simp only [decide_eq_true_eq]
  refine and_iff_right_of_imp ?_
  rintro ⟨element, found, _⟩
  exact lt_size_of_get? found

theorem Linked.sameTagSiblings_eq (linked : tree.Linked) {block : Element}
    (found : tree.get? parent = some block) (element : Element) :
    tree.sameTagSiblings block element = tree.taggedChildren parent element.tag := by
  rw [sameTagSiblings, linked.children parent block found, childrenOf, List.filter_filter,
    taggedChildren]
  refine List.filter_congr fun id member => ?_
  obtain ⟨other, there⟩ := get?_eq_some_of_lt (List.mem_range.mp member)
  simp [there, parent?, and_comm]

theorem Linked.positionOfType?_eq (linked : tree.Linked)
    (member : id ∈ tree.taggedChildren parent tag) :
    tree.positionOfType? id = ((tree.taggedChildren parent tag).idxOf? id).map fun before =>
      (before + 1, (tree.taggedChildren parent tag).length) := by
  obtain ⟨element, found, link, rfl⟩ := mem_taggedChildren_iff.mp member
  have above : parent < id := linked.parents id parent (by rw [parent?, found]; exact link)
  obtain ⟨block, there⟩ := get?_eq_some_of_lt (Nat.lt_trans above (lt_size_of_get? found))
  rw [positionOfType?, found]
  simp only [link, Option.bind_some, there, linked.sameTagSiblings_eq there]

theorem Linked.positionOfType?_getElem (linked : tree.Linked)
    (inside : before < (tree.taggedChildren parent tag).length) :
    tree.positionOfType? (tree.taggedChildren parent tag)[before] =
      some (before + 1, (tree.taggedChildren parent tag).length) := by
  have found : (tree.taggedChildren parent tag).idxOf? (tree.taggedChildren parent tag)[before] =
      some before := by
    refine List.idxOf?_eq_some_iff.mpr ⟨inside, rfl, fun earlier before same => ?_⟩
    exact Nat.ne_of_lt before (nodup_taggedChildren.getElem_inj_iff.mp same)
  rw [linked.positionOfType?_eq (List.getElem_mem inside), found]
  rfl

structure ToldByTag (options : TargetOptions) (own : Option Text) (element : Element) : Prop where
  unidentified : ∀ name ∈ element.classes, Identifier.isIdentifier name = false
  noPart : ∀ name ∈ element.classes, ∀ part, ¬NamesPart options.classPrefix own name part
  block : isInlineTag element.tag = false

instance (options : TargetOptions) (own : Option Text) (element : Element) :
    Decidable (ToldByTag options own element) :=
  decidable_of_iff ((∀ name ∈ element.classes, Identifier.isIdentifier name = false) ∧
      (∀ name ∈ element.classes, partName? options.classPrefix own name = none) ∧
      isInlineTag element.tag = false)
    ⟨fun ⟨unidentified, noPart, block⟩ =>
        ⟨unidentified, fun name member => partName?_eq_none_iff.mp (noPart name member), block⟩,
      fun ⟨unidentified, noPart, block⟩ =>
        ⟨unidentified, fun name member => partName?_eq_none_iff.mpr (noPart name member), block⟩⟩

theorem Linked.landing_of_toldByTag (linked : tree.Linked) (climbs : tree.Above clicked root)
    (other : clicked ≠ root) (found : tree.get? clicked = some element)
    (told : ToldByTag options (tree.own? options root) element) :
    tree.landing options clicked root =
      .element element.tag (tree.tellingPosition? options clicked) := by
  obtain ⟨rest, cut, _⟩ := linked.way_self climbs other
  have spec := linked.way_spec climbs
  rw [cut] at spec
  have nothing : ∀ below ∈ ([] : List Nat), tree.PassedAt options root below := by simp
  refine linked.landing_of_lands (.decided spec nothing ⟨element, found, ?_⟩)
  exact .element told.unidentified told.noPart told.block

theorem position_eq_of_target_eq {position other : Nat}
    (same : (Landing.element tag (some position)).target =
      (Landing.element tag (some other)).target) : position = other := by
  have written : '>' :: tag ++ ":nth-of-type(".toList ++ decimal position ++ [')'] =
      '>' :: tag ++ ":nth-of-type(".toList ++ decimal other ++ [')'] := same
  have digits : decimal position = decimal other :=
    List.append_cancel_left (List.append_cancel_right written)
  exact Identifier.text_injective (congrArg (List.cons 's') digits)

theorem Linked.tellingPosition?_getElem (linked : tree.Linked) (counted : options.positional = true)
    (several : 1 < (tree.taggedChildren parent tag).length)
    (inside : before < (tree.taggedChildren parent tag).length) :
    tree.tellingPosition? options (tree.taggedChildren parent tag)[before] = some (before + 1) := by
  rw [tellingPosition?, if_pos counted, linked.positionOfType?_getElem inside]
  simp only [several, if_pos]

-- The children of one tag have the positions 1 to their number, in their order, so that clicks on
-- two of them have two targets when nothing but their tags and positions counts.
theorem positions_of_built (built : tree.Built) :
    (∀ parent block, tree.get? parent = some block → ∀ tag,
      (block.children.filter fun id => (tree.get? id).any fun element => element.tag = tag) =
        tree.taggedChildren parent tag) ∧
    (∀ parent tag, (tree.taggedChildren parent tag).map tree.positionOfType? =
      (List.range (tree.taggedChildren parent tag).length).map fun before =>
        some (before + 1, (tree.taggedChildren parent tag).length)) ∧
    ∀ options root parent tag, options.positional = true → tree.Above parent root →
      ∀ first ∈ tree.taggedChildren parent tag, ∀ second ∈ tree.taggedChildren parent tag,
      first ≠ second →
      (∀ id ∈ [first, second], ∀ element, tree.get? id = some element →
        ToldByTag options (tree.own? options root) element) →
      tree.clickTarget options first root ≠ tree.clickTarget options second root := by
  have linked := built.linked
  refine ⟨fun parent block found tag => ?_, fun parent tag => ?_, ?_⟩
  · exact linked.sameTagSiblings_eq found ⟨tag, [], none, []⟩
  · refine List.ext_getElem (by simp) fun before inside _ => ?_
    rw [List.length_map] at inside
    simp only [List.getElem_map, List.getElem_range, linked.positionOfType?_getElem inside]
  · intro options root parent tag counted climbs first one second two different told same
    obtain ⟨before, inside, rfl⟩ := List.mem_iff_getElem.mp one
    obtain ⟨later, within, rfl⟩ := List.mem_iff_getElem.mp two
    have apart : before ≠ later := by
      rintro rfl
      exact different rfl
    have several : 1 < (tree.taggedChildren parent tag).length := by omega
    -- Both are below the block, and decide for themselves.
    have lands : ∀ place (there : place < (tree.taggedChildren parent tag).length),
        (tree.taggedChildren parent tag)[place] ∈ [(tree.taggedChildren parent tag)[before],
          (tree.taggedChildren parent tag)[later]] →
        tree.clickTarget options (tree.taggedChildren parent tag)[place] root =
          (Landing.element tag (some (place + 1))).target := by
      intro place there either
      obtain ⟨element, found, link, rfl⟩ := mem_taggedChildren_iff.mp (List.getElem_mem there)
      have up : tree.parent? (tree.taggedChildren parent element.tag)[place] = some parent := by
        rw [parent?, found]
        exact link
      have lower := linked.parents _ _ up
      have below := linked.le_of_above climbs
      rw [clickTarget, linked.landing_of_toldByTag (above_iff.mpr (.inr ⟨parent, up, climbs⟩))
        (by omega) found (told _ either _ found), linked.tellingPosition?_getElem counted several]
    rw [lands before inside (by simp), lands later within (by simp)] at same
    have equal := position_eq_of_target_eq same
    omega

def twinCard : Tree :=
  (((Tree.empty.addRoot free_empty "div".toList ["mkly-core-card".toList]).appendChild
    (by decide) 0 (by decide) "p".toList []).appendChild
    (by decide) 0 (by decide) "ul".toList []).appendChild
    (by decide) 0 (by decide) "P".toList ["lead".toList]

def counting : TargetOptions := ⟨Style.defaultClassPrefix, true⟩

theorem positions_of_built_twinCard :
    twinCard.Built ∧ counting.positional = true ∧ twinCard.Above 0 0 ∧
      twinCard.taggedChildren 0 "p".toList = [1, 3] ∧
      (∀ id ∈ [1, 3], ∀ element, twinCard.get? id = some element →
        ToldByTag counting (twinCard.own? counting 0) element) ∧
      [1, 3].map twinCard.positionOfType? = [some (1, 2), some (2, 2)] ∧
      twinCard.clickTarget counting 1 0 ≠ twinCard.clickTarget counting 3 0 := by
  have built : twinCard.Built :=
    .child (.child (.child (.root .refl _ _ _) _ (by decide) _ _) _ (by decide) _ _) _
      (by decide) _ _
  have twins : twinCard.taggedChildren 0 "p".toList = [1, 3] := by decide +kernel
  have member : ∀ id ∈ [1, 3], id ∈ twinCard.taggedChildren 0 "p".toList := by
    rw [twins]
    exact fun _ there => there
  have told : ∀ id ∈ [1, 3], ∀ element, twinCard.get? id = some element →
      ToldByTag counting (twinCard.own? counting 0) element := by
    decide +kernel
  obtain ⟨_, counted, apart⟩ := positions_of_built built
  have places := counted 0 "p".toList
  rw [twins] at places
  refine ⟨built, rfl, .refl, twins, told, places, ?_⟩
  exact apart counting 0 0 "p".toList rfl .refl 1 (member 1 (by decide)) 3 (member 3 (by decide))
    (by decide) told

end BlockMarkup.Tree
