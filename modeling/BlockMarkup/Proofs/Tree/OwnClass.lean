import BlockMarkup.Proofs.Tree.Landing
import Mathlib.Data.List.Perm.Basic
import Mathlib.Data.List.TakeWhile

namespace BlockMarkup

variable {classPrefix own name part : Text} {classes order : List Text}

def IsOwnName (classPrefix name : Text) : Prop :=
  classPrefix ++ ['-'] <+: name ∧ ¬['_', '_'] <:+: name

-- A block's class is the only one of its kind; classes of parts and others may stand beside it.
structure OnlyOwn (classPrefix : Text) (classes : List Text) (own : Text) : Prop where
  member : own ∈ classes
  isOwn : IsOwnName classPrefix own
  only : ∀ name ∈ classes, IsOwnName classPrefix name → name = own

def Leads (classPrefix own : Text) (classes : List Text) : Prop :=
  ∃ front back, classes = front ++ own :: back ∧ ∀ name ∈ front, ¬classPrefix ++ ['-'] <+: name

theorem hasBlockPrefix_iff :
    hasBlockPrefix classPrefix name = true ↔ classPrefix ++ ['-'] <+: name := by
  have split : classPrefix ++ ['-'] <+: name ↔
      ∃ rest, dropStart? classPrefix name = some ('-' :: rest) := by
    simp [List.IsPrefix, dropStart?_eq_some_iff, eq_comm]
  rw [split, hasBlockPrefix]
  split
  · rename_i rest found
    simp [found]
  · rename_i other
    refine iff_of_false (by simp) ?_
    rintro ⟨rest, found⟩
    exact other rest found

instance (classPrefix : Text) : DecidablePred (IsOwnName classPrefix) := fun name =>
  decidable_of_iff (hasBlockPrefix classPrefix name = true ∧ splitAtPair? name = none)
    (and_congr hasBlockPrefix_iff splitAtPair?_eq_none_iff)

theorem ownClass?_eq_some_iff {block : Element} :
    ownClass? classPrefix block = some own ↔
      IsOwnName classPrefix own ∧ Leads classPrefix own block.classes := by
  have before : ∀ front : List Text, (∀ name ∈ front, (!hasBlockPrefix classPrefix name) = true) ↔
      ∀ name ∈ front, ¬classPrefix ++ ['-'] <+: name := by
    intro front
    simp only [← hasBlockPrefix_iff, Bool.not_eq_true, Bool.not_eq_true']
  rw [ownClass?, Option.filter_eq_some_iff, List.find?_eq_some_iff_append,
    Option.isNone_iff_eq_none, splitAtPair?_eq_none_iff, hasBlockPrefix_iff]
  simp only [before, IsOwnName, Leads]
  tauto

theorem OnlyOwn.ownClass? {block : Element} (only : OnlyOwn classPrefix block.classes own) :
    (Leads classPrefix own block.classes ∧ BlockMarkup.ownClass? classPrefix block = some own) ∨
      (¬Leads classPrefix own block.classes ∧ BlockMarkup.ownClass? classPrefix block = none) := by
  by_cases leads : Leads classPrefix own block.classes
  · exact .inl ⟨leads, ownClass?_eq_some_iff.mpr ⟨only.isOwn, leads⟩⟩
  · refine .inr ⟨leads, ?_⟩
    cases found : BlockMarkup.ownClass? classPrefix block with
    | none => rfl
    | some other =>
      obtain ⟨isOwn, leading⟩ := ownClass?_eq_some_iff.mp found
      have member : other ∈ block.classes := by
        obtain ⟨front, back, cut, _⟩ := leading
        simp [cut]
      exact absurd (only.only other member isOwn ▸ leading) leads

theorem OnlyOwn.perm (only : OnlyOwn classPrefix classes own) (same : order.Perm classes) :
    OnlyOwn classPrefix order own :=
  ⟨same.mem_iff.mpr only.member, only.isOwn, fun name member =>
    only.only name (same.mem_iff.mp member)⟩

namespace Tree

variable {tree other : Tree} {options : TargetOptions} {block : Element} {id clicked root : Nat}

def reclass (tree : Tree) (root : Nat) (order : List Text) : Tree :=
  ⟨tree.elements.modify root fun block => { block with classes := order },
    tree.ordered.modify root fun _ => rfl⟩

theorem get?_reclass : (tree.reclass root order).get? id = (tree.get? id).map fun element =>
    if root = id then { element with classes := order } else element := by
  rw [reclass, get?, List.getElem?_modify]
  rfl

theorem parent?_reclass : (tree.reclass root order).parent? id = tree.parent? id := by
  have kept : ∀ block : Element, { block with classes := order }.parent = block.parent :=
    fun _ => rfl
  exact parentAt_modify kept tree.elements root id

theorem path_eq_of_parent? (same : ∀ id, other.parent? id = tree.parent? id) (id : Nat) :
    other.path id = tree.path id := by
  induction id using Nat.strongRecOn with
  | ind id ih =>
    rw [path, path, same]
    split
    · rfl
    · rename_i above _
      by_cases lower : above < id
      · rw [if_pos lower, if_pos lower, ih above lower]
      · rw [if_neg lower, if_neg lower]

theorem positionOfType?_reclass :
    (tree.reclass root order).positionOfType? id = tree.positionOfType? id := by
  have kept : ∀ number element, tree.get? number = some element → ∃ classes,
      (tree.reclass root order).get? number = some { element with classes := classes } := by
    intro number element found
    rw [get?_reclass, found, Option.map_some]
    split
    · exact ⟨order, rfl⟩
    · exact ⟨element.classes, rfl⟩
  have tags : ∀ child tag, ((tree.reclass root order).get? child).any (fun element =>
      element.tag = tag) = (tree.get? child).any fun element => element.tag = tag := by
    intro child tag
    cases found : tree.get? child with
    | none => rw [get?_reclass, found, Option.map_none]
    | some element =>
      obtain ⟨classes, there⟩ := kept child element found
      rw [there]
      rfl
  rw [positionOfType?, positionOfType?]
  cases found : tree.get? id with
  | none => rw [get?_reclass, found, Option.map_none]
  | some element =>
    obtain ⟨classes, there⟩ := kept id element found
    rw [there]
    cases link : element.parent with
    | none => simp only [link, Option.bind_none]
    | some above =>
      cases foundAbove : tree.get? above with
      | none => simp only [link, Option.bind_some, get?_reclass, foundAbove, Option.map_none]
      | some parent =>
        obtain ⟨more, thereAbove⟩ := kept above parent foundAbove
        simp only [link, Option.bind_some, foundAbove, thereAbove, sameTagSiblings, tags]

theorem decide?_reclass (other : id ≠ root) (own : Option Text) :
    (tree.reclass root order).decide? options own id = tree.decide? options own id := by
  have telling : (tree.reclass root order).tellingPosition? options id =
      tree.tellingPosition? options id := by
    rw [tellingPosition?, tellingPosition?, positionOfType?_reclass]
  have found : (tree.reclass root order).get? id = tree.get? id := by
    rw [get?_reclass]
    simp [Ne.symm other]
  rw [decide?, decide?, telling, found]

theorem landing_reclass (found : tree.get? root = some block)
    (same : ownClass? options.classPrefix { block with classes := order } =
      ownClass? options.classPrefix block) :
    (tree.reclass root order).landing options clicked root = tree.landing options clicked root := by
  have there : (tree.reclass root order).get? root = some { block with classes := order } := by
    rw [get?_reclass, found]
    simp
  have path : (tree.reclass root order).path clicked = tree.path clicked :=
    path_eq_of_parent? (fun _ => parent?_reclass) clicked
  have within : (tree.reclass root order).isWithin clicked root = tree.isWithin clicked root := by
    rw [isWithin, isWithin, path]
  have decided : ∀ id ∈ tree.way clicked root,
      (tree.reclass root order).decide? options (ownClass? options.classPrefix block) id =
        tree.decide? options (ownClass? options.classPrefix block) id :=
    fun id member => decide?_reclass (by simpa using List.mem_takeWhile_imp member) _
  have search := findSome?_congr decided
  rw [way] at search
  rw [landing, landing, there, found]
  simp only [within, path, same, search]

def Deciding (tree : Tree) (options : TargetOptions) (clicked root id : Nat) : Prop :=
  ∃ front back, tree.way clicked root = front ++ id :: back ∧
    (∀ below ∈ front, tree.PassedAt options root below) ∧ ¬tree.PassedAt options root id

theorem passedAt_of_decide?
    (nothing : tree.decide? options (tree.own? options root) id = none) :
    tree.PassedAt options root id := by
  cases found : tree.get? id with
  | none =>
    rw [decide?, found] at nothing
    cases nothing
  | some element => exact ⟨element, found, (decide?_eq_none_iff found).mp nothing⟩

theorem deciding_of_part (found : tree.get? root = some block)
    (lands : tree.landing options clicked root = .part part) :
    ∃ id element, tree.Deciding options clicked root id ∧ tree.get? id = some element ∧
      ∃ name ∈ element.classes,
        NamesPart options.classPrefix (ownClass? options.classPrefix block) name part := by
  have blockOwn : tree.own? options root = ownClass? options.classPrefix block := by
    rw [own?, found]
    rfl
  rw [landing, found] at lands
  dsimp only at lands
  split at lands
  · cases search : (tree.way clicked root).findSome?
        (tree.decide? options (ownClass? options.classPrefix block)) with
    | none =>
      rw [way] at search
      rw [search] at lands
      cases lands
    | some landing =>
      obtain ⟨front, id, back, cut, decided, before⟩ := List.findSome?_eq_some_iff.mp search
      rw [way] at search
      rw [search] at lands
      cases lands
      cases there : tree.get? id with
      | none =>
        rw [decide?, there] at decided
        cases decided
      | some element =>
        refine ⟨id, element, ⟨front, back, cut, fun below member => ?_, ?_⟩, there, ?_⟩
        · exact passedAt_of_decide? (blockOwn ▸ before below member)
        · intro passed
          have nothing := passed.decide?
          rw [blockOwn, decided] at nothing
          cases nothing
        · cases decides_of_decide? there decided with
          | @part front back name _ _ classesCut names _ =>
            exact ⟨name, by simp [classesCut], names⟩
  · cases lands

-- With these classes on the element of a block, a part is told by name only by a class that is the
-- block's class, two underscores and that name.
def OwnPartsOnly (classPrefix own : Text) (classes : List Text) : Prop :=
  ∀ (tree : Tree) (options : TargetOptions) (clicked root : Nat) (block : Element),
    options.classPrefix = classPrefix → tree.get? root = some block → block.classes = classes →
    ∀ part, tree.landing options clicked root = .part part →
      ∃ id element, tree.Deciding options clicked root id ∧ tree.get? id = some element ∧
        own ++ '_' :: '_' :: part ∈ element.classes

def SameTargets (classPrefix : Text) (classes order : List Text) : Prop :=
  ∀ (tree : Tree) (options : TargetOptions) (clicked root : Nat) (block : Element),
    options.classPrefix = classPrefix → tree.get? root = some block → block.classes = classes →
    (tree.reclass root order).clickTarget options clicked root =
      tree.clickTarget options clicked root

theorem ownPartsOnly_of_leads (only : OnlyOwn classPrefix classes own)
    (leads : Leads classPrefix own classes) : OwnPartsOnly classPrefix own classes := by
  rintro tree options clicked root block rfl found rfl part lands
  obtain ⟨id, element, deciding, there, name, member, names⟩ := deciding_of_part found lands
  rw [ownClass?_eq_some_iff.mpr ⟨only.isOwn, leads⟩] at names
  exact ⟨id, element, deciding, there, names ▸ member⟩

theorem sameTargets_of_iff (only : OnlyOwn classPrefix classes own) (perm : order.Perm classes)
    (both : Leads classPrefix own order ↔ Leads classPrefix own classes) :
    SameTargets classPrefix classes order := by
  rintro tree options clicked root block rfl found rfl
  rw [clickTarget, clickTarget, landing_reclass found]
  have reordered : OnlyOwn options.classPrefix { block with classes := order }.classes own :=
    only.perm perm
  rcases only.ownClass? with ⟨leads, here⟩ | ⟨hidden, here⟩ <;>
    rcases reordered.ownClass? with ⟨leads', there⟩ | ⟨hidden', there⟩
  · rw [here, there]
  · exact absurd (both.mpr leads) hidden'
  · exact absurd (both.mp leads') hidden
  · rw [here, there]

theorem ordered_pair {block below : Element} (top : block.parent = none)
    (link : below.parent = some 0) : Ordered [block, below] := by
  intro id above parent
  match id with
  | 0 =>
    cases top.symm.trans parent
  | 1 =>
    cases link.symm.trans parent
    exact .inl Nat.zero_lt_one
  | _ + 2 => cases parent

def headed (classPrefix : Text) (classes : List Text) : Tree :=
  ⟨[⟨"div".toList, classes, none, [1]⟩, ⟨"h2".toList, [classPrefix ++ "__x".toList], some 0, []⟩],
    ordered_pair rfl rfl⟩

theorem path_headed : (headed classPrefix classes).path 1 = [1, 0] := by
  rw [path]
  change (if 0 < 1 then 1 :: (headed classPrefix classes).path 0 else [1, 0]) = _
  rw [if_pos Nat.zero_lt_one, path_of_none rfl]

theorem way_headed : (headed classPrefix classes).way 1 0 = [1] := by
  rw [way, path_headed]
  rfl

theorem isIdentifier_heading : Identifier.isIdentifier (classPrefix ++ "__x".toList) = false := by
  cases classPrefix with
  | nil => decide
  | cons c rest =>
    rw [List.cons_append, Identifier.isIdentifier.eq_def]
    split
    · rename_i digits cut
      have mark : '_' ∈ digits := by
        rw [← (List.cons.inj cut).2]
        simp
      have noDigit : digits.all isDecimal = false := by
        rw [List.all_eq_false]
        exact ⟨'_', mark, by decide⟩
      simp [noDigit]
    · rfl

theorem partName?_heading_none (isOwn : IsOwnName classPrefix own) :
    partName? classPrefix (some own) (classPrefix ++ "__x".toList) = none := by
  refine partName?_eq_none_iff.mpr fun part names => ?_
  obtain ⟨rest, cut⟩ := isOwn.1
  simp [← cut, NamesPart] at names

theorem partName?_heading_some (classPrefix : Text) : ∃ part, part.getLast? = some 'x' ∧
    partName? classPrefix none (classPrefix ++ "__x".toList) = some part := by
  cases found : splitAtPair? (classPrefix ++ "__x".toList) with
  | none => exact absurd ⟨classPrefix, ['x'], by simp⟩ (splitAtPair?_eq_none_iff.mp found)
  | some pieces =>
    obtain ⟨before, part⟩ := pieces
    have cut := (splitAtPair?_eq_some_iff.mp found).1
    have last := congrArg List.getLast? cut
    have starts : (dropStart? classPrefix (classPrefix ++ "__x".toList)).isSome = true :=
      dropStart?_isSome_iff.mpr (List.prefix_append _ _)
    refine ⟨part, ?_, by rw [partName?, if_pos starts, found]; rfl⟩
    cases part with
    | nil => simp at last
    | cons c rest => simpa [List.getLast?_append, List.getLast?_cons_cons] using last.symm

theorem landing_headed (only : OnlyOwn classPrefix classes own) :
    (Leads classPrefix own classes ∧ (headed classPrefix classes).landing ⟨classPrefix, false⟩ 1 0 =
      .element "h2".toList none) ∨
    (¬Leads classPrefix own classes ∧ ∃ part, part.getLast? = some 'x' ∧
      (headed classPrefix classes).landing ⟨classPrefix, false⟩ 1 0 = .part part) := by
  let block : Element := ⟨"div".toList, classes, none, [1]⟩
  have search : (headed classPrefix classes).landing ⟨classPrefix, false⟩ 1 0 =
      (((headed classPrefix classes).way 1 0).findSome? ((headed classPrefix classes).decide?
        ⟨classPrefix, false⟩ (ownClass? classPrefix block))).getD .root := by
    have within : (headed classPrefix classes).isWithin 1 0 = true := by
      rw [isWithin, path_headed]
      rfl
    rw [landing, way]
    change (if (headed classPrefix classes).isWithin 1 0 = true then _ else _) = _
    rw [if_pos within]
  have heading : (headed classPrefix classes).get? 1 =
      some ⟨"h2".toList, [classPrefix ++ "__x".toList], some 0, []⟩ := rfl
  rw [search, way_headed, List.findSome?_singleton, decide?, heading]
  simp only [List.find?_singleton, isIdentifier_heading, Bool.false_eq_true, if_false,
    List.findSome?_singleton]
  have here : OnlyOwn classPrefix block.classes own := only
  rcases here.ownClass? with ⟨leads, found⟩ | ⟨hidden, found⟩
  · refine .inl ⟨leads, ?_⟩
    rw [found, partName?_heading_none only.isOwn]
    rfl
  · obtain ⟨part, last, named⟩ := partName?_heading_some classPrefix
    refine .inr ⟨hidden, part, last, ?_⟩
    rw [found, named]
    rfl

theorem leads_of_ownPartsOnly (only : OnlyOwn classPrefix classes own)
    (law : OwnPartsOnly classPrefix own classes) : Leads classPrefix own classes := by
  rcases landing_headed only with ⟨leads, _⟩ | ⟨_, part, _, lands⟩
  · exact leads
  obtain ⟨id, element, ⟨front, back, cut, _⟩, found, member⟩ :=
    law (headed classPrefix classes) ⟨classPrefix, false⟩ 1 0 _ rfl rfl rfl part lands
  rw [way_headed] at cut
  have here : id = 1 := by
    have inside : id ∈ [1] := by rw [cut]; simp
    exact List.mem_singleton.mp inside
  subst here
  cases found
  have names : NamesPart classPrefix (some own) (classPrefix ++ "__x".toList) part :=
    (List.mem_singleton.mp member).symm
  exact absurd names (partName?_eq_none_iff.mp (partName?_heading_none only.isOwn) part)

theorem iff_of_sameTargets (only : OnlyOwn classPrefix classes own) (perm : order.Perm classes)
    (same : SameTargets classPrefix classes order) :
    Leads classPrefix own order ↔ Leads classPrefix own classes := by
  have targets := same (headed classPrefix classes) ⟨classPrefix, false⟩ 1 0 _ rfl rfl rfl
  have reordered : (headed classPrefix classes).reclass 0 order = headed classPrefix order := rfl
  have apart : ∀ part : Text, part.getLast? = some 'x' →
      (Landing.part part).target ≠ (Landing.element "h2".toList none).target := by
    rintro part last equal
    have text : part = ">h2".toList := equal
    rw [text] at last
    cases last
  rw [clickTarget, clickTarget, reordered] at targets
  rcases landing_headed only with ⟨leads, here⟩ | ⟨hidden, part, last, here⟩ <;>
    rcases landing_headed (only.perm perm) with ⟨leads', there⟩ | ⟨hidden', part', last', there⟩
  · exact iff_of_true leads' leads
  · rw [here, there] at targets
    exact absurd targets (apart part' last')
  · rw [here, there] at targets
    exact absurd targets.symm (apart part last)
  · exact iff_of_false hidden' hidden

theorem leads_of_alone (member : own ∈ order)
    (alone : ∀ name ∈ order, classPrefix ++ ['-'] <+: name → name = own) :
    Leads classPrefix own order := by
  obtain ⟨front, back, cut, first⟩ := List.eq_append_cons_of_mem member
  refine ⟨front, back, cut, fun name before starts => ?_⟩
  rw [alone name (by simp [cut, before]) starts] at before
  exact first before

theorem leads_perm_iff (member : own ∈ classes) :
    (∀ order : List Text, order.Perm classes → Leads classPrefix own order) ↔
      ∀ name ∈ classes, classPrefix ++ ['-'] <+: name → name = own := by
  constructor
  · intro leads name present starts
    obtain ⟨front, back, cut, before⟩ :=
      leads (name :: classes.erase name) (List.perm_cons_erase present).symm
    cases front with
    | nil => exact (List.cons.inj cut).1
    | cons first rest =>
      have same := (List.cons.inj cut).1
      exact absurd (same ▸ starts) (before first List.mem_cons_self)
  · intro alone order perm
    exact leads_of_alone (perm.mem_iff.mpr member) fun name present =>
      alone name (perm.mem_iff.mp present)

-- A block's own class does what it should exactly where it stands before all other classes with the
-- prefix; so its place does not count exactly when there is no such class.
theorem ownClass_place (only : OnlyOwn classPrefix classes own) :
    (OwnPartsOnly classPrefix own classes ↔ Leads classPrefix own classes) ∧
    (∀ order : List Text, order.Perm classes →
      (SameTargets classPrefix classes order ↔
        (Leads classPrefix own order ↔ Leads classPrefix own classes))) ∧
    ((∀ order : List Text, order.Perm classes →
        SameTargets classPrefix classes order ∧ OwnPartsOnly classPrefix own order) ↔
      ∀ name ∈ classes, classPrefix ++ ['-'] <+: name → name = own) := by
  refine ⟨⟨leads_of_ownPartsOnly only, ownPartsOnly_of_leads only⟩, fun order perm =>
    ⟨iff_of_sameTargets only perm, sameTargets_of_iff only perm⟩, ?_⟩
  rw [← leads_perm_iff only.member]
  constructor
  · intro both order perm
    exact leads_of_ownPartsOnly (only.perm perm) (both order perm).2
  · intro leads order perm
    have here := leads order perm
    exact ⟨sameTargets_of_iff only perm (iff_of_true here (leads classes (.refl _))),
      ownPartsOnly_of_leads (only.perm perm) here⟩

def cardClass : Text := "mkly-core-card".toList

theorem ownClass_place_leadCard :
    OnlyOwn "mkly".toList ["lead".toList, cardClass] cardClass ∧
      ∀ order : List Text, order.Perm ["lead".toList, cardClass] →
        SameTargets "mkly".toList ["lead".toList, cardClass] order ∧
          OwnPartsOnly "mkly".toList cardClass order := by
  have only : OnlyOwn "mkly".toList ["lead".toList, cardClass] cardClass :=
    ⟨by decide, by decide, by decide⟩
  exact ⟨only, (ownClass_place only).2.2.mpr (by decide)⟩

def gridCard : Tree :=
  (Tree.empty.addRoot free_empty "div".toList
    ["mkly-core-grid__cell mkly-core-card".toList]).appendChild (by decide) 0 (by decide)
    "h2".toList ["mkly-core-text__title".toList]

-- Behind the class of the cell the card's class is not seen, and the title counts as the card's own.
theorem gridCard_misled :
    gridCard.Built ∧
      OnlyOwn "mkly".toList ["mkly-core-grid__cell".toList, cardClass] cardClass ∧
      (gridCard.get? 0).map Element.classes = some ["mkly-core-grid__cell".toList, cardClass] ∧
      gridCard.clickTarget .default 1 0 = "title".toList ∧
      (gridCard.reclass 0 [cardClass, "mkly-core-grid__cell".toList]).clickTarget .default 1 0 =
        ">h2".toList ∧
      ∀ element ∈ gridCard.elements, cardClass ++ "__title".toList ∉ element.classes :=
  ⟨.child (.root .refl _ _ _) _ (by decide) _ _, ⟨by decide, by decide, by decide⟩, by decide +kernel,
    by decide +kernel, by decide +kernel, by decide +kernel⟩

end Tree
end BlockMarkup
