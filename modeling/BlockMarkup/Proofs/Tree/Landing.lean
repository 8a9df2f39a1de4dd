import BlockMarkup.Proofs.Tree.Path
import BlockMarkup.Tree.Click

namespace BlockMarkup

variable {t before after name part classPrefix : Text} {own : Option Text}

theorem no_pair_at_start {c : Char} {rest : Text}
    (noPair : ∀ tail, c = '_' → rest = '_' :: tail → False)
    (cut : rest = before ++ '_' :: '_' :: after) : ¬['_', '_'] <+: c :: (before ++ ['_']) := by
  intro start
  obtain ⟨rfl, second⟩ := List.cons_prefix_cons.mp start
  cases before with
  | nil => exact noPair ('_' :: after) rfl cut
  | cons d more =>
    obtain ⟨rfl, _⟩ := List.cons_prefix_cons.mp second
    exact noPair _ rfl cut

theorem splitAtPair?_eq_some_iff : splitAtPair? t = some (before, after) ↔
    t = before ++ '_' :: '_' :: after ∧ ¬['_', '_'] <:+: before ++ ['_'] := by
  induction t using splitAtPair?.induct generalizing before with
  | case1 rest =>
    cases before with
    | nil =>
      have short : ¬['_', '_'] <:+: ['_'] := fun inside => absurd inside.length_le (by decide)
      simp only [splitAtPair?, Option.some.injEq, Prod.mk.injEq, true_and, List.nil_append,
        List.cons.injEq, short, not_false_eq_true, and_true]
    | cons c more =>
      refine iff_of_false (by simp [splitAtPair?]) fun ⟨cut, first⟩ => first ?_
      obtain ⟨rfl, rest_eq⟩ := List.cons.inj cut
      cases more with
      | nil => exact List.infix_refl _
      | cons d more =>
        obtain ⟨rfl, _⟩ := List.cons.inj rest_eq
        exact ⟨[], more ++ ['_'], rfl⟩
  | case2 c rest noPair ih =>
    rw [splitAtPair?, Option.map_eq_some_iff]
    · cases before with
      | nil =>
        refine iff_of_false (by simp) fun ⟨cut, _⟩ => ?_
        obtain ⟨rfl, rest_eq⟩ := List.cons.inj cut
        exact noPair after rfl rest_eq
      | cons d more =>
        constructor
        · rintro ⟨⟨b, a⟩, found, same⟩
          cases same
          obtain ⟨cut, first⟩ := ih.mp found
          refine ⟨by rw [cut, List.cons_append], ?_⟩
          rw [List.cons_append, List.infix_cons_iff]
          exact not_or.mpr ⟨no_pair_at_start noPair cut, first⟩
        · rintro ⟨cut, first⟩
          obtain ⟨rfl, rest_eq⟩ := List.cons.inj cut
          rw [List.cons_append, List.infix_cons_iff] at first
          exact ⟨(more, after), ih.mpr ⟨rest_eq, (not_or.mp first).2⟩, rfl⟩
    · exact noPair
  | case3 => simp [splitAtPair?]

theorem splitAtPair?_eq_none_iff : splitAtPair? t = none ↔ ¬['_', '_'] <:+: t := by
  induction t using splitAtPair?.induct with
  | case1 rest =>
    refine iff_of_false (by simp [splitAtPair?]) (not_not.mpr ⟨[], rest, rfl⟩)
  | case2 c rest noPair ih =>
    rw [splitAtPair?, Option.map_eq_none_iff, ih, List.infix_cons_iff, not_or]
    · refine (and_iff_right ?_).symm
      rintro ⟨more, cut⟩
      obtain ⟨rfl, rest_eq⟩ := List.cons.inj cut
      exact noPair more rfl rest_eq.symm
    · exact noPair
  | case3 => simp [splitAtPair?]

def NamesPart (classPrefix : Text) (own : Option Text) (name part : Text) : Prop :=
  match own with
  | some block => name = block ++ '_' :: '_' :: part
  | none => classPrefix <+: name ∧
      ∃ before, name = before ++ '_' :: '_' :: part ∧ ¬['_', '_'] <:+: before ++ ['_']

theorem dropStart?_isSome_iff {start : Text} :
    (dropStart? start t).isSome = true ↔ start <+: t := by
  rw [Option.isSome_iff_exists]
  constructor
  · rintro ⟨rest, found⟩
    exact ⟨rest, (dropStart?_eq_some_iff.mp found).symm⟩
  · rintro ⟨rest, cut⟩
    exact ⟨rest, dropStart?_eq_some_iff.mpr cut.symm⟩

theorem partName?_eq_some_iff :
    partName? classPrefix own name = some part ↔ NamesPart classPrefix own name part := by
  cases own with
  | some block =>
    simp only [partName?, NamesPart, Option.bind_eq_some_iff, dropStart?_eq_some_iff]
    constructor
    · rintro ⟨rest, rfl, rfl⟩
      rfl
    · intro cut
      exact ⟨_, cut, rfl⟩
  | none =>
    simp only [partName?, NamesPart, dropStart?_isSome_iff]
    split
    · rename_i starts
      simp [starts, Option.map_eq_some_iff, splitAtPair?_eq_some_iff]
    · rename_i other
      simp [other]

theorem partName?_eq_none_iff :
    partName? classPrefix own name = none ↔ ∀ part, ¬NamesPart classPrefix own name part := by
  simp [Option.eq_none_iff_forall_not_mem, partName?_eq_some_iff]

namespace Tree

variable {tree grown : Tree} {options : TargetOptions} {element : Element} {landing : Landing}
variable {id clicked root : Nat}

structure Passed (options : TargetOptions) (own : Option Text) (element : Element) : Prop where
  unidentified : ∀ name ∈ element.classes, Identifier.isIdentifier name = false
  noPart : ∀ name ∈ element.classes, ∀ part, ¬NamesPart options.classPrefix own name part
  inline : isInlineTag element.tag = true

-- The first identifier class counts most, then the first class of a part, then the tag of an
-- element that does not only format text.
inductive Decides (tree : Tree) (options : TargetOptions) (own : Option Text) (id : Nat)
    (element : Element) : Landing → Prop where
  | identified {front back : List Text} {name : Text}
      (cut : element.classes = front ++ name :: back)
      (identifier : Identifier.isIdentifier name = true)
      (first : ∀ other ∈ front, Identifier.isIdentifier other = false) :
      Decides tree options own id element (.identified name)
  | part {front back : List Text} {name part : Text}
      (unidentified : ∀ other ∈ element.classes, Identifier.isIdentifier other = false)
      (cut : element.classes = front ++ name :: back)
      (names : NamesPart options.classPrefix own name part)
      (first : ∀ other ∈ front, ∀ part, ¬NamesPart options.classPrefix own other part) :
      Decides tree options own id element (.part part)
  | element (unidentified : ∀ other ∈ element.classes, Identifier.isIdentifier other = false)
      (noPart : ∀ other ∈ element.classes, ∀ part, ¬NamesPart options.classPrefix own other part)
      (block : isInlineTag element.tag = false) :
      Decides tree options own id element
        (.element element.tag (tree.tellingPosition? options id))

theorem find?_isIdentifier_eq_none_iff :
    element.classes.find? Identifier.isIdentifier = none ↔
      ∀ name ∈ element.classes, Identifier.isIdentifier name = false := by
  simp [List.find?_eq_none]

theorem findSome?_partName?_eq_none_iff :
    element.classes.findSome? (partName? options.classPrefix own) = none ↔
      ∀ name ∈ element.classes, ∀ part, ¬NamesPart options.classPrefix own name part := by
  simp only [List.findSome?_eq_none_iff, partName?_eq_none_iff]

theorem decide?_eq_none_iff (found : tree.get? id = some element) :
    tree.decide? options own id = none ↔ Passed options own element := by
  rw [decide?, found]
  constructor
  · intro nothing
    dsimp only at nothing
    split at nothing
    · cases nothing
    rename_i noIdentifier
    split at nothing
    · cases nothing
    rename_i noPart
    split at nothing
    · rename_i inline
      exact ⟨find?_isIdentifier_eq_none_iff.mp noIdentifier,
        findSome?_partName?_eq_none_iff.mp noPart, inline⟩
    · cases nothing
  · rintro ⟨unidentified, noPart, inline⟩
    simp only [find?_isIdentifier_eq_none_iff.mpr unidentified,
      findSome?_partName?_eq_none_iff.mpr noPart, inline, if_pos]

theorem decides_of_decide? (found : tree.get? id = some element)
    (decided : tree.decide? options own id = some landing) :
    Decides tree options own id element landing := by
  rw [decide?, found] at decided
  dsimp only at decided
  split at decided
  · rename_i name identified
    obtain ⟨identifier, front, back, cut, first⟩ := List.find?_eq_some_iff_append.mp identified
    cases decided
    exact .identified cut identifier (by simpa using first)
  rename_i noIdentifier
  have unidentified := find?_isIdentifier_eq_none_iff.mp noIdentifier
  split at decided
  · rename_i part named
    obtain ⟨front, name, back, cut, names, first⟩ := List.findSome?_eq_some_iff.mp named
    cases decided
    exact .part unidentified cut (partName?_eq_some_iff.mp names) fun other member =>
      partName?_eq_none_iff.mp (first other member)
  rename_i noPart
  split at decided
  · cases decided
  · rename_i block
    cases decided
    exact .element unidentified (findSome?_partName?_eq_none_iff.mp noPart) (by simpa using block)

theorem decide?_of_decides (found : tree.get? id = some element)
    (decides : Decides tree options own id element landing) :
    tree.decide? options own id = some landing := by
  rw [decide?, found]
  cases decides with
  | @identified front back name cut identifier first =>
    have here : element.classes.find? Identifier.isIdentifier = some name :=
      List.find?_eq_some_iff_append.mpr ⟨identifier, front, back, cut, by simpa using first⟩
    simp only [here]
  | @part front back name part unidentified cut names first =>
    have here : element.classes.findSome? (partName? options.classPrefix own) = some part :=
      List.findSome?_eq_some_iff.mpr ⟨front, name, back, cut, partName?_eq_some_iff.mpr names,
        fun other member => partName?_eq_none_iff.mpr (first other member)⟩
    simp only [find?_isIdentifier_eq_none_iff.mpr unidentified, here]
  | element unidentified noPart block =>
    simp only [find?_isIdentifier_eq_none_iff.mpr unidentified,
      findSome?_partName?_eq_none_iff.mpr noPart, block]
    rfl

def own? (tree : Tree) (options : TargetOptions) (root : Nat) : Option Text :=
  (tree.get? root).bind (ownClass? options.classPrefix)

def PassedAt (tree : Tree) (options : TargetOptions) (root id : Nat) : Prop :=
  ∃ element, tree.get? id = some element ∧ Passed options (tree.own? options root) element

def DecidesAt (tree : Tree) (options : TargetOptions) (root id : Nat) (landing : Landing) : Prop :=
  ∃ element, tree.get? id = some element ∧
    Decides tree options (tree.own? options root) id element landing

-- A click lands on the block itself when the clicked element is not below the block, or everything
-- on the way is passed. Otherwise the lowest element that is not passed decides.
inductive Lands (tree : Tree) (options : TargetOptions) (clicked root : Nat) : Landing → Prop where
  | outside (notBelow : clicked = root ∨ ¬tree.Above clicked root) :
      Lands tree options clicked root .root
  | through {way : List Nat} (spec : tree.Way clicked root way)
      (passed : ∀ id ∈ way, tree.PassedAt options root id) : Lands tree options clicked root .root
  | decided {front back : List Nat} {id : Nat} {landing : Landing}
      (spec : tree.Way clicked root (front ++ id :: back))
      (passed : ∀ below ∈ front, tree.PassedAt options root below)
      (decides : tree.DecidesAt options root id landing) :
      Lands tree options clicked root landing

theorem PassedAt.decide? (passed : tree.PassedAt options root id) :
    tree.decide? options (tree.own? options root) id = none := by
  obtain ⟨element, found, passes⟩ := passed
  exact (decide?_eq_none_iff found).mpr passes

theorem DecidesAt.decide? (decides : tree.DecidesAt options root id landing) :
    tree.decide? options (tree.own? options root) id = some landing := by
  obtain ⟨element, found, here⟩ := decides
  exact decide?_of_decides found here

theorem findSome?_congr {way : List Nat} {one two : Nat → Option Landing}
    (same : ∀ id ∈ way, one id = two id) : way.findSome? one = way.findSome? two := by
  induction way with
  | nil => rfl
  | cons id rest ih =>
    obtain ⟨here, below⟩ := List.forall_mem_cons.mp same
    rw [List.findSome?_cons, List.findSome?_cons, here, ih below]

theorem landing_of_not_within (outside : tree.isWithin clicked root = false) :
    tree.landing options clicked root = .root := by
  rw [Tree.landing]
  split
  · rfl
  · rw [if_neg (by simp [outside])]

theorem Linked.landing_of_above (linked : tree.Linked) (climbs : tree.Above clicked root) :
    tree.landing options clicked root =
      ((tree.way clicked root).findSome?
        (tree.decide? options (tree.own? options root))).getD .root := by
  have inside : tree.isWithin clicked root = true := linked.isWithin_iff.mpr climbs
  rw [Tree.landing]
  cases found : tree.get? root with
  | none =>
    -- Only what is in the tree has something below it.
    have same : clicked = root := by
      by_contra other
      obtain ⟨_, _, present⟩ := linked.way_self climbs other
      obtain ⟨block, there⟩ := get?_eq_some_of_lt
        (Nat.lt_of_le_of_lt (linked.le_of_above climbs) present)
      rw [found] at there
      cases there
    rw [same, linked.way_root]
    rfl
  | some block =>
    dsimp only
    rw [if_pos inside, own?, found]
    rfl

theorem Linked.lands_landing (linked : tree.Linked) :
    tree.Lands options clicked root (tree.landing options clicked root) := by
  by_cases climbs : tree.Above clicked root
  · have spec := linked.way_spec climbs
    have present : ∀ id ∈ tree.way clicked root, ∃ element, tree.get? id = some element :=
      fun id member => get?_eq_some_of_lt (linked.lt_size_of_mem_way climbs member)
    rw [linked.landing_of_above climbs]
    cases search : (tree.way clicked root).findSome?
        (tree.decide? options (tree.own? options root)) with
    | none =>
      refine .through spec fun id member => ?_
      obtain ⟨element, found⟩ := present id member
      have nothing := List.findSome?_eq_none_iff.mp search id member
      exact ⟨element, found, (decide?_eq_none_iff found).mp nothing⟩
    | some landing =>
      obtain ⟨front, id, back, cut, decided, before⟩ := List.findSome?_eq_some_iff.mp search
      rw [cut] at spec present
      refine .decided spec (fun below member => ?_) ?_
      · obtain ⟨element, found⟩ := present below (List.mem_append_left _ member)
        exact ⟨element, found, (decide?_eq_none_iff found).mp (before below member)⟩
      · obtain ⟨element, found⟩ := present id (by simp)
        exact ⟨element, found, decides_of_decide? found decided⟩
  · have outside : tree.isWithin clicked root = false := by
      simpa using mt linked.isWithin_iff.mp climbs
    rw [landing_of_not_within outside]
    exact .outside (.inr climbs)

theorem Linked.landing_of_lands (linked : tree.Linked)
    (lands : tree.Lands options clicked root landing) :
    tree.landing options clicked root = landing := by
  cases lands with
  | outside notBelow =>
    rcases notBelow with rfl | notAbove
    · rw [linked.landing_of_above .refl, linked.way_root]
      rfl
    · exact landing_of_not_within (by simpa using mt linked.isWithin_iff.mp notAbove)
  | through spec passed =>
    obtain ⟨climbs, rfl⟩ := linked.way_unique spec
    have nothing : (tree.way clicked root).findSome?
        (tree.decide? options (tree.own? options root)) = none :=
      List.findSome?_eq_none_iff.mpr fun id member => (passed id member).decide?
    rw [linked.landing_of_above climbs, nothing]
    rfl
  | @decided front back id _ spec passed decides =>
    obtain ⟨climbs, cut⟩ := linked.way_unique spec
    have found : (tree.way clicked root).findSome?
        (tree.decide? options (tree.own? options root)) = some landing :=
      List.findSome?_eq_some_iff.mpr ⟨front, id, back, cut.symm, decides.decide?,
        fun below member => (passed below member).decide?⟩
    rw [linked.landing_of_above climbs, found]
    rfl

theorem Linked.isWithin_grown (linked : tree.Linked) (extended : tree.Extends grown)
    (after : grown.Linked) (present : id < tree.size) (ancestor : Nat) :
    grown.isWithin id ancestor = tree.isWithin id ancestor := by
  rw [isWithin, isWithin, linked.path_grown extended after present]

theorem Extends.own?_eq (extended : tree.Extends grown) (present : root < tree.size) :
    grown.own? options root = tree.own? options root := by
  obtain ⟨element, found⟩ := get?_eq_some_of_lt present
  obtain ⟨children, there⟩ := extended.kept root element found
  rw [own?, own?, there, found]
  rfl

theorem Extends.decide?_eq (extended : tree.Extends grown) (alone : options.positional = false)
    (present : id < tree.size) :
    grown.decide? options own id = tree.decide? options own id := by
  obtain ⟨element, found⟩ := get?_eq_some_of_lt present
  obtain ⟨children, there⟩ := extended.kept id element found
  have noPosition : ∀ some : Tree, some.tellingPosition? options id = none := fun some => by
    simp [tellingPosition?, alone]
  rw [decide?, decide?, there, found, noPosition, noPosition]

theorem Linked.landing_grown (linked : tree.Linked) (extended : tree.Extends grown)
    (after : grown.Linked) (alone : options.positional = false) (inside : clicked < tree.size)
    (block : root < tree.size) :
    grown.landing options clicked root = tree.landing options clicked root := by
  have within := linked.isWithin_grown extended after inside root
  cases climbs : tree.isWithin clicked root with
  | false =>
    rw [landing_of_not_within climbs, landing_of_not_within (within.trans climbs)]
  | true =>
    have above := linked.isWithin_iff.mp climbs
    have way : grown.way clicked root = tree.way clicked root := by
      rw [way, way, linked.path_grown extended after inside]
    have decided : ∀ id ∈ tree.way clicked root,
        grown.decide? options (tree.own? options root) id =
          tree.decide? options (tree.own? options root) id :=
      fun id member => extended.decide?_eq alone (linked.lt_size_of_mem_way above member)
    rw [linked.landing_of_above above,
      after.landing_of_above (after.isWithin_iff.mp (within.trans climbs)), way,
      extended.own?_eq block, findSome?_congr decided]

-- In a tree that was built the search up the parents ends, and what it finds is what the elements
-- on the way say. As long as positions are left out, no further element changes it.
theorem clickTarget_of_built (built : tree.Built) :
    (∀ id above, tree.parent? id = some above → above < id) ∧
    (WellFounded fun above id => tree.parent? id = some above) ∧
    (∀ id ancestor, tree.isWithin id ancestor = true ↔ tree.Above id ancestor) ∧
    (∀ options clicked root target, tree.clickTarget options clicked root = target ↔
      ∃ landing, tree.Lands options clicked root landing ∧ landing.target = target) ∧
    ∀ options : TargetOptions, options.positional = false →
      ∀ grown, tree.Grows grown → ∀ clicked root, clicked < tree.size → root < tree.size →
        grown.isWithin clicked root = tree.isWithin clicked root ∧
        grown.clickTarget options clicked root = tree.clickTarget options clicked root := by
  have linked := built.linked
  refine ⟨linked.parents, linked.wellFounded, fun _ _ => linked.isWithin_iff, ?_, ?_⟩
  · intro options clicked root target
    constructor
    · rintro rfl
      exact ⟨_, linked.lands_landing, rfl⟩
    · rintro ⟨landing, lands, rfl⟩
      rw [clickTarget, linked.landing_of_lands lands]
  · intro options alone grown grows clicked root inside block
    have after := linked.grows grows
    refine ⟨linked.isWithin_grown grows.extends after inside root, ?_⟩
    rw [clickTarget, clickTarget, linked.landing_grown grows.extends after alone inside block]

def strongCard : Tree :=
  ((Tree.empty.addRoot free_empty "DIV".toList ["mkly-core-card lead".toList]).appendChild
    (by decide) 0 (by decide) "p".toList []).appendChild (by decide) 1 (by decide) "strong".toList []

def longerCard : Tree :=
  strongCard.appendChild (by decide) 0 (by decide) "p".toList ["s4".toList]

theorem clickTarget_of_built_strongCard :
    strongCard.Built ∧ strongCard.Grows longerCard ∧ TargetOptions.default.positional = false ∧
      strongCard.Above 2 0 ∧
      (∃ landing, strongCard.Lands .default 2 0 landing ∧ landing.target = ">p".toList) ∧
      longerCard.clickTarget .default 2 0 = strongCard.clickTarget .default 2 0 := by
  have built : strongCard.Built :=
    .child (.child (.root .refl _ _ _) _ (by decide) _ _) _ (by decide) _ _
  have grows : strongCard.Grows longerCard := .child .refl _ (by decide) _ _
  obtain ⟨_, _, within, lands, kept⟩ := clickTarget_of_built built
  refine ⟨built, grows, rfl, (within 2 0).mp (by decide +kernel),
    (lands _ 2 0 _).mp (by decide +kernel), ?_⟩
  exact (kept .default rfl longerCard grows 2 0 (by decide) (by decide)).2

end Tree
end BlockMarkup
