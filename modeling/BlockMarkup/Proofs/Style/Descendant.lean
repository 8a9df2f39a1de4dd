import BlockMarkup.Style.Descendant
import Mathlib.Data.List.Forall2

namespace BlockMarkup.Style

-- The items are dealt in order to two lists, each of them to exactly one.
inductive Dealt {α : Type} : List α → List α → List α → Prop
  | done : Dealt [] [] []
  | left (item : α) : Dealt items first second → Dealt (item :: items) (item :: first) second
  | right (item : α) : Dealt items first second → Dealt (item :: items) first (item :: second)

theorem dealt_filter {α : Type} (toSecond : α → Bool) (items : List α) :
    Dealt items (items.filter fun item => !toSecond item) (items.filter toSecond) := by
  induction items with
  | nil => exact .done
  | cons item items dealt =>
    cases goes : toSecond item with
    | false => simpa [goes] using dealt.left item
    | true => simpa [goes] using dealt.right item

theorem Dealt.flatMap_eq {α β : Type} {items first second : List α} {write : α → List β}
    (dealt : Dealt items first second) (silent : ∀ item ∈ first, write item = []) :
    second.flatMap write = items.flatMap write := by
  induction dealt with
  | done => rfl
  | left item _ same =>
    rw [List.flatMap_cons, silent item List.mem_cons_self, List.nil_append]
    exact same fun other member => silent other (List.mem_cons_of_mem item member)
  | right item _ same => rw [List.flatMap_cons, List.flatMap_cons, same silent]

theorem Target.isDescendant_of_iff {target : Text} :
    (Target.of target).isDescendant = true ↔ ∃ rest, target = '>' :: rest := by
  constructor
  · intro descendant
    unfold Target.of at descendant
    split at descendant
    · exact ⟨_, rfl⟩
    · split at descendant
      · cases descendant
      · split at descendant
        · split at descendant <;> cases descendant
        · cases descendant
  · rintro ⟨rest, rfl⟩
    rfl

namespace Rule
variable {classPrefix : Text} {rule : Rule}

-- A rule that keeps its selector as it was written is not split off, even if that begins with an
-- angle.
theorem isDescendant_iff :
    rule.isDescendant = true ↔
      rule.address.blockType ≠ rawType ∧ ∃ rest, rule.address.target = '>' :: rest := by
  unfold isDescendant isRaw
  rw [Bool.and_eq_true, Rule.target, Target.isDescendant_of_iff]
  simp

theorem isSome_cssSelector? :
    (rule.cssSelector? classPrefix).isSome = rule.isDescendant := by
  unfold cssSelector? isDescendant
  cases rule.target with
  | descendant rest => cases rule.isRaw <;> simp [Target.isDescendant]
  | root | rootPseudo | part | partPseudo => simp [Target.isDescendant]

theorem css_of_native (native : rule.isDescendant = false) : rule.css classPrefix = [] := by
  have none : rule.cssSelector? classPrefix = none := by
    apply Option.not_isSome_iff_eq_none.mp
    rw [isSome_cssSelector?, native]
    exact Bool.false_ne_true
  unfold css
  rw [none]

def cssLines (selector : Text) (properties : Properties) : List Text :=
  (selector ++ " \x7b".toList) ::
      properties.entries.map (fun entry =>
        ' ' :: ' ' :: entry.1 ++ ':' :: ' ' :: entry.2 ++ [';']) ++
    ["\x7d".toList]

inductive CssBlock (classPrefix : Text) : Rule → Text → Prop
  | block (blockType rest : Text) (label : Option Text) (properties : Properties) :
      CssBlock classPrefix ⟨⟨blockType, '>' :: rest, label⟩, properties⟩
        ((cssLines ('.' :: blockClass classPrefix blockType ++ label.elim [] ('.' :: ·) ++
          ' ' :: trim rest) properties).flatMap (· ++ ['\n']))

theorem css_of_filled {selector : Text} (selected : rule.cssSelector? classPrefix = some selector)
    (filled : rule.properties.isEmpty = false) :
    rule.css classPrefix = (cssLines selector rule.properties).flatMap (· ++ ['\n']) := by
  rw [css, selected]
  dsimp only
  rw [filled, if_neg Bool.false_ne_true]
  simp [cssLines, List.flatMap_map]

theorem cssBlock_css (descendant : rule.isDescendant = true)
    (filled : rule.properties.isEmpty = false) : CssBlock classPrefix rule (rule.css classPrefix) := by
  obtain ⟨kept, rest, below⟩ := isDescendant_iff.mp descendant
  obtain ⟨⟨blockType, target, label⟩, properties⟩ := rule
  cases below
  have selected : cssSelector? classPrefix ⟨⟨blockType, '>' :: rest, label⟩, properties⟩ =
      some ('.' :: blockClass classPrefix blockType ++ label.elim [] ('.' :: ·) ++
        ' ' :: trim rest) := by
    have unraw : isRaw ⟨⟨blockType, '>' :: rest, label⟩, properties⟩ = false := by
      simpa [isRaw] using kept
    rw [cssSelector?, unraw]
    cases label <;> rfl
  rw [css_of_filled selected filled]
  exact .block blockType rest label properties

theorem exists_cssBlocks (classPrefix : Text) (rules : List Rule) :
    ∃ blocks, List.Forall₂ (CssBlock classPrefix)
        (rules.filter fun rule => !rule.properties.isEmpty && rule.isDescendant) blocks ∧
      rules.flatMap (css classPrefix) = blocks.flatten := by
  induction rules with
  | nil => exact ⟨[], .nil, rfl⟩
  | cons rule rules ih =>
    obtain ⟨blocks, written, same⟩ := ih
    cases descendant : rule.isDescendant with
    | false =>
      refine ⟨blocks, by simpa [descendant] using written, ?_⟩
      rw [List.flatMap_cons, css_of_native descendant, same, List.nil_append]
    | true =>
      cases filled : rule.properties.isEmpty with
      | true =>
        have silent : rule.css classPrefix = [] := by
          unfold css
          split
          · rfl
          · rw [if_pos filled]
        refine ⟨blocks, by simpa [filled] using written, ?_⟩
        rw [List.flatMap_cons, silent, same, List.nil_append]
      | false =>
        refine ⟨rule.css classPrefix :: blocks, ?_, ?_⟩
        · simpa [descendant, filled] using And.intro (cssBlock_css descendant filled) written
        · rw [List.flatMap_cons, same, List.flatten_cons]

end Rule

namespace Graph

theorem css_of_mem_native {graph : Graph} {classPrefix : Text} :
    ∀ rule ∈ graph.native.rules, rule.css classPrefix = [] := by
  intro rule member
  apply Rule.css_of_native
  simpa using (List.mem_filter.mp member).2

-- Splitting a graph deals each of its rules once, keeps both halves in order and leaves the
-- variables with the first. The rules of the second are those that have a CSS selector: their target
-- is below a block, and they are not kept as they were written. All the CSS comes from them: a block
-- for each that has properties, in their order.
theorem split_descendants (graph : Graph) (classPrefix : Text) :
    Dealt graph.rules graph.native.rules graph.descendants ∧
      graph.native.bindings = graph.bindings ∧
      (∀ rule ∈ graph.rules,
        (rule ∈ graph.descendants ↔ (rule.cssSelector? classPrefix).isSome) ∧
          (rule ∈ graph.native.rules ↔ rule.cssSelector? classPrefix = none) ∧
          (rule ∈ graph.descendants ↔
            rule.address.blockType ≠ rawType ∧ ∃ rest, rule.address.target = '>' :: rest)) ∧
      (∀ bindings, descendantCss classPrefix ⟨bindings, graph.descendants⟩ =
        descendantCss classPrefix graph) ∧
      descendantCss classPrefix graph.native = [] ∧
      ∃ blocks, List.Forall₂ (Rule.CssBlock classPrefix)
          (graph.descendants.filter fun rule => !rule.properties.isEmpty) blocks ∧
        descendantCss classPrefix graph = blocks.flatten := by
  refine ⟨dealt_filter _ _, rfl, fun rule member => ⟨?_, ?_, ?_⟩, fun bindings => ?_, ?_, ?_⟩
  · rw [descendants, List.mem_filter, Rule.isSome_cssSelector?]
    exact and_iff_right member
  · rw [native, List.mem_filter, ← Option.not_isSome_iff_eq_none, Rule.isSome_cssSelector?]
    simp [member]
  · rw [descendants, List.mem_filter, Rule.isDescendant_iff]
    exact and_iff_right member
  · exact (dealt_filter _ _).flatMap_eq css_of_mem_native
  · exact List.flatMap_eq_nil_iff.mpr css_of_mem_native
  · rw [descendants, List.filter_filter]
    exact Rule.exists_cssBlocks classPrefix graph.rules

def paragraphs : Graph := ⟨[⟨"accent".toList, "red".toList⟩],
  [⟨⟨"core/text".toList, ">p".toList, none⟩, .ofList [("color".toList, "red".toList)]⟩,
   ⟨⟨"core/card".toList, "self".toList, none⟩, .ofList [("color".toList, "blue".toList)]⟩,
   ⟨⟨"core/card".toList, ">.s2".toList, some "s1".toList⟩,
     .ofList [("padding".toList, "4px".toList), ("margin".toList, "0".toList)]⟩]⟩

theorem split_descendants_paragraphs :
    descendantCss defaultClassPrefix paragraphs =
        (".mkly-core-text p \x7b\n  color: red;\n\x7d\n" ++
          ".mkly-core-card.s1 .s2 \x7b\n  padding: 4px;\n  margin: 0;\n\x7d\n").toList ∧
      descendantCss defaultClassPrefix ⟨[], paragraphs.descendants⟩ =
        descendantCss defaultClassPrefix paragraphs ∧
      paragraphs.native.bindings = paragraphs.bindings ∧
      descendantCss defaultClassPrefix paragraphs.native = [] := by
  obtain ⟨_, kept, _, all, nothing, blocks, written, css⟩ :=
    split_descendants paragraphs defaultClassPrefix
  refine ⟨?_, all [], kept, nothing⟩
  have below : paragraphs.descendants.filter (fun rule => !rule.properties.isEmpty) =
      [⟨⟨"core/text".toList, ">p".toList, none⟩, .ofList [("color".toList, "red".toList)]⟩,
       ⟨⟨"core/card".toList, ">.s2".toList, some "s1".toList⟩,
         .ofList [("padding".toList, "4px".toList), ("margin".toList, "0".toList)]⟩] := by
    decide +kernel
  rw [below] at written
  obtain _ | ⟨⟨_⟩, _ | ⟨⟨_⟩, ⟨⟩⟩⟩ := written
  rw [css]
  decide +kernel

example :
    let kept : Rule := ⟨⟨rawType, ">p".toList, none⟩, .empty⟩
    (Graph.mk [] [kept]).descendants = [] ∧ (Graph.mk [] [kept]).native.rules = [kept] := by
  decide

end Graph
end BlockMarkup.Style
