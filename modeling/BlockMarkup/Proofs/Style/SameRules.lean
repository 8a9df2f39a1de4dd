import BlockMarkup.Proofs.Style.Updates
import Mathlib.Data.List.Forall2

namespace BlockMarkup.Style

structure Rule.Reordered (rule other : Rule) : Prop where
  address : rule.address = other.address
  properties : rule.properties.entries.Perm other.properties.entries

structure Graph.Reordered (graph other : Graph) : Prop where
  bindings : graph.bindings.Perm other.bindings
  rules : ∃ rules, graph.rules.Perm rules ∧ List.Forall₂ Rule.Reordered rules other.rules

variable {graph other first second : Graph} {rules others : List Rule}

theorem Rule.Reordered.symm {rule other : Rule} (reordered : rule.Reordered other) :
    other.Reordered rule :=
  ⟨reordered.address.symm, reordered.properties.symm⟩

theorem Graph.Reordered.refl (graph : Graph) : graph.Reordered graph :=
  ⟨.refl _, graph.rules, .refl _, List.forall₂_same.mpr fun _ _ => ⟨rfl, .refl _⟩⟩

theorem addresses_of_forall₂ (pairs : List.Forall₂ Rule.Reordered rules others) :
    rules.map Rule.address = others.map Rule.address := by
  induction pairs with
  | nil => rfl
  | cons pair _ ih => rw [List.map_cons, List.map_cons, pair.address, ih]

theorem exists_of_forall₂ {α : Type} {R : α → α → Prop} {items others : List α}
    (pairs : List.Forall₂ R items others) : ∀ item ∈ items, ∃ other ∈ others, R item other := by
  induction pairs with
  | nil => simp
  | cons pair _ ih =>
    intro item member
    rcases List.mem_cons.mp member with rfl | later
    · exact ⟨_, List.mem_cons_self, pair⟩
    · obtain ⟨other, inside, related⟩ := ih item later
      exact ⟨other, List.mem_cons_of_mem _ inside, related⟩

namespace Graph.Reordered

variable (reordered : graph.Reordered other)
include reordered

theorem exists_after : ∀ rule ∈ graph.rules, ∃ found ∈ other.rules, rule.Reordered found := by
  obtain ⟨rules, perm, pairs⟩ := reordered.rules
  exact fun rule member => exists_of_forall₂ pairs rule (perm.subset member)

theorem exists_before : ∀ rule ∈ other.rules, ∃ found ∈ graph.rules, rule.Reordered found := by
  obtain ⟨rules, perm, pairs⟩ := reordered.rules
  intro rule member
  obtain ⟨found, inside, related⟩ := exists_of_forall₂ pairs.flip rule member
  exact ⟨found, perm.symm.subset inside, related.symm⟩

theorem distinct (distinct : graph.Distinct) : other.Distinct where
  names := (reordered.bindings.map Variable.name).nodup_iff.mp distinct.names
  addresses := by
    obtain ⟨rules, perm, pairs⟩ := reordered.rules
    rw [← addresses_of_forall₂ pairs]
    exact (perm.map Rule.address).nodup_iff.mp distinct.addresses
  filled := by
    intro rule member empty
    obtain ⟨found, inside, related⟩ := reordered.exists_before rule member
    have nothing := related.properties
    rw [empty] at nothing
    exact distinct.filled found inside nothing.nil_eq.symm

-- Distinct names and addresses leave one item to find for each, wherever it stands.
theorem alike (distinct : graph.Distinct) : graph.Alike other where
  assigned name := by
    refine Option.ext fun value => ?_
    rw [variableValue?_eq_some_iff distinct,
      variableValue?_eq_some_iff (reordered.distinct distinct), reordered.bindings.mem_iff]
  properties address property := by
    refine Option.ext fun value => ?_
    rw [property?_eq_some_iff distinct, property?_eq_some_iff (reordered.distinct distinct)]
    constructor
    · rintro ⟨rule, member, here, entry⟩
      obtain ⟨found, inside, related⟩ := reordered.exists_after rule member
      exact ⟨found, inside, related.address ▸ here, related.properties.subset entry⟩
    · rintro ⟨rule, member, here, entry⟩
      obtain ⟨found, inside, related⟩ := reordered.exists_before rule member
      exact ⟨found, inside, related.address ▸ here, related.properties.subset entry⟩

end Graph.Reordered

theorem sameRules_of_reordered (distinct : graph.Distinct) (distinctOther : other.Distinct)
    (before : graph.Reordered first) (after : other.Reordered second) :
    first.sameRules second = graph.sameRules other := by
  have mine := before.alike distinct
  have theirs := after.alike distinctOther
  rw [Bool.eq_iff_iff, sameRules_iff_alike distinct distinctOther,
    sameRules_iff_alike (before.distinct distinct) (after.distinct distinctOther)]
  constructor
  · exact fun alike => (mine.trans alike).trans theirs.symm
  · exact fun alike => (mine.symm.trans alike).trans theirs

-- Graphs that updates have made have the same rules exactly when they answer every question about a
-- property or a variable alike. That is an equivalence, and putting either graph into another order
-- does not change the answer.
theorem sameRules_ofUpdates :
    (∀ updates others, (Graph.ofUpdates updates).sameRules (.ofUpdates others) = true ↔
      (∀ address property, (Graph.ofUpdates updates).property? address property =
        (Graph.ofUpdates others).property? address property) ∧
      ∀ name, (Graph.ofUpdates updates).variableValue? name =
        (Graph.ofUpdates others).variableValue? name) ∧
    (Equivalence fun updates others : List Update =>
      (Graph.ofUpdates updates).sameRules (.ofUpdates others) = true) ∧
    ∀ updates others first second, (Graph.ofUpdates updates).Reordered first →
      (Graph.ofUpdates others).Reordered second →
      first.sameRules second = (Graph.ofUpdates updates).sameRules (.ofUpdates others) := by
  have decided : ∀ updates others, (Graph.ofUpdates updates).sameRules (.ofUpdates others) = true ↔
      (Graph.ofUpdates updates).Alike (.ofUpdates others) := fun updates others =>
    sameRules_iff_alike (distinct_ofUpdates updates) (distinct_ofUpdates others)
  refine ⟨fun updates others => ?_, ⟨fun updates => ?_, fun same => ?_, fun same again => ?_⟩,
    fun updates others first second => ?_⟩
  · rw [decided]
    exact ⟨fun alike => ⟨alike.properties, alike.assigned⟩, fun ⟨properties, assigned⟩ =>
      ⟨assigned, properties⟩⟩
  · rw [decided]
    exact .refl _
  · rw [decided] at same ⊢
    exact same.symm
  · rw [decided] at same again ⊢
    exact same.trans again
  · exact sameRules_of_reordered (distinct_ofUpdates updates) (distinct_ofUpdates others)

def cardUpdates : List Update :=
  [.variable "accent".toList "red".toList, .variable "base".toList "white".toList,
    .property ⟨"core/card".toList, selfTarget, none⟩ "color".toList "red".toList,
    .property ⟨"core/card".toList, selfTarget, none⟩ "margin".toList "0".toList,
    .property ⟨"core/text".toList, "link".toList, some "s1".toList⟩ "color".toList "blue".toList]

def turnedCard : Graph :=
  ⟨[⟨"base".toList, "white".toList⟩, ⟨"accent".toList, "red".toList⟩],
    [⟨⟨"core/text".toList, "link".toList, some "s1".toList⟩,
        .ofList [("color".toList, "blue".toList)]⟩,
      ⟨⟨"core/card".toList, selfTarget, none⟩,
        .ofList [("margin".toList, "0".toList), ("color".toList, "red".toList)]⟩]⟩

theorem turnedCard_reordered : (Graph.ofUpdates cardUpdates).Reordered turnedCard where
  bindings := by decide
  rules := ⟨(Graph.ofUpdates cardUpdates).rules.reverse, (List.reverse_perm _).symm,
    .cons ⟨by decide, by decide⟩ (.cons ⟨by decide, by decide⟩ .nil)⟩

theorem sameRules_ofUpdates_turnedCard :
    (Graph.ofUpdates cardUpdates).Reordered turnedCard ∧ turnedCard ≠ .ofUpdates cardUpdates ∧
      turnedCard.sameRules (.ofUpdates cardUpdates) = true := by
  refine ⟨turnedCard_reordered, by decide, ?_⟩
  rw [sameRules_ofUpdates.2.2 cardUpdates cardUpdates turnedCard (.ofUpdates cardUpdates)
    turnedCard_reordered (.refl _)]
  exact sameRules_ofUpdates.2.1.refl cardUpdates

example :
    let hollow : Graph := ⟨[], [⟨⟨"core/card".toList, selfTarget, none⟩, .empty⟩]⟩
    hollow.property? ⟨"core/card".toList, selfTarget, none⟩ "color".toList = none ∧
      hollow.sameRules .empty = false := by
  decide

end BlockMarkup.Style
