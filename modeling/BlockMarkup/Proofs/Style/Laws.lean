import BlockMarkup.Proofs.Properties
import BlockMarkup.Proofs.Style.RoundTrip

namespace BlockMarkup

namespace Style

structure Graph.Distinct (graph : Graph) : Prop where
  names : (graph.bindings.map Variable.name).Nodup
  addresses : (graph.rules.map Rule.address).Nodup
  filled : ∀ rule ∈ graph.rules, rule.properties.entries ≠ []

variable {graph other : Graph} {address : Address} {name value property : Text}
variable {rules : List Rule} {bindings : List Variable}

theorem Graph.Canonical.distinct (canonical : graph.Canonical) : graph.Distinct :=
  ⟨canonical.names, canonical.addresses, fun rule member => (canonical.rules rule member).filled⟩

theorem addresses_putIn (address : Address) (property value : Text) (rules : List Rule) :
    (putIn address property value rules).map Rule.address =
      if address ∈ rules.map Rule.address then rules.map Rule.address
      else rules.map Rule.address ++ [address] := by
  induction rules with
  | nil => simp [putIn]
  | cons rule rest ih =>
    by_cases same : rule.address = address
    · simp [putIn, same]
    · simp only [putIn, same, ↓reduceIte, List.map_cons, ih, List.mem_cons, Ne.symm same, false_or]
      split <;> simp

theorem addresses_removeFrom (address : Address) (property : Text) (rules : List Rule) :
    ((removeFrom address property rules).map Rule.address).Sublist (rules.map Rule.address) := by
  induction rules with
  | nil => simp [removeFrom]
  | cons rule rest ih =>
    rw [removeFrom]
    split
    · dsimp only
      split
      · exact List.sublist_cons_self _ _
      · exact List.Sublist.refl _
    · exact ih.cons_cons _

theorem names_putVariable (name value : Text) (bindings : List Variable) :
    (putVariable name value bindings).map Variable.name =
      if name ∈ bindings.map Variable.name then bindings.map Variable.name
      else bindings.map Variable.name ++ [name] := by
  induction bindings with
  | nil => simp [putVariable]
  | cons found rest ih =>
    by_cases same : found.name = name
    · simp [putVariable, same]
    · simp only [putVariable, same, ↓reduceIte, List.map_cons, ih, List.mem_cons, Ne.symm same,
        false_or]
      split <;> simp

theorem nodup_concat_of_notMem {α : Type} {items : List α} {item : α} (distinct : items.Nodup)
    (absent : item ∉ items) : (items ++ [item]).Nodup := by
  refine List.nodup_append.mpr ⟨distinct, by simp, ?_⟩
  rintro found member _ last rfl
  rw [List.mem_singleton] at last
  exact absent (last ▸ member)

theorem filled_putIn (filled : ∀ rule ∈ rules, rule.properties.entries ≠ []) :
    ∀ rule ∈ putIn address property value rules, rule.properties.entries ≠ [] := by
  induction rules with
  | nil =>
    intro rule member
    rw [putIn, List.mem_singleton] at member
    subst member
    exact Properties.entries_insert_ne_nil _ _ _
  | cons first rest ih =>
    intro rule member
    rw [putIn] at member
    split at member
    · rcases List.mem_cons.mp member with rfl | later
      · exact Properties.entries_insert_ne_nil _ _ _
      · exact filled rule (List.mem_cons_of_mem _ later)
    · rcases List.mem_cons.mp member with rfl | later
      · exact filled rule (by simp)
      · exact ih (fun old inside => filled old (List.mem_cons_of_mem _ inside)) rule later

theorem filled_removeFrom (filled : ∀ rule ∈ rules, rule.properties.entries ≠ []) :
    ∀ rule ∈ removeFrom address property rules, rule.properties.entries ≠ [] := by
  induction rules with
  | nil => simp [removeFrom]
  | cons first rest ih =>
    intro rule member
    rw [removeFrom] at member
    split at member
    · dsimp only at member
      split at member
      · exact filled rule (List.mem_cons_of_mem _ member)
      · rename_i left
        rcases List.mem_cons.mp member with rfl | later
        · simpa [Properties.isEmpty] using left
        · exact filled rule (List.mem_cons_of_mem _ later)
    · rcases List.mem_cons.mp member with rfl | later
      · exact filled rule (by simp)
      · exact ih (fun old inside => filled old (List.mem_cons_of_mem _ inside)) rule later

namespace Graph.Distinct

theorem empty : Graph.empty.Distinct :=
  ⟨List.nodup_nil, List.nodup_nil, fun _ member => absurd member List.not_mem_nil⟩

theorem setVariable (distinct : graph.Distinct) (name value : Text) :
    (graph.setVariable name value).Distinct := by
  refine ⟨?_, distinct.addresses, distinct.filled⟩
  simp only [Graph.setVariable]
  split
  · exact distinct.names.sublist (List.eraseP_sublist.map _)
  · rw [names_putVariable]
    split
    · exact distinct.names
    · rename_i absent
      exact nodup_concat_of_notMem distinct.names absent

theorem setProperty (distinct : graph.Distinct) (address : Address) (property value : Text) :
    (graph.setProperty address property value).Distinct := by
  by_cases empty : value = []
  · rw [Graph.setProperty, if_pos empty]
    exact ⟨distinct.names, distinct.addresses.sublist (addresses_removeFrom ..),
      filled_removeFrom distinct.filled⟩
  · rw [Graph.setProperty, if_neg empty]
    refine ⟨distinct.names, ?_, filled_putIn distinct.filled⟩
    rw [addresses_putIn]
    split
    · exact distinct.addresses
    · rename_i absent
      exact nodup_concat_of_notMem distinct.addresses absent

end Graph.Distinct

theorem ofLines_induction {P : Graph → Prop} (empty : P .empty)
    (assign : ∀ graph name value, P graph → P (graph.setVariable name value))
    (declare : ∀ graph address property value, P graph →
      P (graph.setProperty address property value))
    (lines : List Text) : P (Graph.ofLines lines) := by
  have step : ∀ (reading : Reading) (line : StyleLine), P reading.graph →
      P (reading.read line).graph := by
    intro reading line holds
    cases line with
    | «variable» name value => exact assign _ _ _ holds
    | compact selector declarations =>
      simp only [Reading.read]
      generalize compactDeclarations declarations = pairs
      suffices all : ∀ graph, P graph → P (pairs.foldl (fun graph declaration => graph.setProperty
          ((compactAddress? selector).getD ⟨rawType, selector, none⟩) declaration.1 declaration.2)
          graph) from all _ holds
      induction pairs with
      | nil => exact fun _ => id
      | cons pair pairs ih => exact fun graph before => ih _ (declare _ _ _ _ before)
    | declaration property value =>
      simp only [Reading.read]
      split
      · exact holds
      · exact declare _ _ _ _ holds
    | _ => exact holds
  have run : ∀ reading : Reading, P reading.graph → P (lines.foldl Reading.next reading).graph := by
    induction lines with
    | nil => exact fun _ => id
    | cons line rest ih => exact fun reading holds => ih _ (step _ _ holds)
  exact run .start empty

theorem distinct_ofLines (lines : List Text) : (Graph.ofLines lines).Distinct :=
  ofLines_induction .empty (fun _ name value before => before.setVariable name value)
    (fun _ address property value before => before.setProperty address property value) lines

theorem distinct_ofSource (source : Text) : (Graph.ofSource source).Distinct := by
  unfold Graph.ofSource
  split
  · exact .empty
  · exact distinct_ofLines _

theorem find?_key_eq_some_iff {α κ : Type} [DecidableEq κ] {key : α → κ} {items : List α} {k : κ}
    {item : α} (distinct : (items.map key).Nodup) :
    (items.find? fun found => key found = k) = some item ↔ item ∈ items ∧ key item = k := by
  induction items with
  | nil => simp
  | cons first rest ih =>
    rw [List.map_cons, List.nodup_cons] at distinct
    by_cases here : key first = k
    · subst here
      rw [List.find?_cons_of_pos (by simp), List.mem_cons]
      constructor
      · rintro ⟨⟩
        exact ⟨.inl rfl, rfl⟩
      · rintro ⟨same | later, equal⟩
        · rw [same]
        · exact absurd (List.mem_map.mpr ⟨item, later, equal⟩) distinct.1
    · rw [List.find?_cons_of_neg (by simp [here]), ih distinct.2, List.mem_cons]
      constructor
      · exact fun ⟨later, equal⟩ => ⟨.inr later, equal⟩
      · rintro ⟨same | later, equal⟩
        · exact absurd (same ▸ equal) here
        · exact ⟨later, equal⟩

theorem find?_key_eq_none_iff {α κ : Type} [DecidableEq κ] {key : α → κ} {items : List α} {k : κ} :
    (items.find? fun found => key found = k) = none ↔ k ∉ items.map key := by
  rw [List.find?_eq_none]
  constructor
  · intro apart member
    obtain ⟨item, inside, same⟩ := List.mem_map.mp member
    exact apart item inside (by simp [same])
  · intro absent item member
    simpa using fun same => absent (List.mem_map.mpr ⟨item, member, same⟩)

theorem rule?_eq_some_iff (distinct : graph.Distinct) {rule : Rule} :
    graph.rule? address = some rule ↔ rule ∈ graph.rules ∧ rule.address = address :=
  find?_key_eq_some_iff distinct.addresses

theorem rule?_eq_none_iff : graph.rule? address = none ↔ address ∉ graph.rules.map Rule.address :=
  find?_key_eq_none_iff

theorem property?_eq_some_iff (distinct : graph.Distinct) :
    graph.property? address property = some value ↔
      ∃ rule ∈ graph.rules, rule.address = address ∧ (property, value) ∈ rule.properties.entries := by
  rw [Graph.property?, Option.bind_eq_some_iff]
  simp only [rule?_eq_some_iff distinct, Properties.get?_eq_some_iff, and_assoc]

theorem variableValue?_eq_some_iff (distinct : graph.Distinct) :
    graph.variableValue? name = some value ↔ ⟨name, value⟩ ∈ graph.bindings := by
  rw [Graph.variableValue?, Option.map_eq_some_iff]
  simp only [find?_key_eq_some_iff distinct.names]
  constructor
  · rintro ⟨found, ⟨member, rfl⟩, rfl⟩
    exact member
  · exact fun member => ⟨⟨name, value⟩, ⟨member, rfl⟩, rfl⟩

theorem variableValue?_eq_none_iff :
    graph.variableValue? name = none ↔ name ∉ graph.bindings.map Variable.name := by
  rw [Graph.variableValue?, Option.map_eq_none_iff]
  exact find?_key_eq_none_iff

-- Two graphs that answer alike.
structure Graph.Alike (graph other : Graph) : Prop where
  assigned : ∀ name, graph.variableValue? name = other.variableValue? name
  properties : ∀ address property, graph.property? address property = other.property? address property

theorem Graph.Alike.refl (graph : Graph) : graph.Alike graph := ⟨fun _ => rfl, fun _ _ => rfl⟩

theorem Graph.Alike.symm (alike : graph.Alike other) : other.Alike graph :=
  ⟨fun name => (alike.assigned name).symm,
    fun address property => (alike.properties address property).symm⟩

theorem Graph.Alike.trans {third : Graph} (first : graph.Alike other) (second : other.Alike third) :
    graph.Alike third :=
  ⟨fun name => (first.assigned name).trans (second.assigned name),
    fun address property =>
      (first.properties address property).trans (second.properties address property)⟩

theorem alike_of_perm (distinct : graph.Distinct) (distinctOther : other.Distinct)
    (bindings : graph.bindings = other.bindings) (rules : graph.rules.Perm other.rules) :
    graph.Alike other where
  assigned name := by rw [Graph.variableValue?, Graph.variableValue?, bindings]
  properties address property := by
    refine Option.ext fun value => ?_
    rw [property?_eq_some_iff distinct, property?_eq_some_iff distinctOther]
    simp only [rules.mem_iff]

theorem names_subset (distinct : graph.Distinct) (alike : graph.Alike other) :
    graph.bindings.map Variable.name ⊆ other.bindings.map Variable.name := by
  intro name member
  obtain ⟨found, inside, rfl⟩ := List.mem_map.mp member
  have value : graph.variableValue? found.name = some found.value :=
    (variableValue?_eq_some_iff distinct).mpr inside
  apply Classical.byContradiction
  intro absent
  rw [alike.assigned, variableValue?_eq_none_iff.mpr absent] at value
  cases value

theorem addresses_subset (distinct : graph.Distinct) (alike : graph.Alike other) :
    graph.rules.map Rule.address ⊆ other.rules.map Rule.address := by
  intro address member
  obtain ⟨rule, inside, rfl⟩ := List.mem_map.mp member
  obtain ⟨entry, present⟩ := List.exists_mem_of_ne_nil _ (distinct.filled rule inside)
  have value : graph.property? rule.address entry.1 = some entry.2 :=
    (property?_eq_some_iff distinct).mpr ⟨rule, inside, rfl, present⟩
  apply Classical.byContradiction
  intro absent
  rw [alike.properties, Graph.property?, rule?_eq_none_iff.mpr absent] at value
  cases value

-- With as many variables on both sides, those of the one are all that the other has.
theorem variableValue?_eq_of_subset (distinct : graph.Distinct) (distinctOther : other.Distinct)
    (count : graph.bindings.length = other.bindings.length)
    (bindings : ∀ found ∈ graph.bindings, other.variableValue? found.name = some found.value)
    (name : Text) : graph.variableValue? name = other.variableValue? name := by
  cases found : graph.variableValue? name with
  | some value => exact (bindings _ ((variableValue?_eq_some_iff distinct).mp found)).symm
  | none =>
    have subset : graph.bindings.map Variable.name ⊆ other.bindings.map Variable.name := by
      intro key inside
      obtain ⟨theirs, present, rfl⟩ := List.mem_map.mp inside
      have value := (variableValue?_eq_some_iff distinctOther).mp (bindings theirs present)
      exact List.mem_map.mpr ⟨_, value, rfl⟩
    have back := subset_of_length_le distinct.names subset (by simp [count])
    have absent := variableValue?_eq_none_iff.mp found
    exact (variableValue?_eq_none_iff.mpr fun member => absent (back member)).symm

theorem property?_eq_of_subset (distinct : graph.Distinct) (distinctOther : other.Distinct)
    (count : graph.rules.length = other.rules.length)
    (rules : ∀ rule ∈ graph.rules, ∃ theirs, other.rule? rule.address = some theirs ∧
      ∀ name, theirs.properties.get? name = rule.properties.get? name)
    (address : Address) (property : Text) :
    graph.property? address property = other.property? address property := by
  cases found : graph.rule? address with
  | some rule =>
    obtain ⟨member, here⟩ := (rule?_eq_some_iff distinct).mp found
    obtain ⟨theirs, there, agree⟩ := rules rule member
    rw [here] at there
    rw [Graph.property?, Graph.property?, found, there, Option.bind_some, Option.bind_some, agree]
  | none =>
    have subset : graph.rules.map Rule.address ⊆ other.rules.map Rule.address := by
      intro key inside
      obtain ⟨rule, present, rfl⟩ := List.mem_map.mp inside
      obtain ⟨theirs, there, _⟩ := rules rule present
      obtain ⟨inOther, equal⟩ := (rule?_eq_some_iff distinctOther).mp there
      exact List.mem_map.mpr ⟨theirs, inOther, equal⟩
    have back := subset_of_length_le distinct.addresses subset (by simp [count])
    have absent := rule?_eq_none_iff.mp found
    have absentOther : other.rule? address = none :=
      rule?_eq_none_iff.mpr fun member => absent (back member)
    rw [Graph.property?, Graph.property?, found, absentOther]

theorem agrees_of_alike (distinct : graph.Distinct) (alike : graph.Alike other) {rule : Rule}
    (member : rule ∈ graph.rules) :
    (other.rule? rule.address).any (fun theirs => theirs.properties.agrees rule.properties) =
      true := by
  have mine := (rule?_eq_some_iff distinct).mpr ⟨member, rfl⟩
  cases there : other.rule? rule.address with
  | none =>
    have inOther := addresses_subset distinct alike (List.mem_map.mpr ⟨rule, member, rfl⟩)
    exact absurd inOther (rule?_eq_none_iff.mp there)
  | some theirs =>
    rw [Option.any_some, Properties.agrees_iff]
    intro name
    have same := alike.properties rule.address name
    rw [Graph.property?, Graph.property?, mine, there, Option.bind_some, Option.bind_some] at same
    exact same.symm

theorem sameRules_iff_alike (distinct : graph.Distinct) (distinctOther : other.Distinct) :
    graph.sameRules other = true ↔ graph.Alike other := by
  simp only [Graph.sameRules, Bool.and_eq_true, decide_eq_true_eq, List.all_eq_true, and_assoc]
  constructor
  · rintro ⟨bindingCount, ruleCount, bindings, rules⟩
    refine ⟨variableValue?_eq_of_subset distinct distinctOther bindingCount bindings,
      property?_eq_of_subset distinct distinctOther ruleCount ?_⟩
    intro rule member
    have found := rules rule member
    cases theirs : other.rule? rule.address with
    | none => simp [theirs] at found
    | some their =>
      rw [theirs, Option.any_some] at found
      exact ⟨their, rfl, Properties.agrees_iff.mp found⟩
  · intro alike
    have names : (graph.bindings.map Variable.name).Perm (other.bindings.map Variable.name) :=
      (List.perm_ext_iff_of_nodup distinct.names distinctOther.names).mpr fun _ =>
        ⟨fun member => names_subset distinct alike member,
          fun member => names_subset distinctOther alike.symm member⟩
    have addresses : (graph.rules.map Rule.address).Perm (other.rules.map Rule.address) :=
      (List.perm_ext_iff_of_nodup distinct.addresses distinctOther.addresses).mpr fun _ =>
        ⟨fun member => addresses_subset distinct alike member,
          fun member => addresses_subset distinctOther alike.symm member⟩
    refine ⟨by simpa using names.length_eq, by simpa using addresses.length_eq, ?_, ?_⟩
    · intro found member
      rw [← alike.assigned]
      exact (variableValue?_eq_some_iff distinct).mpr member
    · exact fun rule member => agrees_of_alike distinct alike member

theorem property?_putIn (address : Address) (property value : Text) (there : Address) (name : Text)
    (rules : List Rule) :
    (((putIn address property value rules).find? fun rule => rule.address = there).bind
        fun rule => rule.properties.get? name) =
      if there = address ∧ name = property then some value
      else (rules.find? fun rule => rule.address = there).bind fun rule =>
        rule.properties.get? name := by
  induction rules with
  | nil =>
    by_cases here : address = there
    · have none : Properties.empty.get? name = none := rfl
      simp [putIn, here, Properties.get?_insert, none]
    · simp [putIn, here, Ne.symm here]
  | cons rule rest ih =>
    rw [putIn]
    split
    · rename_i same
      by_cases here : rule.address = there
      · rw [List.find?_cons_of_pos (by simpa using here), List.find?_cons_of_pos (by simpa using here)]
        have target : there = address := here.symm.trans same
        simp [Properties.get?_insert, target]
      · rw [List.find?_cons_of_neg (by simpa using here), List.find?_cons_of_neg (by simpa using here)]
        have other : there ≠ address := fun equal => here (same.trans equal.symm)
        simp [other]
    · rename_i other
      by_cases here : rule.address = there
      · rw [List.find?_cons_of_pos (by simpa using here), List.find?_cons_of_pos (by simpa using here)]
        have apart : there ≠ address := fun equal => other (here.trans equal)
        simp [apart]
      · rw [List.find?_cons_of_neg (by simpa using here), List.find?_cons_of_neg (by simpa using here),
          ih]

theorem removeFrom_here {rule : Rule} {rest : List Rule} (same : rule.address = address) :
    removeFrom address property (rule :: rest) =
      if (rule.properties.erase property).isEmpty then rest
      else { rule with properties := rule.properties.erase property } :: rest := by
  rw [removeFrom, if_pos same]

theorem property?_removeFrom (address : Address) (property : Text) (there : Address) (name : Text)
    (rules : List Rule) (distinct : (rules.map Rule.address).Nodup) :
    (((removeFrom address property rules).find? fun rule => rule.address = there).bind
        fun rule => rule.properties.get? name) =
      if there = address ∧ name = property then none
      else (rules.find? fun rule => rule.address = there).bind fun rule =>
        rule.properties.get? name := by
  induction rules with
  | nil => simp [removeFrom]
  | cons rule rest ih =>
    rw [List.map_cons, List.nodup_cons] at distinct
    by_cases same : rule.address = address
    · rw [removeFrom_here same]
      by_cases here : rule.address = there
      · have target : there = address := here.symm.trans same
        have gone : (rest.find? fun found => found.address = there) = none :=
          find?_key_eq_none_iff.mpr (here ▸ distinct.1)
        rw [List.find?_cons_of_pos (by simpa using here)]
        split
        · rename_i left
          have erased : (rule.properties.erase property).get? name = none := by
            have nothing : (rule.properties.erase property).entries = [] := by
              simpa [Properties.isEmpty] using left
            rw [Properties.get?, nothing]
            rfl
          rw [Properties.get?_erase] at erased
          rw [gone, Option.bind_none, Option.bind_some]
          by_cases removed : name = property
          · simp [target, removed]
          · rw [if_neg removed] at erased
            simp [removed, erased]
        · rw [List.find?_cons_of_pos (by simpa using here)]
          simp [Properties.get?_erase, target]
      · have other : there ≠ address := fun equal => here (same.trans equal.symm)
        have apart : ¬(there = address ∧ name = property) := fun both => other both.1
        rw [List.find?_cons_of_neg (by simpa using here), if_neg apart]
        split
        · rfl
        · rw [List.find?_cons_of_neg (by simpa using here)]
    · rw [removeFrom, if_neg same]
      by_cases here : rule.address = there
      · rw [List.find?_cons_of_pos (by simpa using here), List.find?_cons_of_pos (by simpa using here)]
        have apart : there ≠ address := fun equal => same (here.trans equal)
        simp [apart]
      · rw [List.find?_cons_of_neg (by simpa using here), List.find?_cons_of_neg (by simpa using here),
          ih distinct.2]

theorem property?_setProperty (distinct : graph.Distinct) (address : Address) (property value : Text)
    (there : Address) (name : Text) :
    (graph.setProperty address property value).property? there name =
      if there = address ∧ name = property then wanted value else graph.property? there name := by
  by_cases empty : value = []
  · rw [Graph.setProperty, if_pos empty, wanted, if_pos empty]
    exact property?_removeFrom address property there name graph.rules distinct.addresses
  · rw [Graph.setProperty, if_neg empty, wanted, if_neg empty]
    exact property?_putIn address property value there name graph.rules

end Style
end BlockMarkup
