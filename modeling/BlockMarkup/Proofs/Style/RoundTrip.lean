import BlockMarkup.Proofs.Properties
import BlockMarkup.Proofs.Style.Body
import Mathlib.Data.List.Nodup

namespace BlockMarkup.Style

namespace Graph

def group (graph : Graph) (scope : Scope) : List Rule :=
  graph.rules.filter fun rule => !rule.isRaw && rule.scope = scope

def roots (graph : Graph) (scope : Scope) : List Rule :=
  (graph.group scope).filter fun rule => rule.address.target = selfTarget

def others (graph : Graph) (scope : Scope) : List Rule :=
  (graph.group scope).filter fun rule => rule.address.target ≠ selfTarget

def members (graph : Graph) (scope : Scope) : List Rule := graph.roots scope ++ graph.others scope

def regrouped (graph : Graph) : Graph :=
  ⟨graph.bindings, graph.scopes.flatMap graph.members ++ graph.rules.filter Rule.isRaw⟩

end Graph

theorem nodup_eraseDups {α : Type} [DecidableEq α] (items : List α) : items.eraseDups.Nodup := by
  match items with
  | [] => simp
  | item :: rest =>
    rw [List.eraseDups_cons, List.nodup_cons]
    refine ⟨?_, nodup_eraseDups _⟩
    rw [List.mem_eraseDups]
    simp
termination_by items.length
decreasing_by exact Nat.lt_succ_of_le (List.length_filter_le ..)

theorem mem_members_iff {graph : Graph} {scope : Scope} {rule : Rule} :
    rule ∈ graph.members scope ↔ rule ∈ graph.rules ∧ rule.isRaw = false ∧ rule.scope = scope := by
  by_cases root : rule.address.target = selfTarget <;>
    simp [Graph.members, Graph.roots, Graph.others, Graph.group, root]

theorem members_eq_nil_iff {graph : Graph} {scope : Scope} :
    graph.members scope = [] ↔ graph.group scope = [] := by
  simp only [List.eq_nil_iff_forall_not_mem, mem_members_iff, Graph.group, List.mem_filter,
    Bool.and_eq_true, Bool.not_eq_true', decide_eq_true_eq]

theorem members_nodup {graph : Graph} (distinct : graph.rules.Nodup) (scope : Scope) :
    (graph.members scope).Nodup := by
  refine List.nodup_append.mpr ⟨(distinct.filter _).filter _, (distinct.filter _).filter _, ?_⟩
  rintro rule first _ second rfl
  simp only [Graph.roots, Graph.others, List.mem_filter, decide_eq_true_eq] at first second
  exact second.2 first.2

theorem regrouped_perm {graph : Graph} (distinct : graph.rules.Nodup) :
    graph.regrouped.rules.Perm graph.rules := by
  refine (List.perm_ext_iff_of_nodup ?_ distinct).mpr ?_
  · refine List.nodup_append.mpr ⟨?_, distinct.filter _, ?_⟩
    · refine List.nodup_flatMap.mpr ⟨fun scope _ => members_nodup distinct scope, ?_⟩
      apply (nodup_eraseDups _).imp
      intro left right apart rule inLeft inRight
      exact apart ((mem_members_iff.mp inLeft).2.2.symm.trans (mem_members_iff.mp inRight).2.2)
    · rintro rule grouped _ kept rfl
      obtain ⟨scope, _, member⟩ := List.mem_flatMap.mp grouped
      have noRaw := (mem_members_iff.mp member).2.1
      rw [(List.mem_filter.mp kept).2] at noRaw
      cases noRaw
  · intro rule
    simp only [Graph.regrouped, List.mem_append, List.mem_flatMap, List.mem_filter]
    constructor
    · rintro (⟨scope, _, member⟩ | ⟨member, _⟩)
      · exact (mem_members_iff.mp member).1
      · exact member
    · intro member
      cases raw : rule.isRaw with
      | true => exact .inr ⟨member, rfl⟩
      | false =>
        refine .inl ⟨rule.scope, ?_, mem_members_iff.mpr ⟨member, raw, rfl⟩⟩
        rw [Graph.scopes, List.mem_eraseDups]
        exact List.mem_map.mpr ⟨rule, List.mem_filter.mpr ⟨member, by simp [raw]⟩, rfl⟩

theorem putIn_absent {address : Address} {property value : Text} {rules : List Rule}
    (absent : address ∉ rules.map Rule.address) :
    putIn address property value rules =
      rules ++ [⟨address, Properties.empty.insert property value⟩] := by
  induction rules with
  | nil => rfl
  | cons rule rest ih =>
    simp only [List.map_cons, List.mem_cons, not_or] at absent
    simp [putIn, Ne.symm absent.1, ih absent.2]

theorem putIn_last {address : Address} {property value : Text} {rules : List Rule}
    {properties : Properties} (absent : address ∉ rules.map Rule.address) :
    putIn address property value (rules ++ [⟨address, properties⟩]) =
      rules ++ [⟨address, properties.insert property value⟩] := by
  induction rules with
  | nil => simp [putIn]
  | cons rule rest ih =>
    simp only [List.map_cons, List.mem_cons, not_or] at absent
    simp [putIn, Ne.symm absent.1, ih absent.2]

variable {n : Nat} {bindings : List Variable} {rules : List Rule} {context : Context}

theorem next_property {graph : Graph} {name value : Text} (positive : 0 < n)
    (canonical : CanonicalProperty name value) :
    Reading.next ⟨graph, some context⟩ (spaces n ++ name ++ ':' :: ' ' :: value) =
      ⟨graph.setProperty context.address name value, some context⟩ := by
  rw [Reading.next, classify_property positive canonical, Reading.read]

-- Induction on the entries still to come; those before them are in the rule already.
theorem read_entries (positive : 0 < n) (absent : context.address ∉ rules.map Rule.address)
    (entries : List (Text × Text)) :
    ∀ (before : Properties) (after : Properties), after.entries = before.entries ++ entries →
      (∀ entry ∈ entries, CanonicalProperty entry.1 entry.2) →
      (entries.map fun entry => spaces n ++ entry.1 ++ ':' :: ' ' :: entry.2).foldl Reading.next
        ⟨⟨bindings, rules ++ [⟨context.address, before⟩]⟩, some context⟩ =
        ⟨⟨bindings, rules ++ [⟨context.address, after⟩]⟩, some context⟩ := by
  induction entries with
  | nil =>
    intro before after same _
    obtain ⟨entries, distinct⟩ := after
    simp only [List.append_nil] at same
    subst same
    rfl
  | cons entry entries ih =>
    intro before after same canonical
    obtain ⟨name, value⟩ := entry
    have fresh : name ∉ before.entries.map Prod.fst := by
      have distinct := after.distinct
      rw [same, List.map_append, List.nodup_append] at distinct
      exact fun member => distinct.2.2 name member name (by simp) rfl
    have present : value ≠ [] := (canonical (name, value) (by simp)).valued.1
    rw [List.map_cons, List.foldl_cons, next_property positive (canonical (name, value) (by simp)),
      Graph.setProperty, if_neg present, putIn_last absent]
    refine ih _ after ?_ fun entry member => canonical entry (List.mem_cons_of_mem _ member)
    have inserted : (before.insert name value).entries = before.entries ++ [(name, value)] :=
      writeEntry_absent fresh
    rw [inserted, same, List.append_assoc]
    rfl

theorem read_propertyLines {rule : Rule} (positive : 0 < n) (canonical : rule.Canonical)
    (here : context.address = rule.address) (absent : rule.address ∉ rules.map Rule.address) :
    (propertyLines (spaces n) rule).foldl Reading.next ⟨⟨bindings, rules⟩, some context⟩ =
      ⟨⟨bindings, rules ++ [rule]⟩, some context⟩ := by
  obtain ⟨address, properties⟩ := rule
  obtain ⟨entries, distinct⟩ := properties
  dsimp only at here
  subst here
  cases entries with
  | nil => exact absurd rfl canonical.filled
  | cons entry entries =>
    have first := canonical.properties entry (by simp)
    have present : entry.2 ≠ [] := first.valued.1
    rw [propertyLines, List.map_cons, List.foldl_cons, next_property positive first,
      Graph.setProperty, if_neg present, putIn_absent absent]
    apply read_entries positive absent entries _ _ rfl
    exact fun later member => canonical.properties later (List.mem_cons_of_mem _ member)

variable {scope : Scope} {graph : Graph}

def InScope (scope : Scope) (rule : Rule) : Prop :=
  rule.Canonical ∧ rule.isRaw = false ∧ rule.scope = scope

theorem InScope.parts {rule : Rule} (inside : InScope scope rule) :
    isBlockType scope.blockType = true ∧ (∀ label ∈ scope.label, IsLabel label) ∧
      IsTarget rule.address.target := by
  obtain ⟨canonical, raw, rfl⟩ := inside
  have address := canonical.address
  rw [Address.Canonical, if_neg (by simpa [Rule.isRaw] using raw)] at address
  exact address

theorem absent_of_nodup {rule : Rule} {rest : List Rule}
    (distinct : ((rules ++ rule :: rest).map Rule.address).Nodup) :
    rule.address ∉ rules.map Rule.address := by
  rw [List.map_append, List.nodup_append] at distinct
  exact fun member => distinct.2.2 _ member _ (by simp) rfl

theorem read_roots (positive : 0 < n) (roots : List Rule) :
    ∀ rules : List Rule, (∀ rule ∈ roots, InScope scope rule ∧ rule.address.target = selfTarget) →
      ((rules ++ roots).map Rule.address).Nodup →
      (roots.flatMap (propertyLines (spaces n))).foldl Reading.next
        ⟨⟨bindings, rules⟩, some (.block scope.blockType scope.label selfTarget none)⟩ =
        ⟨⟨bindings, rules ++ roots⟩,
          some (.block scope.blockType scope.label selfTarget none)⟩ := by
  induction roots with
  | nil =>
    intro rules _ _
    simp
  | cons rule roots ih =>
    intro rules inside distinct
    obtain ⟨inScope, target⟩ := inside rule (by simp)
    obtain ⟨canonical, _, rfl⟩ := inScope
    have here : (Context.block rule.scope.blockType rule.scope.label selfTarget none).address =
        rule.address := by
      rw [Context.address, ← target]
      rfl
    rw [List.flatMap_cons, List.foldl_append,
      read_propertyLines positive canonical here (absent_of_nodup distinct)]
    have more := ih (rules ++ [rule]) (fun later member => inside later (by simp [member]))
      (by simpa using distinct)
    simpa using more

-- The context keeps the block; only its target and the part that is open change from rule to rule.
theorem read_targets (bindings : List Variable) (positive : 0 < n) (others : List Rule) :
    ∀ (rules : List Rule) (target : Text) (opened : Option (Nat × Text)), Shallow n opened →
      (∀ rule ∈ others, InScope scope rule ∧ rule.address.target ≠ selfTarget) →
      ((rules ++ others).map Rule.address).Nodup →
      ∃ context, (others.flatMap (targetLines n)).foldl Reading.next
        ⟨⟨bindings, rules⟩, some (.block scope.blockType scope.label target opened)⟩ =
        ⟨⟨bindings, rules ++ others⟩, some context⟩ := by
  induction others with
  | nil =>
    intro rules target opened _ _ _
    exact ⟨.block scope.blockType scope.label target opened, by simp⟩
  | cons rule others ih =>
    intro rules target opened shallow inside distinct
    obtain ⟨inScope, other⟩ := inside rule (by simp)
    obtain ⟨_, _, valid⟩ := inScope.parts
    obtain ⟨canonical, _, rfl⟩ := inScope
    obtain ⟨after, shallowAfter, entered⟩ : ∃ after, Shallow n after ∧
        (Context.block rule.scope.blockType rule.scope.label target opened).enter n
            (Target.of rule.address.target).selector =
          .block rule.scope.blockType rule.scope.label rule.address.target after :=
      enter_selector shallow valid other
    have selector : Reading.next
        ⟨⟨bindings, rules⟩, some (.block rule.scope.blockType rule.scope.label target opened)⟩
        (spaces n ++ rule.target.selector) =
        ⟨⟨bindings, rules⟩,
          some (.block rule.scope.blockType rule.scope.label rule.address.target after)⟩ := by
      rw [Reading.next, Rule.target, classify_nested positive valid.ends other, Reading.read,
        Option.map_some, entered]
    have double : 0 < n * 2 := by omega
    rw [List.flatMap_cons, targetLines, List.cons_append, List.foldl_cons, selector,
      List.foldl_append, read_propertyLines double canonical rfl (absent_of_nodup distinct)]
    obtain ⟨context, read⟩ := ih (rules ++ [rule]) rule.address.target after shallowAfter
      (fun later member => inside later (by simp [member])) (by simpa using distinct)
    exact ⟨context, by simpa using read⟩

theorem groupedRules_of_canonical (canonical : graph.Canonical) :
    graph.groupedRules = graph.rules.filter fun rule => !rule.isRaw := by
  apply List.filter_congr
  intro rule member
  have filled : rule.properties.isEmpty = false := by
    simpa [Properties.isEmpty] using (canonical.rules rule member).filled
  simp [filled]

theorem rawRules_of_canonical (canonical : graph.Canonical) :
    graph.rawRules = graph.rules.filter Rule.isRaw := by
  apply List.filter_congr
  intro rule member
  have filled : rule.properties.isEmpty = false := by
    simpa [Properties.isEmpty] using (canonical.rules rule member).filled
  simp [filled]

theorem groupLines_of_canonical (canonical : graph.Canonical) (scope : Scope) :
    graph.groupLines n scope =
      if graph.members scope = [] then []
      else
        scope.selector :: ((graph.roots scope).flatMap (propertyLines (spaces n)) ++
          (graph.others scope).flatMap (targetLines n)) := by
  have group : (graph.groupedRules.filter fun rule => rule.scope = scope) = graph.group scope := by
    rw [groupedRules_of_canonical canonical, List.filter_filter]
    exact List.filter_congr fun rule _ => Bool.and_comm _ _
  have root : ∀ rule : Rule, rule.target = .root ↔ rule.address.target = selfTarget :=
    fun rule => of_eq_root_iff
  simp only [Graph.groupLines, group, List.isEmpty_iff, members_eq_nil_iff, root, Graph.roots,
    Graph.others, ne_eq]

theorem mem_inScope (canonical : graph.Canonical) {rule : Rule}
    (member : rule ∈ graph.members scope) : InScope scope rule := by
  obtain ⟨present, raw, same⟩ := mem_members_iff.mp member
  exact ⟨canonical.rules rule present, raw, same⟩

theorem read_group (bindings : List Variable) (positive : 0 < n) (canonical : graph.Canonical)
    (scope : Scope) (rules : List Rule) (prior : Option Context)
    (distinct : ((rules ++ graph.members scope).map Rule.address).Nodup) :
    ∃ context, (graph.groupLines n scope).foldl Reading.next ⟨⟨bindings, rules⟩, prior⟩ =
      ⟨⟨bindings, rules ++ graph.members scope⟩, context⟩ := by
  rw [groupLines_of_canonical canonical]
  split
  · rename_i empty
    exact ⟨prior, by simp [empty]⟩
  · rename_i present
    obtain ⟨rule, member⟩ := List.exists_mem_of_ne_nil _ present
    obtain ⟨blockType, labels, _⟩ := (mem_inScope canonical member).parts
    have roots : ∀ rule ∈ graph.roots scope,
        InScope scope rule ∧ rule.address.target = selfTarget := fun rule inRoots =>
      ⟨mem_inScope canonical (List.mem_append_left _ inRoots), by
        simpa using (List.mem_filter.mp inRoots).2⟩
    have others : ∀ rule ∈ graph.others scope,
        InScope scope rule ∧ rule.address.target ≠ selfTarget := fun rule inOthers =>
      ⟨mem_inScope canonical (List.mem_append_right _ inOthers), by
        simpa using (List.mem_filter.mp inOthers).2⟩
    rw [Graph.members, ← List.append_assoc] at distinct
    have header : Reading.next ⟨⟨bindings, rules⟩, prior⟩ scope.selector =
        ⟨⟨bindings, rules⟩, some (.block scope.blockType scope.label selfTarget none)⟩ := by
      have plain : suffixScope scope.label = (scope.label, selfTarget) := by
        cases label : scope.label with
        | none => rfl
        | some text => simp [suffixScope, (labels text label).2.2]
      rw [Reading.next, classify_scope blockType labels, Reading.read, Context.ofSelector, plain]
    have front : ((rules ++ graph.roots scope).map Rule.address).Nodup := by
      rw [List.map_append] at distinct
      exact (List.nodup_append.mp distinct).1
    obtain ⟨context, read⟩ := read_targets bindings positive (graph.others scope)
      (rules ++ graph.roots scope) selfTarget none (by simp [Shallow]) others distinct
    refine ⟨some context, ?_⟩
    rw [List.foldl_cons, header, List.foldl_append, read_roots positive _ _ roots front, read,
      Graph.members, List.append_assoc]

theorem read_groups (bindings : List Variable) (positive : 0 < n) (canonical : graph.Canonical)
    (scopes : List Scope) :
    ∀ (rules : List Rule) (prior : Option Context),
      ((rules ++ scopes.flatMap graph.members).map Rule.address).Nodup →
      ∃ context, (scopes.flatMap (graph.groupLines n)).foldl Reading.next
        ⟨⟨bindings, rules⟩, prior⟩ = ⟨⟨bindings, rules ++ scopes.flatMap graph.members⟩, context⟩ := by
  induction scopes with
  | nil =>
    intro rules prior _
    exact ⟨prior, by simp⟩
  | cons scope scopes ih =>
    intro rules prior distinct
    rw [List.flatMap_cons, ← List.append_assoc] at distinct
    have front : ((rules ++ graph.members scope).map Rule.address).Nodup := by
      rw [List.map_append] at distinct
      exact (List.nodup_append.mp distinct).1
    obtain ⟨middle, first⟩ := read_group bindings positive canonical scope rules prior
      front
    obtain ⟨context, later⟩ := ih (rules ++ graph.members scope) middle distinct
    refine ⟨context, ?_⟩
    rw [List.flatMap_cons, List.foldl_append, first, later, List.flatMap_cons, List.append_assoc]

theorem read_raws (bindings : List Variable) (positive : 0 < n) (raws : List Rule) :
    ∀ (rules : List Rule) (prior : Option Context),
      (∀ rule ∈ raws, rule.Canonical ∧ rule.isRaw = true) →
      ((rules ++ raws).map Rule.address).Nodup →
      ∃ context, (raws.flatMap fun rule =>
          rule.address.target :: propertyLines (spaces n) rule).foldl Reading.next
        ⟨⟨bindings, rules⟩, prior⟩ = ⟨⟨bindings, rules ++ raws⟩, context⟩ := by
  induction raws with
  | nil =>
    intro rules prior _ _
    exact ⟨prior, by simp⟩
  | cons rule raws ih =>
    intro rules prior inside distinct
    obtain ⟨canonical, raw⟩ := inside rule (by simp)
    have kept : rule.address.blockType = rawType := by simpa [Rule.isRaw] using raw
    have address := canonical.address
    rw [Address.Canonical, if_pos kept] at address
    obtain ⟨noLabel, _, selector⟩ := address
    have here : (Context.ofRaw rule.address.target).address = rule.address := by
      rw [Context.ofRaw, Context.address, ← kept, ← noLabel]
    have header : Reading.next ⟨⟨bindings, rules⟩, prior⟩ rule.address.target =
        ⟨⟨bindings, rules⟩, some (.ofRaw rule.address.target)⟩ := by
      rw [Reading.next, selector, Reading.read]
    obtain ⟨context, read⟩ := ih (rules ++ [rule]) (some (.ofRaw rule.address.target))
      (fun later member => inside later (by simp [member])) (by simpa using distinct)
    refine ⟨context, ?_⟩
    rw [List.flatMap_cons, List.cons_append, List.foldl_cons, header, List.foldl_append,
      read_propertyLines positive canonical here (absent_of_nodup distinct), read]
    simp

theorem putVariable_absent {name value : Text} (absent : name ∉ bindings.map Variable.name) :
    putVariable name value bindings = bindings ++ [⟨name, value⟩] := by
  induction bindings with
  | nil => rfl
  | cons found rest ih =>
    simp only [List.map_cons, List.mem_cons, not_or] at absent
    simp [putVariable, Ne.symm absent.1, ih absent.2]

theorem read_variables (found : List Variable) :
    ∀ bindings : List Variable, (∀ variable_ ∈ found, variable_.Canonical) →
      ((bindings ++ found).map Variable.name).Nodup →
      (found.map Variable.line).foldl Reading.next ⟨⟨bindings, []⟩, none⟩ =
        ⟨⟨bindings ++ found, []⟩, none⟩ := by
  induction found with
  | nil =>
    intro bindings _ _
    simp
  | cons first found ih =>
    intro bindings canonical distinct
    have valid := canonical first (by simp)
    have absent : first.name ∉ bindings.map Variable.name := by
      rw [List.map_append, List.nodup_append] at distinct
      exact fun member => distinct.2.2 _ member _ (by simp) rfl
    have present : first.value ≠ [] := valid.valued.1
    have more := ih (bindings ++ [first]) (fun later member => canonical later (by simp [member]))
      (by simpa using distinct)
    rw [List.map_cons, List.foldl_cons, Reading.next, classify_variable valid, Reading.read,
      Graph.setVariable, if_neg present, putVariable_absent absent]
    simpa using more

theorem read_toLines (positive : 0 < n) (canonical : graph.Canonical) :
    ∃ context, (graph.toLines n).foldl Reading.next .start = ⟨graph.regrouped, context⟩ := by
  have distinct : (graph.regrouped.rules.map Rule.address).Nodup :=
    ((regrouped_perm canonical.addresses.of_map).map _).nodup_iff.mpr canonical.addresses
  have front : (([] ++ graph.scopes.flatMap graph.members).map Rule.address).Nodup := by
    rw [Graph.regrouped, List.map_append] at distinct
    exact (List.nodup_append.mp distinct).1
  have assigned := read_variables graph.bindings [] canonical.bindings canonical.names
  obtain ⟨middle, groups⟩ := read_groups graph.bindings positive canonical
    graph.scopes [] none front
  obtain ⟨last, raws⟩ := read_raws graph.bindings positive
    (graph.rules.filter Rule.isRaw) (graph.scopes.flatMap graph.members) middle
    (fun rule member => ⟨canonical.rules rule (List.mem_of_mem_filter member),
      (List.mem_filter.mp member).2⟩) distinct
  have lines : graph.toLines n = graph.bindings.map Variable.line ++
      (graph.scopes.flatMap (graph.groupLines n) ++
        (graph.rules.filter Rule.isRaw).flatMap fun rule =>
          rule.address.target :: propertyLines (spaces n) rule) := by
    rw [Graph.toLines, rawRules_of_canonical canonical, List.append_assoc]
    rfl
  refine ⟨last, ?_⟩
  rw [lines, List.foldl_append, List.foldl_append, Reading.start, Graph.empty, assigned,
    List.nil_append, groups, List.nil_append, raws, Graph.regrouped]

theorem ofLines_toLines (positive : 0 < n) (canonical : graph.Canonical) :
    Graph.ofLines (graph.toLines n) = graph.regrouped := by
  obtain ⟨context, read⟩ := read_toLines positive canonical
  rw [Graph.ofLines, read]

theorem ofBody_toBody_of_oneLine (plain : graph.OneLine) :
    Graph.ofBody (graph.toBody n) = Graph.ofLines (graph.toLines n) := by
  rw [Graph.ofBody]
  cases lines : graph.toLines n with
  | nil =>
    rw [toBody_eq_nil_iff.mpr lines]
    rfl
  | cons first rest =>
    have present : graph.toLines n ≠ [] := by simp [lines]
    rw [Graph.toBody, splitLines_joinLines present (newline_notMem_toLines plain), lines]

end BlockMarkup.Style
