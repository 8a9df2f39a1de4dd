import BlockMarkup.Proofs.Style.Laws
import BlockMarkup.Proofs.Style.Reading

namespace BlockMarkup.Style

-- Items with another key stay, in their order. The one with the key is replaced or removed where it is, a
-- new one comes last, or there is none before and none after.
inductive UpdatedAt {α κ : Type} (key : α → κ) (k : κ) : List α → List α → Prop
  | nothing : UpdatedAt key k [] []
  | added {new : α} (named : key new = k) : UpdatedAt key k [] [new]
  | replaced {old new : α} {rest : List α} (there : key old = k) (named : key new = k)
      (once : k ∉ rest.map key) : UpdatedAt key k (old :: rest) (new :: rest)
  | removed {old : α} {rest : List α} (there : key old = k) (once : k ∉ rest.map key) :
      UpdatedAt key k (old :: rest) rest
  | past {item : α} {before after : List α} (other : key item ≠ k)
      (later : UpdatedAt key k before after) : UpdatedAt key k (item :: before) (item :: after)

section lists

variable {α κ : Type} {key : α → κ} {k : κ} {items before after : List α}

theorem UpdatedAt.of_rec [DecidableEq κ] {f : List α → List α} (distinct : (items.map key).Nodup)
    (nil : UpdatedAt key k [] (f []))
    (here : ∀ item rest, key item = k → k ∉ rest.map key →
      UpdatedAt key k (item :: rest) (f (item :: rest)))
    (past : ∀ item rest, key item ≠ k → f (item :: rest) = item :: f rest) :
    UpdatedAt key k items (f items) := by
  induction items with
  | nil => exact nil
  | cons item rest ih =>
    rw [List.map_cons, List.nodup_cons] at distinct
    by_cases same : key item = k
    · exact here item rest same (same ▸ distinct.1)
    · rw [past item rest same]
      exact .past same (ih distinct.2)

theorem UpdatedAt.find?_of_ne [DecidableEq κ] (updated : UpdatedAt key k before after) {other : κ}
    (apart : other ≠ k) :
    (after.find? fun item => key item = other) = before.find? fun item => key item = other := by
  induction updated with
  | nothing => rfl
  | added named => simp [named, Ne.symm apart]
  | replaced there named once => simp [there, named, Ne.symm apart]
  | removed there once => simp [there, Ne.symm apart]
  | @past item before after away later ih =>
    by_cases here : key item = other
    · simp [here]
    · simp [here, ih]

theorem UpdatedAt.filter_eq (updated : UpdatedAt key k before after) {p : α → Bool}
    (unseen : ∀ item, key item = k → p item = false) : after.filter p = before.filter p := by
  induction updated with
  | nothing => rfl
  | added named => simp [unseen _ named]
  | replaced there named once => simp [unseen _ there, unseen _ named]
  | removed there once => simp [unseen _ there]
  | past other later ih => simp [List.filter_cons, ih]

end lists

variable {graph : Graph} {address : Address} {name value property : Text}
variable {rules : List Rule} {bindings : List Variable} {entries : List (Text × Text)}

theorem updatedAt_writeEntry (distinct : (entries.map Prod.fst).Nodup) :
    UpdatedAt Prod.fst name entries (writeEntry name value entries) := by
  refine .of_rec distinct (.added rfl) (fun entry rest here once => ?_) fun entry rest other => ?_
  · rw [writeEntry, if_pos here]
    exact .replaced here here once
  · rw [writeEntry, if_neg other]

theorem updatedAt_erase (distinct : (entries.map Prod.fst).Nodup) :
    UpdatedAt Prod.fst name entries (entries.filter fun entry => entry.1 ≠ name) := by
  refine .of_rec distinct .nothing (fun entry rest here once => ?_) fun entry rest other => ?_
  · have kept : rest.filter (fun entry => entry.1 ≠ name) = rest := by
      rw [List.filter_eq_self]
      intro found member
      simpa using fun same : found.1 = name => once (List.mem_map.mpr ⟨found, member, same⟩)
    rw [List.filter_cons_of_neg (by simpa using here), kept]
    exact .removed here once
  · rw [List.filter_cons_of_pos (by simpa using other)]

theorem updatedAt_putIn (distinct : (rules.map Rule.address).Nodup) :
    UpdatedAt Rule.address address rules (putIn address property value rules) := by
  refine .of_rec distinct (.added rfl) (fun rule rest here once => ?_) fun rule rest other => ?_
  · rw [putIn, if_pos here]
    exact .replaced here here once
  · rw [putIn, if_neg other]

theorem updatedAt_removeFrom (distinct : (rules.map Rule.address).Nodup) :
    UpdatedAt Rule.address address rules (removeFrom address property rules) := by
  refine .of_rec distinct .nothing (fun rule rest here once => ?_) fun rule rest other => ?_
  · rw [removeFrom_here here]
    split
    · exact .removed here once
    · exact .replaced here here once
  · rw [removeFrom, if_neg other]

theorem updatedAt_putVariable (distinct : (bindings.map Variable.name).Nodup) :
    UpdatedAt Variable.name name bindings (putVariable name value bindings) := by
  refine .of_rec distinct (.added rfl) (fun found rest here once => ?_) fun found rest other => ?_
  · rw [putVariable, if_pos here]
    exact .replaced here here once
  · rw [putVariable, if_neg other]

theorem updatedAt_eraseVariable (distinct : (bindings.map Variable.name).Nodup) :
    UpdatedAt Variable.name name bindings (bindings.eraseP fun found => found.name = name) := by
  refine .of_rec distinct .nothing (fun found rest here once => ?_) fun found rest other => ?_
  · rw [List.eraseP_cons_of_pos (by simpa using here)]
    exact .removed here once
  · rw [List.eraseP_cons_of_neg (by simpa using other)]

def Graph.propertiesAt (graph : Graph) (address : Address) : Properties :=
  ((graph.rule? address).map Rule.properties).getD .empty

theorem find?_putIn (address : Address) (property value : Text) (rules : List Rule) :
    ((putIn address property value rules).find? fun rule => rule.address = address).map
        Rule.properties =
      some ((((rules.find? fun rule => rule.address = address).map Rule.properties).getD
        .empty).insert property value) := by
  induction rules with
  | nil => simp [putIn]
  | cons rule rest ih =>
    rw [putIn]
    split
    · rename_i here
      simp [here]
    · rename_i other
      simpa [other] using ih

theorem find?_removeFrom (distinct : (rules.map Rule.address).Nodup) :
    ((((removeFrom address property rules).find? fun rule => rule.address = address).map
        Rule.properties).getD .empty) =
      (((rules.find? fun rule => rule.address = address).map Rule.properties).getD .empty).erase
        property := by
  induction rules with
  | nil => rfl
  | cons rule rest ih =>
    rw [List.map_cons, List.nodup_cons] at distinct
    by_cases here : rule.address = address
    · have gone : (rest.find? fun found => found.address = address) = none :=
        find?_key_eq_none_iff.mpr (here ▸ distinct.1)
      rw [removeFrom_here here]
      split
      · rename_i left
        have nothing : (rule.properties.erase property).entries = [] := by
          simpa [Properties.isEmpty] using left
        rw [gone, List.find?_cons_of_pos (by simpa using here), Option.map_none, Option.getD_none,
          Option.map_some, Option.getD_some]
        exact Properties.eq_of_names (by rw [Properties.names, Properties.names, nothing]; rfl)
          fun found => by rw [Properties.get?, Properties.get?, nothing]; rfl
      · simp [here]
    · rw [removeFrom, if_neg here]
      simpa [here] using ih distinct.2

theorem propertiesAt_setProperty (distinct : graph.Distinct) (address : Address)
    (property value : Text) :
    (graph.setProperty address property value).propertiesAt address =
      if value = [] then (graph.propertiesAt address).erase property
      else (graph.propertiesAt address).insert property value := by
  by_cases empty : value = []
  · rw [Graph.setProperty, if_pos empty, if_pos empty]
    exact find?_removeFrom distinct.addresses
  · rw [Graph.setProperty, if_neg empty, if_neg empty, Graph.propertiesAt, Graph.rule?, find?_putIn]
    rfl

structure Graph.PropertyUpdated (graph after : Graph) (address : Address) (property : Text) :
    Prop where
  bindings : after.bindings = graph.bindings
  rules : UpdatedAt Rule.address address graph.rules after.rules
  properties : UpdatedAt Prod.fst property (graph.propertiesAt address).entries
    (after.propertiesAt address).entries

theorem propertyUpdated_setProperty (distinct : graph.Distinct) (address : Address)
    (property value : Text) :
    graph.PropertyUpdated (graph.setProperty address property value) address property := by
  refine ⟨rfl, ?_, ?_⟩
  · simp only [Graph.setProperty]
    split
    · exact updatedAt_removeFrom distinct.addresses
    · exact updatedAt_putIn distinct.addresses
  · rw [propertiesAt_setProperty distinct]
    split
    · exact updatedAt_erase (graph.propertiesAt address).distinct
    · exact updatedAt_writeEntry (graph.propertiesAt address).distinct

theorem putIn_eq_self
    (found : ((rules.find? fun rule => rule.address = address).bind fun rule =>
      rule.properties.get? property) = some value) : putIn address property value rules = rules := by
  induction rules with
  | nil => cases found
  | cons rule rest ih =>
    rw [putIn]
    split
    · rename_i here
      rw [List.find?_cons_of_pos (by simpa using here), Option.bind_some] at found
      rw [Properties.insert_eq_self found]
    · rename_i other
      rw [List.find?_cons_of_neg (by simpa using other)] at found
      rw [ih found]

-- Removing what is not there could still drop a rule, if there were one without properties.
theorem removeFrom_eq_self (filled : ∀ rule ∈ rules, rule.properties.entries ≠ [])
    (absent : ((rules.find? fun rule => rule.address = address).bind fun rule =>
      rule.properties.get? property) = none) : removeFrom address property rules = rules := by
  induction rules with
  | nil => rfl
  | cons rule rest ih =>
    by_cases here : rule.address = address
    · rw [List.find?_cons_of_pos (by simpa using here), Option.bind_some,
        Properties.get?_eq_none_iff] at absent
      have present : ¬rule.properties.isEmpty = true := by
        simpa [Properties.isEmpty] using filled rule List.mem_cons_self
      rw [removeFrom_here here, Properties.erase_eq_self absent, if_neg present]
    · rw [List.find?_cons_of_neg (by simpa using here)] at absent
      rw [removeFrom, if_neg here,
        ih (fun found member => filled found (List.mem_cons_of_mem _ member)) absent]

theorem setProperty_eq_self_iff (distinct : graph.Distinct) :
    graph.setProperty address property value = graph ↔
      graph.property? address property = wanted value := by
  constructor
  · intro same
    have written := property?_setProperty distinct address property value address property
    rwa [same, if_pos ⟨rfl, rfl⟩] at written
  · intro found
    have rules : (graph.setProperty address property value).rules = graph.rules := by
      unfold wanted at found
      simp only [Graph.setProperty]
      split
      · rename_i empty
        rw [if_pos empty] at found
        exact removeFrom_eq_self distinct.filled found
      · rename_i filled
        rw [if_neg filled] at found
        exact putIn_eq_self found
    exact congrArg (Graph.mk graph.bindings) rules

theorem isChange_iff (distinct : graph.Distinct) :
    graph.isChange address property value = true ↔
      graph.setProperty address property value ≠ graph := by
  rw [ne_eq, setProperty_eq_self_iff distinct, Graph.isChange, decide_eq_true_iff]

theorem updatedAt_setVariable (distinct : graph.Distinct) (name value : Text) :
    UpdatedAt Variable.name name graph.bindings (graph.setVariable name value).bindings := by
  simp only [Graph.setVariable]
  split
  · exact updatedAt_eraseVariable distinct.names
  · exact updatedAt_putVariable distinct.names

theorem find?_putVariable (name value : Text) (bindings : List Variable) :
    ((putVariable name value bindings).find? fun found => found.name = name) =
      some ⟨name, value⟩ := by
  induction bindings with
  | nil => simp [putVariable]
  | cons found rest ih =>
    rw [putVariable]
    split
    · rename_i here
      simp [here]
    · rename_i other
      simpa [other] using ih

theorem find?_eraseVariable (distinct : (bindings.map Variable.name).Nodup) :
    ((bindings.eraseP fun found => found.name = name).find? fun found => found.name = name) =
      none := by
  induction bindings with
  | nil => rfl
  | cons found rest ih =>
    rw [List.map_cons, List.nodup_cons] at distinct
    by_cases here : found.name = name
    · rw [List.eraseP_cons_of_pos (by simpa using here)]
      exact find?_key_eq_none_iff.mpr (here ▸ distinct.1)
    · rw [List.eraseP_cons_of_neg (by simpa using here),
        List.find?_cons_of_neg (by simpa using here), ih distinct.2]

theorem variableValue?_setVariable (distinct : graph.Distinct) (name value other : Text) :
    (graph.setVariable name value).variableValue? other =
      if other = name then wanted value else graph.variableValue? other := by
  by_cases same : other = name
  · subst same
    rw [if_pos rfl, Graph.variableValue?, wanted]
    simp only [Graph.setVariable]
    split
    · rw [find?_eraseVariable distinct.names, Option.map_none]
    · rw [find?_putVariable, Option.map_some]
  · rw [if_neg same, Graph.variableValue?, Graph.variableValue?,
      (updatedAt_setVariable distinct name value).find?_of_ne same]

inductive Update where
  | property (address : Address) (property value : Text)
  | variable (name value : Text)
deriving DecidableEq

namespace Update

def value? (address : Address) (name : Text) : Update → Option Text
  | .property there property value =>
    if address = there ∧ name = property then some value else none
  | .variable _ _ => none

def assigned? (name : Text) : Update → Option Text
  | .property _ _ _ => none
  | .variable there value => if name = there then some value else none

def last? (written? : Update → Option Text) (updates : List Update) : Option Text :=
  (updates.filterMap written?).getLast?

theorem last?_concat (written? : Update → Option Text) (updates : List Update) (update : Update) :
    last? written? (updates ++ [update]) = (written? update).or (last? written? updates) := by
  rw [last?, last?, List.filterMap_append]
  cases written : written? update with
  | none => simp [written]
  | some value => simp [written]

end Update

namespace Graph

def update (graph : Graph) : Update → Graph
  | .property address property value => graph.setProperty address property value
  | .variable name value => graph.setVariable name value

def ofUpdates (updates : List Update) : Graph := updates.foldl update .empty

theorem ofUpdates_concat (updates : List Update) (last : Update) :
    ofUpdates (updates ++ [last]) = (ofUpdates updates).update last := by
  rw [ofUpdates, List.foldl_append]
  rfl

def Valued (graph : Graph) : Prop :=
  graph.Each (fun _ value => value ≠ []) (fun _ => True) fun _ value => value ≠ []

end Graph

theorem Graph.Distinct.update (distinct : graph.Distinct) (last : Update) :
    (graph.update last).Distinct := by
  cases last with
  | property address property value => exact distinct.setProperty address property value
  | «variable» name value => exact distinct.setVariable name value

theorem distinct_ofUpdates (updates : List Update) : (Graph.ofUpdates updates).Distinct := by
  induction updates using List.reverseRec with
  | nil => exact .empty
  | append_singleton updates last ih =>
    rw [Graph.ofUpdates_concat]
    exact ih.update last

theorem property?_ofUpdates (updates : List Update) (address : Address) (property : Text) :
    (Graph.ofUpdates updates).property? address property =
      (Update.last? (Update.value? address property) updates).bind wanted := by
  induction updates using List.reverseRec with
  | nil => rfl
  | append_singleton updates last ih =>
    rw [Graph.ofUpdates_concat, Update.last?_concat]
    cases last with
    | property there name value =>
      rw [Graph.update, property?_setProperty (distinct_ofUpdates updates), Update.value?]
      split
      · rfl
      · exact ih
    | «variable» name value => exact ih

theorem variableValue?_ofUpdates (updates : List Update) (name : Text) :
    (Graph.ofUpdates updates).variableValue? name =
      (Update.last? (Update.assigned? name) updates).bind wanted := by
  induction updates using List.reverseRec with
  | nil => rfl
  | append_singleton updates last ih =>
    rw [Graph.ofUpdates_concat, Update.last?_concat]
    cases last with
    | property there property value => exact ih
    | «variable» there value =>
      rw [Graph.update, variableValue?_setVariable (distinct_ofUpdates updates), Update.assigned?]
      split
      · rfl
      · exact ih

theorem wanted_ne_nil (given : Option Text) : given.bind wanted ≠ some [] := by
  intro found
  obtain ⟨value, _, same⟩ := Option.bind_eq_some_iff.mp found
  rw [wanted] at same
  split at same
  · cases same
  · rename_i filled
    exact filled (Option.some.inj same)

-- An empty value would be one that a lookup gives, and no lookup gives one.
theorem valued_ofUpdates (updates : List Update) : (Graph.ofUpdates updates).Valued := by
  have distinct := distinct_ofUpdates updates
  refine ⟨fun found member empty => ?_, fun _ _ => trivial, fun rule member entry inside empty => ?_⟩
  · have value : (Graph.ofUpdates updates).variableValue? found.name = some [] :=
      (variableValue?_eq_some_iff distinct).mpr (by rwa [← empty])
    rw [variableValue?_ofUpdates] at value
    exact wanted_ne_nil _ value
  · have value : (Graph.ofUpdates updates).property? rule.address entry.1 = some [] :=
      (property?_eq_some_iff distinct).mpr ⟨rule, member, rfl, by rwa [← empty]⟩
    rw [property?_ofUpdates] at value
    exact wanted_ne_nil _ value

theorem exists_ofUpdates (body : Text) : ∃ updates, Graph.ofBody body = .ofUpdates updates := by
  refine ofLines_induction (P := fun graph => ∃ updates, graph = .ofUpdates updates) ⟨[], rfl⟩ ?_ ?_
    (splitLines body)
  · rintro _ name value ⟨updates, rfl⟩
    refine ⟨updates ++ [.variable name value], ?_⟩
    rw [Graph.ofUpdates_concat, Graph.update]
  · rintro _ address property value ⟨updates, rfl⟩
    refine ⟨updates ++ [.property address property value], ?_⟩
    rw [Graph.ofUpdates_concat, Graph.update]

-- Every graph that updates make, and so every graph that is read, is an ordered map: it has each name
-- and each address once and nothing empty, looking up gives the value written last, and one more update
-- changes what it names alone. It says that it changes the graph exactly when it does.
theorem orderedMap_ofUpdates :
    (∀ body, ∃ updates, Graph.ofBody body = .ofUpdates updates) ∧
      ∀ updates,
        (Graph.ofUpdates updates).Distinct ∧ (Graph.ofUpdates updates).Valued ∧
        (∀ address property, (Graph.ofUpdates updates).property? address property =
          (Update.last? (Update.value? address property) updates).bind wanted) ∧
        (∀ name, (Graph.ofUpdates updates).variableValue? name =
          (Update.last? (Update.assigned? name) updates).bind wanted) ∧
        (∀ address property value,
          (Graph.ofUpdates updates).PropertyUpdated
            ((Graph.ofUpdates updates).setProperty address property value) address property ∧
          ((Graph.ofUpdates updates).isChange address property value = true ↔
            (Graph.ofUpdates updates).setProperty address property value ≠
              Graph.ofUpdates updates)) ∧
        ∀ name value,
          ((Graph.ofUpdates updates).setVariable name value).rules =
            (Graph.ofUpdates updates).rules ∧
          UpdatedAt Variable.name name (Graph.ofUpdates updates).bindings
            ((Graph.ofUpdates updates).setVariable name value).bindings := by
  refine ⟨exists_ofUpdates, fun updates => ?_⟩
  have distinct := distinct_ofUpdates updates
  refine ⟨distinct, valued_ofUpdates updates, property?_ofUpdates updates,
    variableValue?_ofUpdates updates, fun address property value => ?_, fun name value => ?_⟩
  · exact ⟨propertyUpdated_setProperty distinct address property value, isChange_iff distinct⟩
  · exact ⟨rfl, updatedAt_setVariable distinct name value⟩

end BlockMarkup.Style
