import BlockMarkup.Style.Json
import BlockMarkup.Proofs.Json
import BlockMarkup.Proofs.Properties

namespace BlockMarkup.Style

theorem Variable.textual_toJson (found : Variable) : found.toJson.Textual := by
  refine .object fun member inside => ?_
  simp only [List.mem_cons, List.not_mem_nil, or_false] at inside
  rcases inside with rfl | rfl <;> exact .string _

theorem textual_propertiesJson (properties : Properties) : (propertiesJson properties).Textual := by
  refine .object fun member inside => ?_
  obtain ⟨entry, _, rfl⟩ := List.mem_map.mp inside
  exact .string _

theorem Rule.textual_toJson (rule : Rule) : rule.toJson.Textual := by
  refine .object fun member inside => ?_
  simp only [List.mem_append, List.mem_cons, List.not_mem_nil, or_false] at inside
  rcases inside with ((rfl | rfl) | label) | rfl
  · exact .string _
  · exact .string _
  · cases named : rule.address.label with
    | none =>
      rw [named] at label
      cases label
    | some text =>
      rw [named, labelMember, List.mem_singleton] at label
      exact label ▸ .string text
  · exact textual_propertiesJson rule.properties

theorem Graph.textual_toJson (graph : Graph) : graph.toJson.Textual := by
  refine .object fun member inside => ?_
  simp only [List.mem_cons, List.not_mem_nil, or_false] at inside
  rcases inside with rfl | rfl
  · refine .array fun item written => ?_
    obtain ⟨found, _, rfl⟩ := List.mem_map.mp written
    exact found.textual_toJson
  · refine .array fun item written => ?_
    obtain ⟨rule, _, rfl⟩ := List.mem_map.mp written
    exact rule.textual_toJson

theorem mapM_map_of_inverse {α β : Type} {write : α → β} {read : β → Option α}
    (inverse : ∀ item, read (write item) = some item) (items : List α) :
    (items.map write).mapM read = some items := by
  induction items with
  | nil => rfl
  | cons item rest ih => simp [inverse, ih]

theorem variableOf?_toJson (found : Variable) : variableOf? found.toJson = some found := by
  simp [variableOf?, Variable.toJson, recordMembers?, textMember?, member?, textOf?]

-- The names of properties are apart, so reading them in order makes the same map.
theorem propertiesOf?_propertiesJson (properties : Properties) :
    propertiesOf? (propertiesJson properties) = some properties := by
  have read : (properties.entries.map fun entry => (entry.1, Json.string entry.2)).mapM
      (fun member => (textOf? member.2).map fun value => (member.1, value)) =
        some properties.entries := by
    refine mapM_map_of_inverse ?_ properties.entries
    exact fun entry => rfl
  calc propertiesOf? (propertiesJson properties)
    _ = ((properties.entries.map fun entry => (entry.1, Json.string entry.2)).mapM
          fun member => (textOf? member.2).map fun value => (member.1, value)).bind
        fun pairs => some (.ofList pairs) := rfl
    _ = some (.ofList properties.entries) := by rw [read, Option.bind_some]
    _ = some properties := by rw [Properties.ofList_entries]

theorem ruleOf?_toJson (rule : Rule) : ruleOf? rule.toJson = some rule := by
  obtain ⟨⟨blockType, target, label⟩, properties⟩ := rule
  cases label <;>
    simp [ruleOf?, Rule.toJson, recordMembers?, textMember?, member?, textOf?, labelMember, labelOf?,
      propertiesOf?_propertiesJson]

theorem Graph.ofJson?_toJson (graph : Graph) : Graph.ofJson? graph.toJson = some graph := by
  have bindings := mapM_map_of_inverse variableOf?_toJson graph.bindings
  have rules := mapM_map_of_inverse ruleOf?_toJson graph.rules
  simp [Graph.ofJson?, Graph.toJson, recordMembers?, member?, itemsOf?, bindings, rules]

theorem Graph.ofJsonText?_toJsonText (graph : Graph) :
    Json.ofText? graph.toJsonText = some graph.toJson ∧
      Graph.ofJsonText? graph.toJsonText = some graph := by
  have text : Json.ofText? graph.toJsonText = some graph.toJson :=
    Json.ofText?_render graph.textual_toJson
  refine ⟨text, ?_⟩
  rw [Graph.ofJsonText?, text, Option.bind_some, graph.ofJson?_toJson]

end BlockMarkup.Style
