import BlockMarkup.Json.Reader
import BlockMarkup.Style.Graph

namespace BlockMarkup.Style

def Variable.toJson (found : Variable) : Json :=
  .object [("name".toList, .string found.name), ("value".toList, .string found.value)]

def labelMember : Option Text → List (Text × Json)
  | some label => [("label".toList, .string label)]
  | none => []

def propertiesJson (properties : Properties) : Json :=
  .object (properties.entries.map fun (property, value) => (property, .string value))

def Rule.toJson (rule : Rule) : Json :=
  .object
    ([("block_type".toList, .string rule.address.blockType),
        ("target".toList, .string rule.address.target)] ++
      labelMember rule.address.label ++
      [("properties".toList, propertiesJson rule.properties)])

def Graph.toJson (graph : Graph) : Json :=
  .object
    [("variables".toList, .array (graph.bindings.map Variable.toJson)),
      ("rules".toList, .array (graph.rules.map Rule.toJson))]

def Graph.toJsonText (graph : Graph) : Text := graph.toJson.render

def members? : Json → Option (List (Text × Json))
  | .object members => some members
  | _ => none

-- The members of a record with certain names. The items of an array go to the names in order, and
-- there must be as many of them.
def recordMembers? (names : List Text) : Json → Option (List (Text × Json))
  | .object members => some members
  | .array items => if items.length = names.length then some (names.zip items) else none
  | _ => none

def member? (name : Text) (members : List (Text × Json)) : Option Json :=
  match members.filter fun member => member.1 = name with
  | [member] => some member.2
  | _ => none

def textOf? : Json → Option Text
  | .string content => some content
  | _ => none

def itemsOf? : Json → Option (List Json)
  | .array items => some items
  | _ => none

def textMember? (name : Text) (members : List (Text × Json)) : Option Text :=
  (member? name members).bind textOf?

def labelOf? (members : List (Text × Json)) : Option (Option Text) :=
  match members.filter fun member => member.1 = "label".toList with
  | [] => some none
  | [(_, .null)] => some none
  | [(_, .string label)] => some (some label)
  | _ => none

def variableOf? (json : Json) : Option Variable := do
  let members ← recordMembers? ["name".toList, "value".toList] json
  let name ← textMember? "name".toList members
  let value ← textMember? "value".toList members
  return ⟨name, value⟩

def propertiesOf? (json : Json) : Option Properties := do
  let members ← members? json
  let pairs ← members.mapM fun member => (textOf? member.2).map fun value => (member.1, value)
  return .ofList pairs

def ruleOf? (json : Json) : Option Rule := do
  let members ←
    recordMembers? ["block_type".toList, "target".toList, "label".toList, "properties".toList] json
  let blockType ← textMember? "block_type".toList members
  let target ← textMember? "target".toList members
  let label ← labelOf? members
  let properties ← (member? "properties".toList members).bind propertiesOf?
  return ⟨⟨blockType, target, label⟩, properties⟩

def Graph.ofJson? (json : Json) : Option Graph := do
  let members ← recordMembers? ["variables".toList, "rules".toList] json
  let bindings ← (member? "variables".toList members).bind itemsOf?
  let rules ← (member? "rules".toList members).bind itemsOf?
  return ⟨← bindings.mapM variableOf?, ← rules.mapM ruleOf?⟩

def Graph.ofJsonText? (t : Text) : Option Graph := (Json.ofText? t).bind Graph.ofJson?

end BlockMarkup.Style
