import BlockMarkup.Properties

namespace BlockMarkup.Style

structure Address where
  blockType : Text
  target : Text
  label : Option Text
deriving DecidableEq

def rawType : Text := "__raw".toList

def selfTarget : Text := "self".toList

structure Variable where
  name : Text
  value : Text
deriving DecidableEq

structure Rule where
  address : Address
  properties : Properties
deriving DecidableEq

namespace Rule

def isRaw (rule : Rule) : Bool := rule.address.blockType = rawType

end Rule

structure Graph where
  bindings : List Variable
  rules : List Rule
deriving DecidableEq

def putIn (address : Address) (property value : Text) : List Rule → List Rule
  | [] => [⟨address, Properties.empty.insert property value⟩]
  | rule :: rest =>
    if rule.address = address then
      { rule with properties := rule.properties.insert property value } :: rest
    else rule :: putIn address property value rest

-- The rules without a property of the first rule at the address. The rule goes when nothing is
-- left of it.
def removeFrom (address : Address) (property : Text) : List Rule → List Rule
  | [] => []
  | rule :: rest =>
    if rule.address = address then
      let left := rule.properties.erase property
      if left.isEmpty then rest else { rule with properties := left } :: rest
    else rule :: removeFrom address property rest

def putVariable (name value : Text) : List Variable → List Variable
  | [] => [⟨name, value⟩]
  | found :: rest =>
    if found.name = name then { found with value := value } :: rest
    else found :: putVariable name value rest

def wanted (value : Text) : Option Text := if value = [] then none else some value

namespace Graph

def empty : Graph := ⟨[], []⟩

def isEmpty (graph : Graph) : Bool := graph.bindings.isEmpty && graph.rules.isEmpty

def rule? (graph : Graph) (address : Address) : Option Rule :=
  graph.rules.find? fun rule => rule.address = address

def property? (graph : Graph) (address : Address) (property : Text) : Option Text :=
  (graph.rule? address).bind fun rule => rule.properties.get? property

def variableValue? (graph : Graph) (name : Text) : Option Text :=
  (graph.bindings.find? fun found => found.name = name).map Variable.value

def setProperty (graph : Graph) (address : Address) (property value : Text) : Graph :=
  { graph with
    rules :=
      if value = [] then removeFrom address property graph.rules
      else putIn address property value graph.rules }

def isChange (graph : Graph) (address : Address) (property value : Text) : Bool :=
  graph.property? address property ≠ wanted value

def setVariable (graph : Graph) (name value : Text) : Graph :=
  { graph with
    bindings :=
      if value = [] then graph.bindings.eraseP fun found => found.name = name
      else putVariable name value graph.bindings }

def rulesFor (graph : Graph) (blockType : Text) : List Rule :=
  graph.rules.filter fun rule => rule.address.blockType = blockType

-- Whether every variable and every rule of the first graph is in the second with the same value,
-- and there are as many of them. Order does not count.
def sameRules (graph other : Graph) : Bool :=
  graph.bindings.length = other.bindings.length &&
  graph.rules.length = other.rules.length &&
  (graph.bindings.all fun found => other.variableValue? found.name = some found.value) &&
  graph.rules.all fun rule =>
    (other.rule? rule.address).any fun theirs => theirs.properties.agrees rule.properties

def equal (graph other : Graph) : Bool :=
  graph.bindings = other.bindings &&
  graph.rules.length = other.rules.length &&
  (graph.rules.zip other.rules).all fun (rule, theirs) =>
    rule.address = theirs.address && rule.properties.agrees theirs.properties

end Graph
end BlockMarkup.Style
