import BlockMarkup.Style.Target
import BlockMarkup.Text.Lines

namespace BlockMarkup.Style

structure Scope where
  blockType : Text
  label : Option Text
deriving DecidableEq

def Rule.scope (rule : Rule) : Scope := ⟨rule.address.blockType, rule.address.label⟩

def Scope.selector (scope : Scope) : Text :=
  match scope.label with
  | some label => scope.blockType ++ ':' :: label
  | none => scope.blockType

def spaces (width : Nat) : Text := List.replicate width ' '

def propertyLines (indent : Text) (rule : Rule) : List Text :=
  rule.properties.entries.map fun (property, value) => indent ++ property ++ ':' :: ' ' :: value

def targetLines (indent : Nat) (rule : Rule) : List Text :=
  (spaces indent ++ rule.target.selector) :: propertyLines (spaces (indent * 2)) rule

namespace Graph

def groupedRules (graph : Graph) : List Rule :=
  graph.rules.filter fun rule => !rule.isRaw && !rule.properties.isEmpty

def rawRules (graph : Graph) : List Rule :=
  graph.rules.filter fun rule => rule.isRaw && !rule.properties.isEmpty

def scopes (graph : Graph) : List Scope :=
  ((graph.rules.filter fun rule => !rule.isRaw).map Rule.scope).eraseDups

def groupLines (indent : Nat) (graph : Graph) (scope : Scope) : List Text :=
  let members := graph.groupedRules.filter fun rule => rule.scope = scope
  if members.isEmpty then []
  else
    scope.selector ::
      ((members.filter fun rule => rule.target = .root).flatMap (propertyLines (spaces indent)) ++
        (members.filter fun rule => rule.target ≠ .root).flatMap (targetLines indent))

-- The pieces of the body, one for each line unless a name or value spans lines.
def toLines (indent : Nat) (graph : Graph) : List Text :=
  (graph.bindings.map fun found => found.name ++ ':' :: ' ' :: found.value) ++
    graph.scopes.flatMap (graph.groupLines indent) ++
    graph.rawRules.flatMap fun rule =>
      rule.address.target :: propertyLines (spaces indent) rule

def toBody (indent : Nat) (graph : Graph) : Text := joinLines (graph.toLines indent)

def bodyLines (indent : Nat) (graph : Graph) : List Text :=
  let body := graph.toBody indent
  if body = [] then [] else splitLines body

end Graph

def defaultIndent : Nat := 2

end BlockMarkup.Style
