import BlockMarkup.Style.Target

namespace BlockMarkup.Style

def defaultClassPrefix : Text := "mkly".toList

def blockClass (classPrefix blockType : Text) : Text :=
  classPrefix ++ '-' :: blockType.map fun c => if c = '/' || c = '.' then '-' else c

namespace Rule

def isDescendant (rule : Rule) : Bool := !rule.isRaw && rule.target.isDescendant

def cssSelector? (classPrefix : Text) (rule : Rule) : Option Text :=
  match rule.target with
  | .descendant rest =>
    if rule.isRaw then none
    else
      let label := match rule.address.label with
        | some label => '.' :: label
        | none => []
      some ('.' :: blockClass classPrefix rule.address.blockType ++ label ++ ' ' :: trim rest)
  | _ => none

-- A rule as CSS. Nothing is written for one without properties or without a selector.
def css (classPrefix : Text) (rule : Rule) : Text :=
  match rule.cssSelector? classPrefix with
  | none => []
  | some selector =>
    if rule.properties.isEmpty then []
    else
      selector ++ " \x7b\n".toList ++
        (rule.properties.entries.flatMap fun (property, value) =>
          ' ' :: ' ' :: property ++ ':' :: ' ' :: value ++ [';', '\n']) ++
        "\x7d\n".toList

end Rule

namespace Graph

def native (graph : Graph) : Graph :=
  { graph with rules := graph.rules.filter fun rule => !rule.isDescendant }

def descendants (graph : Graph) : List Rule := graph.rules.filter Rule.isDescendant

def descendantCss (classPrefix : Text) (graph : Graph) : Text :=
  graph.rules.flatMap (Rule.css classPrefix)

end Graph
end BlockMarkup.Style
