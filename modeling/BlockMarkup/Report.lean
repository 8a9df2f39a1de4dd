import BlockMarkup.Block.Locate
import BlockMarkup.Document.Outline
import BlockMarkup.Style.Descendant
import BlockMarkup.Style.Writer

namespace BlockMarkup.Report

def propertyLines (width : Nat) (properties : Properties) : List Text :=
  properties.entries.map fun (key, value) => Style.spaces width ++ key ++ ':' :: ' ' :: value

def ruleScope (rule : Style.Rule) : Text :=
  match rule.address.label with
  | some label => rule.address.target ++ " [".toList ++ label ++ [']']
  | none =>
    if rule.target.isDescendant then rule.address.target ++ " [descendant]".toList
    else rule.address.target

def ruleLines (rule : Style.Rule) : List Text :=
  (' ' :: ' ' :: ruleScope rule) :: propertyLines 4 rule.properties

-- The rules that apply to a block: those of its type for all blocks or for its label.
def rulesForBlock (block : Block) (graph : Style.Graph) : List Style.Rule :=
  (graph.rulesFor block.blockType).filter fun rule =>
    rule.address.label = none || rule.address.label = block.label

def blockHeading (block : Block) : Text :=
  block.blockType ++
    (match block.label with
      | some label => ':' :: ' ' :: label
      | none => []) ++
    " (lines ".toList ++ decimal block.startLine ++ '-' :: decimal (block.endLine - 1) ++ [')']

def describeBlock (block : Block) (graph : Style.Graph) : List Text :=
  if block.isSpecial then [blockHeading block, "reserved block, not styleable".toList]
  else
    let rules := rulesForBlock block graph
    [blockHeading block, []] ++
      (if block.properties.isEmpty then ["No properties".toList]
        else "Properties:".toList :: propertyLines 2 block.properties) ++
      [[]] ++
      (if rules.isEmpty then ["No style rules".toList]
        else "Style rules:".toList :: rules.flatMap ruleLines)

def describeStyles (indent : Nat) (classPrefix : Text) (graph : Style.Graph) : Text :=
  if graph.isEmpty then "No styles".toList
  else
    let css := graph.descendantCss classPrefix
    graph.toBody indent ++
      (if css = [] then [] else "\n\n/* descendant rules */\n".toList ++ trimEnd css)

def severityWord : Severity → Text
  | .error => "error".toList
  | .warning => "warning".toList

def describeDiagnostic (diagnostic : Diagnostic) : Text :=
  severityWord diagnostic.severity ++ ": line ".toList ++ decimal diagnostic.line ++
    ':' :: ' ' :: diagnostic.message

end BlockMarkup.Report
