import BlockMarkup.Style.Graph

namespace BlockMarkup.Style

inductive Target where
  | root
  | rootPseudo (pseudo : Text)
  | part (name : Text)
  | partPseudo (name pseudo : Text)
  | descendant (rest : Text)
deriving DecidableEq

namespace Target

def of (target : Text) : Target :=
  match target with
  | '>' :: rest => .descendant rest
  | _ =>
    if target = selfTarget then .root
    else match splitAtFirst? ':' target with
      | some (name, pseudo) => if name = selfTarget then .rootPseudo pseudo else .partPseudo name pseudo
      | none => .part target

def selector : Target → Text
  | .root => []
  | .rootPseudo pseudo => ':' :: pseudo
  | .part name => '.' :: name
  | .partPseudo name pseudo => '.' :: name ++ ':' :: pseudo
  | .descendant rest => '>' :: rest

def isDescendant : Target → Bool
  | .descendant _ => true
  | _ => false

end Target

def Rule.target (rule : Rule) : Target := .of rule.address.target

def pseudoClasses : List Text :=
  ["hover".toList, "active".toList, "focus".toList, "focus-visible".toList, "focus-within".toList,
    "visited".toList, "link".toList, "target".toList, "checked".toList, "disabled".toList,
    "enabled".toList, "empty".toList, "first-child".toList, "last-child".toList,
    "only-child".toList, "first-of-type".toList, "last-of-type".toList, "only-of-type".toList,
    "placeholder-shown".toList, "before".toList, "after".toList]

-- A listed name, or anything with a parenthesis, such as `nth-child(2)`.
def isPseudoClass (name : Text) : Bool := name.contains '(' || pseudoClasses.contains name

end BlockMarkup.Style
