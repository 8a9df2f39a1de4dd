import BlockMarkup.Config.Expansion
import BlockMarkup.Config.Library
import BlockMarkup.Toml.Reader

namespace BlockMarkup.Config

def textOf? : Toml.Value → Option Text
  | .string content => some content
  | _ => none

def numberOf? : Toml.Value → Option Nat
  | .integer (.ofNat n) => if n ≤ maxWord then some n else none
  | _ => none

def flagOf? : Toml.Value → Option Bool
  | .boolean b => some b
  | _ => none

def setting? {α : Type} (read : Toml.Value → Option α) (standard : α) :
    Option Toml.Value → Option α
  | none => some standard
  | some value => read value

-- The settings of a group, given by name or, in a list, by their order. A date sets nothing. Items
-- after those that are settings are not looked at.
def group? (names : List Text) : Option Toml.Value → Option (Text → Option Toml.Value)
  | none => some fun _ => none
  | some (.table _ members) =>
    if Toml.membersFit (Toml.Members.except names members) then some (Toml.Members.get? members)
    else none
  | some (.array items) => some fun name => items[names.idxOf name]?
  | some .date => some fun _ => none
  | some _ => none

def styleNames : List Text := ["indent".toList]

def targetNames : List Text := ["class_prefix".toList, "positional".toList]

def topNames : List Text := ["default_document".toList, "style".toList, "targets".toList]

def ofTable? (members : Toml.Members) : Option Config := do
  guard (Toml.membersFit (members.except topNames))
  let document ← setting? (fun value => (textOf? value).map some) default.document
    (members.get? "default_document".toList)
  let style ← group? styleNames (members.get? "style".toList)
  let indent ← setting? numberOf? default.indent (style "indent".toList)
  let targets ← group? targetNames (members.get? "targets".toList)
  let classPrefix ← setting? textOf? default.targets.classPrefix (targets "class_prefix".toList)
  let positional ← setting? flagOf? default.targets.positional (targets "positional".toList)
  return ⟨document, indent, ⟨classPrefix, positional⟩⟩

def decode (t : Text) : Except Text Config :=
  match (Toml.ofText? t).bind ofTable? with
  | some config => .ok config
  | none => .error "not the settings in TOML".toList

-- The reader that is run. What is proved of a run holds of any.
def library : Library Environment := ⟨decode, resolve?, fromHome⟩

end BlockMarkup.Config
