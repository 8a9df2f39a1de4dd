import BlockMarkup.Text.Number

namespace BlockMarkup

inductive EditName where
  | blockType
  | target
  | property
deriving DecidableEq

def EditName.text : EditName → Text
  | .blockType => "block type".toList
  | .target => "target".toList
  | .property => "property".toList

inductive EditError where
  | reservedBlockType (blockType : Text)
  | emptyName (name : EditName)
  | noBlockAtLine (line : Nat)
deriving DecidableEq

def EditError.message : EditError → Text
  | .reservedBlockType blockType =>
    "Block type '".toList ++ blockType ++ "' is reserved and cannot be styled".toList
  | .emptyName name => "Style edit is missing a ".toList ++ name.text
  | .noBlockAtLine line => "No block at line ".toList ++ decimal line

end BlockMarkup
