import BlockMarkup.Text.Blank

namespace BlockMarkup

inductive Json where
  | null
  | boolean (value : Bool)
  | number (digits : Text)
  | string (content : Text)
  | array (items : List Json)
  | object (members : List (Text × Json))
  -- A string, or an object with a name, whose escapes stand for no character. It can be skipped but
  -- not used.
  | broken

namespace Json

def hexDigit (n : Nat) : Char := n.digitChar

def escape (c : Char) : Text :=
  if c = '"' then ['\\', '"']
  else if c = '\\' then ['\\', '\\']
  else if c = '\x08' then ['\\', 'b']
  else if c = '\x0c' then ['\\', 'f']
  else if c = '\n' then ['\\', 'n']
  else if c = '\r' then ['\\', 'r']
  else if c = '\t' then ['\\', 't']
  else if c.toNat < 32 then
    ['\\', 'u', '0', '0', hexDigit (c.toNat / 16), hexDigit (c.toNat % 16)]
  else [c]

def renderString (content : Text) : Text := '"' :: content.flatMap escape ++ ['"']

mutual

def render : Json → Text
  | .null | .broken => "null".toList
  | .boolean true => "true".toList
  | .boolean false => "false".toList
  | .number digits => digits
  | .string content => renderString content
  | .array [] => ['[', ']']
  | .array (item :: rest) => '[' :: render item ++ renderItems rest
  | .object [] => ['\x7b', '\x7d']
  | .object ((name, value) :: rest) =>
    '\x7b' :: renderString name ++ ':' :: render value ++ renderMembers rest

def renderItems : List Json → Text
  | [] => [']']
  | item :: rest => ',' :: render item ++ renderItems rest

def renderMembers : List (Text × Json) → Text
  | [] => ['\x7d']
  | (name, value) :: rest => ',' :: renderString name ++ ':' :: render value ++ renderMembers rest

end

end Json
end BlockMarkup
