import BlockMarkup.Style.Line
import BlockMarkup.Text.Lines

namespace BlockMarkup.Style

-- The rule that declarations go to. In a block, a part that has been opened is remembered with its
-- indentation, so that a pseudo-class indented under it belongs to the part.
inductive Context where
  | block (blockType : Text) (label : Option Text) (target : Text) (opened : Option (Nat × Text))
  | raw (selector target : Text)
deriving DecidableEq

namespace Context

def ofSelector (blockType : Text) (suffix : Option Text) : Context :=
  let (label, target) := suffixScope suffix
  .block blockType label target none

def ofRaw (selector : Text) : Context := .raw selector selector

def address : Context → Address
  | .block blockType label target _ => ⟨blockType, target, label⟩
  | .raw _ target => ⟨rawType, target, none⟩

def pseudoOwner (indent : Nat) : Option (Nat × Text) → Text
  | some (partIndent, name) => if partIndent < indent then name else selfTarget
  | none => selfTarget

-- The context below a nested selector. Under a kept selector it extends that selector; in a block
-- it names another target of the block.
def enter (indent : Nat) (selector : Text) : Context → Context
  | .raw base _ =>
    if selector.head? = some ':' then .raw base (base ++ selector)
    else .raw base (base ++ ' ' :: selector)
  | .block blockType label target opened =>
    match selector with
    | '>' :: rest => .block blockType label ('>' :: trimStart rest) none
    | ':' :: pseudo => .block blockType label (pseudoOwner indent opened ++ ':' :: pseudo) opened
    | '.' :: name =>
      .block blockType label name (if name.contains ':' then none else some (indent, name))
    | _ => .block blockType label target opened

end Context

def compactDeclarations (declarations : Text) : List (Text × Text) :=
  (declarations.splitOn ';').filterMap fun declaration =>
    match splitAtFirst? ':' declaration with
    | none => none
    | some (property, value) =>
      if trim property = [] || trim value = [] then none else some (trim property, trim value)

structure Reading where
  graph : Graph
  context : Option Context
deriving DecidableEq

namespace Reading

def start : Reading := ⟨.empty, none⟩

def read (reading : Reading) : StyleLine → Reading
  | .skipped | .unknown => reading
  | .block blockType suffix => { reading with context := some (.ofSelector blockType suffix) }
  | .variable name value => ⟨reading.graph.setVariable name value, none⟩
  | .compact selector declarations =>
    let address := (compactAddress? selector).getD ⟨rawType, selector, none⟩
    ⟨(compactDeclarations declarations).foldl
        (fun graph declaration => graph.setProperty address declaration.1 declaration.2)
        reading.graph,
      none⟩
  | .raw selector => { reading with context := some (.ofRaw selector) }
  | .nested indent selector =>
    { reading with context := reading.context.map (Context.enter indent selector) }
  | .declaration property value =>
    match reading.context with
    | none => reading
    | some context =>
      { reading with graph := reading.graph.setProperty context.address property value }

def next (reading : Reading) (line : Text) : Reading := reading.read (.classify line)

end Reading

namespace Graph

def ofLines (lines : List Text) : Graph :=
  (lines.foldl Reading.next .start).graph

def ofBody (body : Text) : Graph := ofLines (splitLines body)

end Graph
end BlockMarkup.Style
