import Entitlement.Json.Token
/-!
A JSON text as a tree of its words. Nothing is interpreted yet: numbers and strings are as they are
written, and objects keep all their members in order. Where a text breaks off or goes wrong, its
tree holds what was complete by then (`Parsed`).
-/

namespace Entitlement.Json

inductive Raw where
  | null
  | bool (value : Bool)
  | number (numeral : Numeral)
  | string (body : List Char)
  | array (items : List Raw)
  | object (members : List (List Char × Raw))

structure Parsed where
  tree : Raw
  -- whether the tree stands for the whole text
  complete : Bool

namespace Raw

-- An open container around the place of reading, with what it already holds, last things first.
inductive Frame where
  | array (items : List Raw)
  | object (members : List (List Char × Raw))
  -- an object in which the value of a name is due
  | member (members : List (List Char × Raw)) (name : List Char)

def Frame.close : Frame → Option Raw → Raw
  | .array items, value => .array (items.reverse ++ value.toList)
  | .object members, _ => .object members.reverse
  | .member members name, value => .object (members.reverse ++ (value.map (name, ·)).toList)

def breakOff (value : Option Raw) (stack : List Frame) : Parsed where
  tree := (stack.foldl (fun value frame => some (frame.close value)) value).getD .null
  complete := false

def ofToken? : Token → Option Raw
  | .null => some .null
  | .bool value => some (.bool value)
  | .number numeral => some (.number numeral)
  | .string body => some (.string body)
  | _ => none

mutual

-- A value is due.
def value (stack : List Frame) : List Token → Parsed
  | [] => breakOff none stack
  | .openArray :: rest => item (.array [] :: stack) stack rest
  | .openObject :: rest => member stack rest
  | token :: rest =>
    match ofToken? token with
    | some tree => after tree stack rest
    | none => breakOff none stack

-- An array was opened. It may be closed at once, which leads back to the `outer` containers.
def item (stack outer : List Frame) : List Token → Parsed
  | [] => breakOff none stack
  | .closeArray :: rest => after (.array []) outer rest
  | .openArray :: rest => item (.array [] :: stack) stack rest
  | .openObject :: rest => member stack rest
  | token :: rest =>
    match ofToken? token with
    | some tree => after tree stack rest
    | none => breakOff none stack

-- An object was opened.
def member (outer : List Frame) : List Token → Parsed
  | .closeObject :: rest => after (.object []) outer rest
  | .string name :: rest => colon [] name outer rest
  | _ => breakOff none (.object [] :: outer)

-- A comma was read in an object.
def nextMember (members : List (List Char × Raw)) (outer : List Frame) : List Token → Parsed
  | .string name :: rest => colon members name outer rest
  | _ => breakOff none (.object members :: outer)

def colon (members : List (List Char × Raw)) (name : List Char) (outer : List Frame) :
    List Token → Parsed
  | .colon :: rest => value (.member members name :: outer) rest
  | _ => breakOff none (.object members :: outer)

-- A value was read and goes to the innermost container.
def after (tree : Raw) : List Frame → List Token → Parsed
  | [], [] => ⟨tree, true⟩
  | .array items :: outer, .comma :: rest => value (.array (tree :: items) :: outer) rest
  | .array items :: outer, .closeArray :: rest => after (.array (tree :: items).reverse) outer rest
  | .member members name :: outer, .comma :: rest => nextMember ((name, tree) :: members) outer rest
  | .member members name :: outer, .closeObject :: rest =>
    after (.object ((name, tree) :: members).reverse) outer rest
  | stack, _ => breakOff (some tree) stack

end

def parse (text : List Char) : Parsed :=
  value [] (Token.ofText text)

-- The tree of a text that is all in order.
def parse? (text : List Char) : Option Raw :=
  let parsed := parse text
  if parsed.complete then some parsed.tree else none

mutual

def tokens : Raw → List Token
  | null => [.null]
  | bool value => [.bool value]
  | number numeral => [.number numeral]
  | string body => [.string body]
  | array [] => [.openArray, .closeArray]
  | array (first :: rest) => .openArray :: tokens first ++ itemTokens rest ++ [.closeArray]
  | object [] => [.openObject, .closeObject]
  | object ((name, first) :: rest) =>
    .openObject :: .string name :: .colon :: tokens first ++ memberTokens rest ++ [.closeObject]

def itemTokens : List Raw → List Token
  | [] => []
  | first :: rest => .comma :: tokens first ++ itemTokens rest

def memberTokens : List (List Char × Raw) → List Token
  | [] => []
  | (name, first) :: rest => .comma :: .string name :: .colon :: tokens first ++ memberTokens rest

end

-- Written without blanks.
def compact (tree : Raw) : List Char :=
  tree.tokens.flatMap Token.text

def newline (depth : Nat) : List Char :=
  '\n' :: List.replicate (2 * depth) ' '

def prettyName (name : List Char) : List Char :=
  (Token.string name).text ++ [':', ' ']

mutual

-- Written with one item or member on a line, each container two spaces further in than its own.
def pretty (depth : Nat) : Raw → List Char
  | array (first :: rest) =>
    '[' :: newline (depth + 1) ++ pretty (depth + 1) first ++ prettyItems (depth + 1) rest ++
      newline depth ++ [']']
  | object ((name, first) :: rest) =>
    '{' :: newline (depth + 1) ++ prettyName name ++ pretty (depth + 1) first ++
      prettyMembers (depth + 1) rest ++ newline depth ++ ['}']
  | tree => tree.compact

def prettyItems (depth : Nat) : List Raw → List Char
  | [] => []
  | first :: rest => ',' :: newline depth ++ pretty depth first ++ prettyItems depth rest

def prettyMembers (depth : Nat) : List (List Char × Raw) → List Char
  | [] => []
  | (name, first) :: rest =>
    ',' :: newline depth ++ prettyName name ++ pretty depth first ++ prettyMembers depth rest

end

end Raw
end Entitlement.Json
