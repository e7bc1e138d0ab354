import Entitlement.Text.CaseTable
/-!
The lowercase form of a text. A capital sigma becomes a final sigma at the end of a word; every
other character is mapped on its own.
-/

namespace Entitlement.Text

-- Whether the nearest character that counts has a case.
def meetsCased (neighbours : List Char) : Bool :=
  match neighbours.dropWhile isIgnorable with
  | c :: _ => isCased c
  | [] => false

-- `before` is what stands to the left, nearest first.
def endsWord (before after : List Char) : Bool :=
  meetsCased before && !meetsCased after

def lowerChars (before : List Char) : List Char → List Char
  | [] => []
  | c :: after =>
    mapped c after ++ lowerChars (c :: before) after
where
  mapped (c : Char) (after : List Char) : List Char :=
    if c = 'Σ' then [if endsWord before after then 'ς' else 'σ']
    else if c = 'İ' then ['i', '\u0307']
    else [lowerChar c]

def lowercase (text : String) : String :=
  String.ofList (lowerChars [] text.toList)

end Entitlement.Text
