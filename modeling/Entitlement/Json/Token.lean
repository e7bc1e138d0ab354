import Entitlement.Json.Escape
import Entitlement.Json.Numeral
/-!
The words of a JSON text. A text is cut into them from the left, up to the first place where no
word begins.
-/

namespace Entitlement.Json

inductive Token where
  | openArray
  | closeArray
  | openObject
  | closeObject
  | comma
  | colon
  | null
  | bool (value : Bool)
  | number (numeral : Numeral)
  -- what stands between the quotes
  | string (body : List Char)
  -- the end of what can be cut into words
  | broken
deriving DecidableEq, Repr

namespace Token

def text : Token → List Char
  | openArray => ['[']
  | closeArray => [']']
  | openObject => ['{']
  | closeObject => ['}']
  | comma => [',']
  | colon => [':']
  | null => ['n', 'u', 'l', 'l']
  | bool true => ['t', 'r', 'u', 'e']
  | bool false => ['f', 'a', 'l', 's', 'e']
  | number numeral => numeral.text
  | string body => '"' :: body ++ ['"']
  | broken => []

def read : List Char → Token
  | '[' :: _ => openArray
  | ']' :: _ => closeArray
  | '{' :: _ => openObject
  | '}' :: _ => closeObject
  | ',' :: _ => comma
  | ':' :: _ => colon
  | 'n' :: 'u' :: 'l' :: 'l' :: _ => null
  | 't' :: 'r' :: 'u' :: 'e' :: _ => bool true
  | 'f' :: 'a' :: 'l' :: 's' :: 'e' :: _ => bool false
  | '"' :: cs => (Escape.body? cs).elim broken string
  | cs => (Numeral.read? cs).elim broken number

def isBlank (c : Char) : Bool :=
  c = ' ' || c = '\t' || c = '\n' || c = '\r'

-- `left` characters still belong to the word that was read last.
def cut : (left : Nat) → List Char → List Token
  | _, [] => []
  | left + 1, _ :: cs => cut left cs
  | 0, c :: cs =>
    if isBlank c then cut 0 cs
    else match read (c :: cs) with
      | broken => [broken]
      | token => token :: cut (token.text.length - 1) cs

def ofText (text : List Char) : List Token :=
  cut 0 text

end Token
end Entitlement.Json
