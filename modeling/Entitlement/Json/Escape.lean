import Entitlement.Text.Hex
/-!
Strings as they are written in JSON, between their quotes: `body?` finds the end of one, `decode?`
is the text that it stands for and `encode` writes a text.
-/

namespace Entitlement.Json.Escape

open Text (hexDigit hexValue?)

def hexUnit? (a b c d : Char) : Option Nat := do
  return (((← hexValue? a) * 16 + (← hexValue? b)) * 16 + (← hexValue? c)) * 16 + (← hexValue? d)

def simple? : Char → Option Char
  | '"' => some '"'
  | '\\' => some '\\'
  | '/' => some '/'
  | 'b' => some '\x08'
  | 'f' => some '\x0c'
  | 'n' => some '\n'
  | 'r' => some '\r'
  | 't' => some '\t'
  | _ => none

-- What stands before the closing quote. The form of the escapes is checked, but not that they
-- denote characters.
def body? (cs : List Char) : Option (List Char) :=
  go [] cs
where
  go (read : List Char) : List Char → Option (List Char)
    | [] => none
    | '"' :: _ => some read.reverse
    | '\\' :: 'u' :: a :: b :: c :: d :: rest =>
      if (hexUnit? a b c d).isSome then go (d :: c :: b :: a :: 'u' :: '\\' :: read) rest else none
    | '\\' :: e :: rest => if (simple? e).isSome then go (e :: '\\' :: read) rest else none
    | c :: rest => if c < ' ' || c = '\\' then none else go (c :: read) rest

def isHighSurrogate (n : Nat) : Bool :=
  0xD800 ≤ n && n < 0xDC00

def isLowSurrogate (n : Nat) : Bool :=
  0xDC00 ≤ n && n < 0xE000

-- Two units beyond the first plane denote one character; a unit of such a pair alone denotes none.
def decode? (body : List Char) : Option (List Char) :=
  go [] body
where
  go (decoded : List Char) : List Char → Option (List Char)
    | [] => some decoded.reverse
    | '\\' :: 'u' :: a :: b :: c :: d :: rest =>
      match hexUnit? a b c d with
      | none => none
      | some unit =>
        if isHighSurrogate unit then
          match rest with
          | '\\' :: 'u' :: a' :: b' :: c' :: d' :: rest' =>
            match hexUnit? a' b' c' d' with
            | none => none
            | some low =>
              if isLowSurrogate low then
                go (Char.ofNat (0x10000 + (unit - 0xD800) * 0x400 + (low - 0xDC00)) :: decoded) rest'
              else none
          | _ => none
        else if isLowSurrogate unit then none
        else go (Char.ofNat unit :: decoded) rest
    | '\\' :: e :: rest =>
      match simple? e with
      | some c => go (c :: decoded) rest
      | none => none
    | c :: rest => go (c :: decoded) rest

def encodeChar (c : Char) : List Char :=
  if c = '"' then ['\\', '"']
  else if c = '\\' then ['\\', '\\']
  else if c = '\x08' then ['\\', 'b']
  else if c = '\x0c' then ['\\', 'f']
  else if c = '\n' then ['\\', 'n']
  else if c = '\r' then ['\\', 'r']
  else if c = '\t' then ['\\', 't']
  else if c < ' ' then ['\\', 'u', '0', '0', hexDigit (c.toNat / 16), hexDigit (c.toNat % 16)]
  else [c]

def encode (text : List Char) : List Char :=
  text.flatMap encodeChar

end Entitlement.Json.Escape
