import Entitlement.Json.Raw
import Entitlement.Proofs.Json.Token
import Mathlib.Data.List.Chain
/-!
A tree is read back from its written form. The words of a tree lead the reader from the point where
a value is due to the point where that tree was read, and they are cut apart as they were written.
-/

namespace Entitlement.Json.Raw

open Numeral (Ends)

mutual

-- The trees that are written for values.
def Writable : Raw → Prop
  | null | bool _ => True
  | number numeral => numeral.WellFormed
  | string body => ∃ text, body = Escape.encode text
  | array items => ItemsWritable items
  | object members => MembersWritable members

def ItemsWritable : List Raw → Prop
  | [] => True
  | first :: rest => Writable first ∧ ItemsWritable rest

def MembersWritable : List (List Char × Raw) → Prop
  | [] => True
  | (name, first) :: rest =>
    (∃ text, name = Escape.encode text) ∧ Writable first ∧ MembersWritable rest

end

-- Words one after another, with any blanks between and around them.
inductive Layout : List Token → List Char → Prop where
  | nil : Layout [] []
  | blank {c words text} (hc : Token.isBlank c) (h : Layout words text) : Layout words (c :: text)
  | word {word words text} (h : Layout words text) : Layout (word :: words) (word.text ++ text)

namespace Layout

variable {words more : List Token} {text after : List Char}

theorem blanks (h : ∀ c ∈ text, Token.isBlank c) : Layout [] text := by
  induction text
  case nil => exact .nil
  case cons c text hi =>
    have ⟨hc, ht⟩ := List.forall_mem_cons.mp h
    exact .blank hc (hi ht)

theorem single (word : Token) : Layout [word] word.text := by
  have h : Layout [word] (word.text ++ []) := .word .nil
  rwa [List.append_nil] at h

theorem append (h : Layout words text) (ha : Layout more after) :
    Layout (words ++ more) (text ++ after) := by
  induction h
  case nil => exact ha
  case blank hc _ hi => exact .blank hc hi
  case word hi =>
    rw [List.append_assoc]
    exact .word hi

theorem newline (h : Layout words text) (depth : Nat) :
    Layout words (text ++ Raw.newline depth) := by
  have hb : ∀ c ∈ Raw.newline depth, Token.isBlank c := by
    intro c hc
    cases hc
    case head => rfl
    case tail hc => exact List.eq_of_mem_replicate hc ▸ rfl
  have hn := h.append (blanks hb)
  rwa [List.append_nil] at hn

-- Words that are written without blanks.
theorem flatMap_text (words : List Token) : Layout words (words.flatMap Token.text) := by
  induction words
  case nil => exact .nil
  case cons word words hi => exact .word hi

-- What may follow a word may follow it after blanks too.
theorem followedBy {word : Token} (h : Layout words text)
    (hw : ∀ next ∈ words.head?, next.Writable ∧ word.FollowedBy next.text) :
    word.FollowedBy text := by
  cases h
  case nil => exact fun _ _ => nofun
  case blank c _ hc _ =>
    rintro _ _ _ ⟨⟩
    simp only [Token.isBlank, Bool.or_eq_true, decide_eq_true_eq] at hc
    rcases hc with ((rfl | rfl) | rfl) | rfl <;> decide
  case word next _ _ _ =>
    obtain ⟨hn, hf⟩ := hw next rfl
    obtain ⟨c, cs, hc, _⟩ := Token.exists_text_eq_cons hn
    rw [hc] at hf ⊢
    exact hf

end Layout

-- Words that can be cut apart again, with blanks between them or without.
structure Legible (words : List Token) : Prop where
  writable : ∀ word ∈ words, word.Writable
  apart : words.IsChain fun word next => word.FollowedBy next.text

namespace Legible

variable {word : Token} {words more : List Token} {text : List Char}

theorem nil : Legible [] where
  writable _ := nofun
  apart := .nil

theorem single (hw : word.Writable) : Legible [word] where
  writable := List.forall_mem_singleton.mpr hw
  apart := .singleton word

-- What is no number may be followed by anything.
theorem mark (hw : word.Writable) (hn : ∀ numeral, word ≠ .number numeral) (h : Legible words) :
    Legible (word :: words) where
  writable := List.forall_mem_cons.mpr ⟨hw, h.writable⟩
  apart := List.isChain_cons.mpr ⟨fun _ _ numeral he => absurd he (hn numeral), h.apart⟩

theorem string (content : List Char) (h : Legible words) :
    Legible (.string (Escape.encode content) :: words) :=
  mark ⟨content, rfl⟩ nofun h

theorem comma (h : Legible words) : Legible (.comma :: words) :=
  mark trivial nofun h

theorem colon (h : Legible words) : Legible (.colon :: words) :=
  mark trivial nofun h

theorem append (h : Legible words) (hm : Legible more)
    (he : ∀ next ∈ more.head?, Ends next.text) : Legible (words ++ more) where
  writable := List.forall_mem_append.mpr ⟨h.writable, hm.writable⟩
  apart := List.isChain_append.mpr ⟨h.apart, hm.apart, fun _ _ next hn _ _ => he next hn⟩

theorem ofText (h : Legible words) (hl : Layout words text) : Token.ofText text = words := by
  induction hl
  case nil => rfl
  case blank hc _ hi => exact (if_pos hc).trans (hi h)
  case word word words text hl hi =>
    have ⟨hw, hr⟩ := List.forall_mem_cons.mp h.writable
    have ⟨hn, ha⟩ := List.isChain_cons.mp h.apart
    have hf : word.FollowedBy text := hl.followedBy fun next hm =>
      ⟨hr next (List.mem_of_mem_head? hm), hn next hm⟩
    rw [Token.ofText, Token.cut_append hw hf]
    exact congrArg _ (hi ⟨hr, ha⟩)

end Legible

theorem ends_comma : Ends (Token.text .comma) := by
  rintro _ ⟨⟩
  decide

theorem ends_close {last : Token} (h : last = .closeArray ∨ last = .closeObject) :
    ∀ next ∈ [last].head?, Ends next.text := by
  rcases h with rfl | rfl <;> rintro _ ⟨⟩ _ ⟨⟩ <;> decide

theorem ends_itemTokens (items : List Raw) : ∀ next ∈ (itemTokens items).head?, Ends next.text := by
  match items with
  | [] => exact nofun
  | _ :: _ =>
    rintro _ ⟨⟩
    exact ends_comma

theorem ends_memberTokens (members : List (List Char × Raw)) :
    ∀ next ∈ (memberTokens members).head?, Ends next.text := by
  match members with
  | [] => exact nofun
  | (_, _) :: _ =>
    rintro _ ⟨⟩
    exact ends_comma

mutual

theorem legible_tokens {tree : Raw} (hw : tree.Writable) : Legible tree.tokens := by
  match tree with
  | null | bool true | bool false => exact .single trivial
  | number _ | string _ => exact .single hw
  | array [] | object [] => exact .mark trivial nofun (.single trivial)
  | array (first :: items) =>
    have hf : Legible (.openArray :: tokens first) := .mark trivial nofun (legible_tokens hw.1)
    have hi := legible_itemTokens hw.2
    exact (hf.append hi (ends_itemTokens items)).append (.single trivial) (ends_close (.inl rfl))
  | object ((_, first) :: members) =>
    have ⟨⟨content, hn⟩, hf, hm⟩ := hw
    have hf := Legible.mark (show Token.Writable .openObject from trivial) nofun
      (.string content (.colon (legible_tokens hf)))
    have hm := legible_memberTokens hm
    rw [tokens, hn]
    exact (hf.append hm (ends_memberTokens members)).append (.single trivial)
      (ends_close (.inr rfl))

theorem legible_itemTokens {items : List Raw} (hw : ItemsWritable items) :
    Legible (itemTokens items) := by
  match items with
  | [] => exact .nil
  | first :: items =>
    have hf := Legible.comma (legible_tokens hw.1)
    exact hf.append (legible_itemTokens hw.2) (ends_itemTokens items)

theorem legible_memberTokens {members : List (List Char × Raw)} (hw : MembersWritable members) :
    Legible (memberTokens members) := by
  match members with
  | [] => exact .nil
  | (_, first) :: members =>
    have ⟨⟨content, hn⟩, hf, hm⟩ := hw
    have hf := Legible.string content (.colon (legible_tokens hf))
    rw [memberTokens, hn]
    exact (Legible.comma hf).append (legible_memberTokens hm) (ends_memberTokens members)

end

theorem layout_compact (tree : Raw) : Layout tree.tokens tree.compact :=
  .flatMap_text tree.tokens

theorem layout_prettyName (name : List Char) :
    Layout [.string name, .colon] (prettyName name) := by
  have hs : ∀ c ∈ [' '], Token.isBlank c := List.forall_mem_singleton.mpr rfl
  have hc : Layout [.colon] [':', ' '] := (Layout.single .colon).append (.blanks hs)
  exact .append (.single _) hc

mutual

theorem layout_pretty (depth : Nat) (tree : Raw) : Layout tree.tokens (tree.pretty depth) := by
  match tree with
  | null | bool true | bool false | number _ | string _ | array [] | object [] =>
    exact layout_compact _
  | array (first :: items) =>
    have ho := (Layout.single .openArray).newline (depth + 1)
    have hf := ho.append (layout_pretty (depth + 1) first)
    have hi := hf.append (layout_prettyItems (depth + 1) items)
    exact (hi.newline depth).append (.single .closeArray)
  | object ((name, first) :: members) =>
    have ho := (Layout.single .openObject).newline (depth + 1)
    have hn := ho.append (layout_prettyName name)
    have hf := hn.append (layout_pretty (depth + 1) first)
    have hm := hf.append (layout_prettyMembers (depth + 1) members)
    exact (hm.newline depth).append (.single .closeObject)

theorem layout_prettyItems (depth : Nat) (items : List Raw) :
    Layout (itemTokens items) (prettyItems depth items) := by
  match items with
  | [] => exact .nil
  | first :: items =>
    have hf := ((Layout.single .comma).newline depth).append (layout_pretty depth first)
    exact hf.append (layout_prettyItems depth items)

theorem layout_prettyMembers (depth : Nat) (members : List (List Char × Raw)) :
    Layout (memberTokens members) (prettyMembers depth members) := by
  match members with
  | [] => exact .nil
  | (name, first) :: members =>
    have hn := ((Layout.single .comma).newline depth).append (layout_prettyName name)
    have hf := hn.append (layout_pretty depth first)
    exact hf.append (layout_prettyMembers depth members)

end

-- The words of a tree never begin with the end of an array.
theorem exists_tokens_eq_cons (tree : Raw) :
    ∃ first rest, tree.tokens = first :: rest ∧ first ≠ .closeArray := by
  match tree with
  | null | bool _ | number _ | string _ | array [] | object [] => exact ⟨_, _, rfl, nofun⟩
  | array (_ :: _) | object ((_, _) :: _) => exact ⟨_, _, rfl, nofun⟩

theorem item_eq_value (h : first ≠ .closeArray) (stack : List Frame) (rest : List Token) :
    item (.array [] :: stack) stack (first :: rest) = value (.array [] :: stack) (first :: rest) := by
  cases first
  case closeArray => exact absurd rfl h
  all_goals rfl

mutual

theorem value_tokens (tree : Raw) (stack : List Frame) (rest : List Token) :
    value stack (tree.tokens ++ rest) = after tree stack rest := by
  match tree with
  | null | bool true | bool false | number _ | string _ => rfl
  | array [] => rfl
  | object [] => rfl
  | array (first :: items) =>
    have ⟨word, words, hw, hn⟩ := exists_tokens_eq_cons first
    have hv := value_tokens first (.array [] :: stack) (itemTokens items ++ .closeArray :: rest)
    rw [hw, List.cons_append, ← item_eq_value hn, ← List.cons_append, ← hw,
      after_itemTokens] at hv
    simpa [tokens, value] using hv
  | object ((name, first) :: members) =>
    have hv := value_tokens first (.member [] name :: stack)
      (memberTokens members ++ .closeObject :: rest)
    rw [after_memberTokens] at hv
    simpa [tokens, value, member, colon] using hv

theorem after_itemTokens (tree : Raw) (read items : List Raw) (outer : List Frame)
    (rest : List Token) :
    after tree (.array read :: outer) (itemTokens items ++ .closeArray :: rest) =
      after (.array (read.reverse ++ tree :: items)) outer rest := by
  match items with
  | [] => simp [itemTokens, after]
  | first :: items =>
    have hv := value_tokens first (.array (tree :: read) :: outer)
      (itemTokens items ++ .closeArray :: rest)
    rw [after_itemTokens] at hv
    simpa [itemTokens, after] using hv

theorem after_memberTokens (tree : Raw) (name : List Char) (read members : List (List Char × Raw))
    (outer : List Frame) (rest : List Token) :
    after tree (.member read name :: outer) (memberTokens members ++ .closeObject :: rest) =
      after (.object (read.reverse ++ (name, tree) :: members)) outer rest := by
  match members with
  | [] => simp [memberTokens, after]
  | (next, first) :: members =>
    have hv := value_tokens first (.member ((name, tree) :: read) next :: outer)
      (memberTokens members ++ .closeObject :: rest)
    rw [after_memberTokens] at hv
    simpa [memberTokens, after, nextMember, colon] using hv

end

-- A text is read as the tree whose words it consists of.
theorem parse_of_layout {tree : Raw} (h : tree.Writable) (hl : Layout tree.tokens text) :
    parse text = ⟨tree, true⟩ := by
  have hv := value_tokens tree [] []
  rw [List.append_nil] at hv
  rw [parse, (legible_tokens h).ofText hl, hv]
  rfl

theorem parse?_compact {tree : Raw} (h : tree.Writable) : parse? tree.compact = some tree := by
  rw [parse?, parse_of_layout h (layout_compact tree)]
  rfl

end Entitlement.Json.Raw
