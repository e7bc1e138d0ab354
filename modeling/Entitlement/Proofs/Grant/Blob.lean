import Entitlement.Grant.Blob
import Entitlement.Proofs.Base64
import Entitlement.Proofs.Grant.Row
import Entitlement.Proofs.Text.Blank
import Entitlement.Proofs.Text.Bytes
import Entitlement.Proofs.Zlib.Stored
/-!
A list of grants is read back from the text that is made of it, with any blanks around it.
-/

namespace Entitlement

open Json (Raw)

namespace Blob

variable {before after : List Char}

theorem writable_toRaw (grants : List Grant) : (toRaw grants).Writable := by
  apply Raw.itemsWritable_iff.mpr
  intro tree ht
  have ⟨grant, _, hg⟩ := List.mem_map.mp ht
  exact hg ▸ grant.writable_toRaw

theorem ofRows?_rows (grants : List Grant) : ofRows? (rows grants).toUTF8 = some grants := by
  have hp : Raw.parse? (rows grants).toList = some (toRaw grants) := by
    rw [rows, String.toList_ofList, Raw.parse?_compact (writable_toRaw grants)]
  simp only [ofRows?, Text.fromUTF8?_toUTF8, hp, Option.bind_eq_bind, Option.bind_some]
  exact Raw.list?_map Grant.ofRaw?_toRaw grants

theorem decode_append (hs : Zlib.Stream (compress (rows grants).toUTF8) (rows grants).toUTF8)
    (hb : ∀ c ∈ before, Text.isBlank c) (ha : ∀ c ∈ after, Text.isBlank c) :
    decode (String.ofList (before ++ ((encodeWith compress grants).toList ++ after))) =
      .ok grants := by
  rw [encodeWith, String.toList_ofList, decode, String.toList_ofList,
    Text.trimmed_append hb (Base64.encode_not_blank _) ha, Base64.decode?_encode]
  simp only [hs.decompress?, ofRows?_rows]

theorem decode_encode (grants : List Grant) : decode (encode grants) = .ok grants := by
  have h : decode (String.ofList ([] ++ ((encode grants).toList ++ []))) = .ok grants :=
    decode_append (Zlib.stream_compress _) (List.forall_mem_nil _) (List.forall_mem_nil _)
  rwa [List.append_nil, List.nil_append, String.ofList_toList] at h

-- However a list is compressed, it is read back, and no blank around the text matters.
theorem decode_encodeWith_between_blanks (hc : ∀ bytes, Zlib.Stream (compress bytes) bytes)
    (hb : ∀ c ∈ before, Text.isBlank c) (ha : ∀ c ∈ after, Text.isBlank c) (grants : List Grant) :
    decode (String.ofList (before ++ ((encodeWith compress grants).toList ++ after))) =
      .ok grants :=
  decode_append (hc _) hb ha

def repetitive : Grant where
  id := 1
  objectId := 1
  objectType := "a"
  definition := "a"
  path := "a"
  level := 1
  action := "a"

def repetitiveStream : List UInt8 :=
  [0x78, 0x9c, 0x8b, 0x8e, 0x36, 0xd4, 0x31, 0xd4, 0x51, 0x4a, 0x54, 0x82, 0x63, 0x30, 0x2f, 0x36,
    0x16, 0x00, 0x48, 0x74, 0x05, 0xa0]

def repetitiveStart : ByteArray :=
  ⟨#[0x5b, 0x5b, 0x31, 0x2c, 0x31, 0x2c, 0x22, 0x61, 0x22]⟩

open Zlib.Format in
-- The first copy goes on in the bytes that it makes, the second one takes bytes of the first.
theorem symbols_repetitive : ∃ bits, Symbols fixedWidths bits .empty (rows [repetitive]).toUTF8 ∧
    Zlib.bitsOf ((repetitiveStream.drop 2).take 16) =
      true :: (Zlib.field 2 1 ++ bits) ++ List.replicate 4 false := by
  have hr : (rows [repetitive]).toUTF8 =
      Zlib.repeatBack 14 5 (Zlib.repeatBack 4 9 repetitiveStart) ++ ⟨#[0x5d, 0x5d]⟩ := by
    decide +kernel
  rw [hr]
  have h₁ : Symbols fixedWidths _ (Zlib.repeatBack 14 5 (Zlib.repeatBack 4 9 repetitiveStart)) _ :=
    symbols_bytes [0x5d, 0x5d] (by decide +kernel) (.stop spells_fixed_stop)
  have h₂ := Symbols.copy (spells_fixed_length (by decide : 2 < 23))
    ⟨5, 0, 0, rfl, by decide, rfl, rfl⟩ (spells_fixed_distance (by decide : 7 < 32))
    ⟨13, 2, 1, rfl, by decide, rfl, rfl⟩ (by decide +kernel) h₁
  have h₃ := Symbols.copy (spells_fixed_length (by decide : 6 < 23))
    ⟨9, 0, 0, rfl, by decide, rfl, rfl⟩ (spells_fixed_distance (by decide : 3 < 32))
    ⟨4, 0, 0, rfl, by decide, rfl, rfl⟩ (by decide +kernel) h₂
  have h₄ := @symbols_bytes _ .empty _ repetitiveStart.data.toList (by decide +kernel) h₃
  exact ⟨_, h₄, by decide +kernel⟩

theorem stream_repetitive : Zlib.Stream repetitiveStream (rows [repetitive]).toUTF8 where
  made := by
    have ⟨bits, hs, hb⟩ := symbols_repetitive
    exact ⟨0x78, 0x9c, _, _, _, by decide +kernel, by decide, hb, by decide, .last (.fixed hs)⟩

-- Copies where it can, and stored blocks for everything else.
def compressRepetitive (bytes : ByteArray) : List UInt8 :=
  if bytes.data = (rows [repetitive]).toUTF8.data then repetitiveStream else Zlib.compress bytes

theorem stream_compressRepetitive (bytes : ByteArray) :
    Zlib.Stream (compressRepetitive bytes) bytes := by
  rw [compressRepetitive]
  split
  case isTrue h => exact ByteArray.ext h ▸ stream_repetitive
  case isFalse => exact Zlib.stream_compress bytes

theorem decode_copies_between_blanks :
    encodeWith compressRepetitive [repetitive] = "eJyLjjbUMdRRSlSCYzAvNhYASHQFoA==" ∧
      (∀ c ∈ ['\u2003', '\n'], Text.isBlank c) ∧ (∀ c ∈ ['\t'], Text.isBlank c) ∧
      decode (String.ofList (['\u2003', '\n'] ++
        ((encodeWith compressRepetitive [repetitive]).toList ++ ['\t']))) = .ok [repetitive] := by
  have hb : ∀ c ∈ ['\u2003', '\n'], Text.isBlank c :=
    List.forall_mem_cons.mpr ⟨rfl, List.forall_mem_singleton.mpr rfl⟩
  have ha : ∀ c ∈ ['\t'], Text.isBlank c := List.forall_mem_singleton.mpr rfl
  exact ⟨by decide +kernel, hb, ha,
    decode_encodeWith_between_blanks stream_compressRepetitive hb ha [repetitive]⟩

end Blob
end Entitlement
