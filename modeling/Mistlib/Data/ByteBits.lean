import Mistlib.Data.BitString
import Mistlib.Types

/-!
# Byte strings as bit strings

The bits of a byte string, and the bytes of a text of symbols that stand for words of a few bits.
-/

namespace Mistlib

open BitString

def byteBits (data : Bytes) : List Bool := data.flatMap fun byte => bitsOf 8 byte.toNat

theorem byteBits_length (data : Bytes) : (byteBits data).length = 8 * data.length := by
  have h := length_flatMap_bitsOf 8 (data.map UInt8.toNat)
  rwa [List.flatMap_map, List.length_map] at h

theorem byteBits_injective {data data' : Bytes} (h : byteBits data = byteBits data') : data = data' := by
  have hcut : ∀ data : Bytes, (groups 8 (byteBits data)).map (fun word => UInt8.ofNat (valueOf word)) = data := by
    intro data
    have hgroups := groups_flatMap (k := 8) (by decide) (fun byte : UInt8 => length_bitsOf 8 byte.toNat) data
      (show ([] : List Bool).length < 8 by decide)
    rw [List.append_nil] at hgroups
    have hbyte : (fun word => UInt8.ofNat (valueOf word)) ∘ (fun byte : UInt8 => bitsOf 8 byte.toNat) = id := by
      funext byte
      rw [Function.comp_apply, valueOf_bitsOf, Nat.mod_eq_of_lt byte.toNat_lt, UInt8.ofNat_toNat]
      rfl
    rw [byteBits, hgroups, List.map_map, hbyte, List.map_id]
  rw [← hcut data, h, hcut data']

theorem utf8_ofList (chars : List Char) :
    utf8 (String.ofList chars) = chars.flatMap String.utf8EncodeChar := by
  rw [utf8, String.toUTF8_eq_toByteArray, String.toByteArray_ofList, List.utf8Encode]
  simp

theorem utf8_append (s t : String) : utf8 (s ++ t) = utf8 s ++ utf8 t := by
  rw [utf8, utf8, utf8, String.toUTF8_eq_toByteArray, String.toByteArray_append]
  simp

theorem utf8_injective {s t : String} (h : utf8 s = utf8 t) : s = t := by
  have hs := fromUtf8_utf8 s
  rw [h, fromUtf8_utf8] at hs
  exact (Option.some.inj hs).symm

end Mistlib
