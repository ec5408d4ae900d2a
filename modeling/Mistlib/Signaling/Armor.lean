import Mistlib.Data.ByteBits

/-!
# Armored payloads

An encrypted payload travels as base 64 text with the alphabet for URLs and without padding. For
the encoder and for the decoder, the text spells the bits of the bytes in words of six, the last
of them filled up with zeros (`armorChunks_eq`, `unarmor_words`). That is why the decoder gives
back what was encoded and takes no other text for it.
-/

namespace Mistlib.Signaling

open BitString

def BASE64URL : List Char := "ABCDEFGHIJKLMNOPQRSTUVWXYZabcdefghijklmnopqrstuvwxyz0123456789-_".toList

def base64urlChar (n : Nat) : Char := BASE64URL.getD n 'A'

/-- What a chunk of up to three bytes is written as. -/
def armorChunk (chunk : Bytes) : List Char :=
  let b0 := (chunk.getD 0 0).toNat
  let b1 := (chunk.getD 1 0).toNat
  let b2 := (chunk.getD 2 0).toNat
  [base64urlChar (b0 >>> 2), base64urlChar (((b0 &&& 0x03) <<< 4) ||| (b1 >>> 4))] ++
    (if chunk.length ≥ 2 then [base64urlChar (((b1 &&& 0x0f) <<< 2) ||| (b2 >>> 6))] else []) ++
    (if chunk.length = 3 then [base64urlChar (b2 &&& 0x3f)] else [])

def armorChunks : Bytes → List Char
  | [] => []
  | [b0] => armorChunk [b0]
  | [b0, b1] => armorChunk [b0, b1]
  | b0 :: b1 :: b2 :: rest => armorChunk [b0, b1, b2] ++ armorChunks rest

def encodeBase64urlNoPad (input : Bytes) : String := String.ofList (armorChunks input)

def invalidArmor : MistError := .signaling "invalid armored Nostr payload"

def base64urlValue (byte : UInt8) : Except MistError Nat :=
  if 65 ≤ byte ∧ byte ≤ 90 then .ok (byte.toNat - 65)
  else if 97 ≤ byte ∧ byte ≤ 122 then .ok (byte.toNat - 97 + 26)
  else if 48 ≤ byte ∧ byte ≤ 57 then .ok (byte.toNat - 48 + 52)
  else if byte = 45 then .ok 62
  else if byte = 95 then .ok 63
  else .error invalidArmor

/-- Take full bytes off the buffer while it holds that many bits: they, and the buffer
and its bits that stay. -/
def takeBytes (buffer : Nat) : Nat → Bytes × Nat × Nat
  | bits + 8 =>
    let (out, left) := takeBytes (buffer &&& ((1 <<< bits) - 1)) bits
    (UInt8.ofNat ((buffer >>> bits) &&& 0xff) :: out, left)
  | bits => ([], buffer, bits)

/-- The decoder's loop over the symbols. The buffer is a `u32`. -/
def unarmor (buffer bits : Nat) : Bytes → Except MistError (Bytes × Nat × Nat)
  | [] => .ok ([], buffer, bits)
  | byte :: rest =>
    match base64urlValue byte with
    | .error e => .error e
    | .ok value =>
      let (out, left) := takeBytes (((buffer <<< 6) ||| value) % 2 ^ 32) (bits + 6)
      match unarmor left.1 left.2 rest with
      | .error e => .error e
      | .ok (more, left) => .ok (out ++ more, left)

def decodeBase64urlNoPad (value : String) : Except MistError Bytes :=
  let bytes := utf8 value
  if bytes.length % 4 = 1 then .error invalidArmor
  else
    match unarmor 0 0 bytes with
    | .error e => .error e
    | .ok (out, buffer, bits) => if bits > 0 ∧ buffer ≠ 0 then .error invalidArmor else .ok out

/-! ## The encoder writes words of six bits -/

def armorLetter (word : List Bool) : Char := base64urlChar (valueOf word)

variable {n : Nat}

theorem armorLetter_bitsOf (h : n < 64) : armorLetter (bitsOf 6 n) = base64urlChar n := by
  have hmod : n % 2 ^ 6 = n := Nat.mod_eq_of_lt h
  rw [armorLetter, valueOf_bitsOf, hmod]

theorem armorLetter_join (k : Nat) {l b c : Nat} (hkl : k + l = 6) (hc : c < 2 ^ l) :
    armorLetter (bitsOf k b ++ bitsOf l c) = base64urlChar (((b &&& (2 ^ k - 1)) <<< l) ||| c) := by
  have hjoin : bitsOf k b ++ bitsOf l c = bitsOf 6 (((b &&& (2 ^ k - 1)) <<< l) ||| c) := by
    rw [← hkl, bitsOf_push k hc, Nat.and_two_pow_sub_one_eq_mod, bitsOf_mod (Nat.le_refl k)]
  have hhigh : (b &&& (2 ^ k - 1)) <<< l < 2 ^ (k + l) := by
    rw [Nat.and_two_pow_sub_one_eq_mod, Nat.shiftLeft_eq, Nat.pow_add]
    exact Nat.mul_lt_mul_of_pos_right (Nat.mod_lt _ (Nat.two_pow_pos k)) (Nat.two_pow_pos l)
  have hlow : c < 2 ^ (k + l) := Nat.lt_of_lt_of_le hc (Nat.pow_le_pow_right (by decide) (Nat.le_add_left _ _))
  have hlt := Nat.or_lt_two_pow hhigh hlow
  rw [hkl] at hlt
  rw [hjoin, armorLetter_bitsOf hlt]

theorem byte_cut (k l : Nat) (hkl : k + l = 8) (byte : Nat) :
    bitsOf 8 byte = bitsOf k (byte >>> l) ++ bitsOf l byte := by
  rw [← hkl, bitsOf_add]

theorem shift_lt (k l : Nat) (hkl : k + l = 8) (byte : UInt8) : byte.toNat >>> l < 2 ^ k := by
  rw [Nat.shiftRight_eq_div_pow, Nat.div_lt_iff_lt_mul (Nat.two_pow_pos l), ← Nat.pow_add, hkl]
  exact byte.toNat_lt

/-- The words of one chunk, its bits being filled up with zeros. -/
def chunkWords (b0 b1 b2 : Nat) : List (List Bool) :=
  [bitsOf 6 (b0 >>> 2), bitsOf 2 b0 ++ bitsOf 4 (b1 >>> 4), bitsOf 4 b1 ++ bitsOf 2 (b2 >>> 6), bitsOf 6 b2]

theorem chunkWords_letters (b0 b1 b2 : UInt8) :
    (chunkWords b0.toNat b1.toNat b2.toNat).map armorLetter = armorChunk [b0, b1, b2] := by
  have hlast : armorLetter (bitsOf 6 b2.toNat) = base64urlChar (b2.toNat &&& 0x3f) := by
    have hlow : bitsOf 6 b2.toNat = bitsOf 6 (b2.toNat &&& 0x3f) := by
      rw [show (0x3f : Nat) = 2 ^ 6 - 1 from rfl, Nat.and_two_pow_sub_one_eq_mod, bitsOf_mod (Nat.le_refl 6)]
    rw [hlow, armorLetter_bitsOf (Nat.lt_of_le_of_lt Nat.and_le_right (by decide))]
  rw [chunkWords, List.map_cons, List.map_cons, List.map_cons, List.map_cons, List.map_nil,
    armorLetter_bitsOf (shift_lt 6 2 rfl b0), armorLetter_join 2 rfl (shift_lt 4 4 rfl b1),
    armorLetter_join 4 rfl (shift_lt 2 6 rfl b2), hlast]
  rfl

theorem length_of_mem_chunkWords {b0 b1 b2 : Nat} {word : List Bool} (h : word ∈ chunkWords b0 b1 b2) :
    word.length = 6 := by
  simp only [chunkWords, List.mem_cons, List.not_mem_nil, or_false] at h
  obtain rfl | rfl | rfl | rfl := h <;> simp

theorem flatten_chunkWords (b0 b1 b2 : Nat) :
    (chunkWords b0 b1 b2).flatten = bitsOf 8 b0 ++ bitsOf 8 b1 ++ bitsOf 8 b2 := by
  rw [byte_cut 6 2 rfl b0, byte_cut 4 4 rfl b1, byte_cut 2 6 rfl b2]
  simp [chunkWords]

theorem armorChunk_take (b0 b1 : UInt8) :
    ((chunkWords b0.toNat 0 0).take 2).map armorLetter = armorChunk [b0] ∧
      ((chunkWords b0.toNat b1.toNat 0).take 3).map armorLetter = armorChunk [b0, b1] := by
  constructor
  · rw [List.map_take]
    exact congrArg (List.take 2) (chunkWords_letters b0 0 0)
  · rw [List.map_take]
    exact congrArg (List.take 3) (chunkWords_letters b0 b1 0)

theorem groups_take_chunkWords (n b0 b1 b2 : Nat) :
    groups 6 ((chunkWords b0 b1 b2).take n).flatten = (chunkWords b0 b1 b2).take n := by
  have hlength : ∀ word ∈ (chunkWords b0 b1 b2).take n, word.length = 6 := fun word h =>
    length_of_mem_chunkWords (List.mem_of_mem_take h)
  have hnone : groups 6 [] = [] := groups_short (by decide)
  have hwords := groups_flatten (by decide) hlength []
  rwa [hnone, List.append_nil, List.append_nil] at hwords

theorem armorChunks_eq (data : Bytes) :
    armorChunks data = (groups 6 (padded 6 (byteBits data))).map armorLetter := by
  fun_induction armorChunks data with
  | case1 =>
    have hnone : padded 6 (byteBits []) = [] := by simp [byteBits, padded]
    rw [hnone, groups_short (by decide), List.map_nil]
  | case2 b0 =>
    have hwords : padded 6 (byteBits [b0]) = ((chunkWords b0.toNat 0 0).take 2).flatten := by
      rw [byteBits, List.flatMap_singleton, padded, length_bitsOf, byte_cut 6 2 rfl b0.toNat]
      simp [chunkWords, bitsOf]
    rw [hwords, groups_take_chunkWords, (armorChunk_take b0 0).1]
  | case3 b0 b1 =>
    have hwords : padded 6 (byteBits [b0, b1]) = ((chunkWords b0.toNat b1.toNat 0).take 3).flatten := by
      rw [byteBits, List.flatMap_cons, List.flatMap_singleton, padded, List.length_append, length_bitsOf,
        length_bitsOf, byte_cut 6 2 rfl b0.toNat, byte_cut 4 4 rfl b1.toNat]
      simp [chunkWords, bitsOf]
    rw [hwords, groups_take_chunkWords, (armorChunk_take b0 b1).2]
  | case4 b0 b1 b2 rest ih =>
    have hbits : byteBits (b0 :: b1 :: b2 :: rest) =
        (chunkWords b0.toNat b1.toNat b2.toNat).flatten ++ byteBits rest := by
      rw [flatten_chunkWords]
      simp [byteBits]
    rw [hbits, padded_flatten fun word => length_of_mem_chunkWords,
      groups_flatten (by decide) fun word => length_of_mem_chunkWords, List.map_append, chunkWords_letters, ih]

/-! ## The decoder reads words of six bits -/

def symbolCode (n : Nat) : UInt8 := (base64urlChar n).val.toUInt8

theorem base64urlChar_code (h : n < 64) :
    String.utf8EncodeChar (base64urlChar n) = [symbolCode n] ∧ base64urlValue (symbolCode n) = .ok n := by
  have hall : ∀ n < 64, String.utf8EncodeChar (base64urlChar n) = [symbolCode n] ∧
      base64urlValue (symbolCode n) = .ok n := by decide +kernel
  exact hall n h

theorem code_of_base64urlValue {byte : UInt8} (h : base64urlValue byte = .ok n) :
    n < 64 ∧ symbolCode n = byte := by
  have hall : ∀ code < 256, ∀ n ∈ (base64urlValue (UInt8.ofNat code)).toOption,
      n < 64 ∧ symbolCode n = UInt8.ofNat code := by decide +kernel
  have hcode := hall byte.toNat byte.toNat_lt n
  rw [UInt8.ofNat_toNat, h] at hcode
  exact hcode rfl

variable {buffer bits : Nat}

theorem takeBytes_bits (h : buffer < 2 ^ bits) :
    (takeBytes buffer bits).2.2 < 8 ∧ (takeBytes buffer bits).2.1 < 2 ^ (takeBytes buffer bits).2.2 ∧
      bitsOf bits buffer =
        byteBits (takeBytes buffer bits).1 ++ bitsOf (takeBytes buffer bits).2.2 (takeBytes buffer bits).2.1 := by
  fun_induction takeBytes buffer bits with
  | case1 buffer bits out left heq ih =>
    have hmask : buffer &&& ((1 <<< bits) - 1) = buffer % 2 ^ bits := by
      rw [Nat.one_shiftLeft, Nat.and_two_pow_sub_one_eq_mod]
    rw [hmask] at heq ih
    rw [heq] at ih
    obtain ⟨hfew, hsmall, hspell⟩ := ih (Nat.mod_lt _ (Nat.two_pow_pos bits))
    have hbyte : bitsOf 8 (UInt8.ofNat ((buffer >>> bits) &&& 0xff)).toNat = bitsOf 8 (buffer >>> bits) := by
      rw [UInt8.toNat_ofNat', bitsOf_mod (Nat.le_refl 8), show (0xff : Nat) = 2 ^ 8 - 1 from rfl,
        Nat.and_two_pow_sub_one_eq_mod, bitsOf_mod (Nat.le_refl 8)]
    refine ⟨hfew, hsmall, ?_⟩
    show bitsOf (bits + 8) buffer = byteBits (_ :: out) ++ bitsOf left.2 left.1
    rw [Nat.add_comm bits 8, bitsOf_add, ← bitsOf_mod (Nat.le_refl bits) buffer, hspell, ← hbyte,
      ← List.append_assoc]
    rfl
  | case2 buffer bits hshort =>
    have hfew : bits < 8 := by
      by_contra hmany
      exact hshort (bits - 8) (by omega)
    exact ⟨hfew, h, rfl⟩

theorem unarmor_words {values : List Nat} (hvalues : ∀ n ∈ values, n < 64) (hbits : bits < 8)
    (hbuffer : buffer < 2 ^ bits) :
    ∃ out b k, unarmor buffer bits (values.map symbolCode) = .ok (out, b, k) ∧ k < 8 ∧ b < 2 ^ k ∧
      bitsOf bits buffer ++ values.flatMap (bitsOf 6) = byteBits out ++ bitsOf k b := by
  induction values generalizing buffer bits with
  | nil => exact ⟨[], buffer, bits, rfl, hbits, hbuffer, List.append_nil _⟩
  | cons n values ih =>
    obtain ⟨hn, hrest⟩ := List.forall_mem_cons.mp hvalues
    have hn : n < 2 ^ 6 := hn
    have hpushed : (buffer <<< 6) ||| n < 2 ^ (bits + 6) := by
      refine Nat.or_lt_two_pow ?_ (Nat.lt_of_lt_of_le hn (Nat.pow_le_pow_right (by decide) (Nat.le_add_left _ _)))
      rw [Nat.shiftLeft_eq, Nat.pow_add]
      exact Nat.mul_lt_mul_of_pos_right hbuffer (Nat.two_pow_pos 6)
    have hfits : ((buffer <<< 6) ||| n) % 2 ^ 32 = (buffer <<< 6) ||| n :=
      Nat.mod_eq_of_lt (Nat.lt_of_lt_of_le hpushed (Nat.pow_le_pow_right (by decide) (by omega)))
    obtain ⟨hfew, hsmall, hspell⟩ := takeBytes_bits hpushed
    obtain ⟨out, b, k, hrun, hk, hb, hout⟩ := ih hrest hfew hsmall
    refine ⟨(takeBytes ((buffer <<< 6) ||| n) (bits + 6)).1 ++ out, b, k, ?_, hk, hb, ?_⟩
    · rw [List.map_cons, unarmor, (base64urlChar_code hn).2]
      simp only [hfits, hrun]
    · rw [bitsOf_push bits hn] at hspell
      rw [List.flatMap_cons, ← List.append_assoc, hspell, List.append_assoc, hout]
      simp [byteBits]

theorem symbols_of_unarmor {bytes : Bytes} {r : Bytes × Nat × Nat}
    (h : unarmor buffer bits bytes = .ok r) :
    ∃ values : List Nat, (∀ n ∈ values, n < 64) ∧ bytes = values.map symbolCode := by
  induction bytes generalizing buffer bits r with
  | nil => exact ⟨[], List.forall_mem_nil _, rfl⟩
  | cons byte rest ih =>
    rw [unarmor] at h
    cases hvalue : base64urlValue byte with
    | error e => rw [hvalue] at h; cases h
    | ok n =>
      rw [hvalue] at h
      cases hrest : unarmor (takeBytes (((buffer <<< 6) ||| n) % 2 ^ 32) (bits + 6)).2.1
          (takeBytes (((buffer <<< 6) ||| n) % 2 ^ 32) (bits + 6)).2.2 rest with
      | error e => simp only [hrest] at h; cases h
      | ok more =>
        obtain ⟨values, hvalues, hcodes⟩ := ih hrest
        obtain ⟨hn, hcode⟩ := code_of_base64urlValue hvalue
        exact ⟨n :: values, List.forall_mem_cons.mpr ⟨hn, hvalues⟩, by rw [List.map_cons, hcode, hcodes]⟩

/-! ## The two together -/

theorem utf8_symbols {values : List Nat} (h : ∀ n ∈ values, n < 64) :
    utf8 (String.ofList (values.map base64urlChar)) = values.map symbolCode := by
  rw [utf8_ofList]
  induction values with
  | nil => rfl
  | cons n values ih =>
    obtain ⟨hn, hrest⟩ := List.forall_mem_cons.mp h
    rw [List.map_cons, List.flatMap_cons, (base64urlChar_code hn).1, ih hrest, List.map_cons, List.singleton_append]

theorem bitsOf_zero (k : Nat) : bitsOf k 0 = List.replicate k false := by
  have h := bitsOf_shiftLeft 0 k 0
  rwa [Nat.zero_add, Nat.zero_shiftLeft] at h

/-- The values of the symbols that bytes are written as. -/
def armorValues (data : Bytes) : List Nat := (groups 6 (padded 6 (byteBits data))).map valueOf

variable (data : Bytes)

theorem armorValues_lt : ∀ n ∈ armorValues data, n < 64 := by
  intro n hn
  obtain ⟨word, hword, rfl⟩ := List.mem_map.mp hn
  have hlt := valueOf_lt word
  rwa [length_of_mem_groups hword] at hlt

theorem armorValues_bits : (armorValues data).flatMap (bitsOf 6) = padded 6 (byteBits data) := by
  have hdvd : 6 ∣ (padded 6 (byteBits data)).length := by
    rw [length_padded (by decide)]
    exact Nat.dvd_mul_left 6 _
  have hword : ∀ word ∈ groups 6 (padded 6 (byteBits data)), bitsOf 6 (valueOf word) = word := by
    intro word h
    have hspell := bitsOf_valueOf word
    rwa [length_of_mem_groups h] at hspell
  rw [armorValues, List.flatMap_map, List.flatMap_def, List.map_congr_left hword, List.map_id',
    flatten_groups hdvd]

theorem encodeBase64urlNoPad_eq :
    encodeBase64urlNoPad data = String.ofList ((armorValues data).map base64urlChar) := by
  rw [encodeBase64urlNoPad, armorChunks_eq, armorValues, List.map_map]
  rfl

theorem armorValues_length : (armorValues data).length = (8 * data.length + 5) / 6 := by
  rw [armorValues, List.length_map, length_groups, length_padded (by decide), byteBits_length,
    Nat.mul_div_cancel _ (by decide)]
  rfl

theorem utf8_encodeBase64urlNoPad_length :
    (utf8 (encodeBase64urlNoPad data)).length = (8 * data.length + 5) / 6 := by
  rw [encodeBase64urlNoPad_eq, utf8_symbols (armorValues_lt data), List.length_map, armorValues_length]

/-- Decoding undoes the encoding. -/
theorem decode_encodeBase64urlNoPad :
    decodeBase64urlNoPad (encodeBase64urlNoPad data) = .ok data := by
  have hlength : ¬ (utf8 (encodeBase64urlNoPad data)).length % 4 = 1 := by
    rw [utf8_encodeBase64urlNoPad_length]
    omega
  obtain ⟨out, b, k, hrun, hk, hb, hspell⟩ :=
    unarmor_words (armorValues_lt data) (show 0 < 8 by decide) (show 0 < 2 ^ 0 by decide)
  rw [bitsOf, List.nil_append, armorValues_bits, padded] at hspell
  have hlengths := congrArg List.length hspell
  rw [List.length_append, List.length_append, byteBits_length, byteBits_length, length_bitsOf,
    List.length_replicate] at hlengths
  -- Fewer than eight bits are left over on either side.
  have hbytes : (byteBits data).length = (byteBits out).length := by
    rw [byteBits_length, byteBits_length]
    omega
  obtain ⟨hdata, hleft⟩ := List.append_inj hspell hbytes
  have hzero : b = 0 := by
    have hvalue := congrArg valueOf hleft
    rw [valueOf_bitsOf, Nat.mod_eq_of_lt hb, ← bitsOf_zero, valueOf_bitsOf, Nat.zero_mod] at hvalue
    exact hvalue.symm
  rw [decodeBase64urlNoPad, if_neg hlength, encodeBase64urlNoPad_eq, utf8_symbols (armorValues_lt data), hrun,
    byteBits_injective hdata]
  exact if_neg fun h => h.2 hzero

/-- Only the encoding of the bytes decodes to them. -/
theorem encodeBase64urlNoPad_of_decode {value : String} {data : Bytes}
    (h : decodeBase64urlNoPad value = .ok data) : encodeBase64urlNoPad data = value := by
  rw [decodeBase64urlNoPad] at h
  split at h
  · cases h
  · rename_i hlength
    split at h
    · cases h
    · rename_i out buffer bits hrun
      split at h
      · cases h
      · rename_i hclean
        obtain rfl := Except.ok.inj h
        obtain ⟨values, hvalues, hcodes⟩ := symbols_of_unarmor hrun
        obtain ⟨out', b, k, hwords, hk, hb, hspell⟩ :=
          unarmor_words hvalues (show 0 < 8 by decide) (show 0 < 2 ^ 0 by decide)
        rw [hcodes, hwords] at hrun
        cases hrun
        rw [bitsOf, List.nil_append] at hspell
        have hzero : buffer = 0 := by
          rcases Nat.eq_zero_or_pos bits with rfl | hpos
          · exact Nat.lt_one_iff.mp hb
          · exact not_not.mp fun h => hclean ⟨hpos, h⟩
        have hwide := congrArg List.length hspell
        rw [List.length_append, byteBits_length, length_bitsOf, length_flatMap_bitsOf] at hwide
        rw [hcodes, List.length_map] at hlength
        -- The last symbol is needed: the bits left over are fewer than six.
        have hleft : bits = (6 - (byteBits out).length % 6) % 6 := by
          rw [byteBits_length]
          obtain hrest | hrest | hrest : out.length % 3 = 0 ∨ out.length % 3 = 1 ∨ out.length % 3 = 2 := by omega
          · omega
          · omega
          · omega
        have hpadded : values.flatMap (bitsOf 6) = padded 6 (byteBits out) := by
          rw [hspell, hzero, bitsOf_zero, padded, ← hleft]
        have hwords : armorValues out = values := by
          have hcut := groups_flatMap (k := 6) (by decide) (length_bitsOf 6) values
            (show ([] : List Bool).length < 6 by decide)
          have hvalue : ∀ n ∈ values, (valueOf ∘ bitsOf 6) n = n := by
            intro n hn
            rw [Function.comp_apply, valueOf_bitsOf]
            exact Nat.mod_eq_of_lt (hvalues n hn)
          rw [List.append_nil, hpadded] at hcut
          rw [armorValues, hcut, List.map_map, List.map_congr_left hvalue, List.map_id']
        apply utf8_injective
        rw [encodeBase64urlNoPad_eq, hwords, utf8_symbols hvalues, hcodes]

end Mistlib.Signaling
