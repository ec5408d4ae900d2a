import Mathlib.Data.Nat.Bitwise
import Mathlib.Tactic.Ring
import Mistlib.Storage.Frame

/-!
# Content ids

A content id is the multibase text of a version, a codec and a SHA-256
digest. The digest function belongs to a library: it is a parameter here, and
what the storage layer relies on is that no two blocks share a digest.
-/

namespace Mistlib.Storage

def MULTICODEC_RAW : Nat := 0x55
def MULTICODEC_DAG_CBOR : Nat := 0x71
def CID_VERSION : Nat := 0x01
def MULTIHASH_SHA2_256 : Nat := 0x12
def MULTIHASH_SHA2_256_LEN : UInt8 := 32

/-- The unsigned varint of a number: seven bits a byte, the lowest first,
the high bit set on all bytes but the last. -/
def varintBytes : Nat → Nat → Bytes
  | 0, _ => []
  | room + 1, value =>
    if value < 128 then [UInt8.ofNat value]
    else UInt8.ofNat (value % 128 + 128) :: varintBytes room (value / 128)

/-- The varint of a `u64`, which takes ten bytes at most, as the library documents it. -/
def encodeVarint (value : Nat) : Bytes := varintBytes 10 value

def ALPHABET : List Char := "abcdefghijklmnopqrstuvwxyz234567".toList

/-- The symbol of the lowest five bits. -/
def symbol (x : Nat) : Char := ALPHABET.getD (x &&& 0x1F) 'a'

/-- Write out the groups of five bits that the lowest `bitsLeft` bits of the
buffer hold, highest first, and say how many bits stay. -/
def emit (buffer : Nat) : Nat → List Char × Nat
  | bitsLeft + 5 =>
    let (out, left) := emit buffer bitsLeft
    (symbol (buffer >>> bitsLeft) :: out, left)
  | bitsLeft => ([], bitsLeft)

/-- The encoder's loop over the bytes. The buffer is a `u64` whose high bits
fall off. -/
def base32Loop (buffer bitsLeft : Nat) : Bytes → List Char
  | [] => if bitsLeft > 0 then [symbol (buffer <<< (5 - bitsLeft))] else []
  | byte :: rest =>
    let buffer := ((buffer <<< 8) ||| byte.toNat) % 2 ^ 64
    let (out, bitsLeft) := emit buffer (bitsLeft + 8)
    out ++ base32Loop buffer bitsLeft rest

def base32lowerEncode (data : Bytes) : String := String.ofList (base32Loop 0 0 data)

def computeCid (sha256 : Bytes → Bytes) (data : Bytes) (codec : Nat) : Cid :=
  "b" ++ base32lowerEncode (encodeVarint CID_VERSION ++ encodeVarint codec ++
    encodeVarint MULTIHASH_SHA2_256 ++ [MULTIHASH_SHA2_256_LEN] ++ sha256 data)

def verifyCid (sha256 : Bytes → Bytes) (cid : Cid) (data : Bytes) (expectedCodec : Nat) : Bool :=
  decide (computeCid sha256 data expectedCodec = cid)

/-! ### The encoding loses nothing -/

theorem symbol_injective {x y : Nat} (h : symbol x = symbol y) : x % 32 = y % 32 := by
  have hall : ∀ x < 32, ∀ y < 32, ALPHABET.getD x 'a' = ALPHABET.getD y 'a' → x = y := by decide
  have hmod : ∀ x, x &&& 0x1F = x % 32 := fun x => Nat.and_two_pow_sub_one_eq_mod x 5
  simp only [symbol, hmod] at h
  exact hall _ (Nat.mod_lt _ (by decide)) _ (Nat.mod_lt _ (by decide)) h

theorem emit_left (buffer n : Nat) : (emit buffer n).2 = n % 5 := by
  fun_induction emit buffer n with
  | case1 n out left heq ih =>
    rw [heq] at ih
    simp only at ih ⊢
    omega
  | case2 n hsmall =>
    have : n < 5 := by
      by_contra hge
      exact hsmall (n - 5) (by omega)
    simp only
    omega

theorem emit_length (buffer n : Nat) : (emit buffer n).1.length = n / 5 := by
  fun_induction emit buffer n with
  | case1 n out left heq ih =>
    rw [heq] at ih
    simp only [List.length_cons] at ih ⊢
    omega
  | case2 n hsmall =>
    have : n < 5 := by
      by_contra hge
      exact hsmall (n - 5) (by omega)
    simp only [List.length_nil]
    omega

variable {b : Nat}

theorem emit_injective {b' : Nat} (n : Nat) (h : (emit b n).1 = (emit b' n).1) :
    b % 2 ^ n / 2 ^ (n % 5) = b' % 2 ^ n / 2 ^ (n % 5) := by
  induction n using Nat.strong_induction_on with
  | _ n ih =>
    by_cases hsmall : n < 5
    · have hmod : n % 5 = n := Nat.mod_eq_of_lt hsmall
      have hzero : ∀ b, b % 2 ^ n / 2 ^ n = 0 := fun b =>
        Nat.div_eq_of_lt (Nat.mod_lt _ (Nat.two_pow_pos _))
      rw [hmod, hzero, hzero]
    · obtain ⟨m, rfl⟩ : ∃ m, n = m + 5 := ⟨n - 5, by omega⟩
      simp only [emit, List.cons.injEq] at h
      have hrest := ih m (by omega) h.2
      have hfirst := symbol_injective h.1
      simp only [Nat.shiftRight_eq_div_pow] at hfirst
      have hsplit : ∀ b, b % 2 ^ (m + 5) / 2 ^ ((m + 5) % 5) =
          b % 2 ^ m / 2 ^ (m % 5) + 2 ^ (m - m % 5) * (b / 2 ^ m % 32) := by
        intro b
        have hpow : 2 ^ m = 2 ^ (m % 5) * 2 ^ (m - m % 5) := by
          rw [← Nat.pow_add]
          congr 1
          have := Nat.mod_le m 5
          omega
        have hmod : b % 2 ^ (m + 5) = b % 2 ^ m + 2 ^ m * (b / 2 ^ m % 32) := by
          rw [Nat.pow_add, Nat.mod_mul]
        rw [Nat.add_mod_right, hmod]
        conv_lhs => rw [hpow, Nat.mul_assoc]
        rw [Nat.add_mul_div_left _ _ (Nat.two_pow_pos _), ← hpow]
      rw [hsplit, hsplit, hrest, hfirst]

theorem base32Loop_length (data : Bytes) {left : Nat} (hleft : left < 5) :
    (base32Loop b left data).length = (left + 8 * data.length + 4) / 5 := by
  induction data generalizing b left with
  | nil =>
    simp only [base32Loop]
    split
    · simp only [List.length_cons, List.length_nil]
      omega
    · simp only [List.length_nil]
      omega
  | cons byte rest ih =>
    simp only [base32Loop, List.length_append, List.length_cons]
    rw [emit_length, emit_left, ih (Nat.mod_lt _ (by decide))]
    omega

theorem buffer_mod (b left : Nat) (hleft : left < 5) (byte : UInt8) :
    (((b <<< 8) ||| byte.toNat) % 2 ^ 64) % 2 ^ (left + 8) = (b % 2 ^ left) * 256 + byte.toNat := by
  have hbyte : byte.toNat < 2 ^ 8 := byte.toNat_lt
  rw [Nat.mod_mod_of_dvd _ (Nat.pow_dvd_pow 2 (by omega)), ← Nat.shiftLeft_add_eq_or_of_lt hbyte,
    Nat.shiftLeft_eq]
  have hpow : 2 ^ (left + 8) = 2 ^ left * 256 := Nat.pow_add 2 left 8
  have hlow : (b % 2 ^ left) * 256 + byte.toNat < 2 ^ (left + 8) := by
    have hmod : b % 2 ^ left < 2 ^ left := Nat.mod_lt _ (Nat.two_pow_pos _)
    rw [hpow]
    omega
  have hsplit : b * 2 ^ 8 + byte.toNat =
      (b % 2 ^ left) * 256 + byte.toNat + 2 ^ (left + 8) * (b / 2 ^ left) := by
    have hdiv := Nat.div_add_mod b (2 ^ left)
    rw [hpow]
    generalize 2 ^ left = m at *
    calc b * 256 + byte.toNat = (m * (b / m) + b % m) * 256 + byte.toNat := by rw [hdiv]
      _ = b % m * 256 + byte.toNat + m * 256 * (b / m) := by ring
  rw [hsplit, Nat.add_mul_mod_self_left, Nat.mod_eq_of_lt hlow]

theorem base32Loop_injective (data data' : Bytes) {b' left : Nat} (hleft : left < 5)
    (h : base32Loop b left data = base32Loop b' left data') :
    b % 2 ^ left = b' % 2 ^ left ∧ data = data' := by
  have hlength : data.length = data'.length := by
    have hcount := congrArg List.length h
    rw [base32Loop_length data hleft, base32Loop_length data' hleft] at hcount
    omega
  induction data generalizing data' b b' left with
  | nil =>
    obtain rfl := List.length_eq_zero_iff.mp hlength.symm
    refine ⟨?_, rfl⟩
    by_cases hpos : left > 0
    · simp only [base32Loop, if_pos hpos, List.cons.injEq, and_true] at h
      have hbits := symbol_injective h
      have hpow : 32 = 2 ^ left * 2 ^ (5 - left) := by
        rw [← Nat.pow_add]
        have : left + (5 - left) = 5 := by omega
        rw [this]
      simp only [Nat.shiftLeft_eq] at hbits
      rw [hpow, Nat.mul_mod_mul_right, Nat.mul_mod_mul_right] at hbits
      exact Nat.eq_of_mul_eq_mul_right (Nat.two_pow_pos _) hbits
    · obtain rfl : left = 0 := by omega
      simp only [Nat.pow_zero, Nat.mod_one]
  | cons byte rest ih =>
    cases data' with
    | nil => cases hlength
    | cons byte' rest' =>
      simp only [base32Loop] at h
      obtain ⟨hout, hrest⟩ := List.append_inj h (by rw [emit_length, emit_length])
      rw [emit_left, emit_left] at hrest
      obtain ⟨hlow, rfl⟩ := ih rest' (Nat.mod_lt _ (by decide)) hrest (by simpa using hlength)
      have hhigh := emit_injective _ hout
      -- The bits written and the bits that stay are all the buffer's bits.
      have hwhole : ∀ v : Nat, v % 2 ^ (left + 8) =
          2 ^ ((left + 8) % 5) * (v % 2 ^ (left + 8) / 2 ^ ((left + 8) % 5)) +
            v % 2 ^ ((left + 8) % 5) := by
        intro v
        have hdvd : 2 ^ ((left + 8) % 5) ∣ 2 ^ (left + 8) := Nat.pow_dvd_pow 2 (Nat.mod_le _ _)
        rw [← Nat.mod_mod_of_dvd v hdvd, Nat.div_add_mod]
      have hbuffer : ((b <<< 8) ||| byte.toNat) % 2 ^ 64 % 2 ^ (left + 8) =
          ((b' <<< 8) ||| byte'.toNat) % 2 ^ 64 % 2 ^ (left + 8) := by
        rw [hwhole, hhigh, hlow, ← hwhole]
      rw [buffer_mod b left hleft, buffer_mod b' left hleft] at hbuffer
      have hbyte := byte.toNat_lt
      have hbyte' := byte'.toNat_lt
      have heq : byte = byte' := UInt8.toNat_inj.mp (by omega)
      refine ⟨by omega, by rw [heq]⟩

/-- A block is the block of a content id. -/
def Addresses (sha256 : Bytes → Bytes) (cid : Cid) (data : Bytes) : Prop :=
  computeCid sha256 data MULTICODEC_RAW = cid ∨ computeCid sha256 data MULTICODEC_DAG_CBOR = cid

variable {sha256 : Bytes → Bytes} {data data' : Bytes}

theorem computeCid_digest {codec codec' : Nat} (hcodec : codec < 128) (hcodec' : codec' < 128)
    (h : computeCid sha256 data codec = computeCid sha256 data' codec') :
    sha256 data = sha256 data' := by
  have hvarint : ∀ n < 128, encodeVarint n = [UInt8.ofNat n] := by
    intro n hn
    rw [encodeVarint, varintBytes, if_pos hn]
  simp only [computeCid, base32lowerEncode, String.append_right_inj, String.ofList_inj] at h
  obtain ⟨_, hbytes⟩ := base32Loop_injective _ _ (by decide) h
  rw [hvarint codec hcodec, hvarint codec' hcodec'] at hbytes
  simp only [List.append_assoc, List.cons_append, List.nil_append, List.append_cancel_left_eq,
    List.cons.injEq] at hbytes
  simpa using hbytes.2

/-- A content id fixes the digest of what it addresses. -/
theorem Addresses.digest {cid : Cid} (h : Addresses sha256 cid data) (h' : Addresses sha256 cid data') :
    sha256 data = sha256 data' := by
  have hraw : MULTICODEC_RAW < 128 := by decide
  have hcbor : MULTICODEC_DAG_CBOR < 128 := by decide
  rcases h with h | h
  · rcases h' with h' | h'
    · exact computeCid_digest hraw hraw (h.trans h'.symm)
    · exact computeCid_digest hraw hcbor (h.trans h'.symm)
  · rcases h' with h' | h'
    · exact computeCid_digest hcbor hraw (h.trans h'.symm)
    · exact computeCid_digest hcbor hcbor (h.trans h'.symm)

end Mistlib.Storage
