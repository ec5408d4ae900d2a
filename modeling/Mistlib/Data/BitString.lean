import Mathlib.Data.Nat.Bitwise
import Mathlib.Data.List.Basic
import Mathlib.Tactic.Ring

/-!
# Bit strings

A number of a given width is the string of its bits, the highest first.
Re-spelling words of one width as words of another is then one cut of one
string of bits: `groups k` cuts off the full words, and `padded k` fills the
last word up with zeros beforehand.
-/

namespace BitString

/-- The lowest `width` bits of a number, the highest of them first. -/
def bitsOf : Nat → Nat → List Bool
  | 0, _ => []
  | width + 1, n => n.testBit width :: bitsOf width n

def valueOf : List Bool → Nat
  | [] => 0
  | bit :: bits => bit.toNat * 2 ^ bits.length + valueOf bits

/-- The full words of `k` bits; bits that do not fill a word are dropped. -/
def groups (k : Nat) (bits : List Bool) : List (List Bool) :=
  if 0 < k ∧ k ≤ bits.length then bits.take k :: groups k (bits.drop k) else []
termination_by bits.length
decreasing_by
  simp only [List.length_drop]
  omega

/-- The bits with as many zeros behind them as the last word of `k` bits needs. -/
def padded (k : Nat) (bits : List Bool) : List Bool :=
  bits ++ List.replicate ((k - bits.length % k) % k) false

/-! ### Numbers and their bits -/

@[simp] theorem length_bitsOf (width n : Nat) : (bitsOf width n).length = width := by
  induction width with
  | zero => rfl
  | succ width ih => rw [bitsOf, List.length_cons, ih]

theorem length_flatMap_bitsOf (width : Nat) (values : List Nat) :
    (values.flatMap (bitsOf width)).length = width * values.length := by
  induction values with
  | nil => rfl
  | cons n values ih =>
    rw [List.flatMap_cons, List.length_append, length_bitsOf, ih, List.length_cons, Nat.mul_succ,
      Nat.add_comm]

theorem bitsOf_congr {width n m : Nat} (h : ∀ i < width, n.testBit i = m.testBit i) :
    bitsOf width n = bitsOf width m := by
  induction width with
  | zero => rfl
  | succ width ih =>
    rw [bitsOf, bitsOf, h width (by omega), ih fun i hi => h i (by omega)]

theorem bitsOf_add (a b n : Nat) : bitsOf (a + b) n = bitsOf a (n >>> b) ++ bitsOf b n := by
  induction a with
  | zero => rw [Nat.zero_add, bitsOf, List.nil_append]
  | succ a ih =>
    rw [Nat.add_right_comm, bitsOf, bitsOf, ih, Nat.testBit_shiftRight, Nat.add_comm b a,
      List.cons_append]

theorem bitsOf_mod {width w : Nat} (h : width ≤ w) (n : Nat) :
    bitsOf width (n % 2 ^ w) = bitsOf width n := by
  refine bitsOf_congr fun i hi => ?_
  rw [Nat.testBit_mod_two_pow, decide_eq_true (by omega), Bool.true_and]

theorem bitsOf_push (a : Nat) {b n m : Nat} (h : m < 2 ^ b) :
    bitsOf (a + b) ((n <<< b) ||| m) = bitsOf a n ++ bitsOf b m := by
  rw [bitsOf_add]
  have hhigh : ((n <<< b) ||| m) >>> b = n := by
    rw [Nat.shiftRight_or_distrib, Nat.shiftLeft_shiftRight, Nat.shiftRight_eq_div_pow m,
      Nat.div_eq_of_lt h, Nat.or_zero]
  have hlow : bitsOf b ((n <<< b) ||| m) = bitsOf b m := by
    refine bitsOf_congr fun i hi => ?_
    rw [Nat.testBit_or, Nat.testBit_shiftLeft, decide_eq_false (by omega), Bool.false_and,
      Bool.false_or]
  rw [hhigh, hlow]

theorem bitsOf_shiftLeft (a b n : Nat) :
    bitsOf (a + b) (n <<< b) = bitsOf a n ++ List.replicate b false := by
  have hzero : bitsOf b 0 = List.replicate b false := by
    induction b with
    | zero => rfl
    | succ b ih => rw [bitsOf, ih, Nat.zero_testBit, List.replicate_succ]
  have hpush := bitsOf_push a (n := n) (Nat.two_pow_pos b)
  rwa [Nat.or_zero, hzero] at hpush

/-- The bits of a number stand for its lowest part. -/
theorem valueOf_bitsOf (width n : Nat) : valueOf (bitsOf width n) = n % 2 ^ width := by
  induction width with
  | zero => rw [bitsOf, valueOf, Nat.pow_zero, Nat.mod_one]
  | succ width ih =>
    have hbit : (n.testBit width).toNat = n / 2 ^ width % 2 := by
      rw [Nat.testBit_eq_decide_div_mod_eq]
      rcases Nat.mod_two_eq_zero_or_one (n / 2 ^ width) with h | h
      · simp [h]
      · simp [h]
    rw [bitsOf, valueOf, ih, length_bitsOf, hbit, Nat.pow_succ, Nat.mod_mul]
    ring

theorem valueOf_lt (bits : List Bool) : valueOf bits < 2 ^ bits.length := by
  induction bits with
  | nil => decide
  | cons bit bits ih =>
    have hbit : bit.toNat * 2 ^ bits.length ≤ 1 * 2 ^ bits.length :=
      Nat.mul_le_mul_right _ (Bool.toNat_le bit)
    rw [valueOf, List.length_cons, Nat.pow_succ]
    omega

theorem bitsOf_valueOf (bits : List Bool) : bitsOf bits.length (valueOf bits) = bits := by
  induction bits with
  | nil => rfl
  | cons bit bits ih =>
    have hlt := valueOf_lt bits
    have hhigh : (valueOf (bit :: bits)).testBit bits.length = bit := by
      rw [valueOf, Nat.mul_comm, Nat.testBit_two_pow_mul_add _ hlt, if_neg (Nat.lt_irrefl _),
        Nat.sub_self]
      cases bit
      · rfl
      · rfl
    have hlow : bitsOf bits.length (valueOf (bit :: bits)) = bits := by
      rw [← bitsOf_mod le_rfl, valueOf, Nat.mul_comm, Nat.mul_add_mod,
        Nat.mod_eq_of_lt hlt, ih]
    rw [List.length_cons, bitsOf, hhigh, hlow]

/-! ### Cutting -/

variable {k : Nat} {word : List Bool}

theorem groups_append (hpos : 0 < k) (hword : word.length = k) (bits : List Bool) :
    groups k (word ++ bits) = word :: groups k bits := by
  subst hword
  rw [groups, if_pos ⟨hpos, by simp⟩, List.take_left, List.drop_left]

variable {bits : List Bool}

theorem groups_short (h : bits.length < k) : groups k bits = [] := by
  rw [groups, if_neg (by omega)]

theorem length_of_mem_groups (h : word ∈ groups k bits) : word.length = k := by
  fun_induction groups k bits with
  | case1 bits hfull ih =>
    rcases List.mem_cons.mp h with rfl | h
    · rw [List.length_take, Nat.min_eq_left hfull.2]
    · exact ih h
  | case2 bits hshort => cases h

theorem length_groups (k : Nat) (bits : List Bool) : (groups k bits).length = bits.length / k := by
  fun_induction groups k bits with
  | case1 bits hfull ih =>
    rw [List.length_cons, ih, List.length_drop, Nat.div_eq_sub_div hfull.1 hfull.2]
  | case2 bits hshort =>
    rcases Nat.eq_zero_or_pos k with rfl | hpos
    · rw [Nat.div_zero, List.length_nil]
    · rw [Nat.div_eq_of_lt (by omega), List.length_nil]

theorem flatten_groups (h : k ∣ bits.length) : (groups k bits).flatten = bits := by
  fun_induction groups k bits with
  | case1 bits hfull ih =>
    have hdvd : k ∣ (bits.drop k).length := by
      rw [List.length_drop]
      exact Nat.dvd_sub h (Nat.dvd_refl k)
    rw [List.flatten_cons, ih hdvd, List.take_append_drop]
  | case2 bits hshort =>
    have hzero : bits.length = 0 := by
      rcases Nat.eq_zero_or_pos k with rfl | hpos
      · exact Nat.zero_dvd.mp h
      · exact Nat.eq_zero_of_dvd_of_lt h (by omega)
    rw [List.length_eq_zero_iff.mp hzero, List.flatten_nil]

theorem groups_flatMap {α : Type*} (hpos : 0 < k) {word : α → List Bool}
    (hword : ∀ a, (word a).length = k) (l : List α) {rest : List Bool} (hrest : rest.length < k) :
    groups k (l.flatMap word ++ rest) = l.map word := by
  induction l with
  | nil => rw [List.flatMap_nil, List.nil_append, groups_short hrest, List.map_nil]
  | cons a l ih =>
    rw [List.flatMap_cons, List.append_assoc, groups_append hpos (hword a), ih, List.map_cons]

theorem padded_append (hword : word.length = k) (bits : List Bool) :
    padded k (word ++ bits) = word ++ padded k bits := by
  rw [padded, padded, List.length_append, hword, Nat.add_mod_left, List.append_assoc]

theorem groups_flatten {words : List (List Bool)} (hpos : 0 < k)
    (hwords : ∀ word ∈ words, word.length = k) (bits : List Bool) :
    groups k (words.flatten ++ bits) = words ++ groups k bits := by
  induction words with
  | nil => rfl
  | cons word words ih =>
    obtain ⟨hword, hrest⟩ := List.forall_mem_cons.mp hwords
    rw [List.flatten_cons, List.append_assoc, groups_append hpos hword, ih hrest, List.cons_append]

theorem padded_flatten {words : List (List Bool)} (hwords : ∀ word ∈ words, word.length = k)
    (bits : List Bool) : padded k (words.flatten ++ bits) = words.flatten ++ padded k bits := by
  induction words with
  | nil => rfl
  | cons word words ih =>
    obtain ⟨hword, hrest⟩ := List.forall_mem_cons.mp hwords
    rw [List.flatten_cons, List.append_assoc, padded_append hword, ih hrest, List.append_assoc]

theorem length_padded (hpos : 0 < k) (bits : List Bool) :
    (padded k bits).length = (bits.length + k - 1) / k * k := by
  rw [padded, List.length_append, List.length_replicate]
  obtain ⟨q, r, hr, hlen⟩ : ∃ q r, r < k ∧ bits.length = k * q + r :=
    ⟨bits.length / k, bits.length % k, Nat.mod_lt _ hpos, (Nat.div_add_mod _ _).symm⟩
  rw [hlen, Nat.mul_add_mod, Nat.mod_eq_of_lt hr]
  rcases Nat.eq_zero_or_pos r with rfl | hrpos
  · have hdiv : (k * q + 0 + k - 1) / k = q := by
      rw [show k * q + 0 + k - 1 = k * q + (k - 1) by omega, Nat.mul_add_div hpos,
        Nat.div_eq_of_lt (by omega : k - 1 < k), Nat.add_zero]
    rw [hdiv, Nat.sub_zero, Nat.mod_self, Nat.mul_comm q k, Nat.add_zero]
  · have hdiv : (k * q + r + k - 1) / k = q + 1 := by
      rw [show k * q + r + k - 1 = k * (q + 1) + (r - 1) by rw [Nat.mul_add]; omega,
        Nat.mul_add_div hpos, Nat.div_eq_of_lt (by omega : r - 1 < k), Nat.add_zero]
    rw [hdiv, Nat.mod_eq_of_lt (by omega : k - r < k), Nat.add_mul, Nat.mul_comm q k]
    omega

end BitString
