import Mathlib.Algebra.GroupWithZero.Nat
import Mathlib.Data.List.Basic

namespace ByteOrder

def littleEndian (bytes : List UInt8) : Nat → UInt32
  | 0 => 0
  | n + 1 => littleEndian bytes n ||| (bytes.getD n 0).toUInt32 <<< (8 * n).toUInt32

def bigEndianBytes (v : UInt32) : List UInt8 :=
  [(v >>> 24).toUInt8, (v >>> 16).toUInt8, (v >>> 8).toUInt8, v.toUInt8]

theorem littleEndian_take {m n : Nat} (h : m ≤ n) (bytes : List UInt8) :
    littleEndian (bytes.take n) m = littleEndian bytes m := by
  induction m with
  | zero => rfl
  | succ m ih =>
    rw [littleEndian, littleEndian, ih (by omega), List.getD_eq_getElem?_getD,
      List.getD_eq_getElem?_getD, List.getElem?_take_of_lt (by omega)]

theorem toNat_shift {n : Nat} (hn : n < 4) :
    ((8 * n).toUInt32.toBitVec % 32).toNat = 8 * n := by
  have h : n = 0 ∨ n = 1 ∨ n = 2 ∨ n = 3 := by omega
  rcases h with rfl | rfl | rfl | rfl <;> rfl

theorem getLsbD_littleEndian (bytes : List UInt8) {n : Nat} (hn : n ≤ 4) (i : Nat) :
    (littleEndian bytes n).toBitVec.getLsbD i =
      (decide (i < 8 * n) && (bytes.getD (i / 8) 0).toBitVec.getLsbD (i % 8)) := by
  induction n with
  | zero => simp [littleEndian]
  | succ n ih =>
    have hbyte : ∀ j, 8 ≤ j → (bytes.getD n 0).toBitVec.getLsbD j = false := fun j hj =>
      BitVec.getLsbD_of_ge _ _ hj
    rw [littleEndian, UInt32.toBitVec_or, BitVec.getLsbD_or, ih (by omega),
      UInt32.toBitVec_shiftLeft, UInt8.toBitVec_toUInt32, BitVec.shiftLeft_eq',
      toNat_shift (by omega), BitVec.getLsbD_shiftLeft, BitVec.getLsbD_setWidth]
    rcases Nat.lt_or_ge i (8 * n) with hlow | hhigh
    · have hlow' : i < 8 * (n + 1) := by omega
      simp [hlow, hlow']
    · rcases Nat.lt_or_ge i (8 * (n + 1)) with hin | hout
      · have hdiv : i / 8 = n := by omega
        have hmod : i % 8 = i - 8 * n := by omega
        have h32 : i < 32 := by omega
        have hle : i - 8 * n < 32 := by omega
        simp [Nat.not_lt.mpr hhigh, hin, hdiv, hmod, h32, hle]
      · rw [hbyte (i - 8 * n) (by omega)]
        simp [Nat.not_lt.mpr hhigh, Nat.not_lt.mpr hout]

theorem getLsbD_toUInt8_shiftRight (v : UInt32) {k : Nat} (hk : k < 4) {j : Nat} (hj : j < 8) :
    (v >>> (8 * k).toUInt32).toUInt8.toBitVec.getLsbD j = v.toBitVec.getLsbD (8 * k + j) := by
  rw [UInt32.toBitVec_toUInt8, BitVec.getLsbD_setWidth, UInt32.toBitVec_shiftRight,
    BitVec.ushiftRight_eq', toNat_shift hk, BitVec.getLsbD_ushiftRight]
  simp [hj]

theorem littleEndian_eq {bytes : List UInt8} {v : UInt32}
    (h : ∀ k < 4, bytes.getD k 0 = (v >>> (8 * k).toUInt32).toUInt8) :
    littleEndian bytes 4 = v := by
  apply UInt32.eq_of_toBitVec_eq
  apply BitVec.eq_of_getLsbD_eq
  intro i hi
  have hdiv : 8 * (i / 8) + i % 8 = i := Nat.div_add_mod i 8
  rw [getLsbD_littleEndian bytes (Nat.le_refl 4), h (i / 8) (by omega),
    getLsbD_toUInt8_shiftRight v (by omega) (Nat.mod_lt i (by decide)), hdiv]
  simp [hi]

/-- Where a bit of a word is in the word with its bytes in the other order. -/
def swapped (i : Nat) : Nat := 8 * (3 - i / 8) + i % 8

theorem getLsbD_littleEndian_bigEndianBytes (v : UInt32) {i : Nat} (hi : i < 32) :
    (littleEndian (bigEndianBytes v) 4).toBitVec.getLsbD (swapped i) = v.toBitVec.getLsbD i := by
  have hdiv : swapped i / 8 = 3 - i / 8 := by
    unfold swapped
    omega
  have hmod : swapped i % 8 = i % 8 := by
    unfold swapped
    omega
  have hbyte : ∀ k < 4, (bigEndianBytes v).getD (3 - k) 0 = (v >>> (8 * k).toUInt32).toUInt8 := by
    intro k hk
    have h : k = 0 ∨ k = 1 ∨ k = 2 ∨ k = 3 := by omega
    rcases h with rfl | rfl | rfl | rfl
    · simp [bigEndianBytes]
    · rfl
    · rfl
    · rfl
  rw [getLsbD_littleEndian _ (Nat.le_refl 4), hdiv, hmod, hbyte (i / 8) (by omega),
    getLsbD_toUInt8_shiftRight v (by omega) (Nat.mod_lt i (by decide)), Nat.div_add_mod]
  have hlt : swapped i < 8 * 4 := by
    unfold swapped
    omega
  simp [hlt]

def bigEndianNat (bytes : List UInt8) : Nat := bytes.foldl (fun n byte => 256 * n + byte.toNat) 0

section ToNat

variable {bytes : List UInt8} {n : Nat}

theorem toNat_littleEndian_succ (hn : n < 4) (hlt : (littleEndian bytes n).toNat < 256 ^ n) :
    (littleEndian bytes (n + 1)).toNat =
      (littleEndian bytes n).toNat + (bytes.getD n 0).toNat * 256 ^ n := by
  have hpow : 2 ^ (8 * n) = 256 ^ n := Nat.pow_mul 2 8 n
  have hshift : (8 * n).toUInt32.toNat % 32 = 8 * n := by
    simp only [Nat.toUInt32, UInt32.toNat_ofNat']
    omega
  have hbyte : (bytes.getD n 0).toNat <<< (8 * n) < 2 ^ 32 := by
    rw [Nat.shiftLeft_eq]
    calc (bytes.getD n 0).toNat * 2 ^ (8 * n)
        < 2 ^ 8 * 2 ^ (8 * n) := Nat.mul_lt_mul_of_pos_right (UInt8.toNat_lt _) (Nat.two_pow_pos _)
      _ = 2 ^ (8 + 8 * n) := (Nat.pow_add 2 8 _).symm
      _ ≤ 2 ^ 32 := Nat.pow_le_pow_right (by decide) (by omega)
  rw [littleEndian, UInt32.toNat_or, UInt32.toNat_shiftLeft, UInt8.toNat_toUInt32, hshift,
    Nat.mod_eq_of_lt hbyte, Nat.or_comm, ← Nat.shiftLeft_add_eq_or_of_lt (hpow ▸ hlt),
    Nat.shiftLeft_eq, hpow, Nat.add_comm]

theorem toNat_littleEndian_lt (hn : n ≤ 4) : (littleEndian bytes n).toNat < 256 ^ n := by
  induction n with
  | zero => exact Nat.one_pos
  | succ n ih =>
    have hprev := ih (by omega)
    have hbyte : (bytes.getD n 0).toNat ≤ 255 := Nat.le_of_lt_succ (UInt8.toNat_lt _)
    rw [toNat_littleEndian_succ hn hprev, Nat.pow_succ]
    have := Nat.mul_le_mul_right (256 ^ n) hbyte
    omega

theorem toNat_littleEndian_four (a b c d : UInt8) :
    (littleEndian [a, b, c, d] 4).toNat = bigEndianNat [d, c, b, a] := by
  have hlt : ∀ n ≤ 4, (littleEndian [a, b, c, d] n).toNat < 256 ^ n := fun n hn =>
    toNat_littleEndian_lt hn
  rw [toNat_littleEndian_succ (by decide) (hlt 3 (by decide)),
    toNat_littleEndian_succ (by decide) (hlt 2 (by decide)),
    toNat_littleEndian_succ (by decide) (hlt 1 (by decide)),
    toNat_littleEndian_succ (by decide) (hlt 0 (by decide))]
  simp [littleEndian, bigEndianNat]
  omega

theorem bigEndianNat_concat (bytes : List UInt8) (byte : UInt8) :
    bigEndianNat (bytes ++ [byte]) = 256 * bigEndianNat bytes + byte.toNat := by
  rw [bigEndianNat, List.foldl_concat]
  rfl

theorem bigEndianNat_zeros (bytes : List UInt8) (n : Nat) :
    bigEndianNat (bytes ++ List.replicate n 0) = bigEndianNat bytes * 256 ^ n := by
  induction n with
  | zero => simp
  | succ n ih =>
    rw [List.replicate_succ', ← List.append_assoc, bigEndianNat_concat, ih, Nat.pow_succ',
      Nat.mul_left_comm]
    rfl

theorem littleEndian_reverse (h : bytes.length = 4) :
    littleEndian bytes.reverse 4 = (bigEndianNat bytes).toUInt32 := by
  obtain ⟨a, b, c, d, rfl⟩ : ∃ a b c d, bytes = [a, b, c, d] := by
    rcases bytes with _ | ⟨a, _ | ⟨b, _ | ⟨c, _ | ⟨d, _ | ⟨e, bytes⟩⟩⟩⟩⟩ <;>
      simp at h
    exact ⟨a, b, c, d, rfl⟩
  change littleEndian [d, c, b, a] 4 = _
  rw [← toNat_littleEndian_four, Nat.toUInt32, UInt32.ofNat_toNat]

end ToNat

end ByteOrder
