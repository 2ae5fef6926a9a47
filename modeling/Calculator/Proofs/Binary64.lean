import Mathlib.Algebra.Order.Field.Power
import Mathlib.Tactic.NormNum
import Mathlib.Tactic.Ring

namespace Calculator.Binary64

open Float.Model Float.Model.UnpackedFloat

def rational? : UnpackedFloat → Option Rat
  | .zero _ => some 0
  | .finite s m e _ => some (s.apply m * 2 ^ e)
  | _ => none

theorem rational?_zero (s : Sign) : rational? (.zero s) = some 0 :=
  rfl

theorem rational?_finite (s : Sign) (m : Nat) (e : Int) (hm : 0 < m) :
    rational? (.finite s m e hm) = some (s.apply m * 2 ^ e : Rat) :=
  rfl

def Represents (x : Float) (n : Int) : Prop :=
  rational? x.toModel.unpack = some (n : Rat)

/-- All fifty-three digits of a mantissa are in use, and the exponent is one that can be packed. -/
structure Normal (m : Nat) (e : Int) : Prop where
  low : 2 ^ 52 ≤ m
  high : m < 2 ^ 53
  least : -1074 ≤ e
  greatest : e ≤ 971

theorem Normal.pos {m : Nat} {e : Int} (h : Normal m e) : 0 < m :=
  Nat.lt_of_lt_of_le (Nat.two_pow_pos 52) h.low

theorem Normal.log2_eq {m : Nat} {e : Int} (h : Normal m e) : m.log2 = 52 :=
  (Nat.log2_eq_iff h.pos.ne').mpr ⟨h.low, h.high⟩

theorem log2_mul_two_pow {m : Nat} (h : m ≠ 0) (k : Nat) : (m * 2 ^ k).log2 = m.log2 + k := by
  have hpow : 0 < 2 ^ k := Nat.two_pow_pos k
  rw [Nat.log2_eq_iff (Nat.mul_ne_zero h hpow.ne')]
  constructor
  · rw [pow_add]
    exact Nat.mul_le_mul_right _ (Nat.log2_self_le h)
  · rw [Nat.add_right_comm, pow_add]
    exact (Nat.mul_lt_mul_right hpow).mpr Nat.lt_log2_self

theorem eq_mul_two_pow {m M : Nat} {e E : Int} (hv : (m : Rat) * 2 ^ e = M * 2 ^ E) (he : e ≤ E) :
    m = M * 2 ^ (E - e).toNat := by
  obtain ⟨k, rfl⟩ := Int.le.dest he
  have hpow : (2 : Rat) ^ e ≠ 0 := zpow_ne_zero e two_ne_zero
  rw [zpow_add₀ two_ne_zero, zpow_natCast, mul_comm ((2 : Rat) ^ e), ← mul_assoc] at hv
  have hm := mul_right_cancel₀ hpow hv
  rw [show (e + k - e).toNat = k by omega]
  exact_mod_cast hm

section rounding

variable {m M : Nat} {e E : Int}

theorem Normal.target_eq (h : Normal M E) (hv : (m : Rat) * 2 ^ e = M * 2 ^ E) :
    Format.binary64.targetExponent (totalExponent m e) = E := by
  have hlog : (m.log2 : Int) + e = 52 + E := by
    have hM := h.log2_eq
    rcases le_total e E with he | he
    · have hm := log2_mul_two_pow h.pos.ne' (E - e).toNat
      rw [← eq_mul_two_pow hv he] at hm
      omega
    · have hm : M = m * 2 ^ (e - E).toNat := eq_mul_two_pow hv.symm he
      have hne : m ≠ 0 := by
        rintro rfl
        exact h.pos.ne' (hm.trans (Nat.zero_mul _))
      have hm' := log2_mul_two_pow hne (e - E).toNat
      rw [← hm] at hm'
      omega
  have hleast := h.least
  change max (m.log2 + 1 + e - 53) (-1074) = E
  omega

theorem repeat_shiftRightOne (M k : Nat) :
    Nat.repeat ExtendedMantissa.shiftRightOne k ⟨M * 2 ^ k, false, false⟩ = ⟨M, false, false⟩ := by
  induction k generalizing M with
  | zero => simp [Nat.repeat]
  | succ k ih =>
    rw [Nat.repeat, pow_succ', ← mul_assoc, ih]
    simp [ExtendedMantissa.shiftRightOne]

theorem shiftToTargetExponent_eq (h : Normal M E) (hv : (m : Rat) * 2 ^ e = M * 2 ^ E)
    (he : e ≤ E) :
    shiftToTargetExponent Format.binary64 m e .exact = (⟨M, false, false⟩, E) := by
  simp only [shiftToTargetExponent, h.target_eq hv, shiftToExponent, Prod.mk.injEq]
  constructor
  · rw [eq_mul_two_pow hv he]
    exact repeat_shiftRightOne M _
  · omega

theorem roundWithAccuracy_eq (s : Sign) (h : Normal M E) (hv : (m : Rat) * 2 ^ e = M * 2 ^ E)
    (he : e ≤ E) :
    roundWithAccuracy Format.binary64 s m e .exact = .finite s M E h.pos := by
  have hround : ExtendedMantissa.roundedMantissa ⟨M, false, false⟩ = M := rfl
  rw [roundWithAccuracy, shiftToTargetExponent_eq h hv he]
  dsimp only
  rw [hround, shiftToTargetExponent_eq h rfl le_rfl]
  exact dif_neg h.pos.ne'

theorem shiftLeft_value (m k : Nat) (e : Int) :
    ((m <<< k : Nat) : Rat) * 2 ^ (e - k) = m * 2 ^ e := by
  rw [Nat.shiftLeft_eq, Nat.cast_mul, Nat.cast_pow, Nat.cast_ofNat, mul_assoc, ← zpow_natCast,
    ← zpow_add₀ two_ne_zero, add_sub_cancel]

theorem round_eq (s : Sign) (h : Normal M E) (hv : (m : Rat) * 2 ^ e = M * 2 ^ E) :
    UnpackedFloat.round Format.binary64 s m e = .finite s M E h.pos := by
  rw [UnpackedFloat.round, h.target_eq hv, decreaseExponent]
  apply roundWithAccuracy_eq s h
  · rw [shiftLeft_value, hv]
  · omega

end rounding

theorem exists_normal {n : Nat} (hpos : 0 < n) (hn : n ≤ 2 ^ 53) :
    ∃ M E, Normal M E ∧ (M : Rat) * 2 ^ E = n := by
  rcases hn.lt_or_eq with hlt | rfl
  · have hlog : n.log2 < 53 := (Nat.log2_lt hpos.ne').mpr hlt
    have hlow := Nat.log2_self_le hpos.ne'
    have hhigh := Nat.lt_log2_self (n := n)
    generalize n.log2 = k at hlog hlow hhigh
    have hsplit : k + (52 - k) = 52 := by omega
    refine ⟨n * 2 ^ (52 - k), -((52 - k : Nat) : Int), ⟨?_, ?_, by omega, by omega⟩, ?_⟩
    · calc 2 ^ 52 = 2 ^ k * 2 ^ (52 - k) := by rw [← pow_add, hsplit]
        _ ≤ n * 2 ^ (52 - k) := Nat.mul_le_mul_right _ hlow
    · calc n * 2 ^ (52 - k) < 2 ^ (k + 1) * 2 ^ (52 - k) :=
          (Nat.mul_lt_mul_right (Nat.two_pow_pos _)).mpr hhigh
        _ = 2 ^ 53 := by rw [← pow_add, Nat.add_right_comm, hsplit]
    · rw [Nat.cast_mul, Nat.cast_pow, Nat.cast_ofNat, zpow_neg, zpow_natCast, mul_assoc,
        mul_inv_cancel₀ (pow_ne_zero _ two_ne_zero), mul_one]
  · exact ⟨2 ^ 52, 1, ⟨le_rfl, by norm_num, by norm_num, by norm_num⟩, by norm_num⟩

inductive Exact : UnpackedFloat → Int → Prop where
  | zero (s : Sign) : Exact (.zero s) 0
  | finite {s : Sign} {m : Nat} {e n : Int} (hm : 0 < m) :
      Normal m e → (s.apply m : Rat) * 2 ^ e = n → Exact (.finite s m e hm) n

theorem toNat_implicit (fraction : BitVec 52) :
    (1#1 ++ fraction).toNat = 2 ^ 52 + fraction.toNat := by
  rw [BitVec.toNat_append, ← Nat.shiftLeft_add_eq_or_of_lt fraction.isLt]
  rfl

theorem sign_packComponents (s : Sign) (exponent : BitVec 11) (fraction : BitVec 52) :
    Sign.ofBitVec (unpackSign (packComponents Format.binary64 s exponent fraction)) = s := by
  have hsign : (s.toBitVec ++ exponent ++ fraction).extractLsb' 63 1 = s.toBitVec := by
    ext i hi
    obtain rfl : i = 0 := by omega
    rw [BitVec.getElem_extractLsb', BitVec.getLsbD_append, BitVec.getLsbD_append]
    rfl
  change Sign.ofBitVec ((s.toBitVec ++ exponent ++ fraction).extractLsb' 63 1) = s
  rw [hsign]
  cases s <;> rfl

theorem pack_finite {s : Sign} {m : Nat} {e : Int} (hm : 0 < m) (h : Normal m e) :
    UnpackedFloat.pack Format.binary64 (.finite s m e hm) =
      packComponents Format.binary64 s (BitVec.ofNat 11 (e + 1075).toNat) (BitVec.ofNat 52 m) := by
  have hgreatest := h.greatest
  have hbits : m.log2 + 1 = Format.binary64.mantissaBits := by
    rw [h.log2_eq]
    rfl
  change (if 2 ^ 11 ≤ (e + 1023 + 52).toNat + 1 then _ else _) = _
  rw [if_neg (by omega), if_pos hbits, show e + 1075 = e + 1023 + 52 by omega]
  rfl

theorem unpack_pack {s : Sign} {m : Nat} {e : Int} (hm : 0 < m) (h : Normal m e) :
    (Float.Model.pack (.finite s m e hm)).unpack = .finite s m e hm := by
  change UnpackedFloat.unpack Format.binary64 (UnpackedFloat.pack Format.binary64 _) = _
  rw [pack_finite hm h]
  obtain ⟨hlow, hhigh, hleast, hgreatest⟩ := h
  have hexponent : (BitVec.ofNat 11 (e + 1075).toNat).toNat = (e + 1075).toNat := by
    rw [BitVec.toNat_ofNat]
    omega
  have hne (v : BitVec 11) (hv : v.toNat = 0 ∨ v.toNat = 2047) :
      BitVec.ofNat 11 (e + 1075).toNat ≠ v := by
    rintro rfl
    omega
  delta UnpackedFloat.unpack
  dsimp only
  rw [if_neg, if_neg, UnpackedFloat.finite.injEq, sign_packComponents,
    unpackMantissa_packComponents, unpackExponent_packComponents]
  · refine ⟨rfl, ?_, ?_⟩
    · rw [toNat_implicit, BitVec.toNat_ofNat]
      omega
    · rw [hexponent]
      change (((e + 1075).toNat : Int) - 1075) = e
      omega
  · rw [unpackExponent_packComponents]
    exact hne _ (.inl rfl)
  · rw [unpackExponent_packComponents]
    exact hne _ (.inr rfl)

theorem magnitude_eq {s : Sign} {m : Nat} {e n : Int} (hn : (s.apply m : Rat) * 2 ^ e = n) :
    (m : Rat) * 2 ^ e = n.natAbs := by
  have hpow : (0 : Rat) < 2 ^ e := zpow_pos two_pos e
  have habs : |(s.apply m : Rat)| = m := by
    cases s <;> simp [Sign.apply]
  rw [Nat.cast_natAbs, Int.cast_abs, ← hn, abs_mul, abs_of_pos hpow, habs]

theorem ne_zero_of_value {s : Sign} {m : Nat} {e n : Int} (hm : 0 < m)
    (hn : (s.apply m : Rat) * 2 ^ e = n) : n ≠ 0 := by
  rintro rfl
  have hv := magnitude_eq hn
  rw [Int.natAbs_zero, Nat.cast_zero, mul_eq_zero] at hv
  have hzero := hv.resolve_right (zpow_ne_zero e two_ne_zero)
  exact hm.ne' (by exact_mod_cast hzero)

theorem not_whole_of_lt {m n : Nat} {e : Int} (hm : 0 < m) (hlt : m < 2 ^ 52) (he : e ≤ -52) :
    (m : Rat) * 2 ^ e ≠ n := by
  intro hv
  have hvalue : (m : Rat) * 2 ^ e = n * 2 ^ (0 : Int) := by
    rw [hv, zpow_zero, mul_one]
  have hzeros := eq_mul_two_pow hvalue (by omega)
  have hpow : 2 ^ 52 ≤ 2 ^ (0 - e).toNat := Nat.pow_le_pow_right two_pos (by omega)
  cases n with
  | zero => omega
  | succ n =>
    rw [Nat.succ_mul] at hzeros
    omega

theorem normal_of_unpack {x : Float.Model} {s : Sign} {m : Nat} {e n : Int} {hm : 0 < m}
    (h : x.unpack = .finite s m e hm) (hn : (s.apply m : Rat) * 2 ^ e = n) : Normal m e := by
  have hv := magnitude_eq hn
  change UnpackedFloat.unpack Format.binary64 x.toBits.toBitVec = _ at h
  delta UnpackedFloat.unpack at h
  dsimp only at h
  have hfraction := (@unpackMantissa Format.binary64 x.toBits.toBitVec).isLt
  have hexponent := (@unpackExponent Format.binary64 x.toBits.toBitVec).isLt
  by_cases hones : @unpackExponent Format.binary64 x.toBits.toBitVec = -1#11
  · rw [if_pos hones] at h
    by_cases hnone : @unpackMantissa Format.binary64 x.toBits.toBitVec = 0#52
    · rw [if_pos hnone] at h
      cases h
    · rw [if_neg hnone] at h
      cases h
  rw [if_neg hones] at h
  by_cases hzero : @unpackExponent Format.binary64 x.toBits.toBitVec = 0#11
  · rw [if_pos hzero] at h
    by_cases hnone : @unpackMantissa Format.binary64 x.toBits.toBitVec = 0#52
    · rw [dif_pos hnone] at h
      cases h
    · rw [dif_neg hnone, UnpackedFloat.finite.injEq] at h
      obtain ⟨-, rfl, rfl⟩ := h
      rw [hzero] at hv
      exact absurd hv (not_whole_of_lt hm hfraction (by decide))
  · rw [if_neg hzero, UnpackedFloat.finite.injEq, toNat_implicit] at h
    obtain ⟨-, rfl, rfl⟩ := h
    rw [← BitVec.toNat_inj] at hones hzero
    generalize (@unpackMantissa Format.binary64 x.toBits.toBitVec).toNat = fraction at hfraction
    generalize (@unpackExponent Format.binary64 x.toBits.toBitVec).toNat = exponent at *
    change ¬ exponent = 2047 at hones
    change ¬ exponent = 0 at hzero
    change exponent < 2048 at hexponent
    change fraction < 2 ^ 52 at hfraction
    change Normal _ ((exponent : Int) - 1075)
    constructor <;> omega

namespace Exact

variable {u v : UnpackedFloat} {k n : Int}

theorem rational?_eq (h : Exact u n) : rational? u = some (n : Rat) := by
  cases h with
  | zero s => rw [rational?_zero, Int.cast_zero]
  | finite hm hnormal hn => rw [rational?_finite, hn]

theorem of_unpack {x : Float.Model} (h : rational? x.unpack = some (n : Rat)) :
    Exact x.unpack n := by
  cases hx : x.unpack with
  | zero s =>
    rw [hx, rational?_zero, Option.some.injEq] at h
    obtain rfl : 0 = n := by exact_mod_cast h
    exact .zero s
  | finite s m e hm =>
    rw [hx, rational?_finite, Option.some.injEq] at h
    exact .finite hm (normal_of_unpack hx h) h
  | infinity | notANumber =>
    rw [hx] at h
    cases h

theorem represents_pack (h : Exact u n) : Represents ⟨Float.Model.pack u⟩ n := by
  have hunpack : (Float.Model.pack u).unpack = u := by
    cases h with
    | zero s => cases s <;> rfl
    | finite hm hnormal _ => exact unpack_pack hm hnormal
  rw [Represents, hunpack]
  exact h.rational?_eq

theorem of_value {s : Sign} {m M : Nat} {e E : Int} (h : Normal M E)
    (hv : (m : Rat) * 2 ^ e = M * 2 ^ E) (hn : (s.apply m : Rat) * 2 ^ e = n) :
    Exact (.finite s M E h.pos) n := by
  refine .finite h.pos h ?_
  cases s with
  | negative =>
    simp only [Sign.apply, Int.cast_neg, Int.cast_natCast, neg_mul] at hn ⊢
    rw [← hv, hn]
  | positive => exact hv.symm.trans hn

theorem round {s : Sign} {m : Nat} {e : Int} (hn : (s.apply m : Rat) * 2 ^ e = n) (h0 : n ≠ 0)
    (h : n.natAbs ≤ 2 ^ 53) : Exact (UnpackedFloat.round Format.binary64 s m e) n := by
  obtain ⟨M, E, hnormal, hv⟩ := exists_normal (Int.natAbs_pos.mpr h0) h
  have hvalue := (magnitude_eq hn).trans hv.symm
  rw [round_eq s hnormal hvalue]
  exact of_value hnormal hvalue hn

theorem normalize {m e : Int} (hn : (m : Rat) * 2 ^ e = n) (h : n.natAbs ≤ 2 ^ 53) :
    Exact (UnpackedFloat.normalize Format.binary64 m e .positive) n := by
  have hpow : (2 : Rat) ^ e ≠ 0 := zpow_ne_zero e two_ne_zero
  have h0 (hm : m ≠ 0) : n ≠ 0 := by
    rintro rfl
    rw [Int.cast_zero, mul_eq_zero] at hn
    exact hm (by exact_mod_cast hn.resolve_right hpow)
  rw [UnpackedFloat.normalize]
  split
  · rename_i hlt
    rw [compare_lt_iff_lt] at hlt
    refine round ?_ (h0 hlt.ne) h
    rwa [Sign.apply, Int.toNat_of_nonneg (by omega), neg_neg]
  · rename_i heq
    rw [compare_eq_iff_eq] at heq
    rw [heq, Int.cast_zero, zero_mul] at hn
    obtain rfl : 0 = n := by exact_mod_cast hn
    exact .zero .positive
  · rename_i hgt
    rw [compare_gt_iff_gt] at hgt
    refine round ?_ (h0 hgt.ne') h
    rwa [Sign.apply, Int.toNat_of_nonneg (by omega)]

theorem aligned_value {s : Sign} {m : Nat} {e t : Int} (ht : t ≤ e) :
    (s.apply (m <<< (e - t).toNat : Nat) : Rat) * 2 ^ t = (s.apply m : Rat) * 2 ^ e := by
  have hvalue := shiftLeft_value m (e - t).toNat e
  rw [show e - (e - t).toNat = t by omega] at hvalue
  cases s with
  | negative =>
    simpa only [Sign.apply, Int.cast_neg, Int.cast_natCast, neg_mul, neg_inj] using hvalue
  | positive => exact hvalue

theorem add (hu : Exact u k) (hv : Exact v n) (h : (k + n).natAbs ≤ 2 ^ 53) :
    Exact (UnpackedFloat.add Format.binary64 u v) (k + n) := by
  cases hu with
  | zero s =>
    rw [Int.zero_add]
    cases hv with
    | zero t => cases s <;> cases t <;> exact .zero _
    | finite hm hnormal hn => exact .finite hm hnormal hn
  | finite hl hleft hk =>
    cases hv with
    | zero t =>
      rw [Int.add_zero]
      exact .finite hl hleft hk
    | finite hr hright hn =>
      apply normalize _ h
      rw [Int.cast_add, add_mul, aligned_value (min_le_left _ _),
        aligned_value (min_le_right _ _), hk, hn, Int.cast_add]

theorem sub (hu : Exact u k) (hv : Exact v n) (h : (k - n).natAbs ≤ 2 ^ 53) :
    Exact (UnpackedFloat.sub Format.binary64 u v) (k - n) := by
  cases hu with
  | zero s =>
    rw [Int.zero_sub]
    cases hv with
    | zero t => cases s <;> cases t <;> exact .zero _
    | @finite t m e _ hm hnormal hn =>
      refine .finite hm hnormal ?_
      rw [Int.cast_neg, ← hn]
      cases t <;> simp [Sign.apply]
  | finite hl hleft hk =>
    cases hv with
    | zero t =>
      rw [Int.sub_zero]
      exact .finite hl hleft hk
    | finite hr hright hn =>
      apply normalize _ h
      rw [Int.cast_sub, sub_mul, aligned_value (min_le_left _ _),
        aligned_value (min_le_right _ _), hk, hn, Int.cast_sub]

theorem mul (hu : Exact u k) (hv : Exact v n) (h : (k * n).natAbs ≤ 2 ^ 53) :
    Exact (UnpackedFloat.mul Format.binary64 u v) (k * n) := by
  cases hu with
  | zero s =>
    rw [Int.zero_mul]
    cases hv <;> exact .zero _
  | @finite s m e _ hl hleft hk =>
    cases hv with
    | zero t =>
      rw [Int.mul_zero]
      exact .zero _
    | @finite t m' e' _ hr hright hn =>
      have hvalue : ((s * t).apply (m * m' : Nat) : Rat) * 2 ^ (e + e') = (k * n : Int) := by
        rw [Int.cast_mul, ← hk, ← hn, zpow_add₀ two_ne_zero]
        cases s <;> cases t <;> simp [Sign.apply] <;> ring
      have h0 : k * n ≠ 0 := Int.mul_ne_zero (ne_zero_of_value hl hk) (ne_zero_of_value hr hn)
      obtain ⟨M, E, hnormal, hM⟩ := exists_normal (Int.natAbs_pos.mpr h0) h
      have hsame := (magnitude_eq hvalue).trans hM.symm
      have hle : e + e' ≤ E := by
        by_contra hlt
        have hzeros := eq_mul_two_pow hsame.symm (Int.le_of_not_le hlt)
        have hlow := Nat.mul_le_mul hleft.low hright.low
        have hmore := Nat.le_mul_of_pos_right (m * m') (Nat.two_pow_pos (e + e' - E).toNat)
        have hhigh := hnormal.high
        omega
      change Exact (roundWithAccuracy Format.binary64 (s * t) (m * m') (e + e') .exact) _
      rw [roundWithAccuracy_eq (s * t) hnormal hsame hle]
      exact of_value hnormal hsame hvalue

end Exact

namespace Represents

variable {x y : Float} {k n : Int}

theorem exact (h : Represents x n) : Exact x.toModel.unpack n :=
  .of_unpack h

theorem add (hx : Represents x k) (hy : Represents y n) (h : (k + n).natAbs ≤ 2 ^ 53) :
    Represents (x + y) (k + n) :=
  (hx.exact.add hy.exact h).represents_pack

theorem sub (hx : Represents x k) (hy : Represents y n) (h : (k - n).natAbs ≤ 2 ^ 53) :
    Represents (x - y) (k - n) :=
  (hx.exact.sub hy.exact h).represents_pack

theorem mul (hx : Represents x k) (hy : Represents y n) (h : (k * n).natAbs ≤ 2 ^ 53) :
    Represents (x * y) (k * n) :=
  (hx.exact.mul hy.exact h).represents_pack

theorem ofBits_one : Represents (.ofBits 0x3FF0000000000000) 1 := by
  have hunpack : (Float.ofBits 0x3FF0000000000000).toModel.unpack =
      .finite .positive (2 ^ 52) (-52) (Nat.two_pow_pos 52) := rfl
  rw [Represents, hunpack, rational?_finite]
  norm_num [Sign.apply]

theorem ofNat {n : Nat} (h : n < 2 ^ 53) : Represents (.ofNat n) n := by
  have hofNat : Float.ofNat n = n.toUInt64.toFloat * .ofBits 0x3FF0000000000000 := by
    change Float.ofScientific n false 0 = _
    rw [Float.ofScientific, dif_pos ⟨h, by decide⟩]
    rfl
  have hword : n.toUInt64.toNat = n := by
    rw [Nat.toUInt64, UInt64.toNat_ofNat']
    omega
  have hcast : Represents n.toUInt64.toFloat n := by
    apply Exact.represents_pack
    apply Exact.normalize
    · rw [zpow_zero, mul_one, hword]
    · omega
  have hproduct := hcast.mul ofBits_one (by omega)
  rwa [mul_one, ← hofNat] at hproduct

end Represents

end Calculator.Binary64
