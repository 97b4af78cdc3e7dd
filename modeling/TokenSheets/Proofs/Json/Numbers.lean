import TokenSheets.Proofs.Decimal.Doubles
import TokenSheets.Proofs.Json.Numerals

/-!
# Doubles are read back

The reader makes a double of the digits of a number and scales it by a power of ten. It takes the
text of every double; where digits and power are doubles themselves only the scaling is rounded, so
that the same double comes back. Otherwise it may be a neighbour.

* `exists_scaled?`: no text of a double is out of range;
* `reread`, `number_doubleChars`: the double that is read;
* `reread_of_isShort`: short numbers come back as they are;
* `doubleChars_inj`: doubles with the same text are the same.
-/

namespace TokenSheets.Json

open Decimal

/-! ### The text of a double -/

theorem exists_doubleChars {x : Float} {a : Binary}
    (h : (Double.classify x).magnitude = .finite a) :
    ∃ n : Numeral, n.IsProper ∧ a.Rounds n.decimal.value ∧
      documentLayout.magnitude a = n.chars ∧
      doubleChars x = signChars (Double.classify x).negative ++ n.chars := by
  obtain ⟨n, hn, hrounds, hchars⟩ := exists_numeral a
  refine ⟨n, hn, hrounds, hchars, ?_⟩
  rw [doubleChars, h]
  simp only [Layout.write, h, hchars]
  rfl

/-! ### No double is out of range -/

theorem exists_stands {n k : ℕ} (hn : 0 < n) (hk : k ≤ 308)
    (hlt : (n : ℚ) * 10 ^ k < (2 ^ 53 - 1 / 2) * 2 ^ (971 : ℤ)) :
    ∃ c : Binary, Stands (Float.ofScientific n false k) c ∧ c.Rounds (n * 10 ^ k) := by
  obtain ⟨c, hc, hrounds, hstands⟩ := (isRounded_ofScientific hn (by omega : k ≤ 2048)).stands
  exact ⟨c, hstands (hc.le_of_rounds hrounds hlt), hrounds⟩

theorem upper_lt {a : Binary} (ha : a.IsDouble) (hq : a.q ≤ 971)
    (h : a.q < 971 ∨ a.m + 3 ≤ 2 ^ 53) : a.upper ≤ (2 ^ 53 - 5 / 2) * 2 ^ (971 : ℤ) := by
  have hm : (a.m : ℚ) + 1 ≤ 2 ^ 53 := by exact_mod_cast ha.lt
  rcases h with hlt | hle
  · have hpow : (2 : ℚ) ^ (a.q + 1) ≤ 2 ^ (971 : ℤ) := zpow_le_zpow_right₀ (by norm_num) (by omega)
    rw [zpow_add_one₀ (by norm_num)] at hpow
    have hpos : (0 : ℚ) < 2 ^ a.q := by positivity
    calc a.upper ≤ 2 ^ 53 * 2 ^ a.q := mul_le_mul_of_nonneg_right (by linarith) hpos.le
      _ = 2 ^ 52 * (2 ^ a.q * 2) := by ring
      _ ≤ 2 ^ 52 * 2 ^ (971 : ℤ) := by gcongr
      _ ≤ (2 ^ 53 - 5 / 2) * 2 ^ (971 : ℤ) := by gcongr; norm_num
  · have hpow : (2 : ℚ) ^ a.q ≤ 2 ^ (971 : ℤ) := zpow_le_zpow_right₀ (by norm_num) hq
    have hm3 : (a.m : ℚ) + 3 ≤ 2 ^ 53 := by exact_mod_cast hle
    exact mul_le_mul (by linarith) hpow (by positivity) (by norm_num)

theorem ten_pow_lt {k : ℕ} (hk : k ≤ 308) : (10 : ℚ) ^ k < (2 ^ 53 - 1 / 2) * 2 ^ (971 : ℤ) := by
  have hnat : 2 * 10 ^ 308 < 18014398509481983 * 2 ^ 971 := by decide +kernel
  have hcast : ∀ t p : ℕ, 2 * t < 18014398509481983 * p → (2 : ℚ) * t < 18014398509481983 * p :=
    fun t p h => by exact_mod_cast h
  have hpowers := hcast (10 ^ 308) (2 ^ 971) hnat
  have hle : (10 : ℚ) ^ k ≤ 10 ^ 308 := pow_le_pow_right₀ (by norm_num) hk
  rw [show (971 : ℤ) = ((971 : ℕ) : ℤ) from rfl, zpow_natCast]
  simp only [Nat.cast_pow, Nat.cast_ofNat] at hpowers
  generalize (2 : ℚ) ^ 971 = p at *
  generalize (10 : ℚ) ^ 308 = t at *
  linarith

theorem lt_ten_pow : (2 ^ 53 - 5 / 2) * (2 : ℚ) ^ (971 : ℤ) < 10 ^ 309 := by
  have hnat : 9007199254740992 * 2 ^ 971 < 10 ^ 309 := by decide +kernel
  have hcast : ∀ t p : ℕ, 9007199254740992 * p < t → (9007199254740992 : ℚ) * p < t :=
    fun t p h => by exact_mod_cast h
  have hpowers := hcast (10 ^ 309) (2 ^ 971) hnat
  have hpos : (0 : ℚ) < 2 ^ 971 := by positivity
  rw [show (971 : ℤ) = ((971 : ℕ) : ℤ) from rfl, zpow_natCast]
  simp only [Nat.cast_pow, Nat.cast_ofNat] at hpowers
  generalize (2 : ℚ) ^ 971 = p at *
  generalize (10 : ℚ) ^ 309 = t at *
  linarith

theorem exists_stands_powerOfTen {k : ℕ} (hk : k ≤ 308) :
    ∃ b : Binary, Stands (powerOfTen k) b ∧ b.Rounds (10 ^ k) ∧ 2 ^ 52 ≤ b.m := by
  obtain ⟨b, hstands, hb⟩ := exists_stands one_pos hk (by simpa using ten_pow_lt hk)
  rw [Nat.cast_one, one_mul] at hb
  exact ⟨b, hstands, hb, hstands.isDouble.le_of_one_le hb (one_le_pow₀ (by norm_num))⟩

theorem exists_stands_ofNat {n : ℕ} (hn : 0 < n) (hlt : n < 2 ^ 64) :
    ∃ a : Binary, Stands (Float.ofNat n) a ∧ a.Rounds n ∧ 2 ^ 52 ≤ a.m := by
  have hsmall : (n : ℚ) < 10 ^ 20 := by exact_mod_cast (by omega : n < 10 ^ 20)
  obtain ⟨a, hstands, ha⟩ := exists_stands hn (Nat.zero_le 308) (by
    rw [pow_zero, mul_one]
    exact hsmall.trans (ten_pow_lt (by norm_num)))
  rw [pow_zero, mul_one] at ha
  exact ⟨a, hstands, ha, hstands.isDouble.le_of_one_le ha (by exact_mod_cast hn)⟩

/-- A significand of 64 bits and a power of ten below the end of the greatest double have a product
that is in the range of doubles, however both are rounded. -/
theorem product_lt {s e v w : ℚ} (hs : v * (2 ^ 53 - 1) ≤ s * 2 ^ 53)
    (he : w * (2 ^ 53 - 1) ≤ e * 2 ^ 53) (hw : 0 ≤ w) (hs0 : 0 ≤ s)
    (hlt : s * e ≤ (2 ^ 53 - 5 / 2) * 2 ^ (971 : ℤ)) :
    v * w < (2 ^ 53 - 1 / 2) * 2 ^ (971 : ℤ) := by
  have hpos : (0 : ℚ) < 2 ^ (971 : ℤ) := by positivity
  generalize (2 : ℚ) ^ (971 : ℤ) = p at *
  have hproduct : v * w * ((2 ^ 53 - 1) * (2 ^ 53 - 1)) ≤ s * e * (2 ^ 53 * 2 ^ 53) :=
    calc v * w * ((2 ^ 53 - 1) * (2 ^ 53 - 1))
        = (v * (2 ^ 53 - 1)) * (w * (2 ^ 53 - 1)) := by ring
      _ ≤ (s * 2 ^ 53) * (e * 2 ^ 53) :=
        mul_le_mul hs he (mul_nonneg hw (by norm_num)) (mul_nonneg hs0 (by norm_num))
      _ = s * e * (2 ^ 53 * 2 ^ 53) := by ring
  norm_num at hproduct hlt ⊢
  linarith

theorem isInf_mul_powerOfTen {s k : ℕ} (hs : s < 2 ^ 64) (hk : k ≤ 308)
    (hle : (s : ℚ) * 10 ^ k ≤ (2 ^ 53 - 5 / 2) * 2 ^ (971 : ℤ)) :
    (Float.ofNat s * powerOfTen k).isInf = false := by
  obtain ⟨b, hb, hpower, hbm⟩ := exists_stands_powerOfTen hk
  rcases Nat.eq_zero_or_pos s with rfl | hpos
  · have hzero : Stands (Float.ofNat 0) ⟨0, -1074⟩ := rfl
    obtain ⟨d, hd, hproduct, hstands⟩ := hzero.mul hb
    refine (hstands (hd.le_of_rounds hproduct ?_)).isInf
    rw [Binary.value_of_zero rfl, zero_mul]
    positivity
  · obtain ⟨c, hc, hsignificand, hcm⟩ := exists_stands_ofNat hpos hs
    obtain ⟨d, hd, hproduct, hstands⟩ := hc.mul hb
    have hrange := product_lt (Binary.value_le_of_rounds hcm hsignificand)
      (Binary.value_le_of_rounds hbm hpower) (by unfold Binary.value; positivity)
      (Nat.cast_nonneg _) hle
    exact (hstands (hd.le_of_rounds hproduct hrange)).isInf

theorem exists_scaled?_of_le {s : ℕ} {e : Int} (hs : s < 2 ^ 64)
    (hle : (s : ℚ) * 10 ^ e ≤ (2 ^ 53 - 5 / 2) * 2 ^ (971 : ℤ)) : ∃ y, scaled? s e = some y := by
  rw [scaled?]
  dsimp only
  split_ifs with hneg hle308 hinf hzero
  · exact ⟨_, rfl⟩
  · have hexponent : (10 : ℚ) ^ e = 10 ^ e.natAbs := by
      rw [← zpow_natCast]
      congr 1
      omega
    rw [hexponent] at hle
    rw [isInf_mul_powerOfTen hs (by omega) hle] at hinf
    cases hinf
  · exact ⟨_, rfl⟩
  · exact ⟨_, rfl⟩
  · -- what is written would be greater than every double
    have hone : (1 : ℚ) ≤ s := by exact_mod_cast Nat.one_le_iff_ne_zero.mpr hzero
    have hpow : (10 : ℚ) ^ 309 ≤ 10 ^ e := by
      rw [← zpow_natCast]
      exact zpow_le_zpow_right₀ (by norm_num) (by push_cast; omega)
    have hge : (10 : ℚ) ^ 309 ≤ s * 10 ^ e :=
      hpow.trans (le_mul_of_one_le_left (by positivity) hone)
    exact absurd (hge.trans hle) (not_le.mpr lt_ten_pow)

theorem exists_scaled?_of_greatest {m : ℕ} (hm : m = 2 ^ 53 - 1 ∨ m = 2 ^ 53 - 2) {n : Numeral}
    (hn : n.IsProper) (hchars : documentLayout.magnitude ⟨m, 971⟩ = n.chars) :
    ∃ y, scaled? (gathered n).1 (scale n) = some y := by
  have hread : (number (documentLayout.magnitude ⟨m, 971⟩)).isOk = true := by
    rcases hm with rfl | rfl
    · decide +kernel
    · decide +kernel
  have hnumber := number_signChars false hn (Text.stops_nil : Ends [])
  rw [signChars, if_neg (by simp), List.nil_append, List.append_nil, ← hchars] at hnumber
  rw [hnumber, signed] at hread
  rcases hscaled : scaled? (gathered n).1 (scale n) with _ | y
  · rw [hscaled] at hread
    cases hread
  · exact ⟨y, rfl⟩

/-- **No numeral of a double is out of range.** -/
theorem exists_scaled? {a : Binary} (ha : a.IsDouble) (hq : a.q ≤ 971) {n : Numeral}
    (hn : n.IsProper) (hrounds : a.Rounds n.decimal.value)
    (hchars : documentLayout.magnitude a = n.chars) :
    ∃ y, scaled? (gathered n).1 (scale n) = some y := by
  have hlt : (gathered n).1 < 2 ^ 64 := by
    have hwhole := ofDigits_lt hn.whole
    have hpow : 10 ^ n.whole.length ≤ 10 ^ 16 := Nat.pow_le_pow_right (by decide) hn.short
    exact gather_lt n.fraction (by omega)
  by_cases htop : a.q < 971 ∨ a.m + 3 ≤ 2 ^ 53
  · exact exists_scaled?_of_le hlt
      (((gathered_le n).trans hrounds.le_upper).trans (upper_lt ha hq htop))
  · obtain ⟨m, q⟩ := a
    have hm := ha.lt
    obtain rfl : q = 971 := by
      dsimp only at hq htop
      omega
    refine exists_scaled?_of_greatest ?_ hn hchars
    dsimp only at hm htop
    omega

/-! ### Short numbers come back as they are -/

theorem exists_stands_exact {k : ℕ} (hk : k ≤ 22) :
    ∃ b : Binary, Stands (powerOfTen k) b ∧ b.value = 10 ^ k ∧ 2 ^ 52 ≤ b.m := by
  obtain ⟨b, hb, hrounds, hm⟩ := exists_stands_powerOfTen (k := k) (by omega)
  obtain ⟨c, hc, hvalue⟩ := exists_stands_power ⟨k, by
    show k < 23
    omega⟩
  obtain rfl := Binary.eq_of_rounds hb.isDouble hc.isDouble hrounds (hvalue ▸ c.rounds_value)
  exact ⟨b, hb, hvalue, hm⟩

theorem stands_of_exact {a : Binary} (ha : a.IsDouble) (hq : a.q ≤ 971) {s : ℕ} {e : Int}
    (hs : s < 2 ^ 53) (he : e.natAbs ≤ 22) (h : a.Rounds (s * 10 ^ e)) :
    Stands (if e < 0 then Float.ofNat s / powerOfTen e.natAbs
      else Float.ofNat s * powerOfTen e.natAbs) a := by
  obtain ⟨b, hb, hpower, hbm⟩ := exists_stands_exact he
  obtain ⟨c, hc, hvalue⟩ : ∃ c, Stands (Float.ofNat s) c ∧ c.value = s := by
    rcases Nat.eq_zero_or_pos s with rfl | hpos
    · exact ⟨⟨0, -1074⟩, rfl, by simp [Binary.value]⟩
    · obtain ⟨c, hc, hsignificand, -⟩ := exists_stands_ofNat hpos (by omega)
      exact ⟨c, hc, value_of_rounds hpos hs hc.isDouble hsignificand⟩
  split_ifs with hneg
  · obtain ⟨d, hd, hquotient, hstands⟩ := hc.div hb (by omega)
    have hexact : c.value / b.value = s * 10 ^ e := by
      rw [hvalue, hpower, show e = -(e.natAbs : ℤ) by omega, zpow_neg, zpow_natCast,
        Int.natAbs_neg, Int.natAbs_natCast, div_eq_mul_inv]
    rw [hexact] at hquotient
    obtain rfl := Binary.eq_of_rounds hd ha hquotient h
    exact hstands hq
  · obtain ⟨d, hd, hproduct, hstands⟩ := hc.mul hb
    have hexact : c.value * b.value = s * 10 ^ e := by
      rw [hvalue, hpower, show e = (e.natAbs : ℤ) by omega, zpow_natCast, Int.natAbs_natCast]
    rw [hexact] at hproduct
    obtain rfl := Binary.eq_of_rounds hd ha hproduct h
    exact hstands hq

/-- **A significand and a power of ten that are doubles** give the double that their product or
quotient rounds to. -/
theorem scaled?_of_exact {a : Binary} (ha : a.IsDouble) (hq : a.q ≤ 971) {s : ℕ} {e : Int}
    (hs : s < 2 ^ 53) (he : e.natAbs ≤ 22) (h : a.Rounds (s * 10 ^ e)) :
    ∃ y, scaled? s e = some y ∧ Stands y a := by
  have hresult := stands_of_exact ha hq hs he h
  rw [scaled?]
  dsimp only
  split_ifs at hresult ⊢ with hneg hle hinf
  · refine ⟨_, rfl, ?_⟩
    rw [scaleDown, if_pos (by omega)]
    exact hresult
  · rw [hresult.isInf] at hinf
    cases hinf
  · exact ⟨_, rfl, hresult⟩
  all_goals omega

/-! ### The double that is read -/

/-- **The double that the reader makes of the text of a double.** -/
def reread (x : Float) : Float :=
  match number (doubleChars x) with
  | .ok (.double y, _) => y
  | _ => x

/-- **The text of a finite double is read**, whatever stands behind it that does not go on with a
number. -/
theorem number_doubleChars {x : Float} (hx : x.isFinite = true) {rest : List Char}
    (h : Ends rest) : number (doubleChars x ++ rest) = .ok (.double (reread x), rest) := by
  obtain ⟨a, ha⟩ := isFinite_iff.mp hx
  obtain ⟨hdouble, hq⟩ := isDouble_of_classify ha
  obtain ⟨n, hn, hrounds, hmagnitude, hchars⟩ := exists_doubleChars ha
  obtain ⟨y, hy⟩ := exists_scaled? hdouble hq hn hrounds hmagnitude
  have hread : ∀ rest, Ends rest → number (doubleChars x ++ rest) =
      .ok (.double (if (Double.classify x).negative then -y else y), rest) := by
    intro rest h
    rw [hchars, number_signChars _ hn h, signed, hy]
    rfl
  have hself := hread [] Text.stops_nil
  rw [List.append_nil] at hself
  rw [hread rest h, reread, hself]

/-- **Short numbers**: the digits of the text make a significand of 53 bits, and the last of them
stands at most 22 places from the point. -/
def IsShort (x : Float) : Prop :=
  ∃ n : Numeral, n.IsProper ∧ doubleChars x = signChars (Double.classify x).negative ++ n.chars ∧
    n.decimal.digits < 2 ^ 53 ∧ n.decimal.exponent.natAbs ≤ 22

theorem doubleChars_inj {x y : Float} (hx : x.isFinite = true) (hy : y.isFinite = true)
    (h : doubleChars x = doubleChars y) : x = y := by
  obtain ⟨a, ha⟩ := isFinite_iff.mp hx
  obtain ⟨b, hb⟩ := isFinite_iff.mp hy
  obtain ⟨n, hn, hnrounds, -, hnchars⟩ := exists_doubleChars ha
  obtain ⟨m, hm, hmrounds, -, hmchars⟩ := exists_doubleChars hb
  obtain ⟨hsign, rfl⟩ := signChars_append_inj hn hm (hnchars ▸ hmchars ▸ h)
  obtain rfl := Binary.eq_of_rounds (isDouble_of_classify ha).1 (isDouble_of_classify hb).1
    hnrounds hmrounds
  exact eq_of_classify ha ((Double.mk.injEq ..).mpr ⟨hsign, ha.trans hb.symm⟩)

/-- **A short number comes back as it is.** -/
theorem reread_of_isShort {x : Float} (hx : x.isFinite = true) (h : IsShort x) : reread x = x := by
  obtain ⟨a, ha⟩ := isFinite_iff.mp hx
  obtain ⟨hdouble, hq⟩ := isDouble_of_classify ha
  obtain ⟨n, hn, hchars, hdigits, hexponent⟩ := h
  obtain ⟨m, hm, hrounds, -, hmchars⟩ := exists_doubleChars ha
  obtain ⟨-, rfl⟩ := signChars_append_inj hn hm (hchars ▸ hmchars)
  obtain ⟨hgathered, hscale⟩ := gathered_of_lt (hdigits.trans (by norm_num))
  obtain ⟨y, hy, hstands⟩ := scaled?_of_exact hdouble hq hdigits hexponent hrounds
  have hread : number (doubleChars x) =
      .ok (.double (if (Double.classify x).negative then -y else y), []) := by
    have hnumber := number_signChars (Double.classify x).negative hn (Text.stops_nil : Ends [])
    rw [List.append_nil] at hnumber
    rw [hchars, hnumber, hgathered, hscale, signed, hy]
    rfl
  rw [reread, hread]
  refine (eq_of_classify ha ?_).symm
  have hclass : Double.classify x = ⟨(Double.classify x).negative, .finite a⟩ := by rw [← ha]
  dsimp only
  rcases hnegative : (Double.classify x).negative
  · rw [hclass, hnegative]
    exact hstands.symm
  · rw [hclass, hnegative]
    exact hstands.neg.symm

theorem exists_cons_doubleChars {x : Float} (hx : x.isFinite = true) :
    ∃ c cs, doubleChars x = c :: cs ∧ (c = '-' ∨ c.isDigit = true) := by
  obtain ⟨a, ha⟩ := isFinite_iff.mp hx
  obtain ⟨n, hn, -, -, hchars⟩ := exists_doubleChars ha
  obtain ⟨d, ds, hwhole⟩ := List.exists_cons_of_ne_nil hn.ne_nil
  rw [hchars, Numeral.chars, hwhole]
  rcases (Double.classify x).negative
  · exact ⟨d, _, rfl, .inr (hn.whole d (by simp [hwhole]))⟩
  · exact ⟨'-', _, rfl, .inl rfl⟩

end TokenSheets.Json
