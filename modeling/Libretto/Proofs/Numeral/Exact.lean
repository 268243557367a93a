/-
Which numbers have a text.

A finite value of a binary format is a significand times a power of two, and rounding such a value
to a format that holds it changes nothing.  So a decimal that says a single-precision value exactly
is read as that value, though it is rounded twice.

* **`BinaryFormat.units_place`**, **`place_units`** — the rank of a value, and the value of a rank;
* **`nearest_exact`** — a value of the format is rounded to its own rank;
* **`Embeds`**, **`Embeds.ofRank_ofDecimal`** — a format within a wider one, and the two roundings
  of an exact decimal;
* **`Single.parse?_exactText`** — a finite value is read from its exact decimal;
* **`Single.exists_text_iff`** — of the NaNs only the two that reading produces have a text, and all
  other numbers have one.
-/
import Libretto.Numeral.Single
import Mathlib.Data.List.TakeDrop
import Mathlib.Tactic.Ring

namespace Libretto.Numeral

theorem roundDiv_mul {den : Nat} (positive : 0 < den) (k : Nat) : roundDiv (den * k) den = k := by
  have remainder : den * k % den = 0 := Nat.mul_mod_right den k
  rw [roundDiv, Nat.mul_div_cancel_left k positive, remainder]
  exact if_pos positive

namespace BinaryFormat

variable {f : BinaryFormat} {value den : Nat}

/-- The distance of neighbours near a value of so many units, as a power of two. -/
def step (f : BinaryFormat) (value : Nat) : Nat :=
  value.log2 - f.fractionBits

/-- The rank of a value of so many units. -/
def place (f : BinaryFormat) (value : Nat) : Nat :=
  f.step value * 2 ^ f.fractionBits + value / 2 ^ f.step value

/-- The format holds a value, but perhaps for its size. -/
def Holds (f : BinaryFormat) (value : Nat) : Prop :=
  2 ^ f.step value ∣ value

/-- A significand with a bit more than the fraction, at any power of two. -/
theorem holds_of_short {significand : Nat} (short : significand < 2 ^ (f.fractionBits + 1))
    (exponent : Nat) : f.Holds (significand * 2 ^ exponent) := by
  by_cases zero : significand = 0
  · rw [zero, Nat.zero_mul]
    exact Nat.dvd_zero _
  · have bound : significand * 2 ^ exponent < 2 ^ (f.fractionBits + 1 + exponent) := by
      rw [Nat.pow_add _ _ exponent]
      exact Nat.mul_lt_mul_of_pos_right short (Nat.two_pow_pos exponent)
    have nonzero : significand * 2 ^ exponent ≠ 0 :=
      Nat.mul_ne_zero zero (Nat.ne_of_gt (Nat.two_pow_pos exponent))
    have log := (Nat.log2_lt nonzero).2 bound
    refine Nat.dvd_trans (Nat.pow_dvd_pow 2 ?_) (Nat.dvd_mul_left _ significand)
    show (significand * 2 ^ exponent).log2 - f.fractionBits ≤ exponent
    omega

/-- A value of the format is rounded to its own rank. -/
theorem nearest_exact (holds : f.Holds value) (positive : 0 < den) :
    f.nearest (value * den) den = min f.infinity (f.place value) := by
  have whole : value * den / den = value := Nat.mul_div_cancel value positive
  have product : value * den = den * 2 ^ f.step value * (value / 2 ^ f.step value) := by
    rw [Nat.mul_assoc, Nat.mul_div_cancel' holds, Nat.mul_comm]
  have rounded : roundDiv (value * den) (den * 2 ^ f.step value) = value / 2 ^ f.step value := by
    rw [product]
    exact roundDiv_mul (Nat.mul_pos positive (Nat.two_pow_pos _)) _
  rw [nearest, whole]
  show min f.infinity (f.step value * 2 ^ f.fractionBits +
    roundDiv (value * den) (den * 2 ^ f.step value)) = _
  rw [rounded, place]

theorem step_of_small (small : value < 2 ^ f.fractionBits) : f.step value = 0 := by
  rw [step, Nat.sub_eq_zero_iff_le]
  by_cases zero : value = 0
  · rw [zero]
    exact Nat.zero_le _
  · exact Nat.le_of_lt ((Nat.log2_lt zero).2 small)

theorem place_of_small (small : value < 2 ^ f.fractionBits) : f.place value = value := by
  rw [place, step_of_small small, Nat.zero_mul, Nat.zero_add, Nat.pow_zero, Nat.div_one]

theorem units_of_small {rank : Nat} (small : rank < 2 ^ f.fractionBits) : f.units rank = rank :=
  if_pos (Nat.div_eq_of_lt small)

/-- Above the first binade, a rank is a power of two and a significand with its leading bit. -/
theorem units_of_large {rank : Nat} (large : 2 ^ f.fractionBits ≤ rank) :
    f.units rank = (2 ^ f.fractionBits + rank % 2 ^ f.fractionBits) *
      2 ^ (rank / 2 ^ f.fractionBits - 1) := by
  have binade : rank / 2 ^ f.fractionBits ≠ 0 :=
    Nat.ne_of_gt (Nat.div_pos large (Nat.two_pow_pos _))
  exact if_neg binade

/-- The leading bit of a value counts its distance of neighbours. -/
theorem step_of_large {significand : Nat} (normal : 2 ^ f.fractionBits ≤ significand)
    (short : significand < 2 ^ (f.fractionBits + 1)) (exponent : Nat) :
    f.step (significand * 2 ^ exponent) = exponent := by
  have positive : 0 < significand := Nat.lt_of_lt_of_le (Nat.two_pow_pos _) normal
  have nonzero : significand * 2 ^ exponent ≠ 0 :=
    Nat.ne_of_gt (Nat.mul_pos positive (Nat.two_pow_pos exponent))
  have log : (significand * 2 ^ exponent).log2 = f.fractionBits + exponent := by
    rw [Nat.log2_eq_iff nonzero]
    constructor
    · rw [Nat.pow_add]
      exact Nat.mul_le_mul_right _ normal
    · rw [Nat.add_right_comm, Nat.pow_add _ _ exponent]
      exact Nat.mul_lt_mul_of_pos_right short (Nat.two_pow_pos exponent)
  rw [step, log, Nat.add_sub_cancel_left]

/-- The significand of a value above the first binade has its leading bit. -/
theorem significand_bounds (large : 2 ^ f.fractionBits ≤ value) :
    2 ^ f.fractionBits ≤ value / 2 ^ f.step value ∧
      value / 2 ^ f.step value < 2 ^ (f.fractionBits + 1) := by
  have nonzero : value ≠ 0 := Nat.ne_of_gt (Nat.lt_of_lt_of_le (Nat.two_pow_pos _) large)
  have log : f.step value + f.fractionBits = value.log2 :=
    Nat.sub_add_cancel ((Nat.le_log2 nonzero).2 large)
  have above := Nat.lt_log2_self (n := value)
  constructor
  · rw [Nat.le_div_iff_mul_le (Nat.two_pow_pos _), ← Nat.pow_add, Nat.add_comm, log]
    exact Nat.log2_self_le nonzero
  · rw [Nat.div_lt_iff_lt_mul (Nat.two_pow_pos _), ← Nat.pow_add,
      show f.fractionBits + 1 + f.step value = value.log2 + 1 by omega]
    exact above

/-- The value at the rank of a value is that value. -/
theorem units_place (holds : f.Holds value) : f.units (f.place value) = value := by
  by_cases large : 2 ^ f.fractionBits ≤ value
  · obtain ⟨normal, short⟩ := significand_bounds large
    rw [Nat.pow_succ] at short
    have leading : value / 2 ^ f.step value / 2 ^ f.fractionBits = 1 :=
      Nat.div_eq_of_lt_le (by omega) (by omega)
    have fraction := Nat.div_add_mod (value / 2 ^ f.step value) (2 ^ f.fractionBits)
    rw [leading, Nat.mul_one] at fraction
    have enough : 2 ^ f.fractionBits ≤ f.place value :=
      Nat.le_trans normal (Nat.le_add_left _ _)
    rw [units_of_large enough, place, Nat.mul_comm (f.step value),
      Nat.mul_add_div (Nat.two_pow_pos _), leading, Nat.add_sub_cancel, Nat.mul_add_mod, fraction,
      Nat.div_mul_cancel holds]
  · have small := Nat.not_le.1 large
    rw [place_of_small small, units_of_small small]

/-- The rank of the value at a rank is that rank. -/
theorem place_units (f : BinaryFormat) (rank : Nat) : f.place (f.units rank) = rank := by
  by_cases large : 2 ^ f.fractionBits ≤ rank
  · have binade : 0 < rank / 2 ^ f.fractionBits := Nat.div_pos large (Nat.two_pow_pos _)
    have fraction := Nat.mod_lt rank (Nat.two_pow_pos f.fractionBits)
    have short : 2 ^ f.fractionBits + rank % 2 ^ f.fractionBits < 2 ^ (f.fractionBits + 1) := by
      rw [Nat.pow_succ]
      omega
    have parts := Nat.div_add_mod rank (2 ^ f.fractionBits)
    rw [units_of_large large, place, step_of_large (Nat.le_add_right _ _) short,
      Nat.mul_div_cancel _ (Nat.two_pow_pos _), ← Nat.add_assoc, ← Nat.succ_mul,
      Nat.succ_eq_add_one, Nat.sub_add_cancel binade, Nat.mul_comm, parts]
  · have small := Nat.not_le.1 large
    rw [units_of_small small, place_of_small small]

/-- A value is a significand, with a bit more than the fraction, times a power of two. -/
theorem exists_short (f : BinaryFormat) (rank : Nat) :
    ∃ significand exponent, f.units rank = significand * 2 ^ exponent ∧
      significand < 2 ^ (f.fractionBits + 1) ∧ exponent ≤ rank / 2 ^ f.fractionBits - 1 := by
  by_cases large : 2 ^ f.fractionBits ≤ rank
  · refine ⟨_, _, units_of_large large, ?_, Nat.le_refl _⟩
    have fraction := Nat.mod_lt rank (Nat.two_pow_pos f.fractionBits)
    rw [Nat.pow_succ]
    omega
  · have small := Nat.not_le.1 large
    refine ⟨rank, 0, by rw [units_of_small small, Nat.pow_zero, Nat.mul_one], ?_, Nat.zero_le _⟩
    rw [Nat.pow_succ]
    omega

theorem holds_units (f : BinaryFormat) (rank : Nat) : f.Holds (f.units rank) := by
  obtain ⟨significand, exponent, split, short, -⟩ := f.exists_short rank
  rw [split]
  exact holds_of_short short exponent

/-- A value below so many binades. -/
theorem units_lt {rank binades : Nat} (bound : rank < (binades + 1) * 2 ^ f.fractionBits)
    (positive : 0 < binades) : f.units rank < 2 ^ (f.fractionBits + binades) := by
  obtain ⟨significand, exponent, split, short, power⟩ := f.exists_short rank
  have binade : rank / 2 ^ f.fractionBits < binades + 1 :=
    (Nat.div_lt_iff_lt_mul (Nat.two_pow_pos _)).2 bound
  calc f.units rank
      = significand * 2 ^ exponent := split
    _ < 2 ^ (f.fractionBits + 1) * 2 ^ exponent :=
        Nat.mul_lt_mul_of_pos_right short (Nat.two_pow_pos exponent)
    _ = 2 ^ (f.fractionBits + 1 + exponent) := (Nat.pow_add ..).symm
    _ ≤ 2 ^ (f.fractionBits + binades) := Nat.pow_le_pow_right (Nat.succ_pos 1) (by omega)

/-- A value is at a lower place than so many binades. -/
theorem place_lt {bits : Nat} (enough : f.fractionBits < bits) (bound : value < 2 ^ bits) :
    f.place value < (bits - f.fractionBits + 1) * 2 ^ f.fractionBits := by
  by_cases large : 2 ^ f.fractionBits ≤ value
  · obtain ⟨-, short⟩ := significand_bounds large
    have nonzero : value ≠ 0 := Nat.ne_of_gt (Nat.lt_of_lt_of_le (Nat.two_pow_pos _) large)
    have log := (Nat.log2_lt nonzero).2 bound
    have few : f.step value + 2 ≤ bits - f.fractionBits + 1 := by
      rw [step]
      omega
    calc f.place value
        < f.step value * 2 ^ f.fractionBits + 2 ^ (f.fractionBits + 1) :=
          Nat.add_lt_add_left short _
      _ = (f.step value + 2) * 2 ^ f.fractionBits := by ring
      _ ≤ _ := Nat.mul_le_mul_right _ few
  · have small := Nat.not_le.1 large
    rw [place_of_small small]
    exact Nat.lt_of_lt_of_le small (Nat.le_mul_of_pos_left _ (Nat.succ_pos _))

/-! ### Two roundings -/

theorem nearest_le (f : BinaryFormat) (num den : Nat) : f.nearest num den ≤ f.infinity :=
  Nat.min_le_left ..

theorem ofRank_le (f g : BinaryFormat) (rank : Nat) : f.ofRank g rank ≤ f.infinity := by
  rw [ofRank]
  split
  · exact Nat.le_refl _
  · exact f.nearest_le _ _

/-- The finite values of a format, of which there are so many binades, are finite values of a wider
one, whose units are smaller by a power of two. -/
structure Embeds (f g : BinaryFormat) (binades extra : Nat) : Prop where
  fraction : f.fractionBits ≤ g.fractionBits
  shift : g.shift = f.shift + extra
  some : 0 < binades
  finite : f.infinity ≤ (binades + 1) * 2 ^ f.fractionBits
  enough : g.fractionBits < f.fractionBits + binades + extra
  room : (f.fractionBits + binades + extra - g.fractionBits + 1) * 2 ^ g.fractionBits ≤ g.infinity

theorem single_embeds : Embeds single double 254 925 :=
  ⟨by decide, rfl, by decide, by decide, by decide, by decide⟩

namespace Embeds

variable {g : BinaryFormat} {binades extra rank : Nat}

theorem holds (h : Embeds f g binades extra) (rank : Nat) : g.Holds (f.units rank * 2 ^ extra) := by
  obtain ⟨significand, exponent, split, short, -⟩ := f.exists_short rank
  have bits : f.fractionBits + 1 ≤ g.fractionBits + 1 := Nat.succ_le_succ h.fraction
  rw [split, Nat.mul_assoc, ← Nat.pow_add]
  exact holds_of_short (Nat.lt_of_lt_of_le short (Nat.pow_le_pow_right (Nat.succ_pos 1) bits)) _

theorem place_lt (h : Embeds f g binades extra) (finite : rank < f.infinity) :
    g.place (f.units rank * 2 ^ extra) < g.infinity := by
  have bound : f.units rank * 2 ^ extra < 2 ^ (f.fractionBits + binades + extra) := by
    rw [Nat.pow_add _ _ extra]
    exact Nat.mul_lt_mul_of_pos_right (units_lt (Nat.lt_of_lt_of_le finite h.finite) h.some)
      (Nat.two_pow_pos extra)
  exact Nat.lt_of_lt_of_le (BinaryFormat.place_lt h.enough bound) h.room

/-- A value that was widened is narrowed to what it was. -/
theorem ofRank_place (h : Embeds f g binades extra) (finite : rank < f.infinity) :
    f.ofRank g (g.place (f.units rank * 2 ^ extra)) = rank := by
  rw [ofRank, if_neg (Nat.not_le.2 (h.place_lt finite)), units_place (h.holds rank)]
  show f.nearest (f.units rank * 2 ^ extra * 2 ^ f.shift) (2 ^ g.shift) = rank
  rw [Nat.mul_assoc, ← Nat.pow_add, Nat.add_comm extra, ← h.shift,
    nearest_exact (f.holds_units rank) (Nat.two_pow_pos _), place_units]
  exact Nat.min_eq_right (Nat.le_of_lt finite)

/-- A decimal that says a finite value exactly is read as that value also if it is rounded to the
wider format first. -/
theorem ofRank_ofDecimal (h : Embeds f g binades extra) (finite : rank < f.infinity) {e : Nat}
    (shift : f.shift = e + 1) :
    f.ofRank g (g.ofDecimal (f.units rank * 5 ^ f.shift) (.negSucc e)) = rank := by
  have scaled : f.units rank * 5 ^ f.shift * 2 ^ g.shift =
      f.units rank * 2 ^ extra * 10 ^ f.shift := by
    rw [h.shift, Nat.pow_add, show 10 = 5 * 2 from rfl, Nat.mul_pow]
    ring
  have first : g.ofDecimal (f.units rank * 5 ^ f.shift) (.negSucc e) =
      g.place (f.units rank * 2 ^ extra) := by
    show g.nearest (f.units rank * 5 ^ f.shift * 2 ^ g.shift) (10 ^ (e + 1)) = _
    rw [← shift, scaled, nearest_exact (h.holds rank) (Nat.pow_pos (Nat.succ_pos 9))]
    exact Nat.min_eq_right (Nat.le_of_lt (h.place_lt finite))
  rw [first, h.ofRank_place finite]

end Embeds

end BinaryFormat

/-! ### Exact decimals in text -/

/-- The number that the digits of a number write is that number. -/
theorem ofDigits_toDigits (n : Nat) : ofDigits (Nat.toDigits 10 n) = n := by
  have fold : ofDigits (Nat.toDigits 10 n) = Nat.ofDigitChars 10 (Nat.toDigits 10 n) 0 :=
    Nat.ofDigitChars_eq_foldl.symm
  rw [fold, Nat.ofDigitChars_ten_toDigits]

/-- The digits of a number end in front of a character that is none. -/
theorem spanDigits_toDigits (n : Nat) {c : Char} (other : c.isDigit = false) (rest : List Char) :
    spanDigits (Nat.toDigits 10 n ++ c :: rest) = (Nat.toDigits 10 n, c :: rest) := by
  have digits : ∀ d ∈ Nat.toDigits 10 n, d.isDigit = true :=
    fun d mem => Nat.isDigit_of_mem_toDigits (by decide) (by decide) mem
  rw [spanDigits, List.span_eq_takeWhile_dropWhile, List.takeWhile_append_of_pos digits,
    List.dropWhile_append_of_pos digits, List.takeWhile_cons_of_neg (by rw [other]; decide),
    List.dropWhile_cons_of_neg (by rw [other]; decide), List.append_nil]

namespace Single

/-- A number is given by its sign and its magnitude. -/
theorem ofRank_rank (x : Single) : ofRank x.negative x.rank = x := by
  have bound : x.bits.toNat < 2 ^ 32 := x.bits.toNat_lt
  have whole : (if x.negative then signBit + x.rank else x.rank) = x.bits.toNat := by
    have modulus : signBit = 2 ^ 31 := rfl
    by_cases sign : signBit ≤ x.bits.toNat
    · rw [if_pos (show x.negative = true from decide_eq_true sign), rank]
      rw [modulus] at sign ⊢
      omega
    · rw [if_neg (by simpa [negative] using sign), rank]
      exact Nat.mod_eq_of_lt (Nat.not_le.1 sign)
  rw [ofRank, whole]
  exact congrArg Single.mk UInt32.ofNat_toNat

/-- Signs leave the magnitude as it is. -/
theorem rank_ofRank (negative : Bool) {rank : Nat} (bound : rank < signBit) :
    (ofRank negative rank).rank = rank := by
  have bits : (ofRank negative rank).bits.toNat =
      (if negative then signBit + rank else rank) := by
    refine UInt32.toNat_ofNat_of_lt' (show _ < 2 ^ 32 from ?_)
    simp only [signBit] at bound ⊢
    split <;> omega
  rw [Single.rank, bits]
  split
  · rw [Nat.add_mod_left, Nat.mod_eq_of_lt bound]
  · exact Nat.mod_eq_of_lt bound

/-- A sign in front of a number that has none. -/
theorem parse?_sign (negative : Bool) (text : List Char) :
    Decimal.parse? ((if negative then '-' else '+') :: text) =
      (Decimal.parseFinite? negative text <|> Decimal.parseName? negative text) := by
  cases negative <;> rfl

/-- The exact decimal of a finite magnitude. -/
def exactText (rank : Nat) : List Char :=
  Nat.toDigits 10 (BinaryFormat.single.units rank * 5 ^ 149) ++ ['e', '-', '1', '4', '9']

theorem parseFinite?_of_span (negative : Bool) {text whole : List Char}
    (digits : spanDigits text = (whole, ['e', '-', '1', '4', '9'])) (nonempty : whole ≠ []) :
    Decimal.parseFinite? negative text = some (.finite negative (ofDigits whole) (-149)) := by
  have isEmpty : whole.isEmpty = false := List.isEmpty_eq_false_iff.2 nonempty
  simp only [Decimal.parseFinite?, digits, isEmpty]
  show some (Decimal.finite negative (ofDigits (whole ++ [])) (-149)) = _
  rw [List.append_nil]

theorem parseFinite?_exactText (negative : Bool) (rank : Nat) :
    Decimal.parseFinite? negative (exactText rank) =
      some (.finite negative (BinaryFormat.single.units rank * 5 ^ 149) (-149)) := by
  rw [exactText, parseFinite?_of_span negative (spanDigits_toDigits _ rfl _) Nat.toDigits_ne_nil,
    ofDigits_toDigits]

/-- A finite value is read from its exact decimal. -/
theorem parse?_exactText {x : Single} (finite : x.rank < BinaryFormat.single.infinity) :
    parse? (.ofList ((if x.negative then '-' else '+') :: exactText x.rank)) = some x := by
  have twice : ofDecimal (.finite x.negative (BinaryFormat.single.units x.rank * 5 ^ 149) (-149)) =
      ofRank x.negative x.rank :=
    congrArg (ofRank x.negative) (BinaryFormat.single_embeds.ofRank_ofDecimal finite rfl)
  rw [parse?, String.toList_ofList, parse?_sign, parseFinite?_exactText]
  exact congrArg some (twice.trans x.ofRank_rank)

/-- Of the NaNs only those that reading produces have a text, and every other number has one. -/
theorem exists_text_iff {x : Single} :
    (∃ text, parse? text = some x) ↔ (x.isNaN → x.rank = quietNaN) := by
  have top : BinaryFormat.single.infinity < signBit := by decide
  constructor
  · rintro ⟨text, read⟩ nan
    obtain ⟨decimal, -, rfl⟩ := Option.map_eq_some_iff.1 read
    -- only a text that says so is read as a NaN
    have above : ∀ {negative rank}, rank ≤ BinaryFormat.single.infinity →
        (ofRank negative rank).isNaN = false := by
      intro negative rank bound
      rw [isNaN, rank_ofRank negative (Nat.lt_of_le_of_lt bound top)]
      exact decide_eq_false (Nat.not_lt.2 bound)
    cases decimal with
    | finite negative digits exponent =>
      rw [ofDecimal, above (BinaryFormat.ofRank_le ..)] at nan
      cases nan
    | infinite negative =>
      rw [ofDecimal, above (Nat.le_refl _)] at nan
      cases nan
    | nan negative => exact rank_ofRank negative (by decide)
  · intro quiet
    have signed : ∀ (text : List Char) (decimal : Decimal),
        Decimal.parse? ((if x.negative then '-' else '+') :: text) = some decimal →
        ofDecimal decimal = ofRank x.negative x.rank → ∃ text, parse? text = some x := by
      intro text decimal said same
      refine ⟨.ofList ((if x.negative then '-' else '+') :: text), ?_⟩
      rw [parse?, String.toList_ofList, said]
      exact congrArg some (same.trans x.ofRank_rank)
    rcases Nat.lt_trichotomy x.rank BinaryFormat.single.infinity with finite | infinite | nan
    · exact ⟨_, parse?_exactText finite⟩
    · exact signed ['i', 'n', 'f'] (.infinite x.negative) (by rw [parse?_sign]; rfl)
        (by rw [infinite]; rfl)
    · exact signed ['n', 'a', 'n'] (.nan x.negative) (by rw [parse?_sign]; rfl)
        (by rw [quiet (decide_eq_true nan)]; rfl)

end Single

end Libretto.Numeral
