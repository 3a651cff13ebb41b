import Mathlib
import ScriptMachine.Number.Decimal

/-! The text of an exact decimal: it is read back as the same number, and it is a finite expansion wherever there is
one. -/

namespace ScriptMachine.Number

open List

lemma splitPower_spec {p n : ℕ} (hp : 2 ≤ p) (hn : 0 < n) :
    n = p ^ (splitPower p n).1 * (splitPower p n).2 ∧ ¬ p ∣ (splitPower p n).2 := by
  fun_induction splitPower p n with
  | case1 n h _ count rest heq ih =>
    have hdvd := Nat.dvd_of_mod_eq_zero h.2.2
    obtain ⟨hrest, hlast⟩ := ih (Nat.div_pos (Nat.le_of_dvd hn hdvd) (by omega))
    rw [heq] at hrest hlast
    refine ⟨?_, hlast⟩
    rw [pow_succ', mul_assoc, ← hrest, Nat.mul_div_cancel' hdvd]
  | case2 n h =>
    refine ⟨by simp, fun hdvd => h ⟨hp, hn, Nat.mod_eq_zero_of_dvd hdvd⟩⟩

def OnlyTwosFives (n : ℕ) : Prop := ∀ p : ℕ, p.Prime → p ∣ n → p = 2 ∨ p = 5

lemma expansionPlaces?_spec {den : ℕ} (hden : 0 < den) :
    (∃ i j, expansionPlaces? den = some (max i j) ∧ den = 2 ^ i * 5 ^ j ∧ OnlyTwosFives den) ∨
      expansionPlaces? den = none ∧ ¬ OnlyTwosFives den := by
  obtain ⟨htwo, hodd⟩ := splitPower_spec (le_refl 2) hden
  have hrest : 0 < (splitPower 2 den).2 := Nat.pos_of_ne_zero fun h => hodd (h ▸ dvd_zero 2)
  obtain ⟨hfive, hlast⟩ := splitPower_spec (p := 5) (by norm_num) hrest
  set i := (splitPower 2 den).1
  set j := (splitPower 5 (splitPower 2 den).2).1
  set last := (splitPower 5 (splitPower 2 den).2).2
  have hplaces : expansionPlaces? den = if last = 1 then some (max i j) else none := rfl
  rw [hfive] at htwo hodd
  by_cases hone : last = 1
  · left
    rw [hone, mul_one] at htwo
    refine ⟨i, j, by rw [hplaces, if_pos hone], htwo, fun p hp hdvd => ?_⟩
    rw [htwo, hp.dvd_mul] at hdvd
    rcases hdvd with h | h
    · exact .inl ((Nat.prime_dvd_prime_iff_eq hp Nat.prime_two).1 (hp.dvd_of_dvd_pow h))
    · exact .inr ((Nat.prime_dvd_prime_iff_eq hp Nat.prime_five).1 (hp.dvd_of_dvd_pow h))
  · right
    refine ⟨by rw [hplaces, if_neg hone], fun hdecimal => ?_⟩
    -- A prime factor of what is left would be 2 or 5, and both are split off.
    obtain ⟨p, hp, hdvd⟩ := Nat.exists_prime_and_dvd hone
    rcases hdecimal p hp (htwo ▸ (hdvd.mul_left _).mul_left _) with rfl | rfl
    · exact hodd (hdvd.mul_left _)
    · exact hlast hdvd

section numerals

variable {c : Char} {p : Char → Bool} {cs whole fraction : List Char}

lemma trim_eq_self (h : ∀ c ∈ cs, Text.isBlank c = false) : Text.trim cs = cs := by
  have hdrop : ∀ l : List Char, (∀ c ∈ l, Text.isBlank c = false) → l.dropWhile Text.isBlank = l := by
    intro l hl
    cases l with
    | nil => rfl
    | cons c l => exact dropWhile_cons_of_neg (by simp [hl c])
  rw [Text.trim, Text.trimStart, hdrop cs h, Text.trimEnd, hdrop _ (by simpa using h), reverse_reverse]

lemma splitAt?_eq_none (h : ∀ c ∈ cs, p c = false) : splitAt? p cs = none := by
  rw [splitAt?, dropWhile_eq_nil_iff.2 fun c hc => by simp [h c hc]]

lemma splitAt?_append (h : ∀ c ∈ cs, p c = false) (hc : p c = true) (rest : List Char) :
    splitAt? p (cs ++ c :: rest) = some (cs, rest) := by
  have hall : ∀ c ∈ cs, (!p c) = true := fun c hc => by simp [h c hc]
  rw [splitAt?, dropWhile_append_of_pos hall, takeWhile_append_of_pos hall]
  simp [hc]

def signed (negative : Bool) (cs : List Char) : List Char := if negative then '-' :: cs else cs

lemma mem_signed {negative : Bool} (h : c ∈ signed negative cs) : c = '-' ∨ c ∈ cs := by
  cases negative <;> simp_all [signed]

def IsNumeral (cs : List Char) : Prop := cs ≠ [] ∧ ∀ c ∈ cs, c.isDigit = true

lemma isNumeral_decimalDigits (n : ℕ) : IsNumeral (decimalDigits n) :=
  ⟨Nat.toDigits_ne_nil, fun _ => Nat.isDigit_of_mem_toDigits (by decide) (by decide)⟩

lemma ofDigits_decimalDigits (n : ℕ) : ofDigits (decimalDigits n) = n := Nat.ofDigitChars_ten_toDigits

lemma toString_eq_signed (n : ℤ) : toString n = String.ofList (signed (n < 0) (decimalDigits n.natAbs)) := by
  cases n with
  | ofNat n =>
    have hsign : ¬ Int.ofNat n < 0 := by simp
    simp only [signed, hsign, decide_false, Bool.false_eq_true, if_false]
    exact Nat.repr_eq_ofList_toDigits
  | negSucc n =>
    simp only [signed, Int.negSucc_lt_zero, decide_true, if_true, Int.natAbs_negSucc, decimalDigits]
    rw [← singleton_append, String.ofList_append, ← Nat.repr_eq_ofList_toDigits]
    rfl

lemma ne_of_isDigit {d : Char} (hc : c.isDigit = true) (hd : d.isDigit = false) : c ≠ d := by
  rintro rfl
  rw [hc] at hd
  contradiction

lemma splitSign_signed (h : IsNumeral whole) (negative : Bool) (rest : List Char) :
    splitSign (signed negative (whole ++ rest)) = (negative, whole ++ rest) := by
  cases negative with
  | true => rfl
  | false =>
    obtain ⟨hne, hdigit⟩ := h
    obtain ⟨c, cs, rfl⟩ := exists_cons_of_ne_nil hne
    have hc := hdigit c (by simp)
    change splitSign (c :: (cs ++ rest)) = (false, c :: (cs ++ rest))
    rw [splitSign]
    · intro _ heq
      exact ne_of_isDigit hc (by decide) (cons.inj heq).1
    · intro _ heq
      exact ne_of_isDigit hc (by decide) (cons.inj heq).1

lemma readBig?_signed (h : IsNumeral cs) (negative : Bool) :
    readBig? (signed negative cs) = some (if negative then -(ofDigits cs : ℤ) else ofDigits cs) := by
  have hsplit := splitSign_signed h negative []
  rw [append_nil] at hsplit
  have hmark : ∀ c ∈ cs, c ≠ '_' := fun c hc => ne_of_isDigit (h.2 c hc) (by decide)
  have hhead : cs.head? ≠ some '_' := fun hc => hmark _ (mem_of_mem_head? hc) rfl
  have hfilter : cs.filter (· ≠ '_') = cs := filter_eq_self.2 fun c hc => by simpa using hmark c hc
  have hread : readNat? cs = some (ofDigits cs) := by simp [readNat?, h.1, all_eq_true.2 h.2]
  simp only [readBig?, hsplit, if_neg hhead, hfilter, hread]
  rfl

lemma IsNumeral.not_point (h : IsNumeral cs) : ∀ c ∈ cs, (c == '.') = false := fun c hc =>
  beq_eq_false_iff_ne.2 (ne_of_isDigit (h.2 c hc) (by decide))

lemma readMantissa?_of_isNumeral (h : IsNumeral cs) : readMantissa? cs = some (ofDigits cs, 0) := by
  simp [readMantissa?, splitAt?_eq_none h.not_point, h.1, all_eq_true.2 h.2]

lemma readMantissa?_of_point (h : IsNumeral whole) (hf : ∀ c ∈ fraction, c.isDigit = true) :
    readMantissa? (whole ++ '.' :: fraction) = some (ofDigits (whole ++ fraction), fraction.length) := by
  simp [readMantissa?, splitAt?_append h.not_point, h.1, all_eq_true.2 h.2, all_eq_true.2 hf]

def isPlain (c : Char) : Bool := c.isDigit || c == '-' || c == '.'

lemma IsNumeral.isPlain (h : IsNumeral cs) : ∀ c ∈ cs, isPlain c = true := fun c hc => by
  simp [Number.isPlain, h.2 c hc]

lemma isDigit_cases (h : c.isDigit = true) : c ∈ ['0', '1', '2', '3', '4', '5', '6', '7', '8', '9'] := by
  simp only [Char.isDigit, Bool.and_eq_true, decide_eq_true_eq, ge_iff_le, UInt32.le_iff_toNat_le] at h
  have hn : c.toNat - 48 < 10 := by
    have h2 : c.val.toNat ≤ 57 := h.2
    change c.val.toNat - 48 < 10
    omega
  have hc : c = Char.ofNat (48 + (c.toNat - 48)) := by
    have h1 : 48 ≤ c.val.toNat := h.1
    have h48 : 48 + (c.toNat - 48) = c.toNat := by
      change 48 + (c.val.toNat - 48) = c.val.toNat
      omega
    rw [h48, Char.ofNat_toNat]
  rw [hc]
  generalize c.toNat - 48 = d at hn
  interval_cases d <;> decide

lemma isPlain_cases (h : isPlain c = true) :
    Text.isBlank c = false ∧ (c == '/') = false ∧ (c == 'e' || c == 'E') = false := by
  simp only [isPlain, Bool.or_eq_true, beq_iff_eq] at h
  rcases h with (h | rfl) | rfl
  · have hc := isDigit_cases h
    simp only [mem_cons, not_mem_nil, or_false] at hc
    rcases hc with rfl | rfl | rfl | rfl | rfl | rfl | rfl | rfl | rfl | rfl <;> decide
  · decide
  · decide

lemma isPlain_of_signed (negative : Bool) (hcs : ∀ c ∈ cs, isPlain c = true) :
    ∀ c ∈ signed negative cs, isPlain c = true := by
  intro c hc
  rcases mem_signed hc with rfl | hc
  · rfl
  · exact hcs c hc

lemma readDecimalChars?_plain (h : IsNumeral whole) {rest : List Char} (hrest : ∀ c ∈ rest, isPlain c = true)
    {digits places : ℕ} (hread : readMantissa? (whole ++ rest) = some (digits, places)) (negative : Bool) :
    readDecimalChars? (signed negative (whole ++ rest)) =
      some (mkRat (if negative then -(digits : ℤ) else digits) (10 ^ places)) := by
  have hplain : ∀ c ∈ signed negative (whole ++ rest), isPlain c = true := by
    apply isPlain_of_signed
    exact forall_mem_append.2 ⟨h.isPlain, hrest⟩
  have hblank := fun c hc => (isPlain_cases (hplain c hc)).1
  have hslash := fun c hc => (isPlain_cases (hplain c hc)).2.1
  have hpower := fun c hc => (isPlain_cases (hplain c hc)).2.2
  rw [readDecimalChars?, trim_eq_self hblank, splitAt?_eq_none hslash]
  dsimp only
  rw [splitAt?_eq_none hpower]
  simp [splitSign_signed h, hread, tenPow]

lemma readDecimalChars?_quotient {num den : List Char} (hnum : IsNumeral num) (hden : IsNumeral den) (negative : Bool)
    (hzero : ofDigits den ≠ 0) :
    readDecimalChars? (signed negative num ++ '/' :: den) =
      some (Rat.divInt (if negative then -(ofDigits num : ℤ) else ofDigits num) (ofDigits den)) := by
  have hsigned := isPlain_of_signed negative hnum.isPlain
  have hblank := fun c hc => (isPlain_cases (hsigned c hc)).1
  have hslash := fun c hc => (isPlain_cases (hsigned c hc)).2.1
  have hdenBlank := fun c hc => (isPlain_cases (hden.isPlain c hc)).1
  have hall : ∀ c ∈ signed negative num ++ '/' :: den, Text.isBlank c = false := by
    exact forall_mem_append.2 ⟨hblank, forall_mem_cons.2 ⟨by decide, hdenBlank⟩⟩
  have hread : readBig? den = some (ofDigits den : ℤ) := readBig?_signed hden false
  rw [readDecimalChars?, trim_eq_self hall, splitAt?_append hslash (by decide)]
  dsimp only
  rw [trim_eq_self hblank, trim_eq_self hdenBlank, readBig?_signed hnum, hread]
  exact if_neg (Nat.cast_ne_zero.2 hzero)

lemma placePoint_spec (h : IsNumeral cs) (places : ℕ) :
    ∃ whole fraction, placePoint cs places = whole ++ '.' :: fraction ∧ IsNumeral whole ∧
      (∀ c ∈ fraction, c.isDigit = true) ∧ fraction.length = places ∧ ofDigits (whole ++ fraction) = ofDigits cs := by
  set padded := replicate (places + 1 - cs.length) '0' ++ cs with hpadded
  have hlength : places + 1 ≤ padded.length := by
    simp only [hpadded, length_append, length_replicate]
    omega
  have hdigit : ∀ c ∈ padded, c.isDigit = true := by
    intro c hc
    rcases mem_append.1 hc with hc | hc
    · rw [eq_of_mem_replicate hc]
      decide
    · exact h.2 c hc
  have hvalue : ofDigits padded = ofDigits cs := by
    change Nat.ofDigitChars 10 _ 0 = _
    rw [hpadded, Nat.ofDigitChars_append, Nat.ofDigitChars_replicate_zero, mul_zero]
    rfl
  refine ⟨padded.take (padded.length - places), padded.drop (padded.length - places), rfl, ⟨?_, ?_⟩, ?_, ?_, ?_⟩
  · apply ne_nil_of_length_pos
    rw [length_take]
    omega
  · exact fun c hc => hdigit c (mem_of_mem_take hc)
  · exact fun c hc => hdigit c (mem_of_mem_drop hc)
  · rw [length_drop]
    omega
  · rw [take_append_drop, hvalue]

lemma readFloat?_point (hw : IsNumeral whole) (hf : ∀ c ∈ fraction, c.isDigit = true) :
    readFloat? (whole ++ '.' :: fraction) =
      some (nearestDecimal false (ofDigits (whole ++ fraction)) (-fraction.length)) := by
  have hplain : ∀ c ∈ whole ++ '.' :: fraction, isPlain c = true :=
    forall_mem_append.2 ⟨hw.isPlain, forall_mem_cons.2 ⟨rfl, fun c hc => by simp [isPlain, hf c hc]⟩⟩
  have hpower := splitAt?_eq_none fun c hc => (isPlain_cases (hplain c hc)).2.2
  have hword (w : String) (h : '.' ∉ w.toList) : String.ofList ((whole ++ '.' :: fraction).map Char.toLower) ≠ w := by
    rintro rfl
    exact h (by simp)
  have hsign : splitSign (whole ++ '.' :: fraction) = (false, whole ++ '.' :: fraction) := splitSign_signed hw false _
  simp only [readFloat?, hsign, if_neg (hword "nan" (by decide)), hword "inf" (by decide),
    hword "infinity" (by decide), or_self, if_false, hpower, readMantissa?_of_point hw hf, Option.map_some]

lemma positional_spec (s : Scaled) :
    ∃ whole fraction, positional s ['.', '0'] = whole ++ '.' :: fraction ∧ IsNumeral whole ∧ IsNumeral fraction := by
  have hdigits := isNumeral_decimalDigits s.digits
  rw [positional]
  split
  · refine ⟨_, ['0'], rfl, ⟨by simp [hdigits.1], forall_mem_append.2 ⟨hdigits.2, fun c hc => ?_⟩⟩, by simp, by simp⟩
    rw [eq_of_mem_replicate hc]
    rfl
  · obtain ⟨whole, fraction, htext, hw, hf, hlength, -⟩ := placePoint_spec hdigits (-s.scale).toNat
    exact ⟨whole, fraction, htext, hw, ne_nil_of_length_pos (by omega), hf⟩

lemma toList_source_text {x : Float} {significand : ℕ} {exponent : ℤ}
    (h : Binary64.ofFloat x = .finite false significand exponent) :
    ∃ whole fraction, (FloatFormat.source.text x).toList = whole ++ '.' :: fraction ∧ IsNumeral whole ∧
      IsNumeral fraction := by
  have htext : (FloatFormat.source.text x).toList = positional (shortest significand exponent) ['.', '0'] := by
    simp [FloatFormat.text, h, FloatFormat.source]
  exact htext ▸ positional_spec _

end numerals

section decimals

variable {q : ℚ}

/-- A decimal expansion of `q`: digits on both sides of a point, the last of them not zero. -/
def IsExpansion (q : ℚ) (cs : List Char) : Prop :=
  ∃ whole fraction last, cs = signed (q < 0) (whole ++ '.' :: (fraction ++ [last])) ∧ IsNumeral whole ∧
    IsNumeral (fraction ++ [last]) ∧ last ≠ '0' ∧
    |q| = ofDigits (whole ++ (fraction ++ [last])) / 10 ^ (fraction ++ [last]).length

def unitsAt (q : ℚ) (places : ℕ) : ℕ := q.num.natAbs * tenPow places / q.den

lemma abs_eq_natAbs_div (q : ℚ) : |q| = q.num.natAbs / q.den := by
  nth_rewrite 1 [← Rat.num_div_den q]
  rw [abs_div, Nat.abs_cast, ← Int.cast_abs, Int.abs_eq_natAbs, Int.cast_natCast]

lemma unitsAt_mul_den {i j : ℕ} (hden : q.den = 2 ^ i * 5 ^ j) :
    unitsAt q (max i j) * q.den = q.num.natAbs * 10 ^ max i j := by
  have hdvd : q.den ∣ 10 ^ max i j := by
    rw [hden, show 10 = 2 * 5 from rfl, mul_pow]
    exact mul_dvd_mul (pow_dvd_pow 2 (le_max_left i j)) (pow_dvd_pow 5 (le_max_right i j))
  exact Nat.div_mul_cancel (hdvd.mul_left _)

lemma abs_eq_unitsAt_div {i j : ℕ} (hden : q.den = 2 ^ i * 5 ^ j) :
    |q| = unitsAt q (max i j) / 10 ^ max i j := by
  have hunits : (unitsAt q (max i j) * q.den : ℚ) = q.num.natAbs * 10 ^ max i j := by
    exact_mod_cast unitsAt_mul_den hden
  rw [abs_eq_natAbs_div, div_eq_div_iff (by exact_mod_cast q.den_ne_zero) (by positivity), hunits]

lemma not_dvd_of_mul_eq {p r k b c n units : ℕ} (hp : p.Prime) (hr : ¬ p ∣ r) (hk : 0 < k)
    (hn : n.Coprime (p ^ k * b)) (h : units * (p ^ k * b) = n * (p ^ k * r ^ c)) : ¬ p ∣ units := by
  intro hdvd
  have hpow : 0 < p ^ k := pow_pos hp.pos k
  have hcancel : units * b = n * r ^ c := by
    apply Nat.eq_of_mul_eq_mul_left hpow
    linarith
  have hnum : p ∣ n * r ^ c := hcancel ▸ hdvd.mul_right b
  have hpn : p ∣ n := (hp.dvd_mul.1 hnum).resolve_right fun h => hr (hp.dvd_of_dvd_pow h)
  exact Nat.not_coprime_of_dvd_of_dvd hp.one_lt hpn ((dvd_pow_self p hk.ne').mul_right b) hn

lemma not_ten_dvd_unitsAt {i j : ℕ} (hden : q.den = 2 ^ i * 5 ^ j) (hplaces : 0 < max i j) :
    ¬ 10 ∣ unitsAt q (max i j) := by
  intro hten
  have hunits := unitsAt_mul_den hden
  have hreduced := q.reduced
  rw [show 10 = 2 * 5 from rfl, mul_pow] at hunits
  rw [hden] at hunits hreduced
  -- The factor that sets the number of places is in the denominator, so it is not in the numerator.
  rcases le_total j i with hle | hle
  · rw [max_eq_left hle] at hunits hten hplaces
    exact not_dvd_of_mul_eq Nat.prime_two (by decide) hplaces hreduced hunits (dvd_trans (by decide) hten)
  · rw [max_eq_right hle] at hunits hten hplaces
    rw [mul_comm (2 ^ i)] at hunits hreduced
    rw [mul_comm (2 ^ j)] at hunits
    exact not_dvd_of_mul_eq Nat.prime_five (by decide) hplaces hreduced hunits (dvd_trans (by decide) hten)

lemma decimalChars_of_den_one (h : q.den = 1) : decimalChars q = signed (q < 0) (decimalDigits q.num.natAbs) := by
  rw [decimalChars, if_pos h, signed]
  by_cases hsign : q < 0 <;> simp [hsign]

lemma decimalChars_of_none (h : q.den ≠ 1) (hplaces : expansionPlaces? q.den = none) :
    decimalChars q = signed (q < 0) (decimalDigits q.num.natAbs) ++ '/' :: decimalDigits q.den := by
  rw [decimalChars, if_neg h, hplaces, signed]
  by_cases hsign : q < 0 <;> simp [hsign]

lemma decimalChars_of_some (h : q.den ≠ 1) {places : ℕ} (hplaces : expansionPlaces? q.den = some places) :
    decimalChars q = signed (q < 0) (placePoint (decimalDigits (unitsAt q places)) places) := by
  rw [decimalChars, if_neg h, hplaces, signed, unitsAt]
  by_cases hsign : q < 0 <;> simp [hsign]

lemma isExpansion_decimalChars (h : q.den ≠ 1) (hdecimal : OnlyTwosFives q.den) : IsExpansion q (decimalChars q) := by
  rcases expansionPlaces?_spec q.den_pos with ⟨i, j, hsome, hden, -⟩ | ⟨-, hnone⟩
  · have hplaces : 0 < max i j := by
      by_contra hzero
      obtain ⟨rfl, rfl⟩ : i = 0 ∧ j = 0 := by omega
      exact h hden
    obtain ⟨whole, fraction, htext, hwhole, hfraction, hlength, hvalue⟩ :=
      placePoint_spec (isNumeral_decimalDigits (unitsAt q (max i j))) (max i j)
    rw [ofDigits_decimalDigits] at hvalue
    have hne : fraction ≠ [] := ne_nil_of_length_pos (hlength ▸ hplaces)
    have hconcat := dropLast_append_getLast hne
    refine ⟨whole, fraction.dropLast, fraction.getLast hne, ?_, hwhole, ?_, ?_, ?_⟩
    · rw [decimalChars_of_some h hsome, htext, hconcat]
    · exact hconcat.symm ▸ ⟨hne, hfraction⟩
    · intro hlast
      apply not_ten_dvd_unitsAt hden hplaces
      rw [← hvalue, ← hconcat, ← append_assoc, ofDigits_append_singleton, hlast]
      exact Dvd.intro _ rfl
    · rw [hconcat, hvalue, hlength, abs_eq_unitsAt_div hden]
  · contradiction

lemma signed_abs {n : ℕ} {d : ℚ} (h : |q| = n / d) :
    ((if decide (q < 0) = true then -(n : ℤ) else n : ℤ) : ℚ) / d = q := by
  by_cases hsign : q < 0
  · simp only [hsign, decide_true, if_true, Int.cast_neg, Int.cast_natCast, neg_div]
    rw [← h, abs_of_neg hsign, neg_neg]
  · simp only [hsign, decide_false, Bool.false_eq_true, if_false, Int.cast_natCast]
    rw [← h, abs_of_nonneg (not_lt.1 hsign)]

lemma readDecimalChars?_of_den_one (h : q.den = 1) : readDecimalChars? (decimalChars q) = some q := by
  have hnumeral := isNumeral_decimalDigits q.num.natAbs
  have hmantissa := readMantissa?_of_isNumeral hnumeral
  rw [← append_nil (decimalDigits q.num.natAbs)] at hmantissa
  have hread := readDecimalChars?_plain hnumeral (by simp) hmantissa (q < 0)
  have habs : |q| = q.num.natAbs / ((10 ^ 0 : ℕ) : ℚ) := by rw [abs_eq_natAbs_div, h, pow_zero]
  rw [append_nil, ofDigits_decimalDigits] at hread
  rw [decimalChars_of_den_one h, hread, Rat.mkRat_eq_div, signed_abs habs]

lemma readDecimalChars?_of_none (h : q.den ≠ 1) (hplaces : expansionPlaces? q.den = none) :
    readDecimalChars? (decimalChars q) = some q := by
  have hden : ofDigits (decimalDigits q.den) ≠ 0 := by
    rw [ofDigits_decimalDigits]
    exact q.den_ne_zero
  have hread := readDecimalChars?_quotient (isNumeral_decimalDigits q.num.natAbs) (isNumeral_decimalDigits q.den)
    (q < 0) hden
  rw [ofDigits_decimalDigits, ofDigits_decimalDigits, Rat.divInt_eq_div, Int.cast_natCast,
    signed_abs (abs_eq_natAbs_div q)] at hread
  rw [decimalChars_of_none h hplaces, hread]

lemma readDecimalChars?_of_isExpansion {cs : List Char} (h : IsExpansion q cs) : readDecimalChars? cs = some q := by
  obtain ⟨whole, fraction, last, rfl, hwhole, hfraction, -, habs⟩ := h
  have hplain : ∀ c ∈ '.' :: (fraction ++ [last]), isPlain c = true := by
    exact forall_mem_cons.2 ⟨by decide, hfraction.isPlain⟩
  rw [readDecimalChars?_plain hwhole hplain (readMantissa?_of_point hwhole hfraction.2), Rat.mkRat_eq_div]
  rw [signed_abs (by rw [habs, Nat.cast_pow, Nat.cast_ofNat])]

theorem decimalText_reads_back (q : ℚ) :
    readDecimal? (decimalText q) = some q ∧
      (q.den = 1 → decimalText q = toString q.num) ∧
      (q.den ≠ 1 → OnlyTwosFives q.den → IsExpansion q (decimalText q).toList) ∧
      (q.den ≠ 1 → ¬ OnlyTwosFives q.den → decimalText q = toString q.num ++ "/" ++ toString q.den) := by
  have hsign : decide (q.num < 0) = decide (q < 0) := by simp
  have hnum := toString_eq_signed q.num
  rw [hsign] at hnum
  rw [readDecimal?, decimalText, String.toList_ofList]
  refine ⟨?_, fun h => ?_, isExpansion_decimalChars, fun h hden => ?_⟩
  · by_cases h : q.den = 1
    · exact readDecimalChars?_of_den_one h
    · rcases expansionPlaces?_spec q.den_pos with ⟨_, _, -, -, hdecimal⟩ | ⟨hnone, -⟩
      · exact readDecimalChars?_of_isExpansion (isExpansion_decimalChars h hdecimal)
      · exact readDecimalChars?_of_none h hnone
  · rw [decimalChars_of_den_one h, hnum]
  · rcases expansionPlaces?_spec q.den_pos with ⟨_, _, -, -, hdecimal⟩ | ⟨hnone, -⟩
    · contradiction
    · rw [decimalChars_of_none h hnone, hnum, String.ofList_append, ← singleton_append, String.ofList_append,
        ← String.append_assoc]
      rw [Nat.toString_eq_repr, Nat.repr_eq_ofList_toDigits]
      rfl

end decimals

end ScriptMachine.Number
