import Mathlib
import ScriptMachine.Value.Operators

/-! Operators on ints. The words of the machine are followed against the exact integers: each operator gives the exact
result if it fits and reports an overflow if it does not, and nothing is trapped on the way. -/

namespace ScriptMachine

variable {op : BinaryOp}

namespace Number

section words

variable {m s : ℤ} {w : Int64}

lemma word?_eq_some_iff : word? m = some w ↔ w.toInt = m :=
  ⟨toInt_of_word?, fun h => h ▸ word?_toInt w⟩

lemma word?_eq_none_iff_forall : word? m = none ↔ ∀ w : Int64, w.toInt ≠ m := by
  simp only [Option.eq_none_iff_forall_ne_some, ne_eq, word?_eq_some_iff]

lemma word?_eq_none_iff : word? m = none ↔ m < -2 ^ 63 ∨ 2 ^ 63 ≤ m := by
  rw [word?, ite_eq_right_iff]
  simp only [reduceCtorEq, imp_false]
  omega

lemma word?_mul_eq_none (h : word? m = none) (hs : 1 ≤ s) : word? (m * s) = none := by
  rw [word?_eq_none_iff] at h ⊢
  rcases h with hlow | hhigh
  · left
    nlinarith
  · right
    nlinarith

lemma lt_square (h : word? (m * m) = none) : 2 ^ 63 < m * m := by
  have hhigh : 2 ^ 63 ≤ m * m := by
    rcases word?_eq_none_iff.1 h with hlow | hhigh
    · nlinarith
    · exact hhigh
  refine lt_of_le_of_ne hhigh fun heq => ?_
  have hsmall : |m| < 3037000500 := by
    rw [← sq_lt_sq₀ (abs_nonneg m) (by norm_num), sq_abs]
    nlinarith
  have hlarge : 3037000499 < |m| := by
    rw [← sq_lt_sq₀ (by norm_num) (abs_nonneg m), sq_abs]
    nlinarith
  omega

lemma word?_square_mul_eq_none (h : word? (m * m) = none) (hs : s ≠ 0) : word? (m * m * s) = none := by
  have hsquare := lt_square h
  rw [word?_eq_none_iff]
  rcases lt_or_gt_of_ne hs with hneg | hpos
  · left
    nlinarith
  · right
    nlinarith

end words

namespace Word

lemma pow_eq_square_pow (b : ℤ) (n : ℕ) : b ^ n = b ^ (n % 2) * (b * b) ^ (n / 2) := by
  rw [← sq, ← pow_mul, ← pow_add, Nat.mod_add_div]

lemma eq_of_div?_eq_none {a b : Int64} (hb : b ≠ 0) (h : div? a b = none) : a = Int64.minValue ∧ b = -1 := by
  rw [div?, ite_eq_right_iff] at h
  simpa [divides, hb] using h

section power

variable {product base : Int64} {n : ℕ}

lemma powFrom?_square (hn : n ≠ 0) (h : product.toInt ≠ 0 ∨ base.toInt = 0)
    (ih : ∀ sq : Int64, product.toInt ≠ 0 ∨ sq.toInt = 0 →
      powFrom? product sq n = word? (product.toInt * sq.toInt ^ n)) :
    ((mul? base base).bind fun sq => powFrom? product sq n) =
      word? (product.toInt * (base.toInt * base.toInt) ^ n) := by
  cases hsq : mul? base base with
  | none =>
    obtain ⟨k, rfl⟩ := Nat.exists_eq_succ_of_ne_zero hn
    have hbase : base.toInt ≠ 0 := by
      intro hzero
      rw [mul?, hzero] at hsq
      contradiction
    have hproduct := h.resolve_right hbase
    have hrest : product.toInt * (base.toInt * base.toInt) ^ k ≠ 0 := by positivity
    have hgroup : product.toInt * (base.toInt * base.toInt) ^ (k + 1) =
        base.toInt * base.toInt * (product.toInt * (base.toInt * base.toInt) ^ k) := by ring
    rw [hgroup, word?_square_mul_eq_none hsq hrest]
    rfl
  | some sq =>
    have hvalue := toInt_of_word? hsq
    rw [Option.bind_some, ih sq ?_, hvalue]
    exact h.imp_right fun hzero => by rw [hvalue, hzero, mul_zero]

theorem powFrom?_eq (product base : Int64) (n : ℕ) (h : product.toInt ≠ 0 ∨ base.toInt = 0) :
    powFrom? product base n = word? (product.toInt * base.toInt ^ n) := by
  induction n using Nat.strong_induction_on generalizing product base with
  | _ n ih =>
    rw [powFrom?]
    by_cases hn : n = 0
    · rw [if_pos hn, hn, pow_zero, mul_one, word?_toInt]
    have hhalf (p sq : Int64) (hp : p.toInt ≠ 0 ∨ sq.toInt = 0) :
        powFrom? p sq (n / 2) = word? (p.toInt * sq.toInt ^ (n / 2)) := ih (n / 2) (by omega) p sq hp
    rw [if_neg hn, pow_eq_square_pow]
    rcases Nat.mod_two_eq_zero_or_one n with heven | hodd
    · have hone : n ≠ 1 := by omega
      rw [if_neg (by omega), heven, pow_zero, one_mul, ← powFrom?_square (by omega) h (hhalf product)]
      simp only [Option.bind_eq_bind, Option.bind_some, if_neg hone]
    · rw [if_pos hodd, hodd, pow_one, ← mul_assoc]
      cases hproduct : mul? product base with
      | none =>
        have hbase : base.toInt ≠ 0 := by
          intro hzero
          rw [mul?, hzero, mul_zero] at hproduct
          contradiction
        have hgrows : 1 ≤ (base.toInt * base.toInt) ^ (n / 2) := one_le_pow₀ (by nlinarith [sq_pos_of_ne_zero hbase])
        rw [word?_mul_eq_none hproduct hgrows]
        rfl
      | some p =>
        have hvalue := toInt_of_word? hproduct
        rw [← hvalue]
        by_cases hone : n = 1
        · subst hone
          simp [word?_toInt]
        · have hp : p.toInt ≠ 0 ∨ base.toInt = 0 := by
            by_cases hbase : base.toInt = 0
            · exact .inr hbase
            · left
              rw [hvalue]
              exact mul_ne_zero (h.resolve_right hbase) hbase
          rw [← powFrom?_square (by omega) hp (hhalf p)]
          simp only [Option.bind_eq_bind, Option.bind_some, if_neg hone]

theorem pow?_eq (base : Int64) (n : ℕ) : pow? base n = word? (base.toInt ^ n) := by
  have hone : (1 : Int64).toInt = 1 := rfl
  rw [pow?, powFrom?_eq 1 base n (.inl (by decide)), hone, one_mul]

end power

end Word

end Number

lemma floor_div_eq_fdiv (m n : ℤ) : ⌊(m : ℚ) / n⌋ = m.fdiv n := by
  rcases le_or_gt 0 n with hn | hn
  · lift n to ℕ using hn
    rw [Int.fdiv_eq_ediv_of_nonneg m (Int.natCast_nonneg n)]
    exact Rat.floor_intCast_div_natCast m n
  · obtain ⟨k, rfl⟩ : ∃ k : ℕ, n = -k := ⟨n.natAbs, by omega⟩
    rw [← Int.neg_fdiv_neg, neg_neg, Int.fdiv_eq_ediv_of_nonneg _ (Int.natCast_nonneg k),
      ← Rat.floor_intCast_div_natCast]
    push_cast
    rw [neg_div, div_neg]

namespace Value

variable {a b : Int64}

lemma arithmeticInts_of_operateInts? {r : Except Fault Value} (h : operateInts? op a b = some r) :
    arithmeticInts op a b = r := by
  rw [operateInts?_eq] at h
  exact Option.some.inj h

lemma ofExact_of_toInt {n : ℤ} (w : Int64) (h : w.toInt = n) : ofExact n = .ok (.int w) := by
  rw [ofExact, ← h, Number.word?_toInt, ofChecked]

theorem arithmeticInts_floorDiv (h : b ≠ 0) : arithmeticInts .floorDiv a b = ofExact (a.toInt.fdiv b.toInt) := by
  apply arithmeticInts_of_operateInts?
  rw [operateInts?, if_neg h, floorDivInts]
  cases hquotient : Number.Word.div? a b with
  | some quotient =>
    obtain ⟨w, hw, hvalue⟩ := Number.Word.roundDown?_of_div? hquotient
    dsimp only
    rw [hw, ofExact_of_toInt w hvalue, Option.map_some]
  | none =>
    -- The least word by `-1` is the only quotient that does not fit.
    obtain ⟨rfl, rfl⟩ := Number.Word.eq_of_div?_eq_none h hquotient
    rfl

theorem arithmeticInts_mod (h : b ≠ 0) :
    ∃ r : Int64, arithmeticInts .mod a b = .ok (.int r) ∧ r.toInt = a.toInt.fmod b.toInt := by
  by_cases hone : b = -1
  · refine ⟨0, ?_, ?_⟩
    · apply arithmeticInts_of_operateInts?
      rw [operateInts?, if_neg h, if_pos hone]
    · have hvalue : b.toInt = -1 := by rw [hone]; rfl
      rw [hvalue, Int.fmod_eq_zero_of_dvd (by simp)]
      rfl
  · obtain ⟨r, hr, hvalue⟩ := Number.Word.floorRem?_of_divides (Number.Word.divides_of_ne (a := a) h hone)
    refine ⟨r, ?_, hvalue⟩
    apply arithmeticInts_of_operateInts?
    rw [operateInts?, if_neg h, if_neg hone, hr, Option.map_some]

lemma toInt_nonneg (h : 0 ≤ b) : 0 ≤ b.toInt := Int64.le_iff_toInt_le.1 h

lemma toInt_power_of_trivial (hb : 0 ≤ b) (h : a = 0 ∨ a = 1) :
    (if b = 0 then 1 else a).toInt = a.toInt ^ b.toInt.toNat := by
  by_cases hzero : b = 0
  · subst hzero
    rw [if_pos rfl]
    exact (pow_zero a.toInt).symm
  · have hexponent : b.toInt.toNat ≠ 0 := by
      have hnonneg := toInt_nonneg hb
      have hne := (Number.Word.ne_zero_iff b).1 hzero
      omega
    rw [if_neg hzero]
    rcases h with rfl | rfl
    · exact (zero_pow hexponent).symm
    · exact (one_pow _).symm

lemma toInt_power_of_opposite (hb : 0 ≤ b) :
    (if b % 2 = 0 then 1 else -1 : Int64).toInt = (-1) ^ b.toInt.toNat := by
  have hnonneg := toInt_nonneg hb
  have hrest : (b % 2).toInt = b.toInt % 2 := by
    rw [Int64.toInt_mod]
    exact Int.tmod_eq_emod_of_nonneg hnonneg
  have hzero := Number.Word.ne_zero_iff (b % 2)
  by_cases heven : b % 2 = 0
  · have hexponent : Even b.toInt.toNat := by
      rw [Nat.even_iff]
      have hvalue : (b % 2).toInt = 0 := by rw [heven]; rfl
      omega
    rw [if_pos heven, hexponent.neg_one_pow]
    rfl
  · have hexponent : Odd b.toInt.toNat := by
      rw [Nat.odd_iff]
      have hne := hzero.1 heven
      omega
    rw [if_neg heven, hexponent.neg_one_pow]
    rfl

lemma word?_pow_eq_none {m : ℤ} (hm : 2 ≤ |m|) {n : ℕ} (hn : 64 ≤ n) : Number.word? (m ^ n) = none := by
  have hgrows : (2 : ℤ) ^ 64 ≤ |m ^ n| := by
    calc (2 : ℤ) ^ 64 ≤ 2 ^ n := pow_le_pow_right₀ (by norm_num) hn
      _ ≤ |m| ^ n := pow_le_pow_left₀ (by norm_num) hm n
      _ = |m ^ n| := (abs_pow m n).symm
  rw [Number.word?_eq_none_iff]
  rcases abs_cases (m ^ n) with ⟨habs, -⟩ | ⟨habs, -⟩
  · right
    omega
  · left
    omega

theorem arithmeticInts_pow (h : 0 ≤ b) : arithmeticInts .pow a b = ofExact (a.toInt ^ b.toInt.toNat) := by
  apply arithmeticInts_of_operateInts?
  rw [operateInts?, if_pos h, intPower]
  by_cases htrivial : a = 0 ∨ a = 1
  · rw [if_pos htrivial, ofExact_of_toInt _ (toInt_power_of_trivial h htrivial)]
  rw [if_neg htrivial]
  by_cases hopposite : a = -1
  · have hparity : Number.Word.rem? b 2 = some (b % 2) := if_pos (Number.Word.divides_of_ne (by decide) (by decide))
    have hvalue : a.toInt = -1 := by rw [hopposite]; rfl
    rw [if_pos hopposite, hparity, Option.map_some, hvalue, ofExact_of_toInt _ (toInt_power_of_opposite h)]
  rw [if_neg hopposite, Number.Word.pow?_eq, ofExact]
  by_cases hsmall : b.toInt < 4294967296
  · rw [if_pos hsmall]
  · have habs : 2 ≤ |a.toInt| := by
      obtain ⟨hzero, hone⟩ := not_or.1 htrivial
      have hvalues (w : Int64) (hw : a ≠ w) : a.toInt ≠ w.toInt := fun heq => hw (Int64.toInt_inj.1 heq)
      have h₀ : a.toInt ≠ 0 := hvalues 0 hzero
      have h₁ : a.toInt ≠ 1 := hvalues 1 hone
      have h₂ : a.toInt ≠ -1 := hvalues (-1) hopposite
      rw [le_abs]
      omega
    rw [if_neg hsmall, word?_pow_eq_none habs (by omega)]

end Value

lemma fmod_sign_and_size (m : ℤ) {n : ℤ} (hn : n ≠ 0) :
    (m.fmod n = 0 ∨ (m.fmod n).sign = n.sign) ∧ |m.fmod n| < |n| := by
  rcases lt_or_gt_of_ne hn with hneg | hpos
  · have hnonneg := Int.fmod_nonneg_of_pos (-m) (neg_pos.2 hneg)
    have hlt := Int.fmod_lt_of_pos (-m) (neg_pos.2 hneg)
    rw [Int.neg_fmod_neg] at hnonneg hlt
    refine ⟨?_, by rw [abs_lt, abs_of_neg hneg]; omega⟩
    rcases eq_or_ne (m.fmod n) 0 with hzero | hrest
    · exact .inl hzero
    · exact .inr (by rw [Int.sign_eq_neg_one_of_neg hneg, Int.sign_eq_neg_one_of_neg (by omega)])
  · have hnonneg := Int.fmod_nonneg_of_pos m hpos
    have hlt := Int.fmod_lt_of_pos m hpos
    refine ⟨?_, by rw [abs_lt, abs_of_pos hpos]; omega⟩
    rcases eq_or_ne (m.fmod n) 0 with hzero | hrest
    · exact .inl hzero
    · exact .inr (by rw [Int.sign_eq_one_of_pos hpos, Int.sign_eq_one_of_pos (by omega)])

def Operated.Reports (r : Operated) (kind : FaultKind) (message : String) : Prop :=
  ∃ f, r = .error f ∧ f.kind = kind ∧ f.message = message

structure Operated.IsExact (h : Heap) (n : ℤ) (r : Operated) : Prop where
  fits : ∀ w : Int64, w.toInt = n → r = .ok (.int w, h)
  overflows : (∀ w : Int64, w.toInt ≠ n) → r.Reports .math "Integer overflow"

lemma isExact_ofExact (h : Heap) (n : ℤ) : Operated.IsExact h n (h.unchanged (Value.ofExact n)) where
  fits w hw := by rw [Value.ofExact_of_toInt w hw]; rfl
  overflows hn := by
    rw [Value.ofExact, Number.word?_eq_none_iff_forall.2 hn]
    exact ⟨.overflow, rfl, rfl, rfl⟩

def intOperators : List BinaryOp := [.add, .sub, .mul, .floorDiv, .mod, .pow]

lemma mem_intOperators (hop : op ∈ intOperators) :
    op = .add ∨ op = .sub ∨ op = .mul ∨ op = .floorDiv ∨ op = .mod ∨ op = .pow := by
  simpa only [intOperators, List.mem_cons, List.not_mem_nil, or_false] using hop

lemma binary_ints (hop : op ∈ intOperators) (h : Heap) (a b : Int64) :
    h.binary op (.int a) (.int b) = h.unchanged (Value.arithmeticInts op a b) := by
  rcases mem_intOperators hop with rfl | rfl | rfl | rfl | rfl | rfl <;> rfl

theorem int_operators_exact (h : Heap) (a b : Int64) :
    Operated.IsExact h (a.toInt + b.toInt) (h.binary .add (.int a) (.int b)) ∧
    Operated.IsExact h (a.toInt - b.toInt) (h.binary .sub (.int a) (.int b)) ∧
    Operated.IsExact h (a.toInt * b.toInt) (h.binary .mul (.int a) (.int b)) ∧
    (b ≠ 0 → Operated.IsExact h ⌊(a.toInt : ℚ) / b.toInt⌋ (h.binary .floorDiv (.int a) (.int b))) ∧
    (0 ≤ b → Operated.IsExact h (a.toInt ^ b.toInt.toNat) (h.binary .pow (.int a) (.int b))) ∧
    (b ≠ 0 → ∃ r : Int64, h.binary .mod (.int a) (.int b) = .ok (.int r, h) ∧
      a.toInt = b.toInt * ⌊(a.toInt : ℚ) / b.toInt⌋ + r.toInt ∧
      (r = 0 ∨ r.toInt.sign = b.toInt.sign) ∧ |r.toInt| < |b.toInt|) ∧
    (b = 0 → (h.binary .floorDiv (.int a) (.int b)).Reports .math "Division by zero" ∧
      (h.binary .mod (.int a) (.int b)).Reports .math "Modulo by zero") ∧
    ∀ op ∈ intOperators, ∃ r,
      Value.operateInts? op a b = some r ∧ h.binary op (.int a) (.int b) = h.unchanged r := by
  refine ⟨isExact_ofExact h _, isExact_ofExact h _, isExact_ofExact h _, fun hb => ?_, fun hb => ?_, fun hb => ?_,
    fun hb => ?_, fun op hop => ?_⟩
  · rw [binary_ints (by decide), Value.arithmeticInts_floorDiv hb, floor_div_eq_fdiv]
    exact isExact_ofExact h _
  · rw [binary_ints (by decide), Value.arithmeticInts_pow hb]
    exact isExact_ofExact h _
  · obtain ⟨r, hr, hvalue⟩ := Value.arithmeticInts_mod (a := a) hb
    have hne := (Number.Word.ne_zero_iff b).1 hb
    obtain ⟨hsign, hsize⟩ := fmod_sign_and_size a.toInt hne
    refine ⟨r, ?_, ?_, ?_, ?_⟩
    · rw [binary_ints (by decide), hr]
      rfl
    · rw [floor_div_eq_fdiv, hvalue, Int.mul_fdiv_add_fmod]
    · rw [hvalue]
      exact hsign.imp_left fun hzero => Int64.toInt_inj.1 (hvalue.trans hzero)
    · rw [hvalue]
      exact hsize
  · subst hb
    exact ⟨⟨.divisionByZero, rfl, rfl, rfl⟩, ⟨.moduloByZero, rfl, rfl, rfl⟩⟩
  · exact ⟨_, Value.operateInts?_eq op a b, binary_ints hop h a b⟩

theorem int_operators_at_least_word :
    ((-1 : Int64) ≠ 0 ∧ (0 : Int64) ≤ 63) ∧
    (({} : Heap).binary .floorDiv (.int Int64.minValue) (.int (-1))).Reports .math "Integer overflow" ∧
    (∃ r : Int64, ({} : Heap).binary .mod (.int Int64.minValue) (.int (-1)) = .ok (.int r, {}) ∧ |r.toInt| < 1) ∧
    ({} : Heap).binary .pow (.int (-2)) (.int 63) = .ok (.int Int64.minValue, {}) := by
  have hne : (-1 : Int64) ≠ 0 := by decide
  have hexponent : (0 : Int64) ≤ 63 := by decide
  obtain ⟨-, -, -, hdiv, -, hmod, -⟩ := int_operators_exact {} Int64.minValue (-1)
  obtain ⟨-, -, -, -, hpow, -⟩ := int_operators_exact {} (-2) 63
  refine ⟨⟨hne, hexponent⟩, ?_, ?_, ?_⟩
  · apply (hdiv hne).overflows
    intro w
    have hquotient : Int64.minValue.toInt.fdiv (-1 : Int64).toInt = 2 ^ 63 := by decide
    rw [floor_div_eq_fdiv, hquotient]
    exact w.toInt_lt.ne
  · obtain ⟨r, hr, -, -, hsize⟩ := hmod hne
    exact ⟨r, hr, hsize⟩
  · exact (hpow hexponent).fits Int64.minValue (by decide)

end ScriptMachine
