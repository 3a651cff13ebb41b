import ScriptMachine.Number.Read

namespace ScriptMachine.Number.Word

def add? (a b : Int64) : Option Int64 := word? (a.toInt + b.toInt)

def sub? (a b : Int64) : Option Int64 := word? (a.toInt - b.toInt)

def mul? (a b : Int64) : Option Int64 := word? (a.toInt * b.toInt)

/-- Nothing is divided by zero, nor the least word by `-1`. -/
def divides (a b : Int64) : Bool := b != 0 && !(a == Int64.minValue && b == -1)

def div? (a b : Int64) : Option Int64 := if divides a b then some (a / b) else none

def rem? (a b : Int64) : Option Int64 := if divides a b then some (a % b) else none

def roundDown? (quotient a b : Int64) : Option Int64 := do
  let rest ← rem? a b
  if rest ≠ 0 ∧ decide (a < 0) ≠ decide (b < 0) then sub? quotient 1 else some quotient

def floorRem? (a b : Int64) : Option Int64 := do
  let rest ← rem? a b
  if rest ≠ 0 ∧ decide (rest < 0) ≠ decide (b < 0) then add? rest b else some rest

/-- `product · base ^ n`, by squaring the base. It is not squared again for the last digit of the exponent. -/
def powFrom? (product base : Int64) (n : Nat) : Option Int64 :=
  if n = 0 then some product
  else do
    let product ← if n % 2 = 1 then mul? product base else some product
    if n = 1 then some product else powFrom? product (← mul? base base) (n / 2)
termination_by n

def pow? (base : Int64) (n : Nat) : Option Int64 := powFrom? 1 base n

section division

variable {a b q : Int64}

theorem divides_of_ne (h₀ : b ≠ 0) (h₁ : b ≠ -1) : divides a b = true := by
  simp [divides, h₀, h₁]

theorem toInt_ne_zero (h : divides a b = true) : b.toInt ≠ 0 := by
  rintro h₀
  have hb : b = 0 := Int64.toInt_inj.1 h₀
  simp [divides, hb] at h

theorem toInt_div (h : divides a b = true) : (a / b).toInt = a.toInt.tdiv b.toInt := by
  simp only [divides, Bool.and_eq_true, Bool.not_eq_true', Bool.and_eq_false_iff, beq_eq_false_iff_ne] at h
  rcases h.2 with ha | hb
  · exact Int64.toInt_div_of_ne_left a b ha
  · exact Int64.toInt_div_of_ne_right a b hb

theorem natAbs_tdiv_le {m n : Int} (h : m.tmod n ≠ 0) : (m.tdiv n).natAbs ≤ m.natAbs / 2 := by
  rw [Int.natAbs_tdiv]
  rcases Nat.lt_or_ge n.natAbs 2 with hsmall | hlarge
  · have hcases : n = 0 ∨ n = 1 ∨ n = -1 := by omega
    rcases hcases with rfl | rfl | rfl
    · exact Nat.le_trans (Nat.le_of_eq (Nat.div_zero _)) (Nat.zero_le _)
    · exact absurd (Int.tmod_one m) h
    · exact absurd (by rw [Int.tmod_neg, Int.tmod_one]) h
  · exact Nat.div_le_div_left hlarge (by decide)

theorem fdiv_eq_tdiv_of_signs {m n : Int} (hn : n ≠ 0) :
    m.fdiv n = if m.tmod n ≠ 0 ∧ decide (m < 0) ≠ decide (n < 0) then m.tdiv n - 1 else m.tdiv n := by
  have hdvd : n ∣ m ↔ m.tmod n = 0 := Int.dvd_iff_tmod_eq_zero
  have hsign : n.sign = if n < 0 then -1 else 1 := by
    rcases Int.lt_or_gt_of_ne hn with hneg | hpos
    · rw [if_pos hneg, Int.sign_eq_neg_one_of_neg hneg]
    · rw [if_neg (by omega), Int.sign_eq_one_of_pos hpos]
  rw [Int.fdiv_eq_tdiv, hsign]
  by_cases hzero : m.tmod n = 0
  · simp [hdvd.2 hzero, hzero]
  · have hndvd : ¬ n ∣ m := fun hd => hzero (hdvd.1 hd)
    by_cases hm : m < 0 <;> by_cases hneg : n < 0 <;> simp [hndvd, hzero, hm, hneg] <;> omega

theorem tmod_lt_zero_iff {m n : Int} (h : m.tmod n ≠ 0) : m.tmod n < 0 ↔ m < 0 := by
  rcases Int.lt_or_le m 0 with hneg | hnonneg
  · have hopposite := Int.tmod_nonneg n (a := -m) (by omega)
    rw [Int.neg_tmod] at hopposite
    omega
  · have hsame := Int.tmod_nonneg n hnonneg
    omega

theorem fmod_eq_tmod_of_signs {m n : Int} (hn : n ≠ 0) :
    m.fmod n = if m.tmod n ≠ 0 ∧ decide (m.tmod n < 0) ≠ decide (n < 0) then m.tmod n + n else m.tmod n := by
  have hfloor := Int.mul_fdiv_add_fmod m n
  have hzero := Int.mul_tdiv_add_tmod m n
  rw [fdiv_eq_tdiv_of_signs hn] at hfloor
  by_cases hrest : m.tmod n = 0
  · rw [if_neg (by simp [hrest])] at hfloor ⊢
    omega
  · simp only [tmod_lt_zero_iff hrest]
    split at hfloor
    · rename_i hsigns
      rw [if_pos hsigns]
      rw [Int.mul_sub, Int.mul_one] at hfloor
      omega
    · rename_i hsigns
      rw [if_neg hsigns]
      omega

theorem lt_zero_iff (a : Int64) : a < 0 ↔ a.toInt < 0 := Int64.lt_iff_toInt_lt

theorem ne_zero_iff (a : Int64) : a ≠ 0 ↔ a.toInt ≠ 0 := by rw [Ne, Ne, ← Int64.toInt_inj]; rfl

theorem exists_word? {n : Int} (hle : -9223372036854775808 ≤ n) (hlt : n < 9223372036854775808) :
    ∃ w, word? n = some w ∧ w.toInt = n :=
  ⟨Int64.ofInt n, if_pos ⟨hle, hlt⟩, Int64.toInt_ofInt_of_le hle hlt⟩

theorem roundDown?_of_div? (h : div? a b = some q) :
    ∃ r, roundDown? q a b = some r ∧ r.toInt = a.toInt.fdiv b.toInt := by
  simp only [div?, Option.ite_none_right_eq_some, Option.some.injEq] at h
  obtain ⟨hdiv, rfl⟩ := h
  simp only [roundDown?, rem?, hdiv, if_true, Option.bind_eq_bind, Option.bind_some, ne_zero_iff, lt_zero_iff,
    Int64.toInt_mod]
  rw [fdiv_eq_tdiv_of_signs (toInt_ne_zero hdiv), ← toInt_div hdiv]
  split
  · rename_i hcase
    have hfar := natAbs_tdiv_le hcase.1
    have hle := a.le_toInt
    have hlt := a.toInt_lt
    rw [← toInt_div hdiv] at hfar
    have hone : (1 : Int64).toInt = 1 := rfl
    rw [sub?, hone]
    exact exists_word? (by omega) (by omega)
  · exact ⟨_, rfl, rfl⟩

theorem floorRem?_of_divides (h : divides a b = true) :
    ∃ r, floorRem? a b = some r ∧ r.toInt = a.toInt.fmod b.toInt := by
  simp only [floorRem?, rem?, h, if_true, Option.bind_eq_bind, Option.bind_some, ne_zero_iff, lt_zero_iff]
  rw [fmod_eq_tmod_of_signs (toInt_ne_zero h), ← Int64.toInt_mod]
  split
  · rename_i hcase
    -- the two have opposite signs
    have hle := b.le_toInt
    have hlt := b.toInt_lt
    have hle' := (a % b).le_toInt
    have hlt' := (a % b).toInt_lt
    have hopposite := hcase.2
    rw [Ne, decide_eq_decide] at hopposite
    exact exists_word? (by omega) (by omega)
  · exact ⟨_, rfl, rfl⟩

end division

end ScriptMachine.Number.Word
