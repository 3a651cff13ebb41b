import ScriptMachine.Proofs.IntArithmetic

/-! Ints as exact decimals. An int and the decimal of the same value compare alike with all numbers, and an operator
that gives an int gives the same number when some operands are decimals. -/

namespace ScriptMachine

namespace Value

inductive Denotes : Value → ℚ → Prop where
  | int (n : Int64) : Denotes (.int n) n.toInt
  | decimal (q : ℚ) : Denotes (.decimal q) q

lemma compareRats_intCast (m n : ℤ) : compareRats m n = compare m n := by
  simp only [compareRats, Int.cast_lt, Int.cast_inj]
  rfl

lemma compareRats_eq_iff {p q : ℚ} : compareRats p q = .eq ↔ p = q := by
  rw [compareRats]
  rcases lt_trichotomy p q with hlt | heq | hgt
  · simp [hlt, hlt.ne]
  · simp [heq]
  · simp [hgt.not_gt, hgt.ne']

section denotes

variable {a b : Value} {p q : ℚ}

lemma Denotes.view (ha : a.Denotes p) (h : Heap) : h.view a = a := by
  rw [Heap.view]
  cases ha <;> cases h.lists.size + h.maps.size <;> rfl

lemma Denotes.isNil (ha : a.Denotes p) : a.isNil = false := by
  cases ha <;> rfl

lemma Denotes.promote (ha : a.Denotes p) (hb : b.Denotes q) : ∃ pair, promote a b = .ok (some pair) := by
  cases ha <;> cases hb <;> exact ⟨_, rfl⟩

lemma Denotes.relate (ha : a.Denotes p) (hb : b.Denotes q) : relate a b = .ordered (compareRats p q) := by
  cases ha <;> cases hb
  · exact congrArg Relation.ordered (compareRats_intCast _ _).symm
  all_goals rfl

lemma Denotes.same (ha : a.Denotes p) (hb : b.Denotes q) : a.same b = decide (p = q) := by
  have hnumber : a.same b = sameNumber a b := by cases ha <;> cases hb <;> simp [Value.same]
  obtain ⟨pair, hpair⟩ := ha.promote hb
  rw [hnumber, sameNumber, hpair, ha.relate hb]
  simp only [Relation.ordered.injEq, compareRats_eq_iff]

lemma Denotes.equal (ha : a.Denotes p) (hb : b.Denotes q) (h : Heap) : h.equal a b = decide (p = q) := by
  rw [Heap.equal, ha.view, hb.view, ha.same hb]

def comparison (op : BinaryOp) (p q : ℚ) : Bool :=
  match op with
  | .eq => decide (p = q)
  | .ne => !decide (p = q)
  | op => orderHolds op (compareRats p q)

lemma Denotes.compare (ha : a.Denotes p) (hb : b.Denotes q) (h : Heap) (op : BinaryOp) :
    h.compare op a b = .ok (comparison op p q) := by
  unfold Heap.compare
  rw [ha.isNil, hb.isNil, ha.equal hb, ha.relate hb]
  cases op <;> rfl

end denotes

section arithmetic

variable {op : BinaryOp} {a b c : Int64}

lemma toInt_of_ofExact {n : ℤ} (h : ofExact n = .ok (.int c)) : c.toInt = n := by
  cases hn : Number.word? n with
  | none => simp [ofExact, hn, ofChecked] at h
  | some w =>
    obtain rfl : w = c := by simpa [ofExact, hn, ofChecked] using h
    exact Number.toInt_of_word? hn

lemma powerOfRat_intCast (m : ℤ) (n : ℕ) : powerOfRat m n = ((m ^ n : ℤ) : ℚ) := by
  rw [powerOfRat, if_pos (Int.natCast_nonneg n), Int.toNat_natCast, Int.cast_pow]
  rfl

lemma decimalPower_intCast (m : ℤ) {n : ℕ} (hn : n < 2 ^ 31) :
    decimalPower m (n : ℤ) = .ok (.decimal (m ^ n : ℤ)) := by
  have hfits : fitsExponent (n : ℤ) = true := by
    rw [fitsExponent, decide_eq_true_eq]
    omega
  rw [decimalPower, if_pos (Rat.den_intCast _), Rat.num_intCast, hfits, if_neg (by simp), if_neg (by omega),
    powerOfRat_intCast]

lemma floor_intCast_div (m n : ℤ) : Rat.floor ((m : ℚ) / n) = m.fdiv n := floor_div_eq_fdiv m n

lemma arithmeticDecimals_floorDiv (hb : b.toInt ≠ 0) (hc : c.toInt = a.toInt.fdiv b.toInt) :
    arithmeticDecimals .floorDiv a.toInt b.toInt = .ok (.int c) := by
  have hne : (b.toInt : ℚ) ≠ 0 := Int.cast_ne_zero.2 hb
  simp only [arithmeticDecimals, if_neg hne, floor_intCast_div, Number.word?_eq_some_iff.2 hc]

lemma arithmeticDecimals_mod (hb : b.toInt ≠ 0) :
    arithmeticDecimals .mod a.toInt b.toInt = .ok (.decimal (a.toInt.fmod b.toInt : ℤ)) := by
  have hne : (b.toInt : ℚ) ≠ 0 := Int.cast_ne_zero.2 hb
  rw [Int.fmod_def]
  push_cast
  simp only [arithmeticDecimals, if_neg hne, floor_intCast_div]

lemma toInt_ne_zero_of_ok (hop : op = .floorDiv ∨ op = .mod) (hc : arithmeticInts op a b = .ok (.int c)) : b ≠ 0 := by
  rintro rfl
  rcases hop with rfl | rfl
  · exact absurd (show Except.error Fault.divisionByZero = _ from hc) (by simp)
  · exact absurd (show Except.error Fault.moduloByZero = _ from hc) (by simp)

lemma arithmeticDecimals_of_ints (hop : op ∈ intOperators) (hpow : op = .pow → 0 ≤ b.toInt ∧ b.toInt < 2 ^ 31)
    (hc : arithmeticInts op a b = .ok (.int c)) :
    ∃ v : Value, arithmeticDecimals op a.toInt b.toInt = .ok v ∧ v.Denotes c.toInt := by
  rcases mem_intOperators hop with rfl | rfl | rfl | rfl | rfl | rfl
  iterate 3
    refine ⟨_, rfl, ?_⟩
    rw [toInt_of_ofExact hc]
    push_cast
    exact .decimal _
  · have hb := toInt_ne_zero_of_ok (.inl rfl) hc
    rw [arithmeticInts_floorDiv hb] at hc
    exact ⟨_, arithmeticDecimals_floorDiv ((Number.Word.ne_zero_iff b).1 hb) (toInt_of_ofExact hc), .int c⟩
  · have hb := toInt_ne_zero_of_ok (.inr rfl) hc
    obtain ⟨r, hr, hvalue⟩ := arithmeticInts_mod (a := a) hb
    obtain rfl : r = c := by simpa [hr] using hc
    rw [arithmeticDecimals_mod ((Number.Word.ne_zero_iff b).1 hb), ← hvalue]
    exact ⟨_, rfl, .decimal _⟩
  · obtain ⟨hnonneg, hlt⟩ := hpow rfl
    rw [arithmeticInts_pow (Int64.le_iff_toInt_le.2 hnonneg)] at hc
    obtain ⟨n, hn⟩ := Int.eq_ofNat_of_zero_le hnonneg
    rw [toInt_of_ofExact hc, hn, Int.toNat_natCast]
    exact ⟨_, decimalPower_intCast a.toInt (by omega), .decimal _⟩

lemma overflow_of_ofExact {n : ℤ} {f : Fault} (h : ofExact n = .error f) : f = .overflow := by
  cases hn : Number.word? n with
  | none => simpa [ofExact, hn, ofChecked] using h.symm
  | some w => simp [ofExact, hn, ofChecked] at h

lemma arithmeticDecimals_of_zero (hop : op ∈ intOperators) (hpow : op = .pow → 0 ≤ b.toInt) {f : Fault}
    (hf : f ∈ [Fault.divisionByZero, .moduloByZero]) (hc : arithmeticInts op a b = .error f) :
    arithmeticDecimals op a.toInt b.toInt = .error f := by
  have hne {n : ℤ} : ofExact n ≠ .error f := fun h => by simp [overflow_of_ofExact h] at hf
  rcases mem_intOperators hop with rfl | rfl | rfl | rfl | rfl | rfl
  iterate 3 exact absurd hc hne
  · by_cases hb : b = 0
    · subst hb
      exact hc
    · exact absurd (arithmeticInts_floorDiv hb ▸ hc) hne
  · by_cases hb : b = 0
    · subst hb
      exact hc
    · obtain ⟨r, hr, -⟩ := arithmeticInts_mod (a := a) hb
      simp [hr] at hc
  · exact absurd (arithmeticInts_pow (Int64.le_iff_toInt_le.2 (hpow rfl)) ▸ hc) hne

end arithmetic

lemma Denotes.eq_or_eq {x : Value} {n : Int64} (hx : x.Denotes n.toInt) : x = .int n ∨ x = .decimal n.toInt := by
  generalize hq : (n.toInt : ℚ) = q at hx
  cases hx with
  | int m => exact .inl (congrArg _ (Int64.toInt_inj.1 (Int.cast_inj.1 hq)).symm)
  | decimal => exact .inr rfl

end Value

section widening

variable {r : Except Fault Value} {h : Heap} {x y : Value} {a b : Int64} {op : BinaryOp}

lemma unchanged_eq_ok_iff {v : Value} : h.unchanged r = .ok (v, h) ↔ r = .ok v := by
  cases r <;> simp [Heap.unchanged, Except.map]

lemma unchanged_eq_error_iff {f : Fault} : h.unchanged r = .error f ↔ r = .error f := by
  cases r <;> simp [Heap.unchanged, Except.map]

lemma binary_widened (hop : op ∈ intOperators) (hx : x.Denotes a.toInt) (hy : y.Denotes b.toInt) :
    h.binary op x y = h.binary op (.int a) (.int b) ∨
      h.binary op x y = h.unchanged (Value.arithmeticDecimals op a.toInt b.toInt) := by
  rcases hx.eq_or_eq with rfl | rfl <;> rcases hy.eq_or_eq with rfl | rfl
  · exact .inl rfl
  all_goals
    right
    rcases mem_intOperators hop with rfl | rfl | rfl | rfl | rfl | rfl <;> rfl

end widening

theorem widening_keeps_int_results (h : Heap) (a b : Int64) {x y : Value} (hx : x.Denotes a.toInt)
    (hy : y.Denotes b.toInt) :
    (∀ op ∈ intOperators, (op = .pow → 0 ≤ b.toInt ∧ b.toInt < 2 ^ 31) →
      (∀ c : Int64, h.binary op (.int a) (.int b) = .ok (.int c, h) →
        ∃ v q, h.binary op x y = .ok (v, h) ∧ v.Denotes q ∧ h.equal v (.int c) = true) ∧
      ∀ f ∈ [Fault.divisionByZero, .moduloByZero], h.binary op (.int a) (.int b) = .error f →
        h.binary op x y = .error f) ∧
    ∀ op ∈ [BinaryOp.eq, .ne, .lt, .gt, .le, .ge], h.binary op x y = h.binary op (.int a) (.int b) := by
  refine ⟨fun op hop hpow => ⟨fun c hc => ?_, fun f hf hfault => ?_⟩, fun op hop => ?_⟩
  · rcases binary_widened hop hx hy with hsame | hwide
    · exact ⟨_, _, hsame.trans hc, .int c, by rw [(Value.Denotes.int c).equal (.int c)]; simp⟩
    · rw [binary_ints hop, unchanged_eq_ok_iff] at hc
      obtain ⟨v, hv, hvalue⟩ := Value.arithmeticDecimals_of_ints hop hpow hc
      refine ⟨v, c.toInt, ?_, hvalue, ?_⟩
      · rw [hwide, unchanged_eq_ok_iff, hv]
      · rw [hvalue.equal (.int c)]
        simp
  · rcases binary_widened hop hx hy with hsame | hwide
    · exact hsame.trans hfault
    · rw [binary_ints hop, unchanged_eq_error_iff] at hfault
      rw [hwide, unchanged_eq_error_iff]
      exact Value.arithmeticDecimals_of_zero hop (fun hp => (hpow hp).1) hf hfault
  · have hcompare := (hx.compare hy h op).trans ((Value.Denotes.int a).compare (.int b) h op).symm
    simp only [List.mem_cons, List.not_mem_nil, or_false] at hop
    rcases hop with rfl | rfl | rfl | rfl | rfl | rfl <;> exact congrArg (fun r => h.unchanged (r.map .bool)) hcompare

theorem widened_floor_division :
    (Value.decimal (-7)).Denotes (-7 : Int64).toInt ∧ (Value.int 2).Denotes (2 : Int64).toInt ∧
      ∃ v q, ({} : Heap).binary .floorDiv (.decimal (-7)) (.int 2) = .ok (v, {}) ∧ v.Denotes q ∧
        ({} : Heap).equal v (.int (-4)) = true := by
  have hx : (Value.decimal (-7)).Denotes (-7 : Int64).toInt := by
    have hvalue : (((-7 : Int64).toInt : ℤ) : ℚ) = -7 := by
      have hint : (-7 : Int64).toInt = -7 := by decide
      rw [hint]
      norm_num
    rw [hvalue]
    exact .decimal _
  have hy : (Value.int 2).Denotes (2 : Int64).toInt := .int 2
  obtain ⟨hresults, -⟩ := widening_keeps_int_results {} (-7) 2 hx hy
  exact ⟨hx, hy, (hresults .floorDiv (by decide) (by decide)).1 (-4) rfl⟩

end ScriptMachine
