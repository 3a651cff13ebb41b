import ScriptMachine.Proofs.IntArithmetic
import ScriptMachine.Proofs.Stages

/-! Counts. The built-in `range` gives all numbers of an arithmetic sequence that lie before its end, and no others, up
to the limits of 64 bits. -/

namespace ScriptMachine

open List

def LiesBefore (n stop step : ℤ) : Prop := 0 < step ∧ n < stop ∨ step < 0 ∧ stop < n

def countLength (start stop step : ℤ) : ℕ := (max 0 ⌈((stop - start : ℤ) : ℚ) / step⌉).toNat

section exact

variable {start stop step : ℤ}

lemma lt_ceil_div_iff (h : step ≠ 0) (j : ℕ) :
    (j : ℤ) < ⌈((stop - start : ℤ) : ℚ) / step⌉ ↔ LiesBefore (start + j * step) stop step := by
  rw [Int.lt_ceil, LiesBefore]
  rcases lt_or_gt_of_ne h with hneg | hpos
  · have hcast : ((stop - start : ℤ) : ℚ) < ((j : ℤ) : ℚ) * step ↔ stop - start < j * step := by exact_mod_cast Iff.rfl
    rw [lt_div_iff_of_neg (by exact_mod_cast hneg), hcast]
    omega
  · have hcast : ((j : ℤ) : ℚ) * step < ((stop - start : ℤ) : ℚ) ↔ j * step < stop - start := by exact_mod_cast Iff.rfl
    rw [lt_div_iff₀ (by exact_mod_cast hpos), hcast]
    omega

lemma lt_countLength_iff (h : step ≠ 0) (j : ℕ) :
    j < countLength start stop step ↔ LiesBefore (start + j * step) stop step := by
  rw [← lt_ceil_div_iff h, countLength]
  omega

lemma countLength_eq_zero (hstep : step ≠ 0) (h : ¬ LiesBefore start stop step) : countLength start stop step = 0 := by
  by_contra hne
  have hfirst := (lt_countLength_iff hstep 0).1 (Nat.pos_of_ne_zero hne)
  rw [Nat.cast_zero, zero_mul, add_zero] at hfirst
  exact h hfirst

lemma countLength_eq_succ (hstep : step ≠ 0) (h : LiesBefore start stop step) :
    countLength start stop step = countLength (start + step) stop step + 1 := by
  have hnext (j : ℕ) : j + 1 < countLength start stop step ↔ j < countLength (start + step) stop step := by
    rw [lt_countLength_iff hstep, lt_countLength_iff hstep]
    push_cast
    rw [add_mul, one_mul, add_comm (j * step) step, add_assoc]
  have hfirst : 0 < countLength start stop step := by
    rw [lt_countLength_iff hstep, Nat.cast_zero, zero_mul, add_zero]
    exact h
  have hlast := hnext (countLength (start + step) stop step)
  have hbefore := hnext (countLength (start + step) stop step - 1)
  omega

end exact

section range

variable {current stop step : Int64}

lemma not_liesBefore_of_overflow (hnext : Number.word? (current.toInt + step.toInt) = none) :
    ¬ LiesBefore (current.toInt + step.toInt) stop.toInt step.toInt := by
  rw [Number.word?_eq_none_iff] at hnext
  have hle := current.le_toInt
  have hlt := current.toInt_lt
  have hle' := stop.le_toInt
  have hlt' := stop.toInt_lt
  unfold LiesBefore
  omega

theorem map_toInt_countUpTo (hstep : step.toInt ≠ 0) (stop current : Int64) (counted : List Int64) :
    (countUpTo stop step current counted).map Int64.toInt = counted.reverse.map Int64.toInt ++
      (List.range (countLength current.toInt stop.toInt step.toInt)).map fun j : ℕ =>
        current.toInt + j * step.toInt := by
  fun_induction countUpTo with
  | case1 current counted hbefore next hnext ih =>
    -- The numbers from the next one on are those from this one on without the first.
    have hsum := Number.toInt_of_word? hnext
    have hnumber (j : ℕ) : current.toInt + step.toInt + j * step.toInt = current.toInt + (j + 1 : ℕ) * step.toInt := by
      push_cast
      ring
    rw [ih, hsum, countLength_eq_succ hstep (beforeStop_iff.1 hbefore), range_succ_eq_map]
    simp [Function.comp_def, hnumber]
  | case2 current counted hbefore hnext =>
    rw [countLength_eq_succ hstep (beforeStop_iff.1 hbefore),
      countLength_eq_zero hstep (not_liesBefore_of_overflow hnext)]
    simp
  | case3 current counted hbefore =>
    rw [countLength_eq_zero hstep (beforeStop_iff.not.1 hbefore)]
    simp

lemma length_countUpTo (hstep : step.toInt ≠ 0) (start stop : Int64) :
    (countUpTo stop step start []).length = countLength start.toInt stop.toInt step.toInt := by
  have hlength := congrArg List.length (map_toInt_countUpTo hstep stop start [])
  simpa using hlength

lemma toInt_ne_zero (h : step ≠ 0) : step.toInt ≠ 0 := fun hz => h (Int64.toInt_inj.1 hz)

lemma enterCall_range (s : State) (start stop : Int64) (hstep : step.toInt ≠ 0) (span : Span) (ctx : Context) :
    s.enterCall (.builtin .range) [.int start, .int stop, .int step] [] span ctx =
      s.value (.list ((countUpTo stop step start []).map .int)) := by
  have hperform : s.perform ⟨.range, [.int start, .int stop, .int step], span, ctx⟩ =
      if step.toInt = 0 then .error .zeroRangeStep
      else .ok (s.value (.list ((countUpTo stop step start []).map .int))) := rfl
  rw [if_neg hstep] at hperform
  have hbind : Builtin.bind .range [.int start, .int stop, .int step] [] = .ok [.int start, .int stop, .int step] := rfl
  simp only [State.enterCall, State.callBuiltin, hbind, hperform]

lemma toInt_of_getElem?_countUpTo (hstep : step.toInt ≠ 0) {start n : Int64} {j : ℕ}
    (h : (countUpTo stop step start [])[j]? = some n) : n.toInt = start.toInt + j * step.toInt := by
  have hexact := congrArg (·[j]?) (map_toInt_countUpTo hstep stop start [])
  simp only [reverse_nil, map_nil, nil_append, getElem?_map, h, Option.map_some] at hexact
  obtain ⟨k, hk, hnumber⟩ := Option.map_eq_some_iff.1 hexact.symm
  obtain ⟨hj, hrange⟩ := List.getElem?_eq_some_iff.1 hk
  rw [← hnumber, ← hrange, getElem_range]

end range

/-- `range` gives as many numbers as there are steps before the end, counted over all integers, and each of them is
exact. -/
theorem range_counts_exactly (s : State) (start stop step : Int64) (span : Span) (ctx : Context) (h : step ≠ 0) :
    ∃ numbers : List Int64,
      s.enterCall (.builtin .range) [.int start, .int stop, .int step] [] span ctx =
          s.value (.list (numbers.map .int)) ∧
        numbers.length = (max 0 ⌈((stop.toInt - start.toInt : ℤ) : ℚ) / step.toInt⌉).toNat ∧
        ∀ (j : ℕ) (n : Int64), numbers[j]? = some n → n.toInt = start.toInt + j * step.toInt := by
  have hstep := toInt_ne_zero h
  exact ⟨countUpTo stop step start [], enterCall_range s start stop hstep span ctx, length_countUpTo hstep start stop,
    fun j n => toInt_of_getElem?_countUpTo hstep⟩

theorem range_near_limit :
    (5 : Int64) ≠ 0 ∧ ∃ numbers : List Int64,
      freshEntry.2.enterCall (.builtin .range) [.int 9223372036854775800, .int 9223372036854775807, .int 5] []
        (.point 0) freshEntry.1 = freshEntry.2.value (.list (numbers.map .int)) ∧
      numbers.length = 2 ∧
        ∀ (j : ℕ) (n : Int64), numbers[j]? = some n → n.toInt = 9223372036854775800 + j * 5 := by
  have hstep : (5 : Int64) ≠ 0 := by decide
  obtain ⟨numbers, hcall, hlength, hexact⟩ := range_counts_exactly freshEntry.2 9223372036854775800
    9223372036854775807 5 (.point 0) freshEntry.1 hstep
  refine ⟨hstep, numbers, hcall, hlength.trans ?_, hexact⟩
  have hceil : ⌈(((9223372036854775807 : Int64).toInt - (9223372036854775800 : Int64).toInt : ℤ) : ℚ) /
      (5 : Int64).toInt⌉ = 2 := by
    have hbounds : (9223372036854775807 : Int64).toInt - (9223372036854775800 : Int64).toInt = 7 ∧
        (5 : Int64).toInt = 5 := by decide
    rw [hbounds.1, hbounds.2]
    norm_num
  rw [hceil]
  rfl

section loop

variable {h : Heap}

lemma compare_lt_ints (m n : Int64) : h.compare .lt (.int m) (.int n) = .ok (decide (m.toInt < n.toInt)) := by
  change Except.ok (compare m.toInt n.toInt == .lt) = _
  rw [Except.ok.injEq, Bool.eq_iff_iff, beq_iff_eq, compare_lt_iff_lt, decide_eq_true_eq]

lemma compare_gt_ints (m n : Int64) : h.compare .gt (.int m) (.int n) = .ok (decide (n.toInt < m.toInt)) := by
  change Except.ok (compare m.toInt n.toInt == .gt) = _
  rw [Except.ok.injEq, Bool.eq_iff_iff, beq_iff_eq, compare_gt_iff_gt, decide_eq_true_eq]

lemma equal_ints (m n : Int64) : h.equal (.int m) (.int n) = decide (m = n) := by
  have hview (k : Int64) : h.view (.int k) = .int k := by
    rw [Heap.view]
    cases h.lists.size + h.maps.size <;> rfl
  rw [Heap.equal, hview, hview]
  simp [Value.same, Value.sameNumber, Value.promote, Value.relate, Int64.toInt_inj]

lemma add_ints (m n : Int64) : h.add (.int m) (.int n) =
    match Number.word? (m.toInt + n.toInt) with
    | some k => .ok (.int k, h)
    | none => .error .overflow := by
  change h.unchanged (Value.ofExact (m.toInt + n.toInt)) = _
  rw [Value.ofExact]
  cases Number.word? (m.toInt + n.toInt) <;> rfl

structure Task.Unhindered (t : Task) (w : World) : Prop where
  deadline : t.deadline = none
  cancelled : State.isCancelled ⟨w, t⟩ = false

variable {w : World} {t : Task} {work : Control × List Frame} {clock : Nat}

lemma Task.Unhindered.interruption? (h : t.Unhindered w) : State.interruption? ⟨w, t.doing work clock⟩ = none := by
  have hcancelled : State.isCancelled ⟨w, t.doing work clock⟩ = false := h.cancelled
  have hdeadline : (t.doing work clock).deadline = none := h.deadline
  rw [State.interruption?, hcancelled, hdeadline]
  rfl

lemma Task.Unhindered.assigned (h : t.Unhindered w) (ctx : Context) (name : String) (v : Value) :
    t.Unhindered (w.assigned ctx name v) := ⟨h.deadline, h.cancelled⟩

structure CountingLoop where
  name : String
  stop : Int64
  step : Int64
  place : Span
  span : Span
  ctx : Context

namespace CountingLoop

variable (l : CountingLoop)

def toRangeLoop : RangeLoop :=
  ⟨l.name, .int l.stop, .int l.step, decide (0 < l.step.toInt), .ident l.name l.place, false, l.span, l.ctx⟩

def round (w : World) (current : Int64) (collected : List Value) (stack : List Frame) : Stage :=
  if beforeStop current l.stop l.step then
    (w.assigned l.ctx l.name (.int current), .eval (.ident l.name l.place) l.ctx,
      .rangeBody l.toRangeLoop (.int current) collected :: stack)
  else (w, .done (.value (.list collected.reverse)), stack)

variable {l}

lemma compare_round (h : Heap) (hstep : l.step.toInt ≠ 0) (current : Int64) :
    h.compare (if l.toRangeLoop.ascending then .lt else .gt) (.int current) l.toRangeLoop.stop =
      .ok (beforeStop current l.stop l.step) := by
  have hbefore : beforeStop current l.stop l.step = true ↔ LiesBefore current.toInt l.stop.toInt l.step.toInt :=
    beforeStop_iff
  unfold LiesBefore at hbefore
  change h.compare (if decide (0 < l.step.toInt) = true then .lt else .gt) (.int current) (.int l.stop) = _
  split
  · rename_i hup
    rw [compare_lt_ints, Except.ok.injEq, Bool.eq_iff_iff, hbefore, decide_eq_true_eq]
    have hup := of_decide_eq_true hup
    omega
  · rename_i hdown
    rw [compare_gt_ints, Except.ok.injEq, Bool.eq_iff_iff, hbefore, decide_eq_true_eq]
    have hdown := of_decide_eq_false (Bool.eq_false_iff.2 hdown)
    omega

lemma rangeRound_eq (h : t.Unhindered w) (hstep : l.step.toInt ≠ 0) (current : Int64) (collected : List Value) :
    State.rangeRound ⟨w, t.doing work clock⟩ l.toRangeLoop (.int current) collected =
      ⟨(l.round w current collected work.2).1, t.doing (l.round w current collected work.2).2 clock⟩ := by
  have hcalm : State.interruption? (State.assign ⟨w, t.doing work clock⟩ l.toRangeLoop.ctx l.toRangeLoop.var
      (.int current)) = none := (h.assigned l.ctx l.name (.int current)).interruption?
  rw [State.rangeRound, compare_round _ hstep, round]
  cases hbefore : beforeStop current l.stop l.step with
  | true =>
    dsimp only
    rw [hcalm]
    rfl
  | false => rfl

lemma leads_value (hc : l.ctx.Stands w.tables) (current : Int64) (collected : List Value) (stack : List Frame) :
    Stage.Leads t (w.assigned l.ctx l.name (.int current), .eval (.ident l.name l.place) l.ctx,
        .rangeBody l.toRangeLoop (.int current) collected :: stack)
      (w.assigned l.ctx l.name (.int current), .done (.value (.int current)),
        .rangeBody l.toRangeLoop (.int current) collected :: stack) := by
  have hlookup : l.ctx.lookup (w.assigned l.ctx l.name (.int current)).tables l.name = some (.int current) :=
    Context.lookup_assign_self hc
  refine ⟨fun _ => rfl, fun clock => ?_, rfl⟩
  change State.evalNode ⟨w.assigned l.ctx l.name (.int current), _⟩ (.ident l.name l.place) l.ctx = _
  rw [State.evalNode, State.lookup, hlookup]
  rfl

lemma leads_round (h : t.Unhindered w) (hstep : l.step.toInt ≠ 0) {current next : Int64}
    (hnext : Number.word? (current.toInt + l.step.toInt) = some next) (collected : List Value) (stack : List Frame) :
    Stage.Leads t (w, .done (.value (.int current)), .rangeBody l.toRangeLoop (.int current) collected :: stack)
      (l.round w next (.int current :: collected) stack) := by
  have hadd : w.heap.add (.int current) l.toRangeLoop.step = .ok (.int next, w.heap) :=
    (add_ints current l.step).trans (by rw [hnext])
  refine ⟨fun _ => rfl, fun clock => ?_, ?_⟩
  · change State.rangeNext ⟨w, t.doing (_, stack) clock⟩ l.toRangeLoop (.int current) (.int current :: collected) = _
    rw [State.rangeNext, hadd]
    exact rangeRound_eq h hstep next (.int current :: collected)
  · unfold round
    split <;> rfl

lemma leads_overflow {current : Int64} (hnext : Number.word? (current.toInt + l.step.toInt) = none)
    (collected : List Value) (stack : List Frame) :
    Stage.Leads t (w, .done (.value (.int current)), .rangeBody l.toRangeLoop (.int current) collected :: stack)
      (w, .done (.error (Fault.overflow.at_ l.span l.ctx)), stack) := by
  have hadd : w.heap.add (.int current) l.toRangeLoop.step = .error .overflow :=
    (add_ints current l.step).trans (by rw [hnext])
  refine ⟨fun _ => rfl, fun clock => ?_, rfl⟩
  change State.rangeNext ⟨w, t.doing (_, stack) clock⟩ l.toRangeLoop (.int current) (.int current :: collected) = _
  rw [State.rangeNext, hadd]
  rfl

def ending (l : CountingLoop) (current : Int64) (counted : List Int64) : Completion :=
  match Number.word? (current.toInt + countLength current.toInt l.stop.toInt l.step.toInt * l.step.toInt) with
  | some _ => .value (.list ((countUpTo l.stop l.step current counted).map .int))
  | none => .error (Fault.overflow.at_ l.span l.ctx)

section ending

variable {current next : Int64} {counted : List Int64}

lemma ending_next (hstep : l.step.toInt ≠ 0) (h : beforeStop current l.stop l.step = true)
    (hnext : Number.word? (current.toInt + l.step.toInt) = some next) :
    l.ending current counted = l.ending next (current :: counted) := by
  have hlast : current.toInt + countLength current.toInt l.stop.toInt l.step.toInt * l.step.toInt =
      next.toInt + countLength next.toInt l.stop.toInt l.step.toInt * l.step.toInt := by
    rw [countLength_eq_succ hstep (beforeStop_iff.1 h), Number.toInt_of_word? hnext]
    push_cast
    ring
  have hcount : countUpTo l.stop l.step current counted = countUpTo l.stop l.step next (current :: counted) := by
    rw [countUpTo, if_pos h]
    split
    · rename_i next' hnext'
      obtain rfl := Option.some.inj (hnext.symm.trans hnext')
      rfl
    · rename_i hnone
      rw [hnext] at hnone
      contradiction
  rw [ending, ending, hlast, hcount]

lemma ending_overflow (hstep : l.step.toInt ≠ 0) (h : beforeStop current l.stop l.step = true)
    (hnext : Number.word? (current.toInt + l.step.toInt) = none) :
    l.ending current counted = .error (Fault.overflow.at_ l.span l.ctx) := by
  have hlength := countLength_eq_succ hstep (beforeStop_iff.1 h)
  rw [countLength_eq_zero hstep (not_liesBefore_of_overflow hnext)] at hlength
  rw [ending, hlength, Nat.zero_add, Nat.cast_one, one_mul, hnext]

lemma ending_over (hstep : l.step.toInt ≠ 0) (h : ¬ beforeStop current l.stop l.step = true) :
    l.ending current counted = .value (.list (counted.map .int).reverse) := by
  have hcount : countUpTo l.stop l.step current counted = counted.reverse := by rw [countUpTo, if_neg h]
  rw [ending, countLength_eq_zero hstep (beforeStop_iff.not.1 h), Nat.cast_zero, zero_mul, add_zero, Number.word?_toInt,
    hcount, map_reverse]

end ending

theorem comes_ending (h : t.Unhindered w) (hc : l.ctx.Stands w.tables) (hstep : l.step.toInt ≠ 0) (current : Int64)
    (counted : List Int64) (stack : List Frame) :
    ∃ tables, Stage.Comes t (l.round w current (counted.map .int) stack)
      ({ w with tables }, .done (l.ending current counted), stack) := by
  -- The loop goes round as `range` does, but each round assigns the name, so the world is another one.
  induction current, counted using countUpTo.induct l.stop l.step generalizing w with
  | case1 current counted hbefore next hnext ih =>
    let w' := w.assigned l.ctx l.name (.int current)
    have h' : t.Unhindered w' := h.assigned l.ctx l.name (.int current)
    obtain ⟨tables, hrest⟩ := ih h' hc.assign
    refine ⟨tables, ?_⟩
    rw [round, if_pos hbefore, ending_next hstep hbefore hnext]
    exact .head (leads_value hc current _ stack) (.head (leads_round h' hstep hnext _ stack) hrest)
  | case2 current counted hbefore hnext =>
    refine ⟨l.ctx.assign w.tables l.name (.int current), ?_⟩
    rw [round, if_pos hbefore, ending_overflow hstep hbefore hnext]
    exact .head (leads_value hc current _ stack) (.single (leads_overflow hnext _ stack))
  | case3 current counted hbefore =>
    refine ⟨w.tables, ?_⟩
    rw [round, if_neg hbefore, ending_over hstep hbefore]
    exact .refl

end CountingLoop

variable {start stop step : Int64} {first last by_ : Node} {place : Span} {ctx : Context}

lemma rangeFirst_eq (h : t.Unhindered w) (hstep : step ≠ 0) (work : Control × List Frame) (head : RangeHead)
    (hbody : head.body = .ident head.var place) (hinline : head.multiline = false) :
    State.rangeFirst ⟨w, t.doing work clock⟩ head (.int start) (.int stop) (.int step) =
      ⟨(CountingLoop.round ⟨head.var, stop, step, place, head.span, head.ctx⟩ w start [] work.2).1,
        t.doing (CountingLoop.round ⟨head.var, stop, step, place, head.span, head.ctx⟩ w start [] work.2).2 clock⟩ := by
  have hloop : (⟨head.var, .int stop, .int step, decide (0 < step.toInt), head.body, head.multiline, head.span,
      head.ctx⟩ : RangeLoop) = CountingLoop.toRangeLoop ⟨head.var, stop, step, place, head.span, head.ctx⟩ := by
    rw [hbody, hinline]
    rfl
  have hzero : w.heap.equal (.int step) (.int 0) = false := by
    rw [equal_ints]
    exact decide_eq_false hstep
  have hgt : w.heap.compare .gt (.int step) (.int 0) = .ok (decide (0 < step.toInt)) := compare_gt_ints step 0
  rw [State.rangeFirst]
  simp only [List.find?, State.isNumber, Bool.not_true, hzero, hgt, hloop, Bool.false_eq_true, if_false]
  exact CountingLoop.rangeRound_eq h (toInt_ne_zero hstep) start []

lemma comes_round (h : t.Unhindered w) (hstep : step ≠ 0) (hfirst : Evaluates w ctx first (.int start))
    (hlast : Evaluates w ctx last (.int stop)) (hby : Evaluates w ctx by_ (.int step)) (name : String)
    (place span : Span) (stack : List Frame) :
    Stage.Comes t (w, .eval (.forRange name first last (some by_) (.ident name place) false span) ctx, stack)
      (CountingLoop.round ⟨name, stop, step, place, span, ctx⟩ w start [] stack) := by
  let head : RangeHead := ⟨name, last, some by_, .ident name place, false, span, ctx⟩
  have hbounds : Goes w t (.eval (.forRange name first last (some by_) (.ident name place) false span) ctx, stack)
      (.done (.value (.int step)), .rangeStep head (.int start) (.int stop) :: stack) :=
    .head (fun _ => ⟨rfl, rfl⟩) (.trans (hfirst t (.rangeStart head :: stack)) (.head (fun _ => ⟨rfl, rfl⟩)
      (.trans (hlast t (.rangeStop head (.int start) :: stack)) (.head (fun _ => ⟨rfl, rfl⟩) (hby t _)))))
  refine hbounds.comes.tail ⟨fun _ => rfl, fun clock => ?_, ?_⟩
  · exact rangeFirst_eq h hstep (_, stack) head rfl rfl
  · unfold CountingLoop.round
    split <;> rfl

end loop

/-- A loop that counts and collects its numbers ends with the list that `range` gives: all numbers of the sequence that
lie before the end. But if the number after the last of them does not fit in 64 bits, it fails. -/
theorem counting_loop_follows_range {w : World} {t : Task} {ctx : Context} {start stop step : Int64}
    {first last by_ : Node} (name : String) (place span : Span) (stack : List Frame) (clock : Nat) (hborn : w.born = [])
    (ht : t.Unhindered w) (hctx : ctx.Stands w.tables) (hstep : step ≠ 0) (hfirst : Evaluates w ctx first (.int start))
    (hlast : Evaluates w ctx last (.int stop)) (hby : Evaluates w ctx by_ (.int step)) :
    ∃ numbers : List Int64,
      (∀ s : State, s.enterCall (.builtin .range) [.int start, .int stop, .int step] [] span ctx =
        s.value (.list (numbers.map .int))) ∧
      (∀ j : ℕ, j < numbers.length ↔ LiesBefore (start.toInt + j * step.toInt) stop.toInt step.toInt) ∧
      (∀ (j : ℕ) (n : Int64), numbers[j]? = some n → n.toInt = start.toInt + j * step.toInt) ∧
      ∃ tables clock', State.Runs
        ⟨w, t.doing (.eval (.forRange name first last (some by_) (.ident name place) false span) ctx, stack) clock⟩
        ⟨{ w with tables }, t.doing (.done (match Number.word? (start.toInt + numbers.length * step.toInt) with
          | some _ => .value (.list (numbers.map .int))
          | none => .error (Fault.overflow.at_ span ctx)), stack) clock'⟩ := by
  have hne := toInt_ne_zero hstep
  have hlength := length_countUpTo hne start stop
  refine ⟨countUpTo stop step start [], fun s => enterCall_range s start stop hne span ctx, fun j => ?_, fun j n => ?_,
    ?_⟩
  · rw [hlength, lt_countLength_iff hne]
  · exact toInt_of_getElem?_countUpTo hne
  · obtain ⟨tables, hrounds⟩ :=
      CountingLoop.comes_ending (l := ⟨name, stop, step, place, span, ctx⟩) ht hctx hne start [] stack
    have hcomes := (comes_round ht hstep hfirst hlast hby name place span stack).trans hrounds
    obtain ⟨clock', hruns⟩ := Stage.Comes.runs hcomes hborn clock
    rw [hlength]
    exact ⟨tables, clock', hruns⟩

theorem counting_down_follows_range :
    freshEntry.2.world.born = [] ∧ freshEntry.2.task.Unhindered freshEntry.2.world ∧
      freshEntry.1.Stands freshEntry.2.world.tables ∧ (-3 : Int64) ≠ 0 ∧ ∃ numbers : List Int64, numbers.length = 3 ∧
        (∀ (j : ℕ) (n : Int64), numbers[j]? = some n → n.toInt = 5 + j * (-3)) ∧
        ∃ tables clock, State.Runs
          ⟨freshEntry.2.world, freshEntry.2.task.doing (.eval (.forRange "i" (.int 5 (.point 0))
            (.unary .minus (.int 2 (.point 0)) (.point 0)) (some (.unary .minus (.int 3 (.point 0)) (.point 0)))
            (.ident "i" (.point 0)) false (.point 0)) freshEntry.1, []) 0⟩
          ⟨{ freshEntry.2.world with tables },
            freshEntry.2.task.doing (.done (.value (.list (numbers.map .int))), []) clock⟩ := by
  have hneg (n : Nat) (m : Int64) (h : freshEntry.2.world.heap.unary .minus (.int (Int64.ofNat n)) = .ok (.int m)) :
      Evaluates freshEntry.2.world freshEntry.1 (.unary .minus (.int n (.point 0)) (.point 0)) (.int m) :=
    evaluates_unary evaluates_int h
  have hfree : freshEntry.2.task.Unhindered freshEntry.2.world := ⟨rfl, rfl⟩
  have hfirst : Evaluates freshEntry.2.world freshEntry.1 (.int 5 (.point 0)) (.int 5) := evaluates_int
  obtain ⟨numbers, -, hbefore, hexact, tables, clock, hruns⟩ := counting_loop_follows_range "i" (.point 0) (.point 0) []
    0 rfl hfree stands_freshEntry (by decide) hfirst (hneg 2 (-2) rfl) (hneg 3 (-3) rfl)
  have hlength : numbers.length = 3 := by
    have htwo := (hbefore 2).2 (.inr (by decide))
    have hthree := (hbefore 3).not.2 (by unfold LiesBefore; decide)
    omega
  rw [hlength] at hruns
  exact ⟨rfl, hfree, stands_freshEntry, by decide, numbers, hlength, hexact, tables, clock, hruns⟩

def Machine.hasOverflowed (m : Machine) : Bool :=
  match m.result? with
  | some (.error f) => match f.fault with
    | .of .overflow => true
    | _ => false
  | _ => false

lemma Machine.result?_of_hasOverflowed {m : Machine} (h : m.hasOverflowed = true) :
    ∃ f, m.result? = some (.error f) ∧ f.fault = .of .overflow := by
  unfold hasOverflowed at h
  split at h
  · rename_i f hf
    split at h
    · rename_i hoverflow
      exact ⟨f, hf, hoverflow⟩
    · contradiction
  · contradiction

/-- A loop with one number before its end fails, as the next one does not fit; `range` gives the number. -/
theorem counting_loop_fails_past_last : ∃ m f,
    (Machine.ofProgram 10 (.ofText "for i = 9223372036854775806 to 9223372036854775807 step 2 do i")).Reaches m ∧
      m.result? = some (.error f) ∧ f.fault = .of .overflow ∧
      freshEntry.2.enterCall (.builtin .range) [.int 9223372036854775806, .int 9223372036854775807, .int 2] []
        (.point 0) freshEntry.1 = freshEntry.2.value (.list [.int 9223372036854775806]) := by
  have hfails : (stepsOf Machine.advance 10
      (Machine.ofProgram 10 (.ofText "for i = 9223372036854775806 to 9223372036854775807 step 2 do i"))).any
      Machine.hasOverflowed = true := by
    decide +kernel
  obtain ⟨m, hm, hresult⟩ := (Option.any_eq_true _ _).1 hfails
  obtain ⟨f, hf, hoverflow⟩ := Machine.result?_of_hasOverflowed hresult
  have hcount : countUpTo 9223372036854775807 2 9223372036854775806 [] = [9223372036854775806] := by
    rw [countUpTo, if_pos (by decide)]
    rfl
  refine ⟨m, f, Machine.reaches_of_stepsOf hm, hf, hoverflow, ?_⟩
  rw [enterCall_range _ _ _ (by decide), hcount]
  rfl

end ScriptMachine
