import ScriptMachine.Proofs.Scanning
import ScriptMachine.Proofs.Tiling
import ScriptMachine.Text.Blank

/-! What a piece of a text depends on: its own characters, and those up to the next blank or closing parenthesis. -/

namespace ScriptMachine.Piece

open List

open Text (isBlank)

variable {q c : Char} {cs rest content : List Char} {n : Nat} {t : Token}

def delimits (c : Char) : Bool := isBlank c || c == ')'

def ahead (cs : List Char) : List Char := cs.takeWhile (!delimits ·)

lemma isBlank_of_delimits (h : delimits c = false) : isBlank c = false := (Bool.or_eq_false_iff.1 h).1

lemma delimits_of_isNameChar (h : isNameChar c = true) : delimits c = false := by
  simp only [isNameChar, Char.isAlphanum, Char.isAlpha, Char.isUpper, Char.isLower, Char.isDigit, Bool.or_eq_true,
    Bool.and_eq_true, decide_eq_true_eq, beq_iff_eq, ge_iff_le, UInt32.le_iff_toNat_le] at h
  rcases h with h | rfl
  · change (65 ≤ c.toNat ∧ c.toNat ≤ 90 ∨ 97 ≤ c.toNat ∧ c.toNat ≤ 122) ∨ 48 ≤ c.toNat ∧ c.toNat ≤ 57 at h
    have hparen : c ≠ ')' := by
      rintro rfl
      revert h
      decide
    simp only [delimits, isBlank, Bool.or_eq_false_iff, Bool.and_eq_false_iff, decide_eq_false_iff_not,
      beq_eq_false_iff_ne]
    refine ⟨?_, hparen⟩
    omega
  · rfl

lemma delimits_of_isDigit (h : c.isDigit = true) : delimits c = false :=
  delimits_of_isNameChar (by simp [isNameChar, Char.isAlphanum, h])

lemma ahead_cons (hc : delimits c = false) (cs : List Char) : ahead (c :: cs) = c :: ahead cs :=
  takeWhile_cons_of_pos (by simp [hc])

lemma ahead_of_delimits (hc : delimits c = true) (cs : List Char) : ahead (c :: cs) = [] :=
  takeWhile_cons_of_neg (by simp [hc])

lemma ahead_append_cons (hc : delimits c = true) (cs rest : List Char) : ahead (cs ++ c :: rest) = ahead cs := by
  rw [ahead, takeWhile_append]
  split
  · rename_i hlength
    rw [takeWhile_cons_of_neg (by simp [hc]), append_nil, ahead,
      (List.takeWhile_prefix _).eq_of_length hlength]
  · rfl

lemma ahead_append (h : ∃ d ∈ cs, delimits d = true) (rest : List Char) : ahead (cs ++ rest) = ahead cs := by
  obtain ⟨d, hd, hdelimits⟩ := h
  obtain ⟨front, back, rfl⟩ := append_of_mem hd
  rw [append_assoc, cons_append, ahead_append_cons hdelimits, ahead_append_cons hdelimits]

lemma ahead_isPrefix (cs : List Char) : ahead cs <+: cs := takeWhile_prefix _

lemma ahead_take (h : n ≤ (ahead cs).length) (rest : List Char) : ahead (cs.take n ++ rest) = cs.take n ++ ahead rest ∧
    ∀ d ∈ cs.take n, delimits d = false := by
  have htake : cs.take n = (ahead cs).take n := by
    rw [prefix_iff_eq_take.1 (ahead_isPrefix cs), take_take, min_eq_left h]
  have hall : ∀ d ∈ cs.take n, delimits d = false := by
    intro d hd
    rw [htake] at hd
    simpa using mem_takeWhile_imp (mem_of_mem_take hd)
  exact ⟨takeWhile_append_of_pos (by simpa using hall), hall⟩

section

variable {p : Char → Bool} (hp : ∀ c, p c = true → delimits c = false)
include hp

lemma takeWhile_ahead (cs : List Char) :
    (ahead cs).takeWhile p = cs.takeWhile p ∧ (ahead cs).dropWhile p = ahead (cs.dropWhile p) := by
  induction cs with
  | nil => exact ⟨rfl, rfl⟩
  | cons c cs ih =>
    by_cases hc : p c = true
    · rw [ahead_cons (hp c hc)]
      simp [hc, ih]
    · by_cases hd : delimits c = true
      · simp [ahead_of_delimits hd, hc]
      · rw [ahead_cons (by simpa using hd)]
        simp [hc, ahead_cons (by simpa using hd)]

end

lemma fractionDigits_ahead (cs : List Char) : fractionDigits (ahead cs) = fractionDigits cs := by
  cases cs with
  | nil => rfl
  | cons d cs =>
    by_cases hpoint : d = '.'
    · subst hpoint
      exact (takeWhile_ahead (fun _ => delimits_of_isDigit) cs).1
    · rw [fractionDigits.eq_2 (d :: cs) fun _ => by simp [hpoint]]
      by_cases hd : delimits d = true
      · rw [ahead_of_delimits hd]
        rfl
      · rw [ahead_cons (by simpa using hd), fractionDigits.eq_2 _ fun _ => by simp [hpoint]]

lemma readNumber_ahead (c : Char) (cs : List Char) : readNumber c (ahead cs) = readNumber c cs := by
  obtain ⟨htake, hdrop⟩ := takeWhile_ahead (fun _ => delimits_of_isDigit) cs
  simp only [readNumber, htake, hdrop, fractionDigits_ahead]

lemma readSymbol_ahead (c : Char) (cs : List Char) : readSymbol c (ahead cs) = readSymbol c cs := by
  cases cs with
  | nil => rfl
  | cons d cs =>
    by_cases hd : delimits d = true
    · have hpair : pairSymbol? c d = none := by
        unfold pairSymbol?
        split <;> first | rfl | exact absurd hd (by decide)
      simp only [readSymbol, ahead_of_delimits hd, head?_cons, Option.bind_some, hpair, head?_nil,
        Option.bind_none]
    · rw [ahead_cons (by simpa using hd)]
      rfl

lemma length_fractionDigits_le (cs : List Char) :
    (fractionDigits cs).isEmpty ∨ (fractionDigits cs).length + 1 ≤ cs.length := by
  unfold fractionDigits
  split
  · exact .inr (Nat.succ_le_succ (takeWhile_sublist _).length_le)
  · exact .inl rfl

lemma readNumber_le (c : Char) (cs : List Char) : (readNumber c cs).2 ≤ cs.length := by
  have hparts := length_append ▸ congrArg length (@takeWhile_append_dropWhile _ Char.isDigit cs)
  have hlength := length_fractionDigits_le (cs.dropWhile Char.isDigit)
  unfold readNumber
  dsimp only
  split
  · simp only [length_cons]
    omega
  · rename_i hfraction
    have hshort := hlength.resolve_left hfraction
    simp only [length_cons]
    omega

lemma readSymbol_le (c : Char) (cs : List Char) : (readSymbol c cs).2 ≤ cs.length := by
  unfold readSymbol
  split
  · cases cs with
    | nil => contradiction
    | cons d cs => simp
  · split <;> simp

lemma readQuoted_cons (hc : c ≠ '\\') (q : Char) (cs : List Char) :
    readQuoted q (c :: cs) = if c = q then some ([], 1) else prepend [c] 1 (readQuoted q cs) :=
  readQuoted.eq_3 q c cs fun _ _ h _ => hc h

lemma readTripleQuoted_cons (hc : c ≠ '\\') (q d : Char) (cs : List Char) :
    readTripleQuoted q (c :: d :: cs) =
      if c = q ∧ d = q then
        if cs.head? = some q then some ([], 3) else prepend [q, q] 2 (readTripleQuoted q cs)
      else prepend [c] 1 (readTripleQuoted q (d :: cs)) :=
  readTripleQuoted.eq_3 q c d cs fun h => hc h

structure Closes (q : Char) (cs content : List Char) (n : Nat) (read : Char → List Char → Option (List Char × Nat)) :
    Prop where
  le : n ≤ cs.length
  last : (cs.take n).getLast? = some q
  again (rest : List Char) : read q (cs.take n ++ rest) = some (content, n)

lemma Closes.cons {read : Char → List Char → Option (List Char × Nat)} (h : Closes q cs content n read) {d : Char}
    (content' : List Char) (hread : ∀ rest, read q (d :: (cs.take n ++ rest)) = prepend content' 1
      (read q (cs.take n ++ rest))) :
    Closes q (d :: cs) (content' ++ content) (1 + n) read where
  le := by simpa [Nat.add_comm 1] using h.le
  last := by rw [Nat.add_comm 1, take_succ_cons, getLast?_cons, h.last]; rfl
  again rest := by rw [Nat.add_comm 1, take_succ_cons, cons_append, hread, h.again, prepend, Nat.add_comm 1]

lemma Closes.cons₂ {read : Char → List Char → Option (List Char × Nat)} (h : Closes q cs content n read) {d e : Char}
    (content' : List Char)
    (hread : ∀ rest, read q (d :: e :: (cs.take n ++ rest)) = prepend content' 2 (read q (cs.take n ++ rest))) :
    Closes q (d :: e :: cs) (content' ++ content) (2 + n) read where
  le := by simpa [Nat.add_comm 2] using h.le
  last := by
    rw [Nat.add_comm 2, take_succ_cons, take_succ_cons, getLast?_cons, getLast?_cons, h.last]
    rfl
  again rest := by
    rw [Nat.add_comm 2, take_succ_cons, take_succ_cons, cons_append, cons_append, hread, h.again,
      prepend, Nat.add_comm 2]

lemma closes_readQuoted (hq : q ≠ '\\') (h : readQuoted q cs = some (content, n)) :
    Closes q cs content n readQuoted := by
  fun_induction readQuoted q cs generalizing content n with
  | case1 => simp at h
  | case2 c cs ih =>
    obtain ⟨rest, m, hrest, rfl, rfl⟩ := prepend_eq_some h
    exact (ih hrest).cons₂ _ fun _ => by rw [readQuoted]
  | case3 cs hne =>
    obtain ⟨rfl, rfl⟩ : [] = content ∧ 1 = n := by simpa using h
    exact ⟨by simp, rfl, fun rest => by simp [readQuoted_cons hq]⟩
  | case4 c cs hne hc ih =>
    obtain ⟨rest, m, hrest, rfl, rfl⟩ := prepend_eq_some h
    have hslash : c ≠ '\\' := by
      rintro rfl
      cases cs with
      | nil => simp [readQuoted] at hrest
      | cons d cs => exact hne d cs rfl rfl
    exact (ih hrest).cons _ fun _ => by rw [readQuoted_cons hslash, if_neg hc]

lemma closes_readTripleQuoted (h : readTripleQuoted q cs = some (content, n)) :
    Closes q cs content n readTripleQuoted := by
  fun_induction readTripleQuoted q cs generalizing content n with
  | case1 | case6 => simp at h
  | case2 c cs ih =>
    obtain ⟨rest, m, hrest, rfl, rfl⟩ := prepend_eq_some h
    exact (ih hrest).cons₂ _ fun _ => by rw [readTripleQuoted]
  | case3 c d cs hne hcd hhead =>
    obtain ⟨rfl, rfl⟩ : [] = content ∧ 3 = n := by simpa using h
    obtain ⟨more, rfl⟩ := head?_eq_some_iff.1 hhead
    exact ⟨by simp, rfl, fun rest => (readTripleQuoted_cons hne q d (q :: rest)).trans (by simp [hcd])⟩
  | case4 c d cs hne hcd hhead ih =>
    obtain ⟨rest, m, hrest, rfl, rfl⟩ := prepend_eq_some h
    have hcloses := ih hrest
    refine hcloses.cons₂ _ fun s => ?_
    have hnext : (cs.take m ++ s).head? = cs.head? := by
      cases htake : cs.take m with
      | nil => simpa [htake] using hcloses.last
      | cons e more => rw [← take_append_drop m cs, htake]; rfl
    rw [readTripleQuoted_cons hne, if_pos hcd, hnext, if_neg hhead]
  | case5 c d cs hne hcd ih =>
    obtain ⟨rest, m, hrest, rfl, rfl⟩ := prepend_eq_some h
    have hcloses := ih hrest
    refine hcloses.cons _ fun s => ?_
    cases htake : (d :: cs).take m with
    | nil => simpa [htake] using hcloses.last
    | cons e more =>
      obtain rfl : e = d := by
        cases m with
        | zero => contradiction
        | succ m => exact (cons.inj htake).1.symm
      rw [cons_append, readTripleQuoted_cons hne, if_neg hcd]

lemma head_of_ahead (h : ahead rest = ahead cs) (hq : delimits q = false) (hrest : rest.head? = some q) :
    cs.head? = some q := by
  obtain ⟨rest, rfl⟩ := head?_eq_some_iff.1 hrest
  rw [ahead_cons hq] at h
  obtain ⟨back, hback⟩ := ahead_isPrefix cs
  rw [← h] at hback
  rw [← hback]
  rfl

lemma readString_take (hq : q = '"' ∨ q = '\'') (hread : readString q cs = (.token t, n)) :
    n ≤ cs.length ∧ (cs.take n).getLast? = some q ∧
      ∀ rest, ahead rest = ahead (cs.drop n) → readString q (cs.take n ++ rest) = (.token t, n) := by
  have hslash : q ≠ '\\' := by rcases hq with rfl | rfl <;> decide
  have hdelimits : delimits q = false := by rcases hq with rfl | rfl <;> decide
  by_cases htriple : cs.take 2 = [q, q]
  · obtain ⟨cs, rfl⟩ : ∃ more, cs = q :: q :: more := ⟨cs.drop 2, by rw [← take_append_drop 2 cs, htriple]; rfl⟩
    cases hclosing : readTripleQuoted q cs with
    | none => simp [readString, hclosing] at hread
    | some result =>
      obtain ⟨content, m⟩ := result
      simp only [readString, take_succ_cons, take_zero, if_true, drop_succ_cons, drop_zero,
        hclosing,
        Prod.mk.injEq] at hread
      obtain ⟨hcontent, rfl⟩ := hread
      have hcloses := closes_readTripleQuoted hclosing
      refine ⟨by simpa using hcloses.le, ?_, fun rest _ => ?_⟩
      · rw [take_succ_cons, take_succ_cons, getLast?_cons, getLast?_cons, hcloses.last]
        rfl
      · simp [readString, hcloses.again, hcontent]
  · cases hclosing : readQuoted q cs with
    | none => simp [readString, htriple, hclosing] at hread
    | some result =>
      obtain ⟨content, m⟩ := result
      simp only [readString, htriple, if_false, hclosing, Prod.mk.injEq] at hread
      obtain ⟨hcontent, rfl⟩ := hread
      have hcloses := closes_readQuoted hslash hclosing
      refine ⟨hcloses.le, hcloses.last, fun rest hrest => ?_⟩
      -- an empty string with one more quote behind it would be the start of a longer one
      have hshort : (cs.take m ++ rest).take 2 ≠ [q, q] := by
        have hlast := hcloses.last
        rw [← take_append_drop m cs] at htriple
        generalize cs.take m = front at hlast htriple ⊢
        obtain - | ⟨d, - | ⟨e, front⟩⟩ := front
        · contradiction
        · intro heq
          obtain ⟨rfl, hmore⟩ := cons.inj heq
          have hhead : rest.head? = some d := by
            cases rest with
            | nil => contradiction
            | cons e rest => exact congrArg some (cons.inj hmore).1
          obtain ⟨back, hback⟩ := head?_eq_some_iff.1 (head_of_ahead hrest hdelimits hhead)
          exact htriple (by rw [hback]; rfl)
        · exact htriple
      simp [readString, hshort, hcloses.again, hcontent]

structure Solid (c : Char) (cs : List Char) (t : Token) (n : Nat) : Prop where
  le : n ≤ cs.length
  first : isBlank c = false
  last : ∀ d ∈ (c :: cs.take n).getLast?, isBlank d = false
  unbroken : c ≠ '"' → c ≠ '\'' → '\n' ∉ cs.take n
  again (rest : List Char) : ahead rest = ahead (cs.drop n) → read c (cs.take n ++ rest) = (.token t, n)

lemma Solid.of_ahead (hblank : isBlank c = false) (hahead : ∀ cs, read c (ahead cs) = read c cs)
    (hle : ∀ cs, (read c cs).2 ≤ cs.length) (h : read c cs = (.token t, n)) : Solid c cs t n := by
  have hlength : n ≤ (ahead cs).length := by simpa [hahead, h] using hle (ahead cs)
  have htake := fun rest => (ahead_take hlength rest).1
  have hall := (ahead_take hlength []).2
  refine ⟨hlength.trans (ahead_isPrefix cs).length_le, hblank, fun d hd => ?_, fun _ _ hbreak => ?_,
    fun rest hrest => ?_⟩
  · rcases mem_cons.1 (mem_of_getLast? hd) with rfl | hd
    · exact hblank
    · exact isBlank_of_delimits (hall d hd)
  · exact absurd (hall _ hbreak) (by decide)
  · calc
      read c (cs.take n ++ rest) = read c (cs.take n ++ ahead rest) := by rw [← hahead, htake]
      _ = read c (cs.take n ++ cs.drop n) := by rw [hrest, ← htake, hahead]
      _ = (.token t, n) := by rw [take_append_drop, h]

lemma isBlank_of_readSymbol (h : readSymbol c cs = (.token t, n)) : isBlank c = false := by
  unfold readSymbol at h
  split at h
  · rename_i s hpair
    obtain ⟨d, -, hpair⟩ := Option.bind_eq_some_iff.1 hpair
    unfold pairSymbol? at hpair
    split at hpair <;> first | rfl | contradiction
  · split at h
    · rename_i s hsingle
      unfold singleSymbol? at hsingle
      split at hsingle <;> first | rfl | contradiction
    · simp at h

lemma solid_of_read (hc : c ≠ '\n') (h : read c cs = (.token t, n)) : Solid c cs t n := by
  by_cases hgap : isGap c = true
  · simp [read, hgap] at h
  by_cases hcomment : c = '#'
  · subst hcomment
    change (gap, _) = _ at h
    simp at h
  by_cases hbreak : c = ';'
  · subst hbreak
    obtain ⟨ht, rfl⟩ := Prod.mk.inj h
    exact ⟨by simp, by decide, by simp; decide, by simp, fun rest _ => congrArg (·, 0) ht⟩
  by_cases hslash : c = '\\'
  · subst hslash
    change readContinuation cs = _ at h
    unfold readContinuation at h
    split at h <;> simp at h
  by_cases hname : isNameStart c = true
  · have hread (cs : List Char) : read c cs = (.token (ofWord (String.ofList (c :: cs.takeWhile isNameChar))),
        (cs.takeWhile isNameChar).length) := by
      simp [read, hgap, hcomment, hbreak, hc, hslash, hname]
    have hchar : isNameChar c = true := by
      simp only [isNameStart, Bool.or_eq_true] at hname
      simpa [isNameChar, Char.isAlphanum] using hname.imp_left .inl
    refine .of_ahead (isBlank_of_delimits (delimits_of_isNameChar hchar)) (fun cs => ?_) (fun cs => ?_) h
    · rw [hread, hread, (takeWhile_ahead (fun _ => delimits_of_isNameChar) cs).1]
    · rw [hread]
      exact (takeWhile_sublist _).length_le
  by_cases hdigit : c.isDigit = true
  · refine .of_ahead (isBlank_of_delimits (delimits_of_isDigit hdigit)) (fun cs => ?_) (fun cs => ?_) h
    · simp only [read_digit hdigit, readNumber_ahead]
    · rw [read_digit hdigit]
      exact readNumber_le c cs
  by_cases hquote : c = '"' ∨ c = '\''
  · have hread (cs : List Char) : read c cs = readString c cs := by
      simp [read, hgap, hcomment, hbreak, hc, hslash, hname, hdigit, hquote]
    rw [hread] at h
    obtain ⟨hle, hlast, hagain⟩ := readString_take hquote h
    have hblank : isBlank c = false := by rcases hquote with rfl | rfl <;> decide
    refine ⟨hle, hblank, fun d hd => ?_, fun h1 h2 => absurd hquote (by simp [h1, h2]), fun rest hrest => ?_⟩
    · rw [getLast?_cons, hlast] at hd
      obtain rfl : c = d := by simpa using hd
      exact hblank
    · rw [hread, hagain rest hrest]
  · have hread (cs : List Char) : read c cs = readSymbol c cs := by
      simp [read, hgap, hcomment, hbreak, hc, hslash, hname, hdigit, hquote]
    refine .of_ahead (isBlank_of_readSymbol (hread cs ▸ h)) (fun cs => ?_) (fun cs => ?_) h
    · rw [hread, hread, readSymbol_ahead]
    · rw [hread]
      exact readSymbol_le c cs

lemma gap_cases (h : read c cs = (.gap, n)) :
    isGap c = true ∧ n = 0 ∨ c = '#' ∧ n = (cs.takeWhile (· ≠ '\n')).length ∨
      c = '\\' ∧ (n = 1 ∧ (∃ more, cs = '\n' :: more) ∨ n = 2 ∧ ∃ more, cs = '\r' :: '\n' :: more) := by
  by_cases hgap : isGap c = true
  · exact .inl ⟨hgap, by simpa [read, hgap] using h.symm⟩
  by_cases hcomment : c = '#'
  · subst hcomment
    exact .inr (.inl ⟨rfl, (Prod.mk.inj h).2.symm⟩)
  by_cases hslash : c = '\\'
  · subst hslash
    change readContinuation cs = _ at h
    unfold readContinuation at h
    split at h
    · exact .inr (.inr ⟨rfl, .inl ⟨(Prod.mk.inj h).2.symm, _, rfl⟩⟩)
    · exact .inr (.inr ⟨rfl, .inr ⟨(Prod.mk.inj h).2.symm, _, rfl⟩⟩)
    · simp at h
  · have hfits := fits_read c cs
    rw [h, Fits] at hfits
    generalize cs.take n = u at hfits
    generalize cs.drop n = after at hfits
    cases hfits with
    | blank hblank => exact absurd hblank (by simpa [isGap, or_assoc] using hgap)
    | comment | continued | continuedReturn => contradiction

lemma read_append {piece : Piece} {s : List Char} (h : read c cs = (piece, n)) (hok : ∀ cause, piece ≠ .fault cause)
    (hcomment : c = '#' → '\n' ∈ cs)
    (hs : (∀ d ∈ (c :: cs.take n).getLast?, isBlank d = false) → ahead (cs.drop n ++ s) = ahead (cs.drop n)) :
    read c (cs ++ s) = (piece, n) ∧ (cs ++ s).take n = cs.take n ∧ (cs ++ s).drop n = cs.drop n ++ s := by
  have hread : n ≤ cs.length ∧ read c (cs ++ s) = (piece, n) := by
    cases piece with
    | gap =>
      obtain ⟨hgap, rfl⟩ | ⟨rfl, rfl⟩ | ⟨rfl, ⟨rfl, more, rfl⟩ | ⟨rfl, more, rfl⟩⟩ := gap_cases h
      · exact ⟨Nat.zero_le _, by simp [read, hgap]⟩
      · refine ⟨(takeWhile_sublist _).length_le, congrArg (fun body : List Char => (gap, body.length)) ?_⟩
        rw [takeWhile_append, if_neg fun hlength => ?_]
        have hall := takeWhile_eq_self_iff.1 ((List.takeWhile_prefix _).eq_of_length hlength) _ (hcomment rfl)
        simp at hall
      · exact ⟨by simp, rfl⟩
      · exact ⟨by simp, rfl⟩
    | token t =>
      by_cases hc : c = '\n'
      · subst hc
        obtain ⟨ht, rfl⟩ := Prod.mk.inj h
        exact ⟨Nat.zero_le _, congrArg (·, 0) ht⟩
      · have hsolid := solid_of_read hc h
        refine ⟨hsolid.le, ?_⟩
        have hagain := hsolid.again _ (hs hsolid.last)
        rwa [← append_assoc, take_append_drop] at hagain
    | fault cause => exact absurd rfl (hok cause)
  exact ⟨hread.2, take_append_of_le_length hread.1, drop_append_of_le_length hread.1⟩

end ScriptMachine.Piece
