import Mathlib
import ScriptMachine.Number.Read
import ScriptMachine.Report.Traceback

/-! Folding loses nothing: whoever puts the repeated lines back where a note stands for them has the line of every site
again. -/

namespace ScriptMachine

open List

namespace Traceback

def note (n : ℕ) : String := s!"  [Previous line repeated {n} more times]"

def noteStart : List Char := "  [Previous line repeated ".toList

def noteEnd : List Char := " more times]".toList

def repeats? (line : String) : Option ℕ :=
  (line.toList.dropPrefix? noteStart).bind fun rest =>
    if rest.dropWhile Char.isDigit = noteEnd then Number.readNat? (rest.takeWhile Char.isDigit) else none

def unfolded (previous : String) : List String → List String
  | [] => []
  | line :: rest =>
    match repeats? line with
    | some count => replicate count previous ++ unfolded previous rest
    | none => line :: unfolded line rest

variable {line previous : String} {lines rest : List String} {count : ℕ} {rs : List (String × ℕ)}

lemma note_toList (n : ℕ) : (note n).toList = noteStart ++ (Nat.toDigits 10 n ++ noteEnd) := by
  change ("  [Previous line repeated " ++ n.repr ++ " more times]").toList = _
  simp only [String.toList_append, Nat.repr_eq_ofList_toDigits, String.toList_ofList, append_assoc]
  rfl

lemma line_toList (s : Site) : s.line.toList = "File \"".toList ++ (s.source.name.toList ++ ("\", line ".toList ++
    (Nat.toDigits 10 (s.source.lineCol s.span.start).1 ++ (", in ".toList ++ s.name.toList)))) := by
  change ("File \"" ++ s.source.name ++ "\", line " ++ Nat.repr _ ++ ", in " ++ s.name).toList = _
  simp only [String.toList_append, Nat.repr_eq_ofList_toDigits, String.toList_ofList, append_assoc]

lemma isDigit_of_mem {n : ℕ} {c : Char} (h : c ∈ Nat.toDigits 10 n) : c.isDigit = true :=
  Nat.isDigit_of_mem_toDigits (by decide) (by decide) h

lemma line_break_notMem (n : ℕ) : '\n' ∉ Nat.toDigits 10 n := fun h => absurd (isDigit_of_mem h) (by decide)

lemma repeats?_note (n : ℕ) : repeats? (note n) = some n := by
  have hdigits : ∀ c ∈ Nat.toDigits 10 n, c.isDigit = true := fun _ => isDigit_of_mem
  have hrest : (note n).toList.dropPrefix? noteStart = some (Nat.toDigits 10 n ++ noteEnd) :=
    dropPrefix?_eq_some_iff.2 ⟨noteStart, note_toList n, beq_self_eq_true _⟩
  have hread : Number.readNat? (Nat.toDigits 10 n) = some n := by
    rw [Number.readNat?, all_eq_true.2 hdigits, if_neg (by simp)]
    exact congrArg some Nat.ofDigitChars_ten_toDigits
  have htake : noteEnd.takeWhile Char.isDigit = [] := by decide
  have hdrop : noteEnd.dropWhile Char.isDigit = noteEnd := by decide
  rw [repeats?, hrest, Option.bind_some, dropWhile_append_of_pos hdigits, hdrop, if_pos rfl,
    takeWhile_append_of_pos hdigits, htake, append_nil, hread]

lemma repeats?_site (s : Site) : repeats? ("  " ++ s.line) = none := by
  rw [repeats?, String.toList_append, line_toList]
  rfl

lemma runs_pos : ∀ r ∈ runs lines, 0 < r.2 := by
  induction lines with
  | nil => simp [runs]
  | cons line rest ih =>
    rw [runs]
    split
    · rename_i hruns
      rw [hruns, forall_mem_cons] at ih
      split
      · exact forall_mem_cons.2 ⟨Nat.succ_pos _, ih.2⟩
      · exact forall_mem_cons.2 ⟨Nat.one_pos, forall_mem_cons.2 ih⟩
    · simp

lemma runs_isChain (lines : List String) : (runs lines).IsChain fun r r' => r.1 ≠ r'.1 := by
  induction lines with
  | nil => exact .nil
  | cons line rest ih =>
    rw [runs]
    split
    · rename_i hruns
      rw [hruns] at ih
      split
      · rename_i heq
        subst heq
        rw [isChain_cons] at ih ⊢
        exact ih
      · exact isChain_cons_cons.2 ⟨‹_›, ih⟩
    · exact .singleton _

lemma mem_of_mem_runs {r : String × ℕ} (h : r ∈ runs lines) : r.1 ∈ lines := by
  rw [← runs_flatten lines]
  exact mem_flatMap.2 ⟨r, h, mem_replicate.2 ⟨(runs_pos r h).ne', rfl⟩⟩

lemma runLines_eq (line : String) (count : ℕ) : runLines line count =
    replicate (min count shownRepeats) ("  " ++ line) ++
      if shownRepeats < count then [note (count - shownRepeats)] else [] := rfl

section unfolding

lemma unfolded_replicate (h : repeats? line = none) (hcount : 0 < count) :
    unfolded previous (replicate count line ++ rest) = replicate count line ++ unfolded line rest := by
  obtain ⟨n, rfl⟩ := Nat.exists_eq_add_one.2 hcount
  induction n generalizing previous with
  | zero => simp [unfolded, h]
  | succ n ih =>
    rw [replicate_succ, cons_append, cons_append, unfolded, h]
    exact congrArg _ (ih (Nat.succ_pos n))

lemma unfolded_runLines (h : repeats? ("  " ++ line) = none) (hcount : 0 < count) :
    unfolded previous (runLines line count ++ rest) =
      replicate count ("  " ++ line) ++ unfolded ("  " ++ line) rest := by
  have hshown : 0 < min count shownRepeats := lt_min hcount (by decide)
  rw [runLines_eq, append_assoc, unfolded_replicate h hshown]
  split
  · rename_i hlong
    rw [singleton_append, unfolded, repeats?_note, min_eq_right hlong.le, ← append_assoc,
      ← replicate_add, Nat.add_sub_cancel' hlong.le]
  · rename_i hshort
    rw [nil_append, min_eq_left (not_lt.1 hshort)]

lemma unfolded_flatMap (h : ∀ r ∈ rs, 0 < r.2 ∧ repeats? ("  " ++ r.1) = none) :
    unfolded previous (rs.flatMap fun r => runLines r.1 r.2) =
      (rs.flatMap fun r => replicate r.2 r.1).map ("  " ++ ·) := by
  induction rs generalizing previous with
  | nil => rfl
  | cons r rs ih =>
    rw [forall_mem_cons] at h
    rw [flatMap_cons, flatMap_cons, unfolded_runLines h.1.2 h.1.1, ih h.2, map_append, map_replicate]

lemma unfolded_foldedLines (h : ∀ r ∈ runs lines, 0 < r.2 ∧ repeats? ("  " ++ r.1) = none) :
    unfolded previous (foldedLines lines) = lines.map ("  " ++ ·) := by
  rw [foldedLines, unfolded_flatMap h, runs_flatten]

end unfolding

section repeated

variable {x : String} {xs ys : List String}

lemma replicate_infix_append (h : ∀ y ∈ xs.getLast?, y ∉ ys.head?) (hx : replicate count x <:+: xs ++ ys) :
    replicate count x <:+: xs ∨ replicate count x <:+: ys := by
  rcases infix_append_iff_ne_nil.1 hx with hx | hx | ⟨l, r, hl, hr, heq, ⟨front, rfl⟩, ⟨back, rfl⟩⟩
  · exact .inl hx
  · exact .inr hx
  · obtain ⟨-, hl', hr'⟩ := replicate_eq_append_iff.1 heq
    have hlast : x ∈ (front ++ l).getLast? := by
      rw [hl', getLast?_append_of_ne_nil _ (hl' ▸ hl), getLast?_replicate,
        if_neg (length_eq_zero_iff.not.2 hl)]
      rfl
    have hhead : x ∈ (r ++ back).head? := by
      rw [hr', head?_append, head?_replicate, if_neg (length_eq_zero_iff.not.2 hr)]
      rfl
    exact absurd hhead (h x hlast)

lemma note_or_line_of_mem_runLines (h : x ∈ runLines line count) :
    x = "  " ++ line ∨ ∃ n, 1 ≤ n ∧ x = note n := by
  rw [runLines_eq, mem_append] at h
  rcases h with h | h
  · exact .inl (mem_replicate.1 h).2
  · split at h
    · exact .inr ⟨_, by omega, mem_singleton.1 h⟩
    · contradiction

lemma head?_runLines (hcount : 0 < count) : (runLines line count ++ rest).head? = some ("  " ++ line) := by
  have hshown : 0 < min count shownRepeats := lt_min hcount (by decide)
  rw [runLines_eq, append_assoc, head?_append, head?_replicate, if_neg hshown.ne']
  rfl

lemma replicate_infix_runLines (h : repeats? ("  " ++ line) = none) {n : ℕ}
    (hx : replicate n x <:+: runLines line count) : n ≤ shownRepeats := by
  have hboundary : ∀ y ∈ (replicate (min count shownRepeats) ("  " ++ line)).getLast?,
      y ∉ (if shownRepeats < count then [note (count - shownRepeats)] else []).head? := by
    intro y hy hhead
    obtain ⟨-, rfl⟩ := mem_replicate.1 (mem_of_getLast? hy)
    split at hhead
    · obtain heq := Option.some.inj hhead
      rw [← heq, repeats?_note] at h
      contradiction
    · contradiction
  rcases replicate_infix_append hboundary hx with hx | hx
  · have hlength := hx.length_le
    simp only [length_replicate] at hlength
    omega
  · have hlength := hx.length_le
    rw [length_replicate] at hlength
    refine hlength.trans ?_
    split
    · exact (by decide : 1 ≤ shownRepeats)
    · exact Nat.zero_le _

lemma infix_flatMap (hchain : rs.IsChain fun r r' => r.1 ≠ r'.1)
    (h : ∀ r ∈ rs, 0 < r.2 ∧ repeats? ("  " ++ r.1) = none)
    (hx : replicate count x <:+: rs.flatMap fun r => runLines r.1 r.2) : count ≤ shownRepeats := by
  induction rs with
  | nil =>
    have hlength := hx.length_le
    rw [length_replicate] at hlength
    exact hlength.trans (Nat.zero_le _)
  | cons r rs ih =>
    rw [forall_mem_cons] at h
    rw [isChain_cons] at hchain
    rw [flatMap_cons] at hx
    have hboundary : ∀ y ∈ (runLines r.1 r.2).getLast?, y ∉ (rs.flatMap fun r => runLines r.1 r.2).head? := by
      intro y hy hhead
      cases rs with
      | nil => contradiction
      | cons next more =>
        obtain ⟨⟨hpos, hnext⟩, -⟩ := forall_mem_cons.1 h.2
        rw [flatMap_cons, head?_runLines hpos] at hhead
        cases hhead
        rcases note_or_line_of_mem_runLines (mem_of_getLast? hy) with heq | ⟨n, -, heq⟩
        · exact hchain.1 next rfl ((String.append_right_inj _).1 heq).symm
        · rw [heq, repeats?_note] at hnext
          contradiction
    rcases replicate_infix_append hboundary hx with hx | hx
    · exact replicate_infix_runLines h.1.2 hx
    · exact ih hchain.2 h.2 hx

end repeated

lemma line_break_notMem_site {s : Site} (h : '\n' ∉ s.source.name.toList ∧ '\n' ∉ s.name.toList) :
    '\n' ∉ s.line.toList := by
  simp only [line_toList, mem_append, not_or]
  exact ⟨by decide, h.1, by decide, line_break_notMem _, by decide, h.2⟩

lemma line_break_notMem_foldedLines (h : ∀ line ∈ lines, '\n' ∉ line.toList) :
    ∀ line ∈ foldedLines lines, '\n' ∉ line.toList := by
  refine forall_mem_flatMap.2 fun r hr x hx => ?_
  rcases note_or_line_of_mem_runLines hx with rfl | ⟨n, -, rfl⟩
  · simp only [String.toList_append, mem_append, not_or]
    exact ⟨by decide, h r.1 (mem_of_mem_runs hr)⟩
  · simp only [note_toList, mem_append, not_or]
    exact ⟨by decide, line_break_notMem n, by decide⟩

/-- The lines of a traceback are a header and the lines that are shown. With each note replaced by as many copies of the
line before it as it says, they are the lines of the sites, indented. No four of them in a row are equal, and a note
stands for at least one line. -/
theorem folding_loses_nothing (f : Failure)
    (h : ∀ s ∈ f.sites, '\n' ∉ s.source.name.toList ∧ '\n' ∉ s.name.toList) :
    ∃ shown, (f.traceback.split '\n').toList.map (·.copy) = "Traceback (most recent call last):" :: shown ∧
      unfolded "Traceback (most recent call last):" shown = f.lines.map ("  " ++ ·) ∧
      (∀ line count, replicate count line <:+: shown → count ≤ 3) ∧
      ∀ line ∈ shown, ∀ n, repeats? line = some n → 1 ≤ n := by
  have hsites : ∀ line ∈ f.lines, repeats? ("  " ++ line) = none :=
    forall_mem_map.2 fun s _ => repeats?_site s
  have hruns : ∀ r ∈ runs f.lines, 0 < r.2 ∧ repeats? ("  " ++ r.1) = none := fun r hr =>
    ⟨runs_pos r hr, hsites r.1 (mem_of_mem_runs hr)⟩
  have hbreaks : ∀ line ∈ "Traceback (most recent call last):" :: foldedLines f.lines, '\n' ∉ line.toList :=
    forall_mem_cons.2 ⟨by decide, line_break_notMem_foldedLines (forall_mem_map.2 fun s hs =>
      line_break_notMem_site (h s hs))⟩
  refine ⟨foldedLines f.lines, ?_, unfolded_foldedLines hruns, fun line count => ?_, ?_⟩
  · rw [Failure.traceback]
    exact (String.toList_split_intercalate hbreaks).trans (if_neg (cons_ne_nil _ _))
  · exact infix_flatMap (runs_isChain _) hruns
  · refine forall_mem_flatMap.2 fun r hr line hline n hn => ?_
    rcases note_or_line_of_mem_runLines hline with rfl | ⟨m, hm, rfl⟩
    · rw [(hruns r hr).2] at hn
      contradiction
    · rw [repeats?_note] at hn
      cases hn
      exact hm

def deepFailure : Failure :=
  let source : Source := ⟨"main", "defun f(n) -> 1 / n + f(n - 1)\nf(4)"⟩
  ⟨.of .divisionByZero, ⟨source, ⟨31, 35⟩, "<main>"⟩ :: replicate 4 ⟨source, ⟨22, 30⟩, "f"⟩ ++
    [⟨source, ⟨14, 19⟩, "f"⟩]⟩

theorem folding_of_deepFailure :
    (∀ s ∈ deepFailure.sites, '\n' ∉ s.source.name.toList ∧ '\n' ∉ s.name.toList) ∧
      ∃ shown, (deepFailure.traceback.split '\n').toList.map (·.copy) = "Traceback (most recent call last):" :: shown ∧
        unfolded "Traceback (most recent call last):" shown = deepFailure.lines.map ("  " ++ ·) ∧
        (∀ line count, replicate count line <:+: shown → count ≤ 3) ∧
        ∀ line ∈ shown, ∀ n, repeats? line = some n → 1 ≤ n :=
  ⟨by decide, folding_loses_nothing deepFailure (by decide)⟩

example : (foldedLines deepFailure.lines).filterMap repeats? = [2] := by decide +kernel

end Traceback

end ScriptMachine
