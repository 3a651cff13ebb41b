import ScriptMachine.Proofs.Enclosure.Productions
import ScriptMachine.Proofs.Enclosure.Texts
import ScriptMachine.Proofs.Progress

/-! Indentation carries no meaning. A program whose lines are stripped of the blanks at their edges has the same tokens,
and is the same program. -/

namespace ScriptMachine

open List Piece

namespace Text

variable {p : List Char} {c : Char} {cs l : List Char} {ls : List (List Char)}

def blankLine (cs : List Char) : Bool := (cs.takeWhile (· ≠ '\n')).all isBlank

def squeeze (inside : Bool) : List Char → List Char
  | [] => []
  | c :: cs =>
    if c = '\n' then if cs = [] then [] else '\n' :: squeeze false cs
    else if isBlank c && (!inside || blankLine cs) then squeeze inside cs
    else c :: squeeze true cs

def trimmed (inside : Bool) (l : List Char) : List Char := if inside then trimEnd l else trim l

def trimmedLines (inside : Bool) : List (List Char) → List (List Char)
  | [] => []
  | l :: ls => trimmed inside l :: ls.map trim

lemma trimEnd_cons (c : Char) (l : List Char) :
    trimEnd (c :: l) = if isBlank c && l.all isBlank then [] else c :: trimEnd l := by
  have hall : (l.reverse.dropWhile isBlank).isEmpty = l.all isBlank := by
    rw [Bool.eq_iff_iff, List.isEmpty_iff, dropWhile_eq_nil_iff, all_eq_true]
    simp
  rw [trimEnd, trimEnd, reverse_cons, dropWhile_append, hall]
  by_cases hl : l.all isBlank = true
  · have hnil : l.reverse.dropWhile isBlank = [] := by rwa [← List.isEmpty_iff, hall]
    by_cases hc : isBlank c = true <;> simp [hl, hc, hnil]
  · simp [hl]

lemma trimmed_cons (inside : Bool) (c : Char) (l : List Char) :
    trimmed inside (c :: l) = if isBlank c && (!inside || l.all isBlank) then trimmed inside l else c :: trimEnd l := by
  cases inside with
  | true =>
    simp only [trimmed, if_true, Bool.not_true, Bool.false_or, trimEnd_cons]
    split
    · rename_i hblank
      cases l with
      | nil => rfl
      | cons d l => simp_all [trimEnd_cons]
    · rfl
  | false =>
    by_cases hc : isBlank c = true
    · simp [trimmed, trim, trimStart, hc]
    · simp [trimmed, trim, trimStart, hc, trimEnd_cons]

lemma lines_eq_nil (h : lines cs = []) : cs = [] := by
  fun_induction lines cs with
  | case1 => rfl
  | case2 | case3 => contradiction
  | case4 c cs => cases hls : lines cs <;> simp [hls, consHead] at h

lemma blankLine_cons (hc : c ≠ '\n') (cs : List Char) : blankLine (c :: cs) = (isBlank c && blankLine cs) := by
  rw [blankLine, takeWhile_cons_of_pos (by simpa using hc), all_cons, blankLine]

lemma blankLine_of_lines (h : lines cs = l :: ls) : blankLine cs = l.all isBlank := by
  fun_induction lines cs generalizing l ls with
  | case1 => contradiction
  | case2 | case3 =>
    cases h
    rfl
  | case4 c cs hc hreturn ih =>
    cases hls : lines cs with
    | nil =>
      obtain rfl := lines_eq_nil hls
      cases h
      rw [blankLine_cons hc]
      rfl
    | cons l' ls' =>
      rw [hls] at h
      cases h
      rw [blankLine_cons hc, ih hls, all_cons]

lemma squeeze_newline (inside : Bool) (cs : List Char) :
    squeeze inside ('\n' :: cs) = if cs = [] then [] else '\n' :: squeeze false cs := by
  rw [squeeze, if_pos rfl]

lemma squeeze_cons (hc : c ≠ '\n') (inside : Bool) (cs : List Char) :
    squeeze inside (c :: cs) =
      if isBlank c && (!inside || blankLine cs) then squeeze inside cs else c :: squeeze true cs := by
  rw [squeeze, if_neg hc]

lemma squeeze_solid (hc : isBlank c = false) (inside : Bool) (cs : List Char) :
    squeeze inside (c :: cs) = c :: squeeze true cs := by
  have hbreak : c ≠ '\n' := by
    rintro rfl
    contradiction
  rw [squeeze_cons hbreak, hc, Bool.false_and, if_neg Bool.false_ne_true]

lemma squeeze_eq (inside : Bool) (cs : List Char) :
    squeeze inside cs = List.intercalate ['\n'] (trimmedLines inside (lines cs)) := by
  -- a line break ends a line, whatever the line held
  have hbreak {inside : Bool} {cs : List Char}
      (ih : ∀ inside, squeeze inside cs = List.intercalate ['\n'] (trimmedLines inside (lines cs))) :
      squeeze inside ('\n' :: cs) = List.intercalate ['\n'] (trimmedLines inside ([] :: lines cs)) := by
    have hempty : trimmed inside [] = [] := by cases inside <;> rfl
    rw [squeeze_newline, ih false, trimmedLines, hempty]
    cases hls : lines cs with
    | nil =>
      obtain rfl := lines_eq_nil hls
      rfl
    | cons l ls =>
      have hne : cs ≠ [] := by
        rintro rfl
        contradiction
      rw [if_neg hne, trimmedLines, map_cons, intercalate_cons_cons]
      rfl
  fun_induction lines cs generalizing inside with
  | case1 => rfl
  | case2 cs ih => exact hbreak ih
  | case3 cs ih => rw [squeeze_cons (by decide), if_pos (by cases inside <;> rfl), hbreak ih]
  | case4 c cs hc hreturn ih =>
    rw [squeeze_cons hc]
    cases hls : lines cs with
    | nil =>
      obtain rfl := lines_eq_nil hls
      rw [consHead, trimmedLines, trimmed_cons, map_nil, intercalate_singleton]
      cases inside <;> rfl
    | cons l ls =>
      rw [hls] at ih
      rw [consHead, trimmedLines, trimmed_cons, blankLine_of_lines hls]
      split
      · exact ih inside
      · rw [ih true]
        cases ls <;> rfl

lemma strip_eq_squeeze (cs : List Char) : strip cs = squeeze false cs := by
  rw [strip, squeeze_eq]
  cases lines cs <;> rfl

lemma blankLine_append (hline : '\n' ∉ p) {d : Char} (hd : d ∈ p) (hblank : isBlank d = false) (rest : List Char) :
    blankLine (p ++ rest) = false := by
  rw [blankLine, takeWhile_append_of_pos fun e he => by simpa using ne_of_mem_of_not_mem he hline, all_append,
    Bool.and_eq_false_iff]
  exact .inl (all_eq_false.2 ⟨d, hd, by simp [hblank]⟩)

lemma squeeze_append (hline : '\n' ∉ p) (hlast : ∀ d ∈ p.getLast?, isBlank d = false) (rest : List Char) :
    squeeze true (p ++ rest) = p ++ squeeze true rest := by
  induction p with
  | nil => rfl
  | cons c p ih =>
    obtain ⟨hc, hline⟩ := not_or.1 (mt mem_cons.2 hline)
    rw [cons_append, squeeze_cons (Ne.symm hc)]
    cases hp : p.getLast? with
    | none =>
      obtain rfl := getLast?_eq_none_iff.1 hp
      rw [hlast c rfl]
      rfl
    | some d =>
      have hd : isBlank d = false := hlast d (by rw [getLast?_cons, hp]; rfl)
      rw [blankLine_append hline (mem_of_getLast? hp) hd, ih hline fun e he => ?_]
      · simp
      · rw [hp] at he
        exact Option.some.inj he ▸ hd

lemma ahead_of_blankLine (h : blankLine cs = true) : ahead cs = [] := by
  cases cs with
  | nil => rfl
  | cons c cs =>
    refine ahead_of_delimits ?_ cs
    by_cases hc : c = '\n'
    · rw [hc]
      decide
    · rw [blankLine_cons hc, Bool.and_eq_true] at h
      simp [delimits, h.1]

lemma ahead_squeeze (cs : List Char) : ahead (squeeze true cs) = ahead cs := by
  induction cs with
  | nil => rfl
  | cons c cs ih =>
    by_cases hc : c = '\n'
    · subst hc
      rw [squeeze_newline, ahead_of_delimits (by decide) cs]
      split
      · rfl
      · exact ahead_of_delimits (by decide) _
    · rw [squeeze_cons hc]
      split
      · rename_i hdrop
        have hblank : isBlank c = true ∧ blankLine cs = true := by simpa using hdrop
        rw [ih, ahead_of_blankLine hblank.2, ahead_of_delimits (by simp [delimits, hblank.1])]
      · by_cases hd : delimits c = true
        · rw [ahead_of_delimits hd, ahead_of_delimits hd]
        · rw [Bool.not_eq_true] at hd
          rw [ahead_cons hd, ahead_cons hd, ih]

lemma dropWhile_squeeze (cs : List Char) :
    (squeeze true cs).dropWhile (· ≠ '\n') = squeeze true (cs.dropWhile (· ≠ '\n')) := by
  induction cs with
  | nil => rfl
  | cons c cs ih =>
    by_cases hc : c = '\n'
    · subst hc
      rw [dropWhile_cons_of_neg (by simp), squeeze_newline]
      split <;> simp
    · rw [dropWhile_cons_of_pos (by simpa using hc), squeeze_cons hc, ← ih]
      split
      · rfl
      · rw [dropWhile_cons_of_pos (by simpa using hc)]

lemma head_squeeze (h : blankLine cs = true) : ∀ d ∈ (squeeze true cs).head?, d = '\n' := by
  induction cs with
  | nil => simp [squeeze]
  | cons c cs ih =>
    by_cases hc : c = '\n'
    · subst hc
      rw [squeeze_newline]
      split <;> simp
    · rw [blankLine_cons hc, Bool.and_eq_true] at h
      rw [squeeze_cons hc, if_pos (by simp [h])]
      exact ih h.2

end Text

def somePiece (p : Char → List Char → List Char → Bool) : List Char → Bool
  | [] => false
  | c :: cs =>
    p c (cs.take (Piece.read c cs).2) (cs.drop (Piece.read c cs).2) || somePiece p (cs.drop (Piece.read c cs).2)
termination_by cs => cs.length
decreasing_by simp only [length_drop, length_cons]; omega

def breaksString (cs : List Char) : Bool :=
  somePiece (fun c body _ => (c == '"' || c == '\'') && body.contains '\n') cs

def endsContinued (cs : List Char) : Bool := somePiece (fun c _ rest => c == '\\' && rest.isEmpty) cs

lemma somePiece_cons {p : Char → List Char → List Char → Bool} {c : Char} {cs : List Char} {piece : Piece} {n : Nat}
    (hread : Piece.read c cs = (piece, n)) (h : somePiece p (c :: cs) = false) :
    p c (cs.take n) (cs.drop n) = false ∧ somePiece p (cs.drop n) = false := by
  rwa [somePiece, hread, Bool.or_eq_false_iff] at h

def Retold (lexemes lexemes' : List Lexeme) : Prop :=
  ∃ front, Resembles true front lexemes' ∧ (lexemes = front ∨ ∃ l : Lexeme, l.Spells .newline ∧ lexemes = front ++ [l])

section

variable {l m : Lexeme} {lexemes lexemes' : List Lexeme}

lemma Retold.cons (hface : l.face true = m.face true)
    (hjoin : ∀ e ∈ lexemes.head?, ∀ e' ∈ lexemes'.head?, l.token.augmentable = true → e.token.isSymbol .assign = true →
      (e.span.start = l.span.stop ↔ e'.span.start = m.span.stop)) (h : Retold lexemes lexemes') :
    Retold (l :: lexemes) (m :: lexemes') := by
  obtain ⟨front, hfront, rfl | ⟨last, hlast, rfl⟩⟩ := h
  · exact ⟨l :: lexemes, .cons hface hjoin hfront, .inl rfl⟩
  · refine ⟨l :: front, .cons hface (fun e he => hjoin e ?_) hfront, .inr ⟨last, hlast, rfl⟩⟩
    rw [head?_append, Option.mem_def.1 he]
    rfl

lemma Retold.token (h : Retold lexemes lexemes') : ∀ e ∈ lexemes.head?, ∀ e' ∈ lexemes'.head?, e.token = e'.token := by
  intro e he e' he'
  obtain ⟨front, hfront, hlexemes⟩ := h
  cases hfront with
  | nil => contradiction
  | cons hface =>
    cases he'
    rcases hlexemes with rfl | ⟨last, -, rfl⟩ <;>
    · cases he
      exact congrArg Prod.fst hface

end

/-- Two texts that are scanned from two places are told apart by a line break at the end at most. Inside a line, an
equals sign at the start of the one is at the start of the other. -/
structure Retells (inside : Bool) (o o' : Nat) (cs cs' : List Char) : Prop where
  fault : (scanFrom o' cs').2 = none
  lexemes : Retold (scanFrom o cs).1 (scanFrom o' cs').1
  touching : inside = true → ∀ e ∈ (scanFrom o cs).1.head?, ∀ e' ∈ (scanFrom o' cs').1.head?,
    e.token.isSymbol .assign = true → (e.span.start = o ↔ e'.span.start = o')

namespace Retells

variable {inside inside' : Bool} {o o' n n' : Nat} {c d : Char} {cs cs' : List Char} {t : Token}

lemma gap (h : Piece.read c cs = (.gap, n)) (h' : Piece.read d cs' = (.gap, n'))
    (hrest : Retells inside' (o + byteSize (c :: cs.take n)) (o' + byteSize (d :: cs'.take n')) (cs.drop n)
      (cs'.drop n')) :
    Retells inside o o' (c :: cs) (d :: cs') := by
  refine ⟨?_, ?_, fun _ e he e' he' _ => ?_⟩
  · rw [scanFrom_gap _ h']
    exact hrest.fault
  · rw [scanFrom_gap _ h, scanFrom_gap _ h']
    exact hrest.lexemes
  · -- what comes after a gap touches nothing before it
    rw [scanFrom_gap _ h] at he
    rw [scanFrom_gap _ h'] at he'
    have hstart := start_of_scanFrom _ _ e (mem_of_head? he)
    have hstart' := start_of_scanFrom _ _ e' (mem_of_head? he')
    have hpos := byteSize_pos (cons_ne_nil c (cs.take n))
    have hpos' := byteSize_pos (cons_ne_nil d (cs'.take n'))
    omega

lemma token (h : Piece.read c cs = (.token t, n)) (h' : Piece.read d cs' = (.token t, n'))
    (hjoin : t.augmentable = true → inside' = true)
    (hrest : Retells inside' (o + byteSize (c :: cs.take n)) (o' + byteSize (d :: cs'.take n')) (cs.drop n)
      (cs'.drop n')) :
    Retells inside o o' (c :: cs) (d :: cs') := by
  refine ⟨?_, ?_, fun _ e he e' he' _ => ?_⟩
  · rw [scanFrom_token _ h']
    exact hrest.fault
  · rw [scanFrom_token _ h, scanFrom_token _ h']
    exact .cons rfl (fun e he e' he' ht => hrest.touching (hjoin ht) e he e' he') hrest.lexemes
  · rw [scanFrom_token _ h] at he
    rw [scanFrom_token _ h'] at he'
    cases he
    cases he'
    simp

section

open Text

lemma blank (hgap : Piece.isGap c = true)
    (hrest : ∀ inside o', Retells inside (o + byteSize [c]) o' cs (squeeze inside cs)) :
    Retells inside o o' (c :: cs) (squeeze inside (c :: cs)) := by
  have hread (cs : List Char) : Piece.read c cs = (.gap, 0) := by simp [Piece.read, hgap]
  obtain ⟨hbreak, hblank⟩ : c ≠ '\n' ∧ isBlank c = true := by
    simp only [Piece.isGap, Bool.or_eq_true, beq_iff_eq] at hgap
    rcases hgap with ((rfl | rfl) | rfl) | rfl <;> decide
  rw [squeeze_cons hbreak]
  split
  · rename_i hdrop
    have hrest := hrest inside o'
    refine ⟨hrest.fault, ?_, fun hinside e he e' he' hassign => ?_⟩
    · rw [scanFrom_gap _ (hread cs)]
      exact hrest.lexemes
    · -- the rest of the line is blank, and no equals sign comes next
      have hline : blankLine cs = true := by simpa [hblank, hinside] using hdrop
      rw [scanFrom_gap _ (hread cs)] at he
      rw [hrest.lexemes.token e he e' he'] at hassign
      subst hinside
      cases hsqueezed : squeeze true cs with
      | nil =>
        rw [hsqueezed, scanFrom] at he'
        contradiction
      | cons d rest =>
        obtain rfl : d = '\n' := head_squeeze hline d (by rw [hsqueezed]; rfl)
        rw [hsqueezed, scanFrom_token _ (rfl : Piece.read '\n' rest = (.token .newline, 0))] at he'
        cases he'
        contradiction
  · exact gap (hread cs) (hread _) (hrest true _)

lemma comment (hrest : ∀ o', Retells true (o + byteSize ('#' :: cs.takeWhile (· ≠ '\n'))) o' (cs.dropWhile (· ≠ '\n'))
    (squeeze true (cs.dropWhile (· ≠ '\n')))) : Retells inside o o' ('#' :: cs) (squeeze inside ('#' :: cs)) := by
  rw [squeeze_solid (by decide)]
  have hread (cs : List Char) : Piece.read '#' cs = (.gap, (cs.takeWhile (· ≠ '\n')).length) := rfl
  refine gap (hread cs) (hread _) (?_ : Retells true _ _ _ _)
  rw [drop_length_takeWhile, take_length_takeWhile, drop_length_takeWhile, dropWhile_squeeze]
  exact hrest _

lemma continued (h : Piece.read '\\' cs = (.gap, n)) (hne : cs.drop n ≠ [])
    (hrest : ∀ o', Retells false (o + byteSize ('\\' :: cs.take n)) o' (cs.drop n) (squeeze false (cs.drop n))) :
    Retells inside o o' ('\\' :: cs) (squeeze inside ('\\' :: cs)) := by
  have hsqueeze : squeeze true cs = '\n' :: squeeze false (cs.drop n) := by
    obtain ⟨hgap, -⟩ | ⟨hc, -⟩ | ⟨-, ⟨rfl, more, rfl⟩ | ⟨rfl, more, rfl⟩⟩ := gap_cases h
    · contradiction
    · contradiction
    · exact (squeeze_newline true more).trans (if_neg hne)
    · rw [squeeze_cons (by decide), if_pos (by rfl)]
      exact (squeeze_newline true more).trans (if_neg hne)
  rw [squeeze_solid (by decide), hsqueeze]
  exact gap h (rfl : Piece.read '\\' ('\n' :: squeeze false (cs.drop n)) = (.gap, 1)) (hrest _)

lemma newline (hrest : ∀ o', Retells false (o + byteSize ['\n']) o' cs (squeeze false cs)) :
    Retells inside o o' ('\n' :: cs) (squeeze inside ('\n' :: cs)) := by
  have hread (cs : List Char) : Piece.read '\n' cs = (.token .newline, 0) := rfl
  rw [squeeze_newline]
  split
  · rename_i hnil
    subst hnil
    have hend (o : Nat) : scanFrom o [] = ([], none) := by rw [scanFrom]
    refine ⟨by rw [hend], ⟨[], ?_, .inr ⟨⟨.newline, ⟨o, o + byteSize ['\n']⟩, false⟩, ⟨rfl, rfl⟩, ?_⟩⟩,
      fun _ e he e' he' => ?_⟩
    · rw [hend]
      exact .nil
    · rw [scanFrom_token _ (hread []), drop_nil, hend]
      rfl
    · rw [hend] at he'
      contradiction
  · exact token (hread cs) (hread _) (by simp [Token.augmentable]) (hrest _)

lemma solid (hc : c ≠ '\n') (h : Piece.read c cs = (.token t, n))
    (hstring : ((c == '"' || c == '\'') && (cs.take n).contains '\n') = false)
    (hrest : ∀ o', Retells true (o + byteSize (c :: cs.take n)) o' (cs.drop n) (squeeze true (cs.drop n))) :
    Retells inside o o' (c :: cs) (squeeze inside (c :: cs)) := by
  have hsolid := solid_of_read hc h
  have hline : '\n' ∉ cs.take n := by
    by_cases hquote : c = '"' ∨ c = '\''
    · simpa [hquote] using hstring
    · exact hsolid.unbroken (fun hc => hquote (.inl hc)) fun hc => hquote (.inr hc)
  have hlast : ∀ d ∈ (cs.take n).getLast?, isBlank d = false := by
    intro d hd
    refine hsolid.last d ?_
    rw [getLast?_cons, Option.mem_def.1 hd]
    rfl
  have hsqueeze : squeeze true cs = cs.take n ++ squeeze true (cs.drop n) := by
    rw [← squeeze_append hline hlast, take_append_drop]
  have hlength : (cs.take n).length = n := length_take_of_le hsolid.le
  have hagain := hsolid.again _ (ahead_squeeze (cs.drop n))
  rw [squeeze_solid hsolid.first, hsqueeze]
  refine token h hagain (fun _ => rfl) ?_
  rw [take_left' hlength, drop_left' hlength]
  exact hrest _

lemma squeezed (h : (scanFrom o cs).2 = none) (hs : breaksString cs = false) (he : endsContinued cs = false) :
    Retells inside o o' cs (squeeze inside cs) := by
  fun_induction scanFrom o cs generalizing inside o' with
  | case1 o =>
    have hend (o : Nat) : scanFrom o [] = ([], none) := by rw [scanFrom]
    exact ⟨by rw [squeeze, hend], ⟨[], by rw [squeeze, hend]; exact .nil, .inl (by rw [hend])⟩, by simp [hend]⟩
  | case2 o c cs piece count stop =>
    rename_i hpiece ih
    have hread : Piece.read c cs = (.gap, count) := Prod.ext hpiece rfl
    obtain ⟨-, hs⟩ := somePiece_cons hread hs
    obtain ⟨hcontinued, he⟩ := somePiece_cons hread he
    have hrest (inside : Bool) (o' : Nat) : Retells inside stop o' (cs.drop count) (squeeze inside (cs.drop count)) :=
      ih h hs he
    obtain ⟨hgap, hn⟩ | ⟨rfl, hn⟩ | ⟨rfl, -⟩ := gap_cases hread
    · refine blank hgap fun inside o' => ?_
      simpa [stop, hn] using hrest inside o'
    · refine comment fun o' => ?_
      simpa only [stop, hn, take_length_takeWhile, drop_length_takeWhile] using hrest true o'
    · exact continued hread (by simpa using hcontinued) (hrest false)
  | case3 o c cs piece count stop t hpiece =>
    rename_i rest ih
    have hread : Piece.read c cs = (.token t, count) := Prod.ext hpiece rfl
    obtain ⟨hstring, hs⟩ := somePiece_cons hread hs
    obtain ⟨-, he⟩ := somePiece_cons hread he
    have hrest (inside : Bool) (o' : Nat) : Retells inside stop o' (cs.drop count) (squeeze inside (cs.drop count)) :=
      ih h hs he
    by_cases hc : c = '\n'
    · subst hc
      exact newline (hrest false)
    · exact solid hc hread hstring (hrest true)
  | case4 => contradiction

end

end Retells

namespace Layout

variable {y : Layout} {program lexemes : List Lexeme} {brackets : List OpenBracket} {last : Lexeme}
  {r : Arranged}

lemma Arranges.without_last (h : y.Arranges program brackets (lexemes ++ [last]) r) (hlast : last.token = .newline) :
    ∃ program', y.Arranges program brackets lexemes (program', r.2) ∧ (r.1 = program' ∨ r.1 = last :: program') := by
  have hbefore {l : Lexeme} {rest lexemes : List Lexeme} (hall : lexemes ++ [last] = l :: rest)
    (hl : l.token ≠ .newline) :
      ∃ more, lexemes = l :: more ∧ more ++ [last] = rest := by
    cases lexemes with
    | nil => exact absurd ((List.cons.inj hall).1 ▸ hlast) hl
    | cons m more =>
      obtain ⟨rfl, hrest⟩ := List.cons.inj hall
      exact ⟨more, rfl, hrest⟩
  generalize hall : lexemes ++ [last] = all at h
  induction h generalizing lexemes with
  | done => simp at hall
  | keepBreak hl hp h ih =>
    cases lexemes with
    | nil =>
      cases hall
      cases h
      exact ⟨_, .done, .inr rfl⟩
    | cons m lexemes =>
      obtain ⟨rfl, hrest⟩ := List.cons.inj hall
      obtain ⟨program', h', hprogram⟩ := ih hrest
      exact ⟨program', .keepBreak hl hp h', hprogram⟩
  | dropBreak hl hp h ih =>
    cases lexemes with
    | nil =>
      cases hall
      cases h
      exact ⟨_, .done, .inl rfl⟩
    | cons m lexemes =>
      obtain ⟨rfl, hrest⟩ := List.cons.inj hall
      obtain ⟨program', h', hprogram⟩ := ih hrest
      exact ⟨program', .dropBreak hl hp h', hprogram⟩
  | assign hl _ ih =>
    obtain ⟨more, rfl, hrest⟩ := hbefore hall (by simp [hl])
    obtain ⟨program', h', hprogram⟩ := ih hrest
    exact ⟨program', .assign hl h', hprogram⟩
  | open_ hl hc _ ih =>
    obtain ⟨more, rfl, hrest⟩ := hbefore hall (by simp [hl])
    obtain ⟨program', h', hprogram⟩ := ih hrest
    exact ⟨program', .open_ hl hc h', hprogram⟩
  | close hl hs hb _ ih =>
    obtain ⟨more, rfl, hrest⟩ := hbefore hall (by simp [hl])
    obtain ⟨program', h', hprogram⟩ := ih hrest
    exact ⟨program', .close hl hs hb h', hprogram⟩
  | unmatched hl hs =>
    obtain ⟨more, rfl, -⟩ := hbefore hall (by simp [hl])
    exact ⟨_, .unmatched hl hs, .inl rfl⟩
  | mismatched hl hs hb =>
    obtain ⟨more, rfl, -⟩ := hbefore hall (by simp [hl])
    exact ⟨_, .mismatched hl hs hb, .inl rfl⟩
  | join hl hs he hj hname _ ih =>
    obtain ⟨more, rfl, hrest⟩ := hbefore hall (by simp [hl])
    obtain ⟨more, rfl, hrest'⟩ := hbefore hrest (by simp [he])
    obtain ⟨program', h', hprogram⟩ := ih hrest'
    exact ⟨program', .join hl hs he hj hname h', hprogram⟩
  | keep hl hnot _ ih =>
    obtain ⟨more, rfl, hrest⟩ := hbefore hall (by rintro hnew; rw [hnew] at hl; contradiction)
    obtain ⟨program', h', hprogram⟩ := ih hrest
    refine ⟨program', .keep hl (fun e he => hnot e ?_) h', hprogram⟩
    rw [← hrest, head?_append, Option.mem_def.1 he]
    rfl

lemma Arranges.retold {lexemes' : List Lexeme} (h : y.Arranges [] [] lexemes (program, .ok [])) (y' : Layout)
    (hretold : Retold lexemes lexemes') (hy : y'.letInsertion = y.letInsertion) :
    ∃ program' front, y'.Arranges [] [] lexemes' (program', .ok []) ∧ facesOf true front = facesOf true program' ∧
      (program = front ∨ ∃ l : Lexeme, l.Spells .newline ∧ program = l :: front) := by
  obtain ⟨front, hresembles, hlexemes⟩ := hretold
  obtain ⟨kept, hkept, hprogram⟩ : ∃ kept, y.Arranges [] [] front (kept, .ok []) ∧
      (program = kept ∨ ∃ l : Lexeme, l.Spells .newline ∧ program = l :: kept) := by
    rcases hlexemes with rfl | ⟨l, hl, rfl⟩
    · exact ⟨program, h, .inl rfl⟩
    · obtain ⟨kept, hkept, hprogram⟩ := h.without_last hl.1
      exact ⟨kept, hkept, hprogram.imp_right fun heq => ⟨l, hl, heq⟩⟩
  obtain ⟨⟨program', outcome⟩, h', hfaces, houtcome⟩ := hkept.resembling hresembles hy (rfl : facesOf true [] = _)
    (rfl : [].map OpenBracket.closer = _)
  cases outcome with
  | error fault => contradiction
  | ok brackets =>
    obtain rfl : brackets = [] := by simpa using houtcome.symm
    exact ⟨program', kept, h', hfaces, hprogram⟩

end Layout

section parse

variable {xs ys front front' : List Lexeme} {lexemes lexemes' : List Lexeme}

lemma Alongside.symm (h : Alongside 0 0 xs ys) : Alongside 0 0 ys xs := by
  induction h with
  | stop hx hy => exact .stop hy hx
  | word ht ha _ ih => exact .word ht.symm ha.symm ih

lemma alongside_of_faces (h : facesOf true front = facesOf true front') (hx : Stops 0 xs) (hy : Stops 0 ys) :
    Alongside 0 0 (front ++ xs) (front' ++ ys) := by
  induction front generalizing front' with
  | nil =>
    obtain rfl := map_eq_nil_iff.1 h.symm
    exact .stop hx hy
  | cons l front ih =>
    obtain ⟨m, front', rfl, hface, hrest⟩ := map_eq_cons_iff.1 h.symm
    refine .word (congrArg Prod.fst hface).symm ?_ (ih hrest.symm)
    simpa [Lexeme.face] using (congrArg Prod.snd hface).symm

lemma leadingStatements_eq {height : Nat} (h : (Cursor.ofLexemes lexemes).left < height) :
    leadingStatements lexemes = (Productions.tower height).statements (Cursor.ofLexemes lexemes) :=
  ((Productions.parallel_towers (.untracked (closed_ofLexemes lexemes)) (by omega) h).statements
    (Start.reaches_cursor _) (Nat.lt_succ_self _)).1

lemma Cursor.token_of_stops {c : Cursor} (h : Stops 0 c.lexemes) (hn : c.token.isNewline = false) : c.token = .eof := by
  obtain ⟨behind, l, rest⟩ := c
  cases h with
  | eof ht => exact ht
  | line ht =>
    rw [token, ht] at hn
    contradiction
  | closer _ _ hpos => contradiction

lemma parseLexemes_alongside {m : Module} (h : Alongside 0 0 (closed lexemes) (closed lexemes'))
    (hm : parseLexemes lexemes = .ok m) :
    ∃ m', parseLexemes lexemes' = .ok m' ∧ unplacedNodes m.statements = unplacedNodes m'.statements := by
  obtain ⟨list, stop, hread, rfl, -, heof⟩ := parseLexemes_ok hm
  have hbeside : (Cursor.ofLexemes lexemes).Beside 0 0 (Cursor.ofLexemes lexemes') := by
    rwa [Cursor.Beside, lexemes_ofLexemes, lexemes_ofLexemes]
  rw [leadingStatements_eq (Nat.lt_succ_of_le (Nat.le_add_right _ (Cursor.ofLexemes lexemes').left))] at hread
  rcases (Productions.carried_tower _).statements hbeside hread with ⟨hstuck, hstop⟩ | hpast | hcarried
  · rw [Cursor.skipNewlines_of_token hstuck.newline] at heof
    rw [heof] at hstop
    contradiction
  · contradiction
  · obtain ⟨list', stop', hread', hafter, hsame⟩ := hcarried
    rw [← leadingStatements_eq (by omega), leadingStatements] at hread'
    have hend : stop'.skipNewlines.1.token = .eof := by
      rcases hafter.skipNewlines.1.cases with ⟨-, hstops⟩ | hword
      · have hback : stop'.Beside 0 0 stop := Alongside.symm hafter
        exact Cursor.token_of_stops hstops hback.skipNewlines.2.1
      · rw [← hword.token, heof]
    refine ⟨⟨list'.statements, stop'.skipNewlines.1.spanFrom (Cursor.ofLexemes lexemes').here⟩, ?_, hsame⟩
    rw [parseLexemes]
    simp only [hread', hend, Token.isEof, if_true]

lemma parseLexemes_eq_of_alongside (h : Alongside 0 0 (closed lexemes) (closed lexemes')) :
    (parseLexemes lexemes).toOption.map (fun m => unplacedNodes m.statements) =
      (parseLexemes lexemes').toOption.map fun m => unplacedNodes m.statements := by
  cases hm : parseLexemes lexemes with
  | ok m =>
    obtain ⟨m', hm', hsame⟩ := parseLexemes_alongside h hm
    rw [hm']
    exact congrArg some hsame
  | error fault =>
    cases hm' : parseLexemes lexemes' with
    | error fault' => rfl
    | ok m' =>
      obtain ⟨m, hok, -⟩ := parseLexemes_alongside h.symm hm'
      rw [hm] at hok
      contradiction

lemma toOption_parseModule {text : String} (h : tokenize text = ⟨lexemes, none⟩) :
    (parseModule text).toOption = (parseLexemes lexemes).toOption := by
  rw [parseModule, h]
  dsimp only
  cases parseLexemes lexemes <;> rfl

end parse

lemma tokenize_stripLines {text : String} (hfault : (tokenize text).fault = none)
    (hstrings : breaksString text.toList = false) (hend : endsContinued text.toList = false) :
    ∃ front front' rest place place', tokenize text = ⟨front ++ (rest ++ [⟨.eof, place, false⟩]), none⟩ ∧
      tokenize (Text.stripLines text) = ⟨front' ++ [⟨.eof, place', false⟩], none⟩ ∧
      facesOf true front = facesOf true front' ∧ (rest = [] ∨ ∃ l : Lexeme, l.Spells .newline ∧ rest = [l]) := by
  obtain ⟨program, place, hlexemes, hscan, harranges⟩ := arranged_of_fault hfault
  have hretells : Retells false 0 0 text.toList (Text.stripLines text).toList := by
    rw [Text.stripLines, String.toList_ofList, Text.strip_eq_squeeze]
    exact .squeezed hscan hstrings hend
  have hlet (cs : List Char) : (Layout.ofText true cs).letInsertion = true := rfl
  obtain ⟨program', front, harranges', hfaces, hprogram⟩ :=
    harranges.retold (.ofText true (Text.stripLines text).toList) hretells.lexemes ((hlet _).trans (hlet _).symm)
  have hscan' : scanFrom 0 (Text.stripLines text).toList = ((scanFrom 0 (Text.stripLines text).toList).1, none) := by
    rw [← hretells.fault]
  obtain ⟨place', hstripped⟩ := tokenizeChars_of_arranges hscan' harranges'
  have hreverse : facesOf true front.reverse = facesOf true program'.reverse := by
    rw [facesOf, facesOf, map_reverse, map_reverse]
    exact congrArg List.reverse hfaces
  have htokens : tokenize text = ⟨program.reverse ++ [⟨.eof, place, false⟩], none⟩ := by
    rw [← hlexemes, ← hfault]
  rcases hprogram with rfl | ⟨l, hl, rfl⟩
  · exact ⟨program.reverse, program'.reverse, [], place, place', htokens, hstripped, hreverse, .inl rfl⟩
  · exact ⟨front.reverse, program'.reverse, [l], place, place', by simpa using htokens, hstripped, hreverse,
      .inr ⟨l, hl, rfl⟩⟩

/-- Indentation carries no meaning. A stripped text has the same tokens, but for a line break before the end, and it is
the same program or none either. A string with a line break in it would change, and a backslash at the
end would stand alone. -/
theorem indentation_carries_no_meaning {text : String} (hfault : (tokenize text).fault = none)
    (hstrings : breaksString text.toList = false) (hend : endsContinued text.toList = false) :
    (tokenize (Text.stripLines text)).fault = none ∧
      (tokensOf (tokenize (Text.stripLines text)).lexemes = tokensOf (tokenize text).lexemes ∨
        ∃ front, tokensOf (tokenize text).lexemes = front ++ [.newline, .eof] ∧
          tokensOf (tokenize (Text.stripLines text)).lexemes = front ++ [.eof]) ∧
      (parseModule (Text.stripLines text)).toOption.map (fun m => unplacedNodes m.statements) =
        (parseModule text).toOption.map fun m => unplacedNodes m.statements := by
  obtain ⟨front, front', rest, place, place', htokens, hstripped, hfaces, hrest⟩ :=
    tokenize_stripLines hfault hstrings hend
  refine ⟨by rw [hstripped], ?_, ?_⟩
  · rw [htokens, hstripped]
    have hsame := tokensOf_of_faces hfaces
    simp only [tokensOf, map_append, ← hsame]
    rcases hrest with rfl | ⟨l, hl, rfl⟩
    · exact .inl rfl
    · exact .inr ⟨tokensOf front, by simp [hl.1], rfl⟩
  · have hstops : Stops 0 (rest ++ [⟨.eof, place, false⟩]) := by
      rcases hrest with rfl | ⟨l, hl, rfl⟩
      · exact .eof rfl rfl
      · exact .line hl.1 hl.2 (.eof rfl rfl)
    rw [toOption_parseModule htokens, toOption_parseModule hstripped]
    refine (parseLexemes_eq_of_alongside ?_).symm
    rw [← append_assoc, closed_concat rfl, closed_concat rfl, append_assoc]
    exact alongside_of_faces hfaces hstops (.eof rfl rfl)

theorem indented_branch_carries_no_meaning :
    (tokenize "  if a do  # b \n\tx += \\\r\n 1 \n done\n").fault = none ∧
      breaksString "  if a do  # b \n\tx += \\\r\n 1 \n done\n".toList = false ∧
      endsContinued "  if a do  # b \n\tx += \\\r\n 1 \n done\n".toList = false ∧
      Text.stripLines "  if a do  # b \n\tx += \\\r\n 1 \n done\n" = "if a do  # b\nx += \\\n1\ndone" ∧
      (parseModule "if a do  # b\nx += \\\n1\ndone").isOk = true ∧
      (parseModule "if a do  # b\nx += \\\n1\ndone").toOption.map (fun m => unplacedNodes m.statements) =
        (parseModule "  if a do  # b \n\tx += \\\r\n 1 \n done\n").toOption.map fun m =>
        unplacedNodes m.statements := by
  have hfault : (tokenize "  if a do  # b \n\tx += \\\r\n 1 \n done\n").fault.isNone = true := by decide +kernel
  have hstrings : breaksString "  if a do  # b \n\tx += \\\r\n 1 \n done\n".toList = false := by decide +kernel
  have hend : endsContinued "  if a do  # b \n\tx += \\\r\n 1 \n done\n".toList = false := by decide +kernel
  have hstrip : Text.stripLines "  if a do  # b \n\tx += \\\r\n 1 \n done\n" = "if a do  # b\nx += \\\n1\ndone" :=
    by decide +kernel
  obtain ⟨-, -, hparse⟩ := indentation_carries_no_meaning (Option.isNone_iff_eq_none.1 hfault) hstrings hend
  rw [hstrip] at hparse
  exact ⟨Option.isNone_iff_eq_none.1 hfault, hstrings, hend, hstrip, by decide +kernel, hparse⟩

end ScriptMachine
