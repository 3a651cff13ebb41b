import ScriptMachine.Proofs.Pieces

/-! Assignments at the start of a statement stand for their longer spelling: the tokens of both are the same. -/

namespace ScriptMachine

open List

variable {offset : Nat} {head : List Lexeme}

def ScansTo (offset : Nat) (cs : List Char) (lexemes : List Lexeme) (offset' : Nat) (rest : List Char) : Prop :=
  scanFrom offset cs = (lexemes ++ (scanFrom offset' rest).1, (scanFrom offset' rest).2)

lemma ScansTo.trans {offset' offset'' : Nat} {cs rest rest' : List Char} {front back : List Lexeme}
    (h : ScansTo offset cs front offset' rest) (h' : ScansTo offset' rest back offset'' rest') :
    ScansTo offset cs (front ++ back) offset'' rest' := by
  rw [ScansTo] at h h' ⊢
  rw [h, h', append_assoc]

section scan

variable {c : Char} {cs : List Char} {t : Token} {n : Nat}

lemma scanFrom_gap (offset : Nat) (h : Piece.read c cs = (.gap, n)) :
    scanFrom offset (c :: cs) = scanFrom (offset + byteSize (c :: cs.take n)) (cs.drop n) := by
  rw [scanFrom]
  simp only [h]

lemma scanFrom_token (offset : Nat) (h : Piece.read c cs = (.token t, n)) :
    scanFrom offset (c :: cs) =
      (⟨t, ⟨offset, offset + byteSize (c :: cs.take n)⟩, false⟩ ::
        (scanFrom (offset + byteSize (c :: cs.take n)) (cs.drop n)).1,
      (scanFrom (offset + byteSize (c :: cs.take n)) (cs.drop n)).2) := by
  rw [scanFrom]
  simp only [h]

lemma scanFrom_fault (offset : Nat) {cause : LexicalCause} (h : Piece.read c cs = (.fault cause, n)) :
    scanFrom offset (c :: cs) = ([], some ⟨cause, ⟨offset, offset + byteSize (c :: cs.take n)⟩⟩) := by
  rw [scanFrom]
  simp only [h]

lemma read_append {piece : Piece} (hp : ∀ d ∈ (c :: cs).getLast?, d = '\n') (h : Piece.read c cs = (piece, n))
    (hok : ∀ cause, piece ≠ .fault cause) (s : List Char) :
    Piece.read c (cs ++ s) = (piece, n) ∧ (cs ++ s).take n = cs.take n ∧ (cs ++ s).drop n = cs.drop n ++ s ∧
      ∀ d ∈ (cs.drop n).getLast?, d = '\n' := by
  have hlast : ∀ d ∈ (cs.drop n).getLast?, d = '\n' := by
    intro d hd
    refine hp d ?_
    rw [getLast?_cons, ← take_append_drop n cs, getLast?_append, Option.mem_def.1 hd]
    rfl
  obtain ⟨hmem, hbreak⟩ : '\n' ∈ c :: cs ∧ (c :: cs).getLast? = some '\n' := by
    have hfinal := getLast?_eq_some_getLast (cons_ne_nil c cs)
    rw [hp _ hfinal] at hfinal
    exact ⟨mem_of_getLast? hfinal, hfinal⟩
  have hcomment (hc : c = '#') : '\n' ∈ cs := by simpa [hc] using hmem
  have hs (hsolid : ∀ d ∈ (c :: cs.take n).getLast?, Text.isBlank d = false) :
      Piece.ahead (cs.drop n ++ s) = Piece.ahead (cs.drop n) := by
    refine Piece.ahead_append ?_ s
    cases hback : (cs.drop n).getLast? with
    | some d => exact ⟨d, mem_of_getLast? hback, by rw [hlast d hback]; decide⟩
    | none =>
      -- the line break is no part of a token
      rw [getLast?_eq_none_iff, drop_eq_nil_iff] at hback
      rw [take_of_length_le hback] at hsolid
      exact absurd (hsolid _ hbreak) (by decide)
  obtain ⟨hread, htake, hdrop⟩ := Piece.read_append h hok hcomment hs
  exact ⟨hread, htake, hdrop, hlast⟩

lemma byteSize_take_drop (c : Char) (cs : List Char) (n : Nat) :
    byteSize (c :: cs.take n) + byteSize (cs.drop n) = byteSize (c :: cs) := by
  rw [← byteSize_append, cons_append, take_append_drop]

lemma scanFrom_append {p : List Char} (hp : ∀ d ∈ p.getLast?, d = '\n') (h : (scanFrom offset p).2 = none)
    (s : List Char) :
    ScansTo offset (p ++ s) (scanFrom offset p).1 (offset + byteSize p) s := by
  rw [ScansTo]
  fun_induction scanFrom offset p with
  | case1 => rfl
  | case2 offset c cs piece count stop hpiece ih =>
    have hcut : Piece.read c cs = (.gap, count) := Prod.ext hpiece rfl
    obtain ⟨hread, htake, hdrop, hlast⟩ := read_append hp hcut (by simp) s
    rw [cons_append, scanFrom_gap _ hread, htake, hdrop, ih hlast h, Nat.add_assoc, byteSize_take_drop]
  | case3 offset c cs piece count stop t hpiece rest ih =>
    have hcut : Piece.read c cs = (.token t, count) := Prod.ext hpiece rfl
    obtain ⟨hread, htake, hdrop, hlast⟩ := read_append hp hcut (by simp) s
    rw [cons_append, scanFrom_token _ hread, htake, hdrop, ih hlast h, Nat.add_assoc, byteSize_take_drop]
    rfl
  | case4 offset c cs piece count stop cause hpiece => simp at h

end scan

def Span.shift (a : Span) (k : Nat) : Span := ⟨a.start + k, a.stop + k⟩

def Lexeme.shift (l : Lexeme) (k : Nat) : Lexeme := ⟨l.token, l.span.shift k, l.augmented⟩

def LexicalFault.shift (f : LexicalFault) (k : Nat) : LexicalFault := ⟨f.cause, f.span.shift k⟩

lemma scanFrom_add (offset k : Nat) (cs : List Char) :
    scanFrom (offset + k) cs = ((scanFrom offset cs).1.map (·.shift k), (scanFrom offset cs).2.map (·.shift k)) := by
  fun_induction scanFrom offset cs with
  | case1 => rw [scanFrom]; rfl
  | case2 offset c cs piece count stop hpiece ih =>
    rw [scanFrom_gap _ (Prod.ext hpiece rfl : Piece.read c cs = (.gap, count)), ← ih]
    congr 1
    omega
  | case3 offset c cs piece count stop t hpiece rest ih =>
    have hstop : offset + k + byteSize (c :: cs.take count) = stop + k := by omega
    rw [scanFrom_token _ (Prod.ext hpiece rfl : Piece.read c cs = (.token t, count)), hstop, ih]
    rfl
  | case4 offset c cs piece count stop cause hpiece =>
    have hstop : offset + k + byteSize (c :: cs.take count) = stop + k := by omega
    rw [scanFrom_fault _ (Prod.ext hpiece rfl : Piece.read c cs = (.fault cause, count)), hstop]
    rfl

def LexicalCause.unplaced : LexicalCause → LexicalCause
  | mismatchedCloser expected found _ _ => mismatchedCloser expected found 0 0
  | unclosed expected _ _ => unclosed expected 0 0
  | cause => cause

abbrev tokensOf (lexemes : List Lexeme) : List Token := lexemes.map Lexeme.token

def Lexeme.face (strict : Bool) (l : Lexeme) : Token × Bool := (l.token, strict && l.augmented)

abbrev facesOf (strict : Bool) (lexemes : List Lexeme) : List (Token × Bool) := lexemes.map (Lexeme.face strict)

lemma tokensOf_of_faces {strict : Bool} {lexemes lexemes' : List Lexeme}
    (h : facesOf strict lexemes = facesOf strict lexemes') :
    tokensOf lexemes = tokensOf lexemes' := by
  have htokens := congrArg (List.map Prod.fst) h
  rwa [map_map, map_map] at htokens

inductive Resembles (strict : Bool) : List Lexeme → List Lexeme → Prop
  | nil : Resembles strict [] []
  | cons {l m rest rest'} : l.face strict = m.face strict →
      (∀ e ∈ rest.head?, ∀ e' ∈ rest'.head?, l.token.augmentable = true → e.token.isSymbol .assign = true →
        (e.span.start = l.span.stop ↔ e'.span.start = m.span.stop)) →
      Resembles strict rest rest' → Resembles strict (l :: rest) (m :: rest')

lemma resembles_shift (strict : Bool) (k : Nat) (lexemes : List Lexeme) :
    Resembles strict lexemes (lexemes.map (·.shift k)) := by
  induction lexemes with
  | nil => exact .nil
  | cons l rest ih =>
    refine .cons rfl (fun e he e' he' _ _ => ?_) ih
    rw [head?_map, Option.mem_def.1 he] at he'
    cases he'
    exact (Nat.add_left_inj).symm

namespace Layout

variable {y y' : Layout} {program program' rest : List Lexeme} {brackets brackets' : List OpenBracket} {r : Arranged}

lemma Arranges.append {front : List Lexeme} {others : List OpenBracket}
    (h : Arranges y program brackets front (program', .ok brackets')) (hy : y'.letInsertion = y.letInsertion)
    (hb : brackets.map OpenBracket.closer = others.map OpenBracket.closer)
    (hrest : ∀ e ∈ rest.head?, e.token.isSymbol .assign = false)
    (hr : ∀ others', brackets'.map OpenBracket.closer = others'.map OpenBracket.closer →
      Arranges y' program' others' rest r) : Arranges y' program others (front ++ rest) r := by
  have hlet (program : List Lexeme) : y'.withLet program = y.withLet program := by rw [withLet, withLet, hy]
  generalize hmiddle : (program', Except.ok brackets') = middle at h
  -- The places of the open brackets may differ, so only their closers are followed.
  induction h generalizing others with
  | done =>
    obtain ⟨rfl, rfl⟩ : program' = _ ∧ brackets' = _ := by simpa using hmiddle
    exact hr _ hb
  | keepBreak hl hp _ ih =>
    obtain rfl : others = [] := by simpa using hb.symm
    exact .keepBreak hl hp (ih rfl hmiddle)
  | dropBreak hl hdrop _ ih =>
    refine .dropBreak hl (hdrop.imp_left ?_) (ih hb hmiddle)
    rintro hne rfl
    exact hne (by simpa using hb)
  | assign hl _ ih => exact .assign hl (hlet _ ▸ ih hb hmiddle)
  | open_ hl hc _ ih => exact .open_ hl hc (ih (by simp [hb]) hmiddle)
  | close hl hs hbs _ ih =>
    obtain ⟨b', others, rfl, hb', hothers⟩ := map_eq_cons_iff.1 hb.symm
    exact .close hl hs (hb'.trans hbs) (ih hothers.symm hmiddle)
  | unmatched | mismatched => simp at hmiddle
  | join hl hs he hj hname _ ih => exact .join hl hs he hj hname (hlet _ ▸ ih hb hmiddle)
  | @keep _ _ _ front _ hl hnot _ ih =>
    refine .keep hl (fun e he haug hassign => ?_) (ih hb hmiddle)
    cases front with
    | nil => simp [hrest e he] at hassign
    | cons m front => exact hnot e he haug hassign

/-- Results with the same tokens that have the same brackets open or stop at the same fault, whatever the places. -/
structure Alike (strict : Bool) (r r' : Arranged) : Prop where
  faces : facesOf strict r.1 = facesOf strict r'.1
  outcome : match r.2, r'.2 with
    | .ok brackets, .ok brackets' => brackets.map OpenBracket.closer = brackets'.map OpenBracket.closer
    | .error f, .error f' => f.cause.unplaced = f'.cause.unplaced
    | _, _ => False

section faces

variable {strict : Bool} (h : facesOf strict program = facesOf strict program')
include h

lemma facesOf_push {l m : Lexeme} (hface : l.face strict = m.face strict) :
    facesOf strict (l :: program) = facesOf strict (m :: program') := congrArg₂ List.cons hface h

lemma isNewline_of_faces : program.head?.any (·.token.isNewline) = program'.head?.any (·.token.isNewline) := by
  have htokens := tokensOf_of_faces h
  cases program <;> cases program' <;> simp_all

lemma lastName?_of_faces : (lastName? program).map Prod.fst = (lastName? program').map Prod.fst := by
  have htokens := tokensOf_of_faces h
  cases program with
  | nil => simp [map_eq_nil_iff.1 htokens.symm]
  | cons l before =>
    obtain ⟨⟨t, span', a'⟩, before', rfl, hl, -⟩ := map_eq_cons_iff.1 htokens.symm
    obtain ⟨t', span, a⟩ := l
    obtain rfl : t = t' := hl
    cases t <;> rfl

lemma facesOf_withLet (hy : y'.letInsertion = y.letInsertion) :
    facesOf strict (y.withLet program) = facesOf strict (y'.withLet program') := by
  rw [withLet, withLet, hy]
  split
  · cases program with
    | nil => simp [map_eq_nil_iff.1 h.symm]
    | cons l before =>
      obtain ⟨⟨t, span', a'⟩, before', rfl, hl, hbefore⟩ := map_eq_cons_iff.1 h.symm
      obtain ⟨t', span, a⟩ := l
      obtain ⟨rfl, ha⟩ : t = t' ∧ (strict && a') = (strict && a) := Prod.mk.inj hl
      cases t with
      | ident name =>
        cases before with
        | nil => simp [insertLet, map_eq_nil_iff.1 hbefore, Lexeme.face, ha]
        | cons m more =>
          obtain ⟨m', more', rfl, hm, -⟩ := map_eq_cons_iff.1 hbefore
          simp only [insertLet, show m'.token = m.token from congrArg Prod.fst hm]
          split
          · exact congrArg₂ List.cons hl.symm (congrArg₂ List.cons rfl hbefore.symm)
          · exact congrArg₂ List.cons hl.symm hbefore.symm
      | _ => exact h
  · exact h

end faces

lemma Arranges.resembling {strict : Bool} {rest' : List Lexeme} (h : Arranges y program brackets rest r)
    (hrest : Resembles strict rest rest') (hy : y'.letInsertion = y.letInsertion)
    (hp : facesOf strict program = facesOf strict program')
    (hb : brackets.map OpenBracket.closer = brackets'.map OpenBracket.closer) :
    ∃ r', Arranges y' program' brackets' rest' r' ∧ Alike strict r r' := by
  have htoken {l m : Lexeme} {t : Token} (hface : l.face strict = m.face strict) (hl : l.token = t) : m.token = t :=
    (congrArg Prod.fst hface).symm.trans hl
  induction h generalizing program' brackets' rest' with
  | done =>
    cases hrest
    exact ⟨_, .done, hp, hb⟩
  | keepBreak hl hhead _ ih =>
    cases hrest with | cons hface _ hrest
    obtain rfl : brackets' = [] := by simpa using hb.symm
    obtain ⟨r', hr, halike⟩ := ih hrest (facesOf_push hp hface) rfl
    exact ⟨r', .keepBreak (htoken hface hl) (by rwa [← isNewline_of_faces hp]) hr, halike⟩
  | dropBreak hl hdrop _ ih =>
    cases hrest with | cons hface _ hrest
    obtain ⟨r', hr, halike⟩ := ih hrest hp hb
    refine ⟨r', .dropBreak (htoken hface hl) (hdrop.imp ?_ ?_) hr, halike⟩
    · rintro hne rfl
      exact hne (by simpa using hb)
    · rw [isNewline_of_faces hp]
      exact id
  | assign hl _ ih =>
    cases hrest with | cons hface _ hrest
    obtain ⟨r', hr, halike⟩ := ih hrest (facesOf_push (facesOf_withLet hp hy) hface) hb
    exact ⟨r', .assign (htoken hface hl) hr, halike⟩
  | @open_ _ _ _ _ closer _ _ hl hc _ ih =>
    cases hrest with | @cons _ m _ _ hface _ hrest
    obtain ⟨r', hr, halike⟩ := @ih _ (y'.opened closer m.span :: brackets') _ hrest (facesOf_push hp hface)
      (by simp [hb])
    exact ⟨r', .open_ (htoken hface hl) hc hr, halike⟩
  | close hl hs hbs _ ih =>
    cases hrest with | cons hface _ hrest
    obtain ⟨b', brackets', rfl, hb', hbrackets⟩ := map_eq_cons_iff.1 hb.symm
    obtain ⟨r', hr, halike⟩ := ih hrest (facesOf_push hp hface) hbrackets.symm
    exact ⟨r', .close (htoken hface hl) hs (hb'.trans hbs) hr, halike⟩
  | unmatched hl hs =>
    cases hrest with | cons hface _ _
    obtain rfl : brackets' = [] := by simpa using hb.symm
    exact ⟨_, .unmatched (htoken hface hl) hs, hp, rfl⟩
  | mismatched hl hs hbs =>
    cases hrest with | cons hface _ _
    obtain ⟨b', brackets', rfl, hb', -⟩ := map_eq_cons_iff.1 hb.symm
    refine ⟨_, .mismatched (htoken hface hl) hs (hb'.trans_ne hbs), hp, ?_⟩
    simp [LexicalCause.unplaced, hb']
  | @join program _ l s e name _ _ _ hl hs he hj hname _ ih =>
    cases hrest with | @cons _ m _ _ hface hjoined hrest
    cases hrest with | @cons _ e' _ _ hface' _ hrest
    -- the name before the operator is the same, at another place
    obtain ⟨span', hname'⟩ : ∃ span', lastName? program' = some (name, span') := by
      have hfirst := lastName?_of_faces hp
      rw [hname] at hfirst
      obtain ⟨⟨_, span'⟩, hname', rfl⟩ := Option.map_eq_some_iff.1 hfirst.symm
      exact ⟨span', hname'⟩
    have hj' := (hjoined e rfl e' rfl (by rw [hl]; exact hs) (by rw [he]; rfl)).1 hj
    have hfaces := facesOf_push (facesOf_withLet hp hy) hface'
    obtain ⟨r', hr, halike⟩ := @ih (⟨.symbol s, m.span, true⟩ :: ⟨.ident name, span', false⟩ :: _) _ _ hrest
      (facesOf_push (facesOf_push hfaces rfl) rfl) hb
    exact ⟨r', .join (htoken hface hl) hs (htoken hface' he) hj' hname' hr, halike⟩
  | @keep program _ l rest _ hl hnot _ ih =>
    cases hrest with | @cons _ m _ rest' hface hjoined hrest
    have hm : l.token = m.token := congrArg Prod.fst hface
    obtain ⟨r', hr, halike⟩ := ih hrest (facesOf_push hp hface) hb
    refine ⟨r', .keep (hm ▸ hl) (fun e' he' haug hassign hj => ?_) hr, halike⟩
    obtain ⟨e, he, hsame⟩ : ∃ e ∈ rest.head?, e.face strict = e'.face strict := by
      cases hrest with
      | nil => contradiction
      | cons hface' _ _ => exact ⟨_, rfl, Option.some.inj he' ▸ hface'⟩
    have hassign' : e.token.isSymbol .assign = true := by rwa [show e.token = e'.token from congrArg Prod.fst hsame]
    have hname := hnot e he (hm ▸ haug) hassign' ((hjoined e he e' he' (hm ▸ haug) hassign').2 hj)
    have hfirst := lastName?_of_faces hp
    rw [hname] at hfirst
    exact Option.map_eq_none_iff.1 hfirst.symm

end Layout

section heads

variable {x : String} {s : Symbol} {rest : List Char}

lemma scansTo_name (offset : Nat) (hx : isName x = true) (hr : ∀ d ∈ rest.head?, Piece.isNameChar d = false) :
    ScansTo offset (x.toList ++ rest) [⟨.ident x, ⟨offset, offset + byteSize x.toList⟩, false⟩]
      (offset + byteSize x.toList) rest := by
  rw [isName.eq_def] at hx
  split at hx
  · contradiction
  · rename_i c cs hw
    simp only [Bool.and_eq_true, Option.isNone_iff_eq_none] at hx
    have hword : Piece.ofWord x = .ident x := by rw [Piece.ofWord, hx.2]
    rw [ScansTo, hw, cons_append, scanFrom_token _ (read_word hw hx.1.1 hx.1.2 hr), hword, take_left,
      drop_left]
    rfl

lemma scansTo_space (offset : Nat) (rest : List Char) : ScansTo offset (' ' :: rest) [] (offset + 1) rest :=
  scanFrom_gap (n := 0) offset rfl

lemma scansTo_assign (offset : Nat) (rest : List Char) :
    ScansTo offset ('=' :: ' ' :: rest) [⟨.symbol .assign, ⟨offset, offset + 1⟩, false⟩] (offset + 1) (' ' :: rest) :=
  scanFrom_token (n := 0) (t := .symbol .assign) offset rfl

lemma scansTo_let (offset : Nat) (rest : List Char) :
    ScansTo offset ('l' :: 'e' :: 't' :: ' ' :: rest) [⟨.keyword .let_, ⟨offset, offset + 3⟩, false⟩]
      (offset + 3) (' ' :: rest) :=
  scanFrom_token (n := 2) (t := .keyword .let_) offset rfl

lemma scansTo_operator (offset : Nat) (hs : s.augmentable = true) {d : Char} (hd : d = ' ' ∨ d = '=')
    (rest : List Char) :
    ScansTo offset (s.text.toList ++ d :: rest) [⟨.symbol s, ⟨offset, offset + byteSize s.text.toList⟩, false⟩]
      (offset + byteSize s.text.toList) (d :: rest) := by
  cases s with
  | doubleSlash => exact scanFrom_token (n := 1) offset rfl
  | plus | minus | star | slash | percent | caret =>
    rcases hd with rfl | rfl <;> exact scanFrom_token (n := 0) offset rfl
  | _ => simp [Symbol.augmentable] at hs

lemma start_of_scanFrom (offset : Nat) (cs : List Char) : ∀ l ∈ (scanFrom offset cs).1, offset ≤ l.span.start := by
  fun_induction scanFrom offset cs with
  | case1 | case4 => simp
  | case2 offset c cs piece count stop hpiece ih =>
    exact fun l hl => (Nat.le_add_right ..).trans (ih l hl)
  | case3 offset c cs piece count stop t hpiece rest ih =>
    exact forall_mem_cons.2 ⟨le_rfl, fun l hl => (Nat.le_add_right ..).trans (ih l hl)⟩

end heads

namespace Layout

variable {y : Layout} {program rest : List Lexeme} {x : String} {s : Symbol} {span espan lspan : Span}
  {r : Arranged}

lemma withLet_name (hy : y.letInsertion = true) (h : ∀ l ∈ program.head?, l.token = .newline) (x : String)
    (span : Span) :
    y.withLet (⟨.ident x, span, false⟩ :: program) =
      ⟨.ident x, span, false⟩ :: ⟨.keyword .let_, .point span.start, false⟩ :: program := by
  rw [withLet, if_pos hy]
  cases program with
  | nil => rfl
  | cons l before => simp [insertLet, h l rfl, Token.endsStatement]

lemma withLet_after_let (y : Layout) (program : List Lexeme) (x : String) (span lspan : Span) :
    y.withLet (⟨.ident x, span, false⟩ :: ⟨.keyword .let_, lspan, false⟩ :: program) =
      ⟨.ident x, span, false⟩ :: ⟨.keyword .let_, lspan, false⟩ :: program := by
  unfold withLet insertLet
  split <;> rfl

lemma Arranges.word {t : Token} {a : Bool} (ht : t.isPlain = true) (haug : t.augmentable = false)
    {brackets : List OpenBracket}
    (h : Arranges y (⟨t, span, a⟩ :: program) brackets rest r) : Arranges y program brackets (⟨t, span, a⟩ :: rest) r :=
  .keep ht (fun _ _ h => by simp [haug] at h) h

lemma Arranges.spelled (h : Arranges y (⟨.symbol .assign, espan, false⟩ :: ⟨.ident x, span, false⟩ ::
    ⟨.keyword .let_, lspan, false⟩ :: program) [] rest r) :
    Arranges y program [] (⟨.keyword .let_, lspan, false⟩ :: ⟨.ident x, span, false⟩ ::
      ⟨.symbol .assign, espan, false⟩ :: rest) r := by
  rw [← y.withLet_after_let] at h
  exact .word rfl rfl (.word rfl rfl (.assign rfl h))

lemma Arranges.operation (hs : s.augmentable = true) (hapart : ∀ e ∈ rest.head?, e.span.start ≠ lspan.stop)
    (h : Arranges y (⟨.symbol s, lspan, false⟩ :: ⟨.ident x, span, false⟩ :: program) [] rest r) :
    Arranges y program [] (⟨.ident x, span, false⟩ :: ⟨.symbol s, lspan, false⟩ :: rest) r :=
  .word rfl rfl (.keep (Token.isPlain_of_augmentable hs) (fun e he _ _ hj => absurd hj (hapart e he)) h)

section statement

variable (hy : y.letInsertion = true) (hp : ∀ l ∈ program.head?, l.token = .newline)
include hy hp

lemma Arranges.named (h : Arranges y (⟨.symbol .assign, espan, false⟩ :: ⟨.ident x, span, false⟩ ::
    ⟨.keyword .let_, .point span.start, false⟩ :: program) [] rest r) :
    Arranges y program [] (⟨.ident x, span, false⟩ :: ⟨.symbol .assign, espan, false⟩ :: rest) r := by
  rw [← withLet_name hy hp] at h
  exact .word rfl rfl (.assign rfl h)

lemma Arranges.joined (hs : s.augmentable = true) (hj : espan.start = lspan.stop)
    (h : Arranges y (⟨.symbol s, lspan, true⟩ :: ⟨.ident x, span, false⟩ :: ⟨.symbol .assign, espan, false⟩ ::
      ⟨.ident x, span, false⟩ :: ⟨.keyword .let_, .point span.start, false⟩ :: program) [] rest r) :
    Arranges y program []
      (⟨.ident x, span, false⟩ :: ⟨.symbol s, lspan, false⟩ :: ⟨.symbol .assign, espan, false⟩ :: rest) r := by
  rw [← withLet_name hy hp] at h
  exact .word rfl rfl (.join rfl hs rfl hj rfl h)

end statement

end Layout

/-- Outcomes with the same tokens and with faults of the same kind, whatever the places. -/
structure Tokenized.Alike (a b : Tokenized) : Prop where
  tokens : tokensOf a.lexemes = tokensOf b.lexemes
  fault : a.fault.map (·.cause.unplaced) = b.fault.map (·.cause.unplaced)

lemma Layout.Alike.tokenized {cs cs' : List Char} {r r' : Arranged}
    (halike : Alike false r r') (h : Arranges (.ofText true cs) [] [] (scanFrom 0 cs).1 r)
    (h' : Arranges (.ofText true cs') [] [] (scanFrom 0 cs').1 r')
    (hscan : (scanFrom 0 cs).2.map (·.cause) = (scanFrom 0 cs').2.map (·.cause)) :
    (tokenizeChars true cs).Alike (tokenizeChars true cs') := by
  obtain ⟨fault, hends, heq⟩ := tokenizeChars_eq true cs
  obtain ⟨fault', hends', heq'⟩ := tokenizeChars_eq true cs'
  rw [h.eq] at hends heq
  rw [h'.eq] at hends' heq'
  rw [heq, heq']
  obtain ⟨program, outcome⟩ := r
  obtain ⟨program', outcome'⟩ := r'
  obtain ⟨hfaces, houtcome⟩ := halike
  have htokens := tokensOf_of_faces hfaces
  generalize (scanFrom 0 cs).2 = scanned at hends hscan
  generalize (scanFrom 0 cs').2 = scanned' at hends' hscan
  refine ⟨by simpa [tokensOf] using htokens, ?_⟩
  cases hends with
  | layout =>
    cases hends' with
    | layout => exact congrArg some houtcome
    | _ => exact houtcome.elim
  | scanner =>
    cases hends' with
    | layout => exact houtcome.elim
    | scanner => exact congrArg (Option.map LexicalCause.unplaced) hscan
    | _ => simp at hscan
  | unclosed =>
    cases hends' with
    | layout => exact houtcome.elim
    | scanner => simp at hscan
    | unclosed => simp_all [LexicalCause.unplaced]
    | none => simp at houtcome
  | none =>
    cases hends' with
    | layout => exact houtcome.elim
    | scanner => simp at hscan
    | unclosed => simp at houtcome
    | none => rfl

def WholeLines (p : String) : Prop :=
  p = "" ∨ (tokenize p).fault = none ∧ p.toList.getLast? = some '\n' ∧
    (tokenize p).lexemes.dropLast.getLast?.any (·.token.isNewline) = true

structure After (p : List Char) (program : List Lexeme) : Prop where
  newline : ∀ l ∈ program.head?, l.token = .newline
  last : ∀ d ∈ p.getLast?, d = '\n'
  scanned : (scanFrom 0 p).2 = none
  arranged : Layout.Arranges (.ofText true p) [] [] (scanFrom 0 p).1 (program, .ok [])

lemma WholeLines.after {p : String} (h : WholeLines p) : ∃ program, After p.toList program := by
  obtain rfl | ⟨hfault, hlast, hnewline⟩ := h
  · refine ⟨[], by simp, by simp, ?_, ?_⟩
    · simp [scanFrom]
    · simp only [String.toList_empty, scanFrom]
      exact .done
  · obtain ⟨fault, hends, heq⟩ := tokenizeChars_eq true p.toList
    have harranges := (Layout.ofText true p.toList).arranges [] [] (scanFrom 0 p.toList).1
    rw [tokenize, heq] at hfault hnewline
    obtain rfl : fault = none := hfault
    generalize (Layout.ofText true p.toList).arrange [] [] (scanFrom 0 p.toList).1 = r at *
    obtain ⟨program, outcome⟩ := r
    have hhead : program.head?.any (·.token.isNewline) = true := by simpa using hnewline
    generalize hscanned : (scanFrom 0 p.toList).2 = scanned at hends
    cases hends with
    | none =>
      refine ⟨program, fun l hl => ?_, fun d hd => Option.some.inj (hd.symm.trans hlast), hscanned, harranges⟩
      rw [Option.mem_def.1 hl, Option.any_some] at hhead
      cases ht : l.token with
      | newline => rfl
      | _ => simp [ht, Token.isNewline] at hhead

def Layout.Leads (program head middle rest : List Lexeme) : Prop :=
  ∀ {y : Layout} {r}, y.letInsertion = true → y.Arranges middle [] rest r → y.Arranges program [] (head ++ rest) r

lemma After.arranges {p s r : List Char} {program : List Lexeme} {result : Arranged} (h : After p program)
    (hs : ScansTo (byteSize p) s head offset r) (hstart : head.head?.any (!·.token.isSymbol .assign) = true)
    (hresult : Layout.Arranges (.ofText true (p ++ s)) program [] (head ++ (scanFrom offset r).1) result) :
    Layout.Arranges (.ofText true (p ++ s)) [] [] (scanFrom 0 (p ++ s)).1 result ∧
      (scanFrom 0 (p ++ s)).2 = (scanFrom offset r).2 := by
  have hlines := scanFrom_append h.last h.scanned s
  rw [Nat.zero_add] at hlines
  have hall : scanFrom 0 (p ++ s) = _ := hlines.trans hs
  rw [hall, append_assoc]
  refine ⟨h.arranged.append rfl (rfl : [].map OpenBracket.closer = _) (fun e he => ?_) fun others hothers => ?_, rfl⟩
  rotate_left
  · obtain rfl : others = [] := by simpa using hothers.symm
    exact hresult
  cases head with
  | nil => simp at hstart
  | cons l head =>
    obtain rfl : l = e := by simpa using he
    simpa using hstart

lemma After.alike {p s s' r : List Char} {program head' middle middle' : List Lexeme} {k : Nat} (h : After p program)
    (hs : ScansTo (byteSize p) s head offset r) (hs' : ScansTo (byteSize p) s' head' (offset + k) r)
    (hstart : head.head?.any (!·.token.isSymbol .assign) = true)
    (hstart' : head'.head?.any (!·.token.isSymbol .assign) = true)
    (hleads : Layout.Leads program head middle (scanFrom offset r).1)
    (hleads' : Layout.Leads program head' middle' (scanFrom (offset + k) r).1)
    (hmiddle : tokensOf middle = tokensOf middle') :
    (tokenizeChars true (p ++ s)).Alike (tokenizeChars true (p ++ s')) := by
  have hrest := (Layout.ofText true (p ++ s)).arranges middle [] (scanFrom offset r).1
  have hfaces := congrArg (List.map fun t => (t, false)) hmiddle
  rw [map_map, map_map] at hfaces
  obtain ⟨result', hrest', halike⟩ :=
    @Layout.Arranges.resembling _ (.ofText true (p ++ s')) _ middle' _ _ [] _ false _ hrest
    (resembles_shift false k _) rfl hfaces rfl
  have hshift := scanFrom_add offset k r
  have hlexemes : (scanFrom (offset + k) r).1 = (scanFrom offset r).1.map (·.shift k) := congrArg Prod.fst hshift
  rw [← hlexemes] at hrest'
  obtain ⟨hall, hfault⟩ := h.arranges hs hstart (hleads rfl hrest)
  obtain ⟨hall', hfault'⟩ := h.arranges hs' hstart' (hleads' rfl hrest')
  refine halike.tokenized hall hall' ?_
  rw [hfault, hfault', hshift]
  cases (scanFrom offset r).2 <;> rfl

section assignments

variable {p : List Char} {x : String} {s : Symbol} {program : List Lexeme}

lemma After.alike_let (h : After p program) (hx : isName x = true) (r : List Char) :
    (tokenizeChars true (p ++ (x.toList ++ ' ' :: '=' :: ' ' :: r))).Alike
      (tokenizeChars true (p ++ ('l' :: 'e' :: 't' :: ' ' :: (x.toList ++ ' ' :: '=' :: ' ' :: r)))) := by
  have hassign (offset : Nat) := (@scansTo_name x (' ' :: '=' :: ' ' :: r) offset hx (by simp; rfl)).trans
    ((scansTo_space _ _).trans ((scansTo_assign _ _).trans (scansTo_space _ r)))
  have hlet := (scansTo_let (byteSize p) (x.toList ++ ' ' :: '=' :: ' ' :: r)).trans
    ((scansTo_space _ _).trans (hassign _))
  have hoffset :
      byteSize p + 3 + 1 + byteSize x.toList + 1 + 1 + 1 = byteSize p + byteSize x.toList + 1 + 1 + 1 + 4 := by omega
  rw [hoffset] at hlet
  exact h.alike (hassign _) hlet rfl rfl (fun hy hr => hr.named hy h.newline) (fun _ hr => hr.spelled) (by rfl)

lemma After.alike_operator (h : After p program) (hx : isName x = true) (hs : s.augmentable = true) (r : List Char) :
    (tokenizeChars true (p ++ (x.toList ++ ' ' :: (s.text.toList ++ '=' :: ' ' :: r)))).Alike (tokenizeChars true
      (p ++ (x.toList ++ ' ' :: '=' :: ' ' :: (x.toList ++ ' ' :: (s.text.toList ++ ' ' :: r))))) := by
  have hjoined := (@scansTo_name x (' ' :: (s.text.toList ++ '=' :: ' ' :: r)) (byteSize p) hx (by simp; rfl)).trans
    ((scansTo_space _ _).trans ((scansTo_operator _ hs (.inr rfl) (' ' :: r)).trans
      ((scansTo_assign _ _).trans (scansTo_space _ r))))
  have hspelled := (@scansTo_name x
    (' ' :: '=' :: ' ' :: (x.toList ++ ' ' :: (s.text.toList ++ ' ' :: r))) (byteSize p) hx
    (by simp; rfl)).trans ((scansTo_space _ _).trans ((scansTo_assign _ _).trans ((scansTo_space _ _).trans
      ((scansTo_name _ hx (by simp; rfl)).trans ((scansTo_space _ _).trans
        ((scansTo_operator _ hs (.inl rfl) r).trans (scansTo_space _ r)))))))
  have hoffset : byteSize p + byteSize x.toList + 1 + 1 + 1 + byteSize x.toList + 1 + byteSize s.text.toList + 1 =
      byteSize p + byteSize x.toList + 1 + byteSize s.text.toList + 1 + 1 + (byteSize x.toList + 2) := by omega
  rw [hoffset] at hspelled
  refine h.alike hjoined hspelled rfl rfl (fun hy hr => hr.joined hy h.newline hs rfl)
    (fun hy hr => (hr.operation hs fun e he => ?_).named hy h.newline) (by rfl)
  have hstart := start_of_scanFrom _ _ e (mem_of_mem_head? he)
  dsimp only
  omega

end assignments

/-- Assignments at the start of a statement have the tokens of their longer spelling. -/
theorem assignments_spelled_out {p x : String} (r : String) {s : Symbol} (hp : WholeLines p) (hx : isName x = true)
    (hs : s.augmentable = true) :
    (tokenize (p ++ x ++ " = " ++ r)).Alike (tokenize (p ++ "let " ++ x ++ " = " ++ r)) ∧
      (tokenize (p ++ x ++ " " ++ s.text ++ "= " ++ r)).Alike
        (tokenize (p ++ x ++ " = " ++ x ++ " " ++ s.text ++ " " ++ r)) := by
  obtain ⟨program, h⟩ := hp.after
  simp only [tokenize, String.toList_append]
  refine ⟨?_, ?_⟩
  · simpa using h.alike_let hx r.toList
  · simpa using h.alike_operator hx hs r.toList

theorem assignments_spelled_out_after_line :
    WholeLines "a = 1\n" ∧ isName "x" = true ∧ Symbol.doubleSlash.augmentable = true ∧
      (tokenize ("a = 1\n" ++ "x" ++ " = " ++ "(y")).Alike (tokenize ("a = 1\n" ++ "let " ++ "x" ++ " = " ++ "(y")) ∧
      (tokenize ("a = 1\n" ++ "x" ++ " " ++ Symbol.doubleSlash.text ++ "= " ++ "(y")).Alike
        (tokenize ("a = 1\n" ++ "x" ++ " = " ++ "x" ++ " " ++ Symbol.doubleSlash.text ++ " " ++ "(y")) := by
  have hlines : WholeLines "a = 1\n" := .inr (by decide +kernel)
  have hname : isName "x" = true := by decide +kernel
  exact ⟨hlines, hname, rfl, assignments_spelled_out "(y" hlines hname rfl⟩

end ScriptMachine
