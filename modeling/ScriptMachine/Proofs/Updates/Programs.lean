import ScriptMachine.Proofs.SpanNesting

/-! What becomes of the augmented assignments of a program. -/

namespace ScriptMachine

open List

structure Lexeme.Succeeds (l : Lexeme) (before : List Lexeme) : Prop where
  augmented : l.augmented = true → ∃ name place equals earlier op,
    before = ⟨.ident name, place, false⟩ :: equals :: ⟨.ident name, place, false⟩ :: earlier ∧
      equals.token = .symbol .assign ∧ l.token = BinaryOp.token op ∧ op.token.augmentable = true
  implicit : l.isImplicit = true → ∀ b ∈ before.head?, b.token.endsStatement = true
  eof : l.token ≠ .eof

def Orderly (program : List Lexeme) : Prop := ∀ l before, l :: before <:+ program → l.Succeeds before

section layout

variable {program rest : List Lexeme} {l : Lexeme} {y : Layout} {brackets : List OpenBracket}
  {r : Arranged}

lemma orderly_nil : Orderly [] := fun _ _ h => absurd (suffix_nil.1 h) (cons_ne_nil _ _)

lemma Orderly.cons (h : Orderly program) (hl : l.Succeeds program) : Orderly (l :: program) := by
  intro l' before hs
  rcases suffix_cons_iff.1 hs with heq | hs
  · cases heq
    exact hl
  · exact h l' before hs

lemma Orderly.tail (h : Orderly (l :: program)) : Orderly program := fun l' before hs =>
  h l' before (hs.trans (suffix_cons _ _))

structure Lexeme.IsScanned (l : Lexeme) : Prop where
  augmented : l.augmented = false
  implicit : l.isImplicit = false
  eof : l.token ≠ .eof

lemma Lexeme.IsScanned.succeeds (h : l.IsScanned) (before : List Lexeme) : l.Succeeds before where
  augmented ha := absurd (h.augmented.symm.trans ha) (by simp)
  implicit hi := absurd (h.implicit.symm.trans hi) (by simp)
  eof := h.eof

lemma scanFrom_isScanned (offset : Nat) (cs : List Char) : ∀ l ∈ (scanFrom offset cs).1, l.IsScanned := by
  have heof : ∀ l ∈ (scanFrom offset cs).1, l.token ≠ .eof := by
    fun_induction scanFrom offset cs with
    | case1 | case4 => simp
    | case2 offset c cs piece count stop hpiece ih => exact ih
    | case3 offset c cs piece count stop t hpiece rest ih =>
      refine forall_mem_cons.2 ⟨?_, ih⟩
      rintro rfl
      have hfits := Piece.fits_read c cs
      rw [show Piece.read c cs = (.token .eof, count) from Prod.ext hpiece rfl] at hfits
      exact hfits
  intro l hl
  exact ⟨scanFrom_augmented offset cs l hl, Lexeme.isImplicit_of_lt (scanFrom_nonempty offset cs l hl), heof l hl⟩

lemma Orderly.name {name : String} {span : Span} {a : Bool} (h : Orderly (⟨.ident name, span, a⟩ :: program)) :
    a = false := by
  refine Bool.eq_false_iff.2 fun ha => ?_
  obtain ⟨_, _, _, _, op, -, -, hop, -⟩ := (h _ _ suffix_rfl).augmented ha
  cases op <;> contradiction

lemma Orderly.insertLet (h : Orderly program) : Orderly (insertLet program) := by
  have hput {name : String} {span : Span} {a : Bool} {before : List Lexeme}
      (h : Orderly (⟨.ident name, span, a⟩ :: before)) (hb : ∀ b ∈ before.head?, b.token.endsStatement = true) :
      Orderly (⟨.ident name, span, a⟩ :: ⟨.keyword .let_, .point span.start, false⟩ :: before) := by
    obtain rfl := h.name
    have hname : Lexeme.IsScanned ⟨.ident name, span, false⟩ := ⟨rfl, rfl, by simp⟩
    exact (h.tail.cons ⟨fun ha => absurd ha Bool.false_ne_true, fun _ => hb, by simp⟩).cons (hname.succeeds _)
  unfold ScriptMachine.insertLet
  split
  · split
    · exact hput h fun _ hb => nomatch hb
    · split
      · rename_i hends
        exact hput h fun b hb => Option.some.inj hb ▸ hends
      · exact h
  · exact h

lemma Orderly.withLet (h : Orderly program) : Orderly (y.withLet program) := by
  unfold Layout.withLet
  split
  · exact h.insertLet
  · exact h

lemma exists_op_of_augmentable {s : Symbol} (h : s.augmentable = true) : ∃ op : BinaryOp, op.token = .symbol s := by
  cases s with
  | plus => exact ⟨.add, rfl⟩
  | minus => exact ⟨.sub, rfl⟩
  | star => exact ⟨.mul, rfl⟩
  | slash => exact ⟨.div, rfl⟩
  | doubleSlash => exact ⟨.floorDiv, rfl⟩
  | percent => exact ⟨.mod, rfl⟩
  | caret => exact ⟨.pow, rfl⟩
  | _ => contradiction

lemma Layout.Arranges.orderly (h : y.Arranges program brackets rest r) (hp : Orderly program)
    (hr : ∀ l ∈ rest, l.IsScanned) : Orderly r.1 := by
  induction h with
  | done | unmatched | mismatched => exact hp
  | keepBreak _ _ _ ih | open_ _ _ _ ih | close _ _ _ _ ih | keep _ _ _ ih =>
    obtain ⟨hl, hr⟩ := forall_mem_cons.1 hr
    exact ih (hp.cons (hl.succeeds _)) hr
  | dropBreak _ _ _ ih => exact ih hp (forall_mem_cons.1 hr).2
  | assign _ _ ih =>
    obtain ⟨hl, hr⟩ := forall_mem_cons.1 hr
    exact ih (hp.withLet.cons (hl.succeeds _)) hr
  | @join program brackets l s e name span rest r hl hs he _ hname _ ih =>
    obtain ⟨-, hr⟩ := forall_mem_cons.1 hr
    obtain ⟨hequals, hr⟩ := forall_mem_cons.1 hr
    have hlet := hp.withLet (y := y)
    obtain ⟨a, before, hbefore⟩ := head_withLet y hname
    rw [hbefore] at hlet ih
    obtain rfl := hlet.name
    obtain ⟨op, hop⟩ := exists_op_of_augmentable hs
    have hcopy : Lexeme.IsScanned ⟨.ident name, span, false⟩ := ⟨rfl, rfl, by simp⟩
    refine ih (((hlet.cons (hequals.succeeds _)).cons (hcopy.succeeds _)).cons ⟨fun _ => ?_, fun hi => ?_, by simp⟩) hr
    · exact ⟨name, span, e, before, op, rfl, he, hop.symm, hop ▸ hs⟩
    · exact absurd hi Bool.false_ne_true

lemma tokenize_orderly (text : String) : ∃ program place, Orderly program ∧
    (tokenize text).lexemes = program.reverse ++ [⟨.eof, place, false⟩] := by
  obtain ⟨fault, -, heq⟩ := tokenizeChars_eq true text.toList
  have horderly := ((Layout.ofText true text.toList).arranges [] [] (scanFrom 0 text.toList).1).orderly orderly_nil
    (scanFrom_isScanned 0 text.toList)
  exact ⟨_, _, horderly, congrArg Tokenized.lexemes heq⟩

lemma succeeds_or_end {text : String} {front : List Lexeme} (h : (tokenize text).lexemes = front ++ l :: rest) :
    l.Succeeds front.reverse ∨ (∃ place, l = ⟨.eof, place, false⟩) ∧ rest = [] := by
  obtain ⟨program, place, horderly, hlexemes⟩ := tokenize_orderly text
  rw [hlexemes] at h
  obtain rfl | ⟨rest, x, rfl⟩ := eq_nil_or_concat' rest
  · exact .inr ⟨⟨place, (List.cons.inj (append_inj_right' h rfl)).1.symm⟩, rfl⟩
  · rw [← cons_append, ← append_assoc] at h
    have hprogram : program = rest.reverse ++ l :: front.reverse := by
      rw [← reverse_reverse program, append_inj_left' h rfl]
      simp
    exact .inl (horderly l front.reverse ⟨rest.reverse, hprogram.symm⟩)

end layout

section programs

variable {text : String} {m : Module}

lemma closed_tokenize (text : String) : closed (tokenize text).lexemes = (tokenize text).lexemes := by
  obtain ⟨program, place, -, hlexemes⟩ := tokenize_orderly text
  rw [hlexemes]
  exact closed_concat rfl

def Start.ofText (text : String) : Start where
  cursor := .ofLexemes (tokenize text).lexemes
  closed := closed_ofLexemes _
  tracked := true
  implicit := by
    intro _ front l rest hall himplicit b hb
    have hbehind : (Cursor.ofLexemes (tokenize text).lexemes).behind = none := by
      unfold Cursor.ofLexemes
      dsimp only
      split <;> rfl
    rw [lexemes_ofLexemes, closed_tokenize] at hall
    rcases succeeds_or_end hall with hl | ⟨⟨place, rfl⟩, -⟩
    · exact hl.implicit himplicit b (by rwa [hbehind, Option.or_none, ← head?_reverse] at hb)
    · exact absurd himplicit Bool.false_ne_true

lemma Start.lexemes_ofText (text : String) : (Start.ofText text).cursor.lexemes = (tokenize text).lexemes :=
  (lexemes_ofLexemes _).trans (closed_tokenize text)

lemma exists_update {front rest : List Lexeme} {op : Lexeme} (h : (tokenize text).lexemes = front ++ op :: rest)
    (ha : op.augmented = true) : ∃ u : Update (tokenize text).lexemes, u.rest = rest := by
  rcases succeeds_or_end h with hop | ⟨⟨place, rfl⟩, -⟩
  · obtain ⟨name, place, equals, earlier, o, hbefore, hequals, htoken, haug⟩ := hop.augmented ha
    obtain ⟨token, span, augmented⟩ := op
    obtain rfl : token = o.token := htoken
    obtain rfl : augmented = true := ha
    refine ⟨⟨earlier.reverse, name, place, equals, o, span, rest, ?_, hequals, haug⟩, rfl⟩
    rw [h, ← reverse_reverse front, hbefore]
    simp
  · exact absurd ha Bool.false_ne_true

lemma Update.key_bounds {all : List Lexeme} (u : Update all) : 0 < u.key ∧ u.key < all.length := by
  have hlength := congrArg List.length u.lexemes
  rw [length_append] at hlength
  simp only [length_cons] at hlength
  unfold key left
  split
  · rename_i hstarts
    have hbefore : 0 < u.before.length := by
      refine length_pos_of_ne_nil fun hnil => ?_
      rw [startsStatement, hnil] at hstarts
      contradiction
    omega
  · omega

lemma accounts_of_parseModule (h : parseModule text = .ok m) :
    ∃ between last, (tokenize text).lexemes = between ++ [last] ∧
    (between ++ [last]).IsChain Lexeme.MayPrecede ∧
    ∀ u : Update (tokenize text).lexemes, ∃ n ∈ m.statements, n.Has u := by
  obtain ⟨lexemes, htokens, hparsed⟩ := parseModule_ok h
  obtain rfl : (tokenize text).lexemes = lexemes := by rw [htokens]
  obtain ⟨list, stop, hread, rfl, -, heof⟩ := parseLexemes_ok hparsed
  have htravels := (((Productions.parallel_tower _ _).statements (Start.ofText text).reaches_cursor
    (Nat.lt_add_of_pos_right Nat.two_pos)).ok hread).travels.newlines
  have hreached := htravels.reaches
  obtain ⟨between, hcrosses⟩ := htravels
  have hall := hcrosses.passes.lexemes
  rw [Start.lexemes_ofText] at hall
  -- the program is read up to its end mark
  obtain ⟨-, hend⟩ := (succeeds_or_end hall).resolve_left fun hs => hs.eof heof
  have hleft : stop.skipNewlines.1.left = 0 := congrArg List.length hend
  refine ⟨between, stop.skipNewlines.1.current, ?_, ?_, ?_⟩
  · rw [hall, Cursor.lexemes, hend]
  · refine isChain_append.2 ⟨hcrosses.apart, .singleton _, fun l hl l' hl' => ?_⟩
    exact Option.some.inj hl' ▸ (hcrosses.last rfl l hl).1
  · have hupdates : ∀ u : Update (Start.ofText text).cursor.lexemes, ∃ n ∈ list.statements, n.Has u := by
      intro u
      obtain ⟨hpos, hlt⟩ := u.key_bounds
      rw [Cursor.length_lexemes] at hlt
      obtain ⟨k, hk, hhas⟩ := (hcrosses.updates rfl u (by omega) (by omega)).resolve_left not_mem_nil
      obtain ⟨n, hn, rfl⟩ := mem_map.1 hk
      exact ⟨n, hn, hhas⟩
    rwa [Start.lexemes_ofText] at hupdates

/-- Each augmented assignment of a program is in its trees. If its name starts a statement, it is an assignment to the
name of what the operator makes of the name; otherwise the equals sign may belong to something that the name ends. An
operator that stands in front of an equals sign after anything but a name is refused. -/
theorem augmented_assignments_accounted (h : parseModule text = .ok m) :
    (∀ front op rest, (tokenize text).lexemes = front ++ op :: rest → op.augmented = true →
      ∃ u : Update (tokenize text).lexemes, u.rest = rest ∧ ∃ n ∈ m.statements, n.Has u ∧
        (u.startsStatement = true → ∃ right inner span, u.Takes Productions.expr right ∧
          .assign u.name (.binary u.op (.ident u.name u.place) right inner) span ∈ n.subtrees)) ∧
    (tokenize text).lexemes.IsChain Lexeme.MayPrecede := by
  obtain ⟨between, last, hlexemes, hchain, hupdates⟩ := accounts_of_parseModule h
  refine ⟨fun front op rest hop ha => ?_, hlexemes ▸ hchain⟩
  obtain ⟨u, hu⟩ := exists_update hop ha
  obtain ⟨n, hn, k, hk, hperforms⟩ := hupdates u
  refine ⟨u, hu, n, hn, ⟨k, hk, hperforms⟩, fun hstarts => ?_⟩
  cases hperforms with
  | assign htakes => exact ⟨_, _, _, htakes, hk⟩
  | element hinside | names hinside | range hinside | argument hinside | default hinside =>
    exact absurd (hinside.inside.symm.trans hstarts) Bool.false_ne_true

def twoUpdates : String := "x += 1\nf(y -= x)"

theorem augmented_assignments_accounted_twice : ∃ m, parseModule twoUpdates = .ok m ∧
    (tokenize twoUpdates).lexemes.countP (·.augmented) = 2 ∧
    ∀ front op rest, (tokenize twoUpdates).lexemes = front ++ op :: rest → op.augmented = true →
      ∃ u : Update (tokenize twoUpdates).lexemes, u.rest = rest ∧ ∃ n ∈ m.statements, n.Has u := by
  have hok : (parseModule twoUpdates).isOk = true := by decide +kernel
  cases hm : parseModule twoUpdates with
  | error fault =>
    rw [hm] at hok
    contradiction
  | ok m =>
    refine ⟨m, rfl, by decide +kernel, fun front op rest hop ha => ?_⟩
    obtain ⟨u, hu, n, hn, hhas, -⟩ := (augmented_assignments_accounted hm).1 front op rest hop ha
    exact ⟨u, hu, n, hn, hhas⟩

def isIndexMoved : Except ProgramFault Module → Bool
  | .ok ⟨[.indexAssign (.ident a _) (.ident i _) (.binary .add (.ident i' _) (.int 5 _) _) _], _⟩ =>
    a == "a" && i == "i" && i' == "i"
  | _ => false

/-- An element that is to be increased gets its index, increased, in its place. -/
theorem element_update_takes_index : ∃ m p q r s t v, parseModule "a $ i += 5" = .ok m ∧
    m.statements = [.indexAssign (.ident "a" p) (.ident "i" q) (.binary .add (.ident "i" r) (.int 5 s) t) v] := by
  have hread : isIndexMoved (parseModule "a $ i += 5") = true := by decide +kernel
  unfold isIndexMoved at hread
  split at hread
  · rename_i a p i q i' r s t v span hm
    simp only [Bool.and_eq_true, beq_iff_eq] at hread
    obtain ⟨⟨rfl, rfl⟩, rfl⟩ := hread
    exact ⟨_, p, q, r, s, t, v, hm, rfl⟩
  · contradiction

end programs

end ScriptMachine
