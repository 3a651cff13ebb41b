import ScriptMachine.Proofs.Highlighting
import ScriptMachine.Proofs.Legible

/-! Tokens tile the text: each token stands where its characters are, and between tokens there are only blanks,
comments, continued lines, and line breaks that count for nothing. -/

namespace ScriptMachine

open List

variable {rest : List Lexeme}

inductive ClosedBy (quotes : List Char) : List Char → List Char → Prop
  | done : ClosedBy quotes quotes []
  | escape {c rest content} : ClosedBy quotes rest content →
      ClosedBy quotes ('\\' :: c :: rest) (Text.unescapeChar c :: content)
  | char {c rest content} : c ≠ '\\' → ¬quotes <+: c :: rest → ClosedBy quotes rest content →
      ClosedBy quotes (c :: rest) (c :: content)

def Token.WrittenAs (u : List Char) : Token → Prop
  | .ident name => isName name = true ∧ u = name.toList
  | .keyword k => u = k.text.toList
  | .symbol s => u = s.text.toList
  | .int n => u ≠ [] ∧ u.all Char.isDigit = true ∧ n = Number.ofDigits u
  | .float x => ∃ whole fraction, u = whole ++ '.' :: fraction ∧ whole ≠ [] ∧ fraction ≠ [] ∧
      (whole ++ fraction).all Char.isDigit = true ∧
      x = Number.nearestDecimal false (Number.ofDigits (whole ++ fraction)) (-fraction.length)
  | .str content => ∃ q rest, (q = '"' ∨ q = '\'') ∧
      (u = q :: rest ∧ ClosedBy [q] rest content.toList ∨ u = q :: q :: q :: rest ∧
        ClosedBy [q, q, q] rest content.toList)
  | .newline => u = ['\n'] ∨ u = [';']
  | .eof => False

inductive Gap : List Char → List Char → Prop
  | blank {c after} : c ∈ [' ', '\t', '\r', '\x0c'] → Gap [c] after
  | comment {body after} : '\n' ∉ body → (∀ c ∈ after.head?, c = '\n') → Gap ('#' :: body) after
  | continued {after} : Gap ['\\', '\n'] after
  | continuedReturn {after} : Gap ['\\', '\r', '\n'] after

namespace Piece

variable {c : Char} {s : Symbol} {q : Char} {cs content : List Char} {n : Nat}

lemma prepend_eq_some {front : List Char} {count : Nat} {r : Option (List Char × Nat)}
    (h : prepend front count r = some (content, n)) :
    ∃ rest m, r = some (rest, m) ∧ content = front ++ rest ∧ n = count + m := by
  cases r with
  | none => simp [prepend] at h
  | some r =>
    obtain ⟨rest, m⟩ := r
    obtain ⟨rfl, rfl⟩ : front ++ rest = content ∧ count + m = n := by simpa [prepend] using h
    exact ⟨rest, m, rfl, rfl, rfl⟩

lemma closedBy_readQuoted (h : readQuoted q cs = some (content, n)) : ClosedBy [q] (cs.take n) content := by
  fun_induction readQuoted q cs generalizing content n with
  | case1 => simp at h
  | case2 c cs ih =>
    obtain ⟨rest, m, hrest, rfl, rfl⟩ := prepend_eq_some h
    rw [Nat.add_comm, take_succ_cons, take_succ_cons]
    exact .escape (ih hrest)
  | case3 cs hne =>
    obtain ⟨rfl, rfl⟩ : [] = content ∧ 1 = n := by simpa using h
    exact .done
  | case4 c cs hne hc ih =>
    obtain ⟨rest, m, hrest, rfl, rfl⟩ := prepend_eq_some h
    rw [Nat.add_comm, take_succ_cons]
    refine .char ?_ (by simp [Ne.symm hc]) (ih hrest)
    -- a backslash that nothing follows leaves the string open
    rintro rfl
    cases cs with
    | nil => simp [readQuoted] at hrest
    | cons d cs => exact hne d cs rfl rfl

lemma not_three_quotes {rest : List Char} (h : c = q → ¬[q, q] <+: rest) : ¬[q, q, q] <+: c :: rest := by
  intro hpre
  obtain ⟨rfl, hrest⟩ := cons_prefix_cons.1 hpre
  exact h rfl hrest

lemma head_of_prefix_take {m : Nat} (h : [q] <+: cs.take m) : cs.head? = some q := by
  obtain ⟨more, hmore⟩ := h.trans (List.take_prefix m cs)
  rw [← hmore]
  rfl

lemma closedBy_readTripleQuoted (h : readTripleQuoted q cs = some (content, n)) :
    ClosedBy [q, q, q] (cs.take n) content := by
  fun_induction readTripleQuoted q cs generalizing content n with
  | case1 | case6 => simp at h
  | case2 c cs ih =>
    obtain ⟨rest, m, hrest, rfl, rfl⟩ := prepend_eq_some h
    rw [Nat.add_comm, take_succ_cons, take_succ_cons]
    exact .escape (ih hrest)
  | case3 c d cs hne hcd hhead =>
    obtain ⟨rfl, rfl⟩ : [] = content ∧ 3 = n := by simpa using h
    obtain ⟨more, rfl⟩ := head?_eq_some_iff.1 hhead
    obtain ⟨rfl, rfl⟩ := hcd
    exact .done
  | case4 c d cs hne hcd hhead ih =>
    obtain ⟨rest, m, hrest, rfl, rfl⟩ := prepend_eq_some h
    obtain ⟨rfl, rfl⟩ := hcd
    have hthird : ¬[d] <+: cs.take m := fun h => hhead (head_of_prefix_take h)
    rw [Nat.add_comm, take_succ_cons, take_succ_cons]
    refine .char hne (not_three_quotes fun _ h => hthird (cons_prefix_cons.1 h).2) (.char hne ?_ (ih hrest))
    exact not_three_quotes fun _ h => hthird ((prefix_append [d] [d]).trans h)
  | case5 c d cs hne hcd ih =>
    obtain ⟨rest, m, hrest, rfl, rfl⟩ := prepend_eq_some h
    rw [Nat.add_comm, take_succ_cons]
    refine .char hne (not_three_quotes fun hc hd => hcd ⟨hc, ?_⟩) (ih hrest)
    have hfirst : [q] <+: (d :: cs).take m := (prefix_append [q] [q]).trans hd
    simpa using head_of_prefix_take hfirst

def Fits (c : Char) (cs : List Char) : Piece × Nat → Prop
  | (.gap, n) => Gap (c :: cs.take n) (cs.drop n)
  | (.token t, n) => t.WrittenAs (c :: cs.take n)
  | (.fault cause, _) => cause.isMismatch = false ∧ c ∉ [')', ']', '\x7d']

lemma take_length_takeWhile (p : Char → Bool) (cs : List Char) : cs.take (cs.takeWhile p).length = cs.takeWhile p :=
  (prefix_iff_eq_take.1 (List.takeWhile_prefix p)).symm

lemma drop_length_takeWhile (p : Char → Bool) (cs : List Char) : cs.drop (cs.takeWhile p).length = cs.dropWhile p := by
  have hdrop : (cs.takeWhile p ++ cs.dropWhile p).drop (cs.takeWhile p).length = cs.dropWhile p := drop_left
  rwa [takeWhile_append_dropWhile] at hdrop

lemma fits_comment (cs : List Char) : Fits '#' cs (.gap, (cs.takeWhile (· ≠ '\n')).length) := by
  rw [Fits, take_length_takeWhile, drop_length_takeWhile]
  refine .comment (fun h => ?_) (fun c hc => ?_)
  · simpa using mem_takeWhile_imp h
  · have hstop := head?_dropWhile_not (fun c => decide (c ≠ '\n')) cs
    rw [Option.mem_def.1 hc] at hstop
    simpa using hstop

lemma fits_readContinuation (cs : List Char) : Fits '\\' cs (readContinuation cs) := by
  unfold readContinuation
  split
  · exact .continued
  · exact .continuedReturn
  · exact ⟨rfl, by decide⟩

lemma fits_word (hc : isNameStart c = true) (cs : List Char) :
    Fits c cs (.token (ofWord (String.ofList (c :: cs.takeWhile isNameChar))), (cs.takeWhile isNameChar).length) := by
  rw [Fits, take_length_takeWhile]
  unfold ofWord
  split
  · rename_i k hk
    have hmatch : k.text = String.ofList (c :: cs.takeWhile isNameChar) := by simpa using find?_some hk
    simp [Token.WrittenAs, hmatch]
  · rename_i hk
    refine ⟨?_, by simp⟩
    have hall : (cs.takeWhile isNameChar).all isNameChar = true := all_takeWhile
    rw [isName, String.toList_ofList]
    simp only [hc, hall, hk, Option.isNone_none, Bool.and_self]

lemma fits_readNumber (hc : c.isDigit = true) (cs : List Char) : Fits c cs (readNumber c cs) := by
  have hdigits : (cs.takeWhile Char.isDigit).all Char.isDigit = true := all_takeWhile
  unfold readNumber
  dsimp only
  split
  · rw [length_cons, Nat.add_sub_cancel]
    split
    · rw [Fits, take_length_takeWhile]
      exact ⟨by simp, by simp [hc, hdigits], rfl⟩
    · refine ⟨rfl, fun hmem => ?_⟩
      simp only [mem_cons, not_mem_nil, or_false] at hmem
      rcases hmem with rfl | rfl | rfl <;> exact absurd hc (by decide)
  · rename_i hfraction
    obtain ⟨rest, hrest⟩ : ∃ rest, cs.dropWhile Char.isDigit = '.' :: rest := by
      unfold fractionDigits at hfraction
      split at hfraction
      · exact ⟨_, by assumption⟩
      · simp at hfraction
    have hcs : cs = cs.takeWhile Char.isDigit ++ '.' :: rest := by rw [← hrest, takeWhile_append_dropWhile]
    have hpoint : fractionDigits (cs.dropWhile Char.isDigit) = rest.takeWhile Char.isDigit :=
      by rw [hrest, fractionDigits]
    rw [hpoint] at hfraction ⊢
    refine ⟨c :: cs.takeWhile Char.isDigit, rest.takeWhile Char.isDigit, ?_, by simp, by simpa using hfraction, ?_, rfl⟩
    · generalize cs.takeWhile Char.isDigit = whole at hcs
      rw [hcs, length_cons, Nat.add_assoc, take_length_add_append, Nat.add_comm, take_succ_cons,
        take_length_takeWhile, cons_append]
    · have hmore : (rest.takeWhile Char.isDigit).all Char.isDigit = true := all_takeWhile
      simp [hc, hdigits, hmore]

lemma fits_readString (hq : q = '"' ∨ q = '\'') (cs : List Char) : Fits q cs (readString q cs) := by
  have hcloser : q ∉ [')', ']', '\x7d'] := by rcases hq with rfl | rfl <;> decide
  unfold readString
  split
  · rename_i htriple
    obtain ⟨rest, rfl⟩ : ∃ rest, cs = q :: q :: rest := by
      obtain ⟨rest, hrest⟩ := take_prefix 2 cs
      exact ⟨rest, by rw [← hrest, htriple]; rfl⟩
    split
    · rename_i content n hread
      refine ⟨q, rest.take n, hq, .inr ⟨by simp, ?_⟩⟩
      simpa using closedBy_readTripleQuoted hread
    · exact ⟨rfl, hcloser⟩
  · split
    · rename_i content n hread
      refine ⟨q, cs.take n, hq, .inl ⟨rfl, ?_⟩⟩
      simpa using closedBy_readQuoted hread
    · exact ⟨rfl, hcloser⟩

lemma text_of_pairSymbol? {d : Char} (h : pairSymbol? c d = some s) : s.text.toList = [c, d] := by
  unfold pairSymbol? at h
  split at h
  all_goals first | contradiction | (obtain rfl := Option.some.inj h; rfl)

lemma text_of_singleSymbol? (h : singleSymbol? c = some s) : s.text.toList = [c] := by
  unfold singleSymbol? at h
  split at h
  all_goals first | contradiction | (obtain rfl := Option.some.inj h; rfl)

lemma fits_readSymbol (c : Char) (cs : List Char) : Fits c cs (readSymbol c cs) := by
  unfold readSymbol
  split
  · rename_i s hs
    obtain ⟨d, hd, hpair⟩ := Option.bind_eq_some_iff.1 hs
    obtain ⟨rest, rfl⟩ := head?_eq_some_iff.1 hd
    exact (text_of_pairSymbol? hpair).symm
  · split
    · rename_i s hs
      exact (text_of_singleSymbol? hs).symm
    · rename_i hs
      refine ⟨by split <;> rfl, fun hmem => ?_⟩
      simp only [mem_cons, not_mem_nil, or_false] at hmem
      rcases hmem with rfl | rfl | rfl <;> simp [singleSymbol?] at hs

lemma fits_read (c : Char) (cs : List Char) : Fits c cs (read c cs) := by
  unfold read
  split
  · rename_i hc
    simp only [isGap, Bool.or_eq_true, beq_iff_eq] at hc
    exact .blank (by simpa [or_assoc] using hc)
  split
  · rename_i hc
    subst hc
    exact fits_comment cs
  split
  · rename_i hc
    rcases hc with rfl | rfl
    · exact .inl rfl
    · exact .inr rfl
  split
  · rename_i hc
    subst hc
    exact fits_readContinuation cs
  split
  · rename_i hc
    simpa using fits_word hc cs
  split
  · rename_i hc
    exact fits_readNumber hc cs
  split
  · rename_i hc
    exact fits_readString hc cs
  · exact fits_readSymbol c cs

end Piece

def Span.Marks (cs : List Char) (span : Span) (u : List Char) : Prop :=
  ∃ before after, cs = before ++ u ++ after ∧ span = ⟨byteSize before, byteSize (before ++ u)⟩

inductive Tiles (cs : List Char) : List Char → List Char → List Lexeme → Prop
  | start : Tiles cs [] cs []
  | gap {before u after tiles} : Tiles cs before (u ++ after) tiles → Gap u after → Tiles cs (before ++ u) after tiles
  | dropped {before c after tiles} : Tiles cs before (c :: after) tiles → (c = '\n' ∨ c = ';') →
      (openBrackets tiles ≠ [] ∨ tiles.head?.any (·.token.isNewline) = true) → Tiles cs (before ++ [c]) after tiles
  | tile {before u after tiles l} : Tiles cs before (u ++ after) tiles → l.token.WrittenAs u →
      l.span = ⟨byteSize before, byteSize (before ++ u)⟩ → Tiles cs (before ++ u) after (l :: tiles)

inductive Cut : List Char → List Char → List Lexeme → List Char → List Char → Prop
  | done {before after} : Cut before after [] before after
  | gap {before u after lexemes before' after'} : Gap u after → Cut (before ++ u) after lexemes before' after' →
      Cut before (u ++ after) lexemes before' after'
  | token {before u after t lexemes before' after'} : t.WrittenAs u → Cut (before ++ u) after lexemes before' after' →
      Cut before (u ++ after) (⟨t, ⟨byteSize before, byteSize (before ++ u)⟩, false⟩ :: lexemes) before' after'

def Obstructs (before : List Char) (f : LexicalFault) : List Char → Prop
  | [] => False
  | c :: cs => (Piece.read c cs).1 = .fault f.cause ∧
      f.span = ⟨byteSize before, byteSize (before ++ c :: cs.take (Piece.read c cs).2)⟩

lemma scanFrom_cut (before : List Char) {cs : List Char} {offset : Nat} (hb : byteSize before = offset) :
    ∃ before' after', Cut before cs (scanFrom offset cs).1 before' after' ∧
      match (scanFrom offset cs).2 with
      | none => after' = []
      | some f => Obstructs before' f after' := by
  fun_induction scanFrom offset cs generalizing before with
  | case1 => exact ⟨before, [], .done, rfl⟩
  | case2 offset c cs piece count stop hpiece ih =>
    have hfits := Piece.fits_read c cs
    have hread : Piece.read c cs = (.gap, count) := Prod.ext hpiece rfl
    have hnext : byteSize (before ++ c :: cs.take count) = stop := by rw [byteSize_append, hb]
    have htext : c :: cs = (c :: cs.take count) ++ cs.drop count := by simp
    rw [hread] at hfits
    obtain ⟨before', after', hcut, hend⟩ := ih _ hnext
    rw [htext]
    exact ⟨before', after', .gap hfits hcut, hend⟩
  | case3 offset c cs piece count stop t hpiece rest ih =>
    have hfits := Piece.fits_read c cs
    have hread : Piece.read c cs = (.token t, count) := Prod.ext hpiece rfl
    have hnext : byteSize (before ++ c :: cs.take count) = stop := by rw [byteSize_append, hb]
    have htext : c :: cs = (c :: cs.take count) ++ cs.drop count := by simp
    rw [hread] at hfits
    obtain ⟨before', after', hcut, hend⟩ := ih _ hnext
    refine ⟨before', after', ?_, hend⟩
    rw [htext, ← hb, ← hnext]
    exact .token hfits hcut
  | case4 offset c cs piece count stop cause hpiece =>
    refine ⟨before, c :: cs, .done, hpiece, ?_⟩
    rw [byteSize_append, hb]

section tiles

variable {u : List Char} {cs before after before' after' : List Char} {tiles lexemes : List Lexeme} {l : Lexeme}

lemma Cut.finish (hcut : Cut before after [] before' after') (h : Tiles cs before after tiles) :
    Tiles cs before' after' tiles := by
  generalize hnil : ([] : List Lexeme) = lexemes at hcut
  induction hcut with
  | done => exact h
  | gap hgap _ ih => exact ih (h.gap hgap) hnil
  | token => simp at hnil

lemma Cut.next (hcut : Cut before after (l :: lexemes) before' after') (h : Tiles cs before after tiles) :
    ∃ front u rest, Tiles cs front (u ++ rest) tiles ∧ l.token.WrittenAs u ∧
      l.span = ⟨byteSize front, byteSize (front ++ u)⟩ ∧ l.augmented = false ∧
      Cut (front ++ u) rest lexemes before' after' := by
  generalize hcons : l :: lexemes = all at hcut
  induction hcut with
  | done => simp at hcons
  | gap hgap _ ih => exact ih (h.gap hgap) hcons
  | @token before u rest t lexemes' _ _ hwritten hrest =>
    cases hcons
    exact ⟨before, u, rest, h, hwritten, rfl, rfl, hrest⟩

lemma Token.WrittenAs.ne_nil {t : Token} (h : t.WrittenAs u) : u ≠ [] := by
  rintro rfl
  cases t with
  | ident name =>
    obtain ⟨hname, htext⟩ := h
    rw [isName, ← htext] at hname
    contradiction
  | keyword k => cases k <;> simp [Token.WrittenAs, Keyword.text] at h
  | symbol s => cases s <;> simp [Token.WrittenAs, Symbol.text] at h
  | _ => simp [Token.WrittenAs] at h

lemma byteSize_pos (h : u ≠ []) : 0 < byteSize u := by
  cases u with
  | nil => contradiction
  | cons c u => exact Nat.add_pos_left c.utf8Size_pos _

lemma span_lt (hu : u ≠ []) (hspan : l.span = ⟨byteSize before, byteSize (before ++ u)⟩) :
    l.span.start < l.span.stop := by
  have := byteSize_pos hu
  simp only [hspan, byteSize_append]
  omega

lemma Cut.tile (hcut : Cut before after (l :: lexemes) before' after') (h : Tiles cs before after tiles) :
    ∃ front rest, Tiles cs front rest (l :: tiles) ∧ l.augmented = false ∧ l.isImplicit = false ∧
      Cut front rest lexemes before' after' := by
  obtain ⟨front, u, rest, hat, hwritten, hspan, ha, hcut⟩ := hcut.next h
  exact ⟨_, rest, hat.tile hwritten hspan, ha, Lexeme.isImplicit_of_lt (span_lt hwritten.ne_nil hspan), hcut⟩

end tiles

def Lexeme.isJoined (l : Lexeme) : Bool := l.augmented && l.token.augmentable

/-- Lexemes without those that were put in: a `let` takes up no text, and the name in front of a joined operator is a
copy. -/
def written : List Lexeme → List Lexeme
  | [] => []
  | l :: rest => if l.isImplicit || rest.head?.any Lexeme.isJoined then written rest else l :: written rest

lemma written_append {front : List Lexeme} (h : ∀ l ∈ rest.head?, l.isJoined = false) :
    written (front ++ rest) = written front ++ written rest := by
  have hhead : rest.head?.any Lexeme.isJoined = false := by
    cases rest with
    | nil => rfl
    | cons l rest => exact h l rfl
  induction front with
  | nil => rfl
  | cons l front ih =>
    have hnext : (front ++ rest).head?.any Lexeme.isJoined = front.head?.any Lexeme.isJoined := by
      cases front with
      | nil => simpa using hhead
      | cons m front => rfl
    rw [cons_append, written, written, hnext, ih]
    split <;> rfl

lemma written_snoc {l : Lexeme} (program : List Lexeme) (ha : l.augmented = false) (hi : l.isImplicit = false) :
    written (l :: program).reverse = written program.reverse ++ [l] := by
  rw [reverse_cons, written_append (by simp [Lexeme.isJoined, ha])]
  simp [written, hi]

lemma written_withLet (y : Layout) (program : List Lexeme) :
    written (y.withLet program).reverse = written program.reverse := by
  obtain h | ⟨name, span, a, before, rfl, h⟩ := y.withLet_cases program
  · rw [h]
  · have hname : (⟨.ident name, span, a⟩ : Lexeme).isJoined = false := by simp [Lexeme.isJoined, Token.augmentable]
    have hlet : (⟨.keyword .let_, .point span.start, false⟩ : Lexeme).isImplicit = true := by
      simp [Lexeme.isImplicit, Token.isKeyword, Span.point]
    rw [h, reverse_cons, reverse_cons, reverse_cons, written_append (by simp [hname]),
      written_append (by simp [Lexeme.isJoined]), written_append (by simp [hname])]
    simp [written, hlet]

structure Laid (program : List Lexeme) (brackets : List OpenBracket) (tiles : List Lexeme) : Prop where
  perm : (written program.reverse).Perm tiles
  newline : program.head?.any (·.token.isNewline) = tiles.head?.any (·.token.isNewline)
  brackets : Forall₂ OpenBracket.Opened brackets (openBrackets tiles)

namespace Laid

variable {program tiles : List Lexeme} {brackets brackets' : List OpenBracket} {l : Lexeme}
  (h : Laid program brackets tiles)

include h

lemma open_ne_nil (hb : brackets ≠ []) : openBrackets tiles ≠ [] := by
  intro hnil
  have hforall := h.brackets
  rw [hnil, forall₂_nil_right_iff] at hforall
  exact hb hforall

lemma push (ha : l.augmented = false) (hi : l.isImplicit = false)
    (hb : Forall₂ OpenBracket.Opened brackets' (openBrackets (l :: tiles))) :
    Laid (l :: program) brackets' (l :: tiles) where
  perm := by
    rw [written_snoc program ha hi]
    exact (perm_append_singleton l _).trans (h.perm.cons l)
  newline := rfl
  brackets := hb

lemma push_other (ha : l.augmented = false) (hi : l.isImplicit = false)
    (ho : l.token.closer? = none ∧ l.token.isCloser = false) : Laid (l :: program) brackets (l :: tiles) :=
  h.push ha hi (by rw [openBrackets_other _ ho]; exact h.brackets)

lemma withLet (y : Layout) : Laid (y.withLet program) brackets tiles where
  perm := by
    rw [written_withLet]
    exact h.perm
  newline := by
    rw [← h.newline]
    obtain hsame | ⟨name, span, a, before, rfl, hput⟩ := y.withLet_cases program
    · rw [hsame]
    · rw [hput]
      rfl
  brackets := h.brackets

lemma join {s : Symbol} {e : Lexeme} {name : String} {span opSpan : Span}
    (hs : s.augmentable = true) (he : e.token = .symbol .assign) (ha : e.augmented = false) (y : Layout) :
    Laid (⟨.symbol s, opSpan, true⟩ :: ⟨.ident name, span, false⟩ :: e :: y.withLet program) brackets
      (e :: ⟨.symbol s, opSpan, true⟩ :: tiles) where
  perm := by
    have hassign : e.isImplicit = false := by simp [Lexeme.isImplicit, he, Token.isKeyword]
    have hop : (⟨.symbol s, opSpan, true⟩ : Lexeme).isImplicit = false := by simp [Lexeme.isImplicit, Token.isKeyword]
    have hlast : written [e, ⟨.ident name, span, false⟩, ⟨.symbol s, opSpan, true⟩] =
        [e, ⟨.symbol s, opSpan, true⟩] := by
      simp [written, hassign, hop, Lexeme.isJoined, Token.augmentable, hs]
    have hreverse (rest : List Lexeme) :
      (⟨.symbol s, opSpan, true⟩ :: ⟨.ident name, span, false⟩ :: e :: rest).reverse =
        rest.reverse ++ [e, ⟨.ident name, span, false⟩, ⟨.symbol s, opSpan, true⟩] := by simp
    rw [hreverse, written_append (by simp [Lexeme.isJoined, ha]), hlast, written_withLet]
    exact perm_append_comm.trans (h.perm.append_left [e, ⟨.symbol s, opSpan, true⟩])
  newline := by simp [he, Token.isNewline]
  brackets := by
    have hop : (Token.symbol s).closer? = none ∧ (Token.symbol s).isCloser = false :=
      Token.bracket_of_isPlain (Token.isPlain_of_augmentable hs)
    rw [openBrackets_other _ (by rw [he]; exact ⟨rfl, rfl⟩), openBrackets_other _ hop]
    exact h.brackets

end Laid

lemma Layout.Arranges.tiles {y : Layout} {program : List Lexeme} {brackets : List OpenBracket}
    {r : Arranged} (h : Arranges y program brackets rest r)
    {cs before after before' after' : List Char} {tiles : List Lexeme} (hlaid : Laid program brackets tiles)
    (htiles : Tiles cs before after tiles) (hcut : Cut before after rest before' after') :
    ∃ tiles' front back, Tiles cs front back tiles' ∧ (written r.1.reverse).Perm tiles' ∧
      match r.2 with
      | .ok _ => front = before' ∧ back = after'
      | .error f => f.span.start = byteSize front ∧ f.cause.isUnclosed = false := by
  -- Each turn moves the cut past the tokens that it takes; what is kept so far is a rearrangement of the tiles so far.
  induction h generalizing before after tiles with
  | done => exact ⟨tiles, before', after', hcut.finish htiles, hlaid.perm, rfl, rfl⟩
  | keepBreak hl hp _ ih =>
    obtain ⟨front, more, hat, ha, hi, hcut⟩ := hcut.tile htiles
    exact ih (hlaid.push_other ha hi (by rw [hl]; exact ⟨rfl, rfl⟩)) hat hcut
  | dropBreak hl hb _ ih =>
    obtain ⟨front, u, more, hat, hwritten, hspan, ha, hcut⟩ := hcut.next htiles
    rw [hl] at hwritten
    obtain ⟨c, rfl, hc⟩ : ∃ c, u = [c] ∧ (c = '\n' ∨ c = ';') := by
      rcases hwritten with rfl | rfl
      · exact ⟨_, rfl, .inl rfl⟩
      · exact ⟨_, rfl, .inr rfl⟩
    refine ih hlaid (hat.dropped hc ?_) hcut
    rw [← hlaid.newline]
    exact hb.imp_left hlaid.open_ne_nil
  | assign hl _ ih =>
    obtain ⟨front, more, hat, ha, hi, hcut⟩ := hcut.tile htiles
    exact ih ((hlaid.withLet y).push_other ha hi (by rw [hl]; exact ⟨rfl, rfl⟩)) hat hcut
  | open_ hl hc _ ih =>
    obtain ⟨front, more, hat, ha, hi, hcut⟩ := hcut.tile htiles
    rw [← Token.closer?_symbol, ← hl] at hc
    refine ih (hlaid.push ha hi ?_) hat hcut
    rw [openBrackets_open _ hc]
    exact .cons ⟨hc, rfl⟩ hlaid.brackets
  | close hl hs hb _ ih =>
    obtain ⟨front, more, hat, ha, hi, hcut⟩ := hcut.tile htiles
    rw [← Token.isCloser_symbol, ← hl] at hs
    refine ih (hlaid.push ha hi ?_) hat hcut
    obtain ⟨b', opened, -, hrest, hopen⟩ := forall₂_cons_left_iff.1 hlaid.brackets
    rw [openBrackets_close _ hs, hopen]
    exact hrest
  | unmatched | mismatched =>
    obtain ⟨front, u, more, hat, -, hspan, -, -⟩ := hcut.next htiles
    exact ⟨tiles, front, u ++ more, hat, hlaid.perm, by rw [hspan], rfl⟩
  | @join _ _ l s _ _ _ _ _ hl haug he hj hname _ ih =>
    obtain ⟨front, u, more, hat, hwritten, hspan, -, hcut⟩ := hcut.next htiles
    obtain ⟨front', more', hat', ha', -, hcut⟩ :=
      hcut.tile (hat.tile (l := ⟨.symbol s, l.span, true⟩) (hl ▸ hwritten) hspan)
    exact ih (hlaid.join haug he ha' y) hat' hcut
  | keep hl _ _ ih =>
    obtain ⟨front, more, hat, ha, hi, hcut⟩ := hcut.tile htiles
    exact ih (hlaid.push_other ha hi (Token.bracket_of_isPlain hl)) hat hcut

namespace Tiles

variable {cs before after : List Char} {tiles : List Lexeme} (h : Tiles cs before after tiles)

include h

lemma text_eq : cs = before ++ after := by
  induction h with
  | start => rfl
  | gap _ _ ih | tile _ _ _ ih => rw [ih, append_assoc]
  | dropped _ _ _ ih => rw [ih, append_assoc, singleton_append]

lemma marks : ∀ l ∈ tiles, l.span.start < l.span.stop ∧ ∃ u, l.span.Marks cs u ∧ l.token.WrittenAs u := by
  induction h with
  | start => simp
  | gap _ _ ih | dropped _ _ _ ih => exact ih
  | @tile before u after tiles l hrest hwritten hspan ih =>
    refine forall_mem_cons.2 ⟨⟨span_lt hwritten.ne_nil hspan, u, ⟨before, after, ?_, hspan⟩, hwritten⟩, ih⟩
    rw [hrest.text_eq, append_assoc]

lemma stop_le : ∀ l ∈ tiles, l.span.stop ≤ byteSize before := by
  induction h with
  | start => simp
  | gap _ _ ih | dropped _ _ _ ih =>
    intro l hl
    rw [byteSize_append]
    exact Nat.le_add_right_of_le (ih l hl)
  | tile _ _ hspan ih =>
    refine forall_mem_cons.2 ⟨by rw [hspan], fun l hl => ?_⟩
    rw [byteSize_append]
    exact Nat.le_add_right_of_le (ih l hl)

lemma pairwise : tiles.reverse.Pairwise (·.span.stop ≤ ·.span.start) := by
  rw [pairwise_reverse]
  induction h with
  | start => exact .nil
  | gap _ _ ih | dropped _ _ _ ih => exact ih
  | tile hrest _ hspan ih =>
    refine .cons (fun l hl => ?_) ih
    rw [hspan]
    exact hrest.stop_le l hl

end Tiles

/-- How far a text is cut into tokens: up to its end, or up to what is at fault. -/
def reach (cs : List Char) : Option LexicalFault → Nat
  | none => byteSize cs
  | some f => if f.cause.isUnclosed then byteSize cs else f.span.start

lemma LexicalCause.isUnclosed_of_isMismatch {cause : LexicalCause} (h : cause.isMismatch = false) :
    cause.isUnclosed = false := by
  cases cause <;> first | rfl | simp [isMismatch] at h

lemma Obstructs.start {before after : List Char} {f : LexicalFault} (h : Obstructs before f after) :
    f.span.start = byteSize before ∧ f.cause.isMismatch = false := by
  cases after with
  | nil => exact h.elim
  | cons c cs =>
    have hfits := Piece.fits_read c cs
    have hread : Piece.read c cs = (.fault f.cause, (Piece.read c cs).2) := Prod.ext h.1 rfl
    rw [hread] at hfits
    exact ⟨by rw [h.2], hfits.1⟩

/-- The tokens that stand in the text, in the order of the text, tile it. -/
theorem tokens_tile_text (letInsertion : Bool) (text : String) :
    ∃ lexemes tiles before after,
      (tokenizeChars letInsertion text.toList).lexemes =
        lexemes ++ [⟨.eof, .point (stopAt text.toList (tokenizeChars letInsertion text.toList).fault), false⟩] ∧
      (written lexemes).Perm tiles ∧ tiles.Pairwise (·.span.stop ≤ ·.span.start) ∧
      (∀ l ∈ tiles, l.span.start < l.span.stop ∧ ∃ u, l.span.Marks text.toList u ∧ l.token.WrittenAs u) ∧
      Tiles text.toList before after tiles.reverse ∧
      byteSize before = reach text.toList (tokenizeChars letInsertion text.toList).fault := by
  obtain ⟨fault, hends, heq⟩ := tokenizeChars_eq letInsertion text.toList
  obtain ⟨before', after', hcut, hscanned⟩ := @scanFrom_cut [] text.toList 0 rfl
  have hlaid : Laid [] [] [] := ⟨.nil, rfl, .nil⟩
  obtain ⟨tiles, front, back, htiles, hperm, hend⟩ := (Layout.arranges _ [] [] _).tiles hlaid .start hcut
  rw [heq]
  refine ⟨_, tiles.reverse, front, back, rfl, hperm.trans tiles.reverse_perm.symm, htiles.pairwise, ?_,
    by rwa [reverse_reverse], ?_⟩
  · intro l hl
    exact htiles.marks l (mem_reverse.1 hl)
  · have htext := htiles.text_eq
    generalize (Layout.arrange _ [] [] (scanFrom 0 text.toList).1).2 = outcome at hends hend
    generalize (scanFrom 0 text.toList).2 = scanned at hends hscanned
    cases hends with
    | layout => simp [reach, hend.1, hend.2]
    | scanner =>
      obtain ⟨rfl, rfl⟩ := hend
      obtain ⟨hstart, hcause⟩ := hscanned.start
      simp [reach, hstart, LexicalCause.isUnclosed_of_isMismatch hcause]
    | unclosed | none =>
      obtain ⟨rfl, rfl⟩ := hend
      obtain rfl : back = [] := hscanned
      simp [reach, LexicalCause.isUnclosed, htext]

end ScriptMachine
