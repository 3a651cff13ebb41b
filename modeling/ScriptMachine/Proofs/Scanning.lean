import ScriptMachine.Proofs.Decimals
import ScriptMachine.Proofs.Legible

/-! Scanning the text of a tree gives its spelling. -/

namespace ScriptMachine

open List Piece

attribute [local simp] Function.comp_def

variable {c : Char} {rest : List Char} {t : Token} {ts : List Token} {w : String} {statements : List Node}

def scanTokens (cs : List Char) : Option (List Token) :=
  match scanFrom 0 cs with
  | (lexemes, none) => some (lexemes.map Lexeme.token)
  | (_, some _) => none

lemma scanFrom_shift (cs : List Char) (o p : Nat) :
    (scanFrom o cs).1.map Lexeme.token = (scanFrom p cs).1.map Lexeme.token ∧
      (scanFrom o cs).2.isSome = (scanFrom p cs).2.isSome := by
  induction h : cs.length using Nat.strong_induction_on generalizing cs o p with
  | _ n ih =>
    cases cs with
    | nil => simp [scanFrom]
    | cons c cs =>
      have hlt : (cs.drop (Piece.read c cs).2).length < n := by
        simp only [length_drop, length_cons] at h ⊢
        omega
      rw [scanFrom, scanFrom]
      cases hp : (Piece.read c cs).1 with
      | gap => exact ih _ hlt _ _ _ rfl
      | token t =>
        have hi := ih _ hlt (cs.drop (Piece.read c cs).2) (o + byteSize (c :: cs.take (Piece.read c cs).2))
          (p + byteSize (c :: cs.take (Piece.read c cs).2)) rfl
        exact ⟨by simp [hi.1], hi.2⟩
      | fault cause => simp

lemma scanTokens_eq (cs : List Char) (o : Nat) :
    scanTokens cs = if (scanFrom o cs).2.isSome then none else some ((scanFrom o cs).1.map Lexeme.token) := by
  obtain ⟨h1, h2⟩ := scanFrom_shift cs 0 o
  rw [scanTokens, ← h1, ← h2]
  rcases scanFrom 0 cs with ⟨lexemes, _ | fault⟩ <;> rfl

lemma scanTokens_gap {cs : List Char} {n : Nat} (h : Piece.read c cs = (.gap, n)) :
    scanTokens (c :: cs) = scanTokens (cs.drop n) := by
  rw [scanTokens_eq (cs.drop n) (0 + byteSize (c :: cs.take n)), scanTokens_eq (c :: cs) 0, scanFrom]
  simp only [h]

lemma scanTokens_token {cs : List Char} {n : Nat} (h : Piece.read c cs = (.token t, n)) :
    scanTokens (c :: cs) = (scanTokens (cs.drop n)).map (t :: ·) := by
  rw [scanTokens_eq (cs.drop n) (0 + byteSize (c :: cs.take n)), scanTokens_eq (c :: cs) 0, scanFrom]
  simp only [h]
  split <;> simp

def stops : List Char → Bool
  | [] => true
  | '.' :: cs => !cs.head?.any Char.isDigit
  | c :: _ => !isNameChar c && c != '"'

abbrev Scans (cs : List Char) (ts : List Token) : Prop :=
  ∀ rest, stops rest = true → scanTokens (cs ++ rest) = (scanTokens rest).map (ts ++ ·)

section characters

variable (cs : List Char)

@[simp] lemma scanTokens_space : scanTokens (' ' :: cs) = scanTokens cs := scanTokens_gap (n := 0) rfl

@[simp] lemma scanTokens_newline : scanTokens ('\n' :: cs) = (scanTokens cs).map (.newline :: ·) :=
  scanTokens_token (n := 0) rfl

@[simp] lemma scanTokens_lone :
    let after (s : Symbol) := (scanTokens cs).map (.symbol s :: ·)
    scanTokens ('(' :: cs) = after .leftParen ∧
    scanTokens (')' :: cs) = after .rightParen ∧
    scanTokens ('[' :: cs) = after .leftSquare ∧
    scanTokens (']' :: cs) = after .rightSquare ∧
    scanTokens ('\x7b' :: cs) = after .leftBrace ∧
    scanTokens ('\x7d' :: cs) = after .rightBrace ∧
    scanTokens (',' :: cs) = after .comma ∧
    scanTokens (':' :: cs) = after .colon ∧
    scanTokens ('$' :: cs) = after .dollar ∧
    scanTokens ('.' :: cs) = after .dot ∧
    scanTokens ('@' :: cs) = after .at_ ∧
    scanTokens ('+' :: cs) = after .plus := by
  refine ⟨?_, ?_, ?_, ?_, ?_, ?_, ?_, ?_, ?_, ?_, ?_, ?_⟩
  all_goals
    refine scanTokens_token (n := 0) ?_
    cases cs <;> rfl

@[simp] lemma scanTokens_pairs :
    scanTokens ('=' :: ' ' :: cs) = (scanTokens (' ' :: cs)).map (.symbol .assign :: ·) ∧
    scanTokens ('-' :: '>' :: cs) = (scanTokens cs).map (.symbol .arrow :: ·) ∧
    scanTokens ('*' :: '*' :: cs) = (scanTokens cs).map (.symbol .doubleStar :: ·) :=
  ⟨scanTokens_token (n := 0) rfl, scanTokens_token (n := 1) rfl, scanTokens_token (n := 1) rfl⟩

@[simp] lemma stops_char :
    stops (' ' :: cs) = true ∧ stops ('\n' :: cs) = true ∧ stops ('(' :: cs) = true ∧ stops (')' :: cs) = true ∧
    stops (']' :: cs) = true ∧ stops ('\x7d' :: cs) = true ∧ stops (',' :: cs) = true ∧ stops (':' :: cs) = true :=
  ⟨rfl, rfl, rfl, rfl, rfl, rfl, rfl, rfl⟩

end characters

lemma isNameStart_not_gap (h : isNameStart c = true) :
    isGap c = false ∧ c ≠ '#' ∧ ¬(c = '\n' ∨ c = ';') ∧ c ≠ '\\' := by
  refine ⟨?_, ?_, ?_, ?_⟩
  · by_contra hg
    simp only [isGap, Bool.not_eq_false, Bool.or_eq_true, beq_iff_eq] at hg
    rcases hg with ((rfl | rfl) | rfl) | rfl <;> exact absurd h (by decide)
  · rintro rfl
    exact absurd h (by decide)
  · rintro (rfl | rfl) <;> exact absurd h (by decide)
  · rintro rfl
    exact absurd h (by decide)

lemma read_word {cs : List Char} (hw : w.toList = c :: cs) (hc : isNameStart c = true)
    (hcs : cs.all isNameChar = true) (hr : ∀ d ∈ rest.head?, isNameChar d = false) :
    Piece.read c (cs ++ rest) = (.token (ofWord w), cs.length) := by
  obtain ⟨h1, h2, h3, h4⟩ := isNameStart_not_gap hc
  have ht : (cs ++ rest).takeWhile isNameChar = cs := by
    rw [takeWhile_append_of_pos (by simpa using hcs)]
    cases rest with
    | nil => simp
    | cons d rest => simp [hr d (by simp)]
  have hl : String.ofList (c :: cs) = w := by rw [← hw, String.ofList_toList]
  rw [Piece.read, if_neg (by simp [h1]), if_neg h2, if_neg h3, if_neg h4, if_pos hc, ht]
  simp only [hl, length_cons, Nat.add_sub_cancel]

lemma scanTokens_word {cs : List Char} (hw : w.toList = c :: cs) (hc : isNameStart c = true)
    (hcs : cs.all isNameChar = true) (hr : ∀ d ∈ rest.head?, isNameChar d = false) :
    scanTokens (w.toList ++ rest) = (scanTokens rest).map (ofWord w :: ·) := by
  rw [hw, cons_append, scanTokens_token (read_word hw hc hcs hr), drop_left]

lemma head_of_stops (h : stops rest = true) : ∀ d ∈ rest.head?, isNameChar d = false := by
  intro d hd
  cases rest with
  | nil => simp at hd
  | cons c rest =>
    obtain rfl : c = d := by simpa using hd
    rw [stops.eq_def] at h
    split at h
    · contradiction
    · rename_i heq
      cases heq
      rfl
    · rename_i heq
      cases heq
      simp_all

lemma Scans.keyword (k : Keyword) : Scans k.text.toList [.keyword k] := by
  intro rest hr
  obtain ⟨c, cs, hw, hc, hcs⟩ : ∃ c cs, k.text.toList = c :: cs ∧ isNameStart c = true ∧
      cs.all isNameChar = true := by
    cases k <;> exact ⟨_, _, rfl, by decide, by decide⟩
  rw [scanTokens_word hw hc hcs (head_of_stops hr)]
  simp [ofWord, Keyword.ofText?_text]

@[simp] lemma scanTokens_keywords {cs : List Char} (h : stops cs = true) :
    let after (w : Keyword) := (scanTokens cs).map (.keyword w :: ·)
    scanTokens ('l' :: 'e' :: 't' :: cs) = after .let_ ∧
    scanTokens ('n' :: 'o' :: 't' :: cs) = after .not_ ∧
    scanTokens ('i' :: 'f' :: cs) = after .if_ ∧
    scanTokens ('e' :: 'l' :: 'i' :: 'f' :: cs) = after .elif ∧
    scanTokens ('e' :: 'l' :: 's' :: 'e' :: cs) = after .else_ ∧
    scanTokens ('f' :: 'o' :: 'r' :: cs) = after .for_ ∧
    scanTokens ('t' :: 'o' :: cs) = after .to_ ∧
    scanTokens ('d' :: 'o' :: cs) = after .do_ ∧
    scanTokens ('s' :: 't' :: 'e' :: 'p' :: cs) = after .step ∧
    scanTokens ('w' :: 'h' :: 'i' :: 'l' :: 'e' :: cs) = after .while_ ∧
    scanTokens ('d' :: 'e' :: 'f' :: 'u' :: 'n' :: cs) = after .defun ∧
    scanTokens ('d' :: 'o' :: 'n' :: 'e' :: cs) = after .done ∧
    scanTokens ('r' :: 'e' :: 't' :: 'u' :: 'r' :: 'n' :: cs) = after .return_ ∧
    scanTokens ('c' :: 'o' :: 'n' :: 't' :: 'i' :: 'n' :: 'u' :: 'e' :: cs) = after .continue_ ∧
    scanTokens ('b' :: 'r' :: 'e' :: 'a' :: 'k' :: cs) = after .break_ ∧
    scanTokens ('l' :: 'o' :: 'a' :: 'd' :: cs) = after .load ∧
    scanTokens ('i' :: 'n' :: cs) = after .in_ ∧
    scanTokens ('a' :: 's' :: cs) = after .as_ ∧
    scanTokens ('n' :: 'a' :: 'm' :: 'e' :: 's' :: 'p' :: 'a' :: 'c' :: 'e' :: cs) = after .namespace_ ∧
    scanTokens ('u' :: 's' :: 'i' :: 'n' :: 'g' :: cs) = after .using_ ∧
    scanTokens ('p' :: 'a' :: 'r' :: 'e' :: 'n' :: 't' :: cs) = after .parent ∧
    scanTokens ('a' :: 's' :: 'y' :: 'n' :: 'c' :: cs) = after .async ∧
    scanTokens ('a' :: 'w' :: 'a' :: 'i' :: 't' :: cs) = after .await ∧
    scanTokens ('d' :: 'e' :: 'l' :: cs) = after .del := by
  intro after
  have hscan (w : Keyword) : scanTokens (w.text.toList ++ cs) = after w := Scans.keyword w cs h
  exact ⟨hscan .let_, hscan .not_, hscan .if_, hscan .elif, hscan .else_, hscan .for_, hscan .to_, hscan .do_,
    hscan .step, hscan .while_, hscan .defun, hscan .done, hscan .return_, hscan .continue_, hscan .break_, hscan .load,
    hscan .in_, hscan .as_, hscan .namespace_, hscan .using_, hscan .parent, hscan .async, hscan .await, hscan .del⟩

lemma scanTokens_operator (op : BinaryOp) (cs : List Char) :
    scanTokens (op.symbol.toList ++ ' ' :: cs) = (scanTokens cs).map (op.token :: ·) := by
  rw [← scanTokens_space cs]
  cases op with
  | floorDiv | eq | ne | le | ge => exact scanTokens_token (n := 1) rfl
  | and_ => exact Scans.keyword .and_ _ rfl
  | or_ => exact Scans.keyword .or_ _ rfl
  | _ => exact scanTokens_token (n := 0) rfl

lemma Scans.name {name : String} (h : isName name = true) : Scans name.toList [.ident name] := by
  intro rest hr
  rw [isName.eq_def] at h
  split at h
  · contradiction
  · rename_i c cs hw
    simp only [Bool.and_eq_true, Option.isNone_iff_eq_none] at h
    rw [scanTokens_word hw h.1.1 h.1.2 (head_of_stops hr)]
    simp [ofWord, h.2]

lemma read_digit (h : c.isDigit = true) (cs : List Char) : Piece.read c cs = readNumber c cs := by
  have hc := Number.isDigit_cases h
  simp only [mem_cons, not_mem_nil, or_false] at hc
  rcases hc with rfl | rfl | rfl | rfl | rfl | rfl | rfl | rfl | rfl | rfl <;> rfl

lemma takeWhile_isDigit {ds : List Char} (hd : ∀ d ∈ ds, d.isDigit = true) (hr : ∀ d ∈ rest.head?, d.isDigit = false) :
    (ds ++ rest).takeWhile Char.isDigit = ds ∧ (ds ++ rest).dropWhile Char.isDigit = rest := by
  rw [takeWhile_append_of_pos hd, dropWhile_append_of_pos hd]
  cases rest with
  | nil => simp
  | cons d rest => simp [hr d (by simp)]

lemma isDigit_of_stops (h : stops rest = true) : ∀ d ∈ rest.head?, d.isDigit = false := by
  intro d hd
  have hn := head_of_stops h d hd
  simp only [isNameChar, Char.isAlphanum, Bool.or_eq_false_iff] at hn
  exact hn.1.2

lemma fractionDigits_of_stops (h : stops rest = true) : fractionDigits rest = [] := by
  cases rest with
  | nil => rfl
  | cons c rest =>
    by_cases hc : c = '.'
    · subst hc
      cases rest with
      | nil => rfl
      | cons d rest =>
        have hd : d.isDigit = false := by simpa [stops] using h
        simp [fractionDigits, hd]
    · rw [fractionDigits.eq_def]
      simp [hc]

lemma Scans.int {value : Nat} (h : value < Number.wordBound) : Scans (toString value).toList [.int value] := by
  intro rest hr
  obtain ⟨c, cs, hw⟩ : ∃ c cs, Nat.toDigits 10 value = c :: cs := by
    cases hd : Nat.toDigits 10 value with
    | nil => exact absurd hd Nat.toDigits_ne_nil
    | cons c cs => exact ⟨c, cs, rfl⟩
  have hdigit : ∀ d ∈ c :: cs, d.isDigit = true := fun d hd =>
    Nat.isDigit_of_mem_toDigits (by decide) (by decide) (hw ▸ hd)
  obtain ⟨ht, hdrop⟩ := takeWhile_isDigit (fun d hd => hdigit d (mem_cons_of_mem c hd)) (isDigit_of_stops hr)
  have hvalue : Number.ofDigits (c :: cs) = value := by
    rw [← hw]
    exact Nat.ofDigitChars_ten_toDigits
  have hread : Piece.read c (cs ++ rest) = (.token (.int value), cs.length) := by
    rw [read_digit (hdigit c (by simp)), readNumber, ht, hdrop, fractionDigits_of_stops hr]
    simp [hvalue, h]
  rw [Nat.toString_eq_repr, Nat.toList_repr, hw, cons_append, scanTokens_token hread, drop_left]
  rfl

lemma readNumber_point {whole fraction : List Char} (hw : Number.IsNumeral (c :: whole))
    (hf : Number.IsNumeral fraction) (hr : stops rest = true) :
    readNumber c (whole ++ '.' :: fraction ++ rest) = (.token (.float (Number.nearestDecimal false
      (Number.ofDigits (c :: whole ++ fraction)) (-fraction.length))), (whole ++ '.' :: fraction).length) := by
  have hdot : ∀ d ∈ ('.' :: (fraction ++ rest)).head?, d.isDigit = false := by simp
  obtain ⟨ht, hdrop⟩ := takeWhile_isDigit (fun d hd => hw.2 d (mem_cons_of_mem c hd)) hdot
  obtain ⟨hfraction, -⟩ := takeWhile_isDigit hf.2 (isDigit_of_stops hr)
  have hlength : (whole ++ '.' :: fraction).length = whole.length + 1 + fraction.length := by
    rw [length_append, length_cons]
    omega
  rw [hlength, append_assoc, cons_append]
  simp [readNumber, ht, hdrop, fractionDigits, hfraction, hf.1]

lemma Scans.float {x : Float} (h : isLiteral x) : Scans (Number.FloatFormat.source.text x).toList [.float x] := by
  intro rest hr
  obtain ⟨⟨significand, exponent, hfinite⟩, hread⟩ := h
  obtain ⟨whole, fraction, htext, hw, hf⟩ := Number.toList_source_text hfinite
  rw [htext, Number.readFloat?_point hw hf.2] at hread
  obtain ⟨c, whole, rfl⟩ := exists_cons_of_ne_nil hw.1
  have hnumber := (read_digit (hw.2 c (by simp)) _).trans (readNumber_point hw hf hr)
  rw [Option.some.inj hread] at hnumber
  rw [htext, cons_append, cons_append, scanTokens_token hnumber, drop_left]
  rfl

lemma readQuoted_escapeChar (c : Char) (cs : List Char) :
    readQuoted '"' (Text.escapeChar c ++ cs) =
      prepend [c] (Text.escapeChar c).length (readQuoted '"' cs) := by
  unfold Text.escapeChar
  split
  all_goals try rfl
  rename_i h1 h2 _ _ _
  rw [singleton_append, readQuoted.eq_def]
  split
  · contradiction
  · rename_i heq
    exact absurd (List.cons.inj heq).1 h1
  · rename_i heq
    cases heq
    rw [if_neg h2]
    rfl

lemma readQuoted_escaped (content rest : List Char) :
    readQuoted '"' (content.flatMap Text.escapeChar ++ '"' :: rest) =
      some (content, (content.flatMap Text.escapeChar).length + 1) := by
  induction content with
  | nil => rfl
  | cons c content ih =>
    rw [flatMap_cons, append_assoc, readQuoted_escapeChar, ih]
    simp only [prepend, singleton_append, length_append]
    congr 2

lemma head_escapeChar (c : Char) : ∃ d ds, Text.escapeChar c = d :: ds ∧ d ≠ '"' := by
  unfold Text.escapeChar
  split
  · exact ⟨_, _, rfl, by decide⟩
  · exact ⟨_, _, rfl, by decide⟩
  · exact ⟨_, _, rfl, by decide⟩
  · exact ⟨_, _, rfl, by decide⟩
  · exact ⟨_, _, rfl, by decide⟩
  · rename_i h2 _ _ _
    exact ⟨c, [], rfl, h2⟩

lemma head_ne_quote_of_stops (h : stops rest = true) : rest.head? ≠ some '"' := by
  cases rest with
  | nil => simp
  | cons c rest =>
    rintro hc
    obtain rfl : c = '"' := by simpa using hc
    exact absurd h (by simp [stops])

lemma take_quoted {content : List Char} (h : stops rest = true) :
    (content.flatMap Text.escapeChar ++ '"' :: rest).take 2 ≠ ['"', '"'] := by
  cases content with
  | nil =>
    have hne := head_ne_quote_of_stops h
    cases rest with
    | nil => simp
    | cons c rest => simpa using hne
  | cons c content =>
    obtain ⟨d, ds, hd, hne⟩ := head_escapeChar c
    intro ht
    rw [flatMap_cons, hd] at ht
    exact hne (by simpa using congrArg List.head? ht)

lemma Scans.quoted (s : String) : Scans (Text.quote s).toList [.str s] := by
  intro rest hr
  have hread : Piece.read '"' (s.toList.flatMap Text.escapeChar ++ '"' :: rest) =
      (.token (.str s), (s.toList.flatMap Text.escapeChar).length + 1) := by
    have h : Piece.read '"' (s.toList.flatMap Text.escapeChar ++ '"' :: rest) =
        readString '"' (s.toList.flatMap Text.escapeChar ++ '"' :: rest) := rfl
    rw [h, readString, if_neg (take_quoted hr), readQuoted_escaped]
    simp
  have hdrop : (s.toList.flatMap Text.escapeChar ++ '"' :: rest).drop
      ((s.toList.flatMap Text.escapeChar).length + 1) = rest := by
    simp [drop_append]
  rw [Text.quote, String.toList_ofList, Text.quoteChars, cons_append, append_assoc, singleton_append,
    scanTokens_token hread, hdrop]
  rfl

lemma Scans.join (separator : List Char) (t : Token) {css : List (List Char)} {tss : List (List Token)}
    (ht : ∀ cs, scanTokens (separator ++ cs) = (scanTokens cs).map (t :: ·))
    (hs : ∀ cs, stops (separator ++ cs) = true) (h : Forall₂ Scans css tss) :
    Scans (separator.intercalate css) (joined t tss) := by
  induction h with
  | nil =>
    intro rest _
    simp [joined]
  | @cons cs ts css tss hc hcss ih =>
    cases hcss with
    | nil => simpa [joined] using hc
    | @cons ds us css tss hd hcss =>
      intro rest hr
      rw [intercalate_cons_cons, append_assoc, append_assoc, hc _ (by simpa using hs _), ht, ih rest hr]
      simp [joined]

lemma Scans.forall₂ {α : Type} {text : α → List Char} {tokens : α → List Token} {items : List α}
    (h : ∀ a ∈ items, Scans (text a) (tokens a)) : Forall₂ Scans (items.map text) (items.map tokens) := by
  rw [forall₂_map_left_iff, forall₂_map_right_iff]
  exact forall₂_same.mpr h

lemma Scans.separated {α : Type} (text : α → String) (tokens : α → List Token) {items : List α}
    (h : ∀ a ∈ items, Scans (text a).toList (tokens a)) :
    Scans (commaList (items.map text)).toList (joined (.symbol .comma) (items.map tokens)) := by
  have hj := Scans.join [',', ' '] (.symbol .comma) (by simp) (by simp) (Scans.forall₂ h)
  simpa [commaList] using hj

lemma Scans.names {names : List String} (h : ∀ name ∈ names, isName name = true) :
    Scans (commaList names).toList (nameSpelling names) := by
  have hc := Scans.separated id (fun name => [.ident name]) fun name hn => Scans.name (h name hn)
  simpa [nameSpelling] using hc

lemma Scans.lines (h : ∀ s ∈ statements, Scans s.text.toList s.spelling) :
    Scans ("\n".intercalate (nodeTexts statements)).toList (joined .newline (nodeSpellings statements)) := by
  have hj := Scans.join ['\n'] .newline (by simp) (by simp) (Scans.forall₂ h)
  simpa [nodeTexts_eq_map, nodeSpellings_eq_map] using hj

lemma isName_head {name : String} (h : isName name = true) : ∃ c cs, name.toList = c :: cs ∧
    isNameStart c = true := by
  rw [isName.eq_def] at h
  split at h
  · contradiction
  · rename_i c cs hw
    simp only [Bool.and_eq_true] at h
    exact ⟨c, cs, hw, h.1.1⟩

lemma stops_member {name : String} (h : isName name = true) (cs : List Char) :
    stops ('.' :: (name.toList ++ cs)) = true := by
  obtain ⟨c, ds, hw, hc⟩ := isName_head h
  have hd : c.isDigit = false := by
    by_contra hd
    have hm := Number.isDigit_cases (by simpa using hd)
    simp only [mem_cons, not_mem_nil, or_false] at hm
    rcases hm with rfl | rfl | rfl | rfl | rfl | rfl | rfl | rfl | rfl | rfl <;> exact absurd hc (by decide)
  simp [stops, hw, hd]

lemma read_minus (h : c ≠ '>') (cs : List Char) : Piece.read '-' (c :: cs) = (.token (.symbol .minus), 0) := by
  have hp : pairSymbol? '-' c = none := by
    rw [pairSymbol?.eq_def]
    split <;> simp_all
  change readSymbol '-' (c :: cs) = _
  simp [readSymbol, hp, singleSymbol?]

lemma read_star (h : c ≠ '*') (cs : List Char) : Piece.read '*' (c :: cs) = (.token (.symbol .star), 0) := by
  have hp : pairSymbol? '*' c = none := by
    rw [pairSymbol?.eq_def]
    split <;> simp_all
  change readSymbol '*' (c :: cs) = _
  simp [readSymbol, hp, singleSymbol?]

lemma read_not_opens (hc : c = '>' ∨ c = '*') (cs : List Char) :
    ∃ s n, Piece.read c cs = (.token (.symbol s), n) ∧ (Token.symbol s).opens = false := by
  have hread : Piece.read c cs = readSymbol c cs := by rcases hc with rfl | rfl <;> rfl
  rw [hread, readSymbol]
  cases hp : cs.head?.bind (pairSymbol? c) with
  | none => rcases hc with rfl | rfl <;> exact ⟨_, 0, rfl, rfl⟩
  | some s =>
    refine ⟨s, 1, rfl, ?_⟩
    obtain ⟨d, -, hd⟩ := Option.bind_eq_some_iff.1 hp
    rw [pairSymbol?.eq_def] at hd
    split at hd <;> simp_all
    · subst hd; rfl
    · subst hd; rfl

lemma Scans.exists_head {cs : List Char} (h : Scans cs (t :: ts)) (ht : t.opens = true) :
    ∃ c ds, cs = c :: ds ∧ c ≠ '>' ∧ c ≠ '*' := by
  have hnil : scanTokens cs = some (t :: ts) := by simpa [scanTokens, scanFrom] using h [] rfl
  obtain - | ⟨c, cs⟩ := cs
  · simp [scanTokens, scanFrom] at hnil
  · have hc : ¬(c = '>' ∨ c = '*') := by
      intro hc
      obtain ⟨s, n, hread, hs⟩ := read_not_opens hc cs
      rw [scanTokens_token hread, Option.map_eq_some_iff] at hnil
      obtain ⟨us, -, hus⟩ := hnil
      cases hus
      simp [hs] at ht
    exact ⟨c, cs, rfl, fun h => hc (.inl h), fun h => hc (.inr h)⟩

lemma Scans.minus {cs : List Char} (h : Scans cs (t :: ts)) (ht : t.opens = true) (rest : List Char) :
    scanTokens ('-' :: (cs ++ rest)) = (scanTokens (cs ++ rest)).map (.symbol .minus :: ·) := by
  obtain ⟨c, ds, rfl, hc, -⟩ := h.exists_head ht
  exact scanTokens_token (n := 0) (read_minus hc _)

lemma Scans.star {cs : List Char} (h : Scans cs (t :: ts)) (ht : t.opens = true) (rest : List Char) :
    scanTokens ('*' :: (cs ++ rest)) = (scanTokens (cs ++ rest)).map (.symbol .star :: ·) := by
  obtain ⟨c, ds, rfl, -, hc⟩ := h.exists_head ht
  exact scanTokens_token (n := 0) (read_star hc _)

section lines

variable {body : Node} (hbody : Scans body.text.toList body.spelling)
include hbody

lemma scanTokens_bodyLines (rest : List Char) :
    scanTokens ((bodyLines body body.text).toList ++ rest) =
      (scanTokens rest).map (bodyLinesSpelling body body.spelling ++ ·) := by
  unfold bodyLines bodyLinesSpelling
  split
  · simp
  · simp [hbody]

lemma Scans.bodyText (multiline : Bool) :
    Scans (bodyText body body.text multiline).toList (bodySpelling body body.spelling multiline) := by
  intro rest hr
  cases multiline with
  | true => simp [ScriptMachine.bodyText, bodySpelling, scanTokens_bodyLines hbody, hr]
  | false => simp [ScriptMachine.bodyText, bodySpelling, hbody, hr]

end lines

lemma stops_bodyText (body : Node) (text : String) (multiline : Bool) (rest : List Char) :
    stops ((bodyText body text multiline).toList ++ rest) = true := by
  cases multiline <;> simp [bodyText]

lemma scanTokens_statementLines (h : ∀ s ∈ statements, Scans s.text.toList s.spelling) (rest : List Char) :
    scanTokens ((statementLines statements).toList ++ rest) =
      (scanTokens rest).map (statementSpelling statements ++ ·) := by
  induction statements with
  | nil => simp [statementLines, statementSpelling]
  | cons s statements ih =>
    have hs := h s (by simp)
    have hi := ih fun t ht => h t (by simp [ht])
    simp [statementLines, statementSpelling, hs, hi]

lemma scanTokens_decoratorLines {decorators : List Node} (h : ∀ d ∈ decorators, Scans d.text.toList d.spelling)
    (rest : List Char) :
    scanTokens ((decoratorLines decorators).toList ++ rest) =
      (scanTokens rest).map (decoratorSpelling decorators ++ ·) := by
  induction decorators with
  | nil => simp [decoratorLines, decoratorSpelling]
  | cons d decorators ih =>
    have hd := h d (by simp)
    have hi := ih fun e he => h e (by simp [he])
    simp [decoratorLines, decoratorSpelling, hd, hi]

lemma scanTokens_caseLines (keyword : Keyword) {cases_ : List (Node × Node)}
    (hc : ∀ c ∈ cases_, Scans c.1.text.toList c.1.spelling) (hb : ∀ c ∈ cases_, Scans c.2.text.toList c.2.spelling)
    (rest : List Char) :
    scanTokens ((caseLines keyword.text cases_).toList ++ rest) =
      (scanTokens rest).map (caseLinesSpelling keyword cases_ ++ ·) := by
  induction cases_ generalizing keyword with
  | nil => simp [caseLines, caseLinesSpelling]
  | cons c cases_ ih =>
    obtain ⟨condition, body⟩ := c
    have hcond := hc (condition, body) (by simp)
    have hbody := hb (condition, body) (by simp)
    have hi := ih .elif (fun d hd => hc d (by simp [hd])) fun d hd => hb d (by simp [hd])
    rw [Keyword.text] at hi
    simp [caseLines, caseLinesSpelling, Scans.keyword keyword, hcond, scanTokens_bodyLines hbody, hi]

lemma Scans.caseTexts (keyword : Keyword) {cases_ : List (Node × Node)}
    (hc : ∀ c ∈ cases_, Scans c.1.text.toList c.1.spelling) (hb : ∀ c ∈ cases_, Scans c.2.text.toList c.2.spelling) :
    Scans (" ".intercalate (caseTexts keyword.text cases_)).toList (caseSpelling keyword cases_) := by
  induction cases_ generalizing keyword with
  | nil => intro rest _; simp [ScriptMachine.caseTexts, caseSpelling]
  | cons c cases_ ih =>
    intro rest hr
    obtain ⟨condition, body⟩ := c
    have hcond := hc (condition, body) (by simp)
    have hbody := hb (condition, body) (by simp)
    have hi := ih .elif (fun d hd => hc d (by simp [hd])) (fun d hd => hb d (by simp [hd])) rest hr
    rw [Keyword.text] at hi
    obtain - | ⟨⟨condition', body'⟩, cases_⟩ := cases_
    · simp [ScriptMachine.caseTexts, caseSpelling, Scans.keyword keyword, hcond, hbody, hr]
    · have hj : " ".intercalate (ScriptMachine.caseTexts keyword.text
          ((condition, body) :: (condition', body') :: cases_)) =
          keyword.text ++ " " ++ condition.text ++ " do " ++ body.text ++ " " ++
            " ".intercalate (ScriptMachine.caseTexts "elif" ((condition', body') :: cases_)) :=
        String.intercalate_cons_cons
      rw [hj, caseSpelling]
      generalize " ".intercalate (ScriptMachine.caseTexts "elif" ((condition', body') :: cases_)) = tail at hi ⊢
      simp [Scans.keyword keyword, hcond, hbody, hi]

lemma Scans.entry {e : Node × Node} (hk : Scans e.1.text.toList e.1.spelling)
    (hv : Scans e.2.text.toList e.2.spelling) :
    Scans (e.1.text ++ ": " ++ e.2.text).toList (e.1.spelling ++ .symbol .colon :: e.2.spelling) := by
  intro rest hr
  simp [hk, hv, hr]

lemma Scans.arg {a : Arg} (ha : a.isProper = true) (hv : Scans a.value.text.toList a.value.spelling)
    (hs : a.value.spelling = t :: ts) (ht : t.opens = true) :
    Scans a.text.toList a.spelling := by
  intro rest hr
  have hstar := Scans.star (hs ▸ hv) ht
  cases a with
  | positional value => exact hv rest hr
  | keyword name value =>
    simp only [Arg.isProper, Arg.value] at ha hv
    simp [Arg.text, Arg.spelling, Scans.name ha, hv, hr]
  | spread value | spreadKeywords value =>
    simp only [Arg.value] at hstar hv
    simp [Arg.text, Arg.spelling, hstar, hv, hr]

lemma Scans.param {p : Param} (hn : isName p.name = true) (hv : ∀ d ∈ p.default?, Scans d.text.toList d.spelling) :
    Scans p.text.toList p.spelling := by
  intro rest hr
  have hname := Scans.name hn
  have hstar := Scans.star hname rfl
  cases p with
  | required name => exact hname rest hr
  | optional name value =>
    have hd := hv value rfl
    simp only [Param.name] at hname
    simp [Param.text, Param.spelling, hname, hd, hr]
  | rest name | keywords name =>
    simp only [Param.name] at hname hstar
    simp [Param.text, Param.spelling, hname, hstar, hr]

attribute [local simp] Node.text Node.spelling

section compound

variable {cases_ : List (Node × Node)} (hc : ∀ c ∈ cases_, Scans c.1.text.toList c.1.spelling)
  (hb : ∀ c ∈ cases_, Scans c.2.text.toList c.2.spelling) (multiline : Bool) {span : Span}
include hc hb

lemma Scans.branch : Scans (Node.branch cases_ none multiline span).text.toList
    (Node.branch cases_ none multiline span).spelling := by
  intro rest hr
  have hlines := scanTokens_caseLines .if_ hc hb
  have htexts := Scans.caseTexts .if_ hc hb rest hr
  simp only [Keyword.text] at hlines htexts
  cases multiline with
  | true => simp [hlines, hr]
  | false => exact htexts

lemma Scans.branchElse {last : Node} (hl : Scans last.text.toList last.spelling) :
    Scans (Node.branch cases_ (some last) multiline span).text.toList
      (Node.branch cases_ (some last) multiline span).spelling := by
  intro rest hr
  have hlines := scanTokens_caseLines .if_ hc hb
  have htexts := Scans.caseTexts .if_ hc hb
  simp only [Keyword.text] at hlines htexts
  cases multiline with
  | true => simp [hlines, scanTokens_bodyLines hl, hr]
  | false =>
    generalize hj : " ".intercalate (ScriptMachine.caseTexts "if" _) = text at htexts
    simp [hj, htexts, hl, hr]

end compound

section loops

variable {body : Node} (hbody : Scans body.text.toList body.spelling) (multiline : Bool) {span : Span}
include hbody

lemma Scans.forRange {var : String} {start stop : Node} {step : Option Node} (hn : isName var = true)
    (hstart : Scans start.text.toList start.spelling) (hstop : Scans stop.text.toList stop.spelling)
    (hstep : ∀ s ∈ step, Scans s.text.toList s.spelling) :
    Scans (Node.forRange var start stop step body multiline span).text.toList
      (Node.forRange var start stop step body multiline span).spelling := by
  intro rest hr
  have hb := Scans.bodyText hbody multiline
  cases step with
  | none => simp [Scans.name hn, hstart, hstop, hb, stops_bodyText, hr]
  | some step => simp [Scans.name hn, hstart, hstop, hstep step rfl, hb, stops_bodyText, hr]

lemma Scans.forIn {vars : List String} {iterable : Node} (hn : ∀ name ∈ vars, isName name = true)
    (hi : Scans iterable.text.toList iterable.spelling) :
    Scans (Node.forIn vars iterable body multiline span).text.toList
      (Node.forIn vars iterable body multiline span).spelling := by
  intro rest hr
  have hb := Scans.bodyText hbody multiline
  simp [Scans.names hn, hi, hb, stops_bodyText, hr]

lemma Scans.while_ {condition : Node} (hc : Scans condition.text.toList condition.spelling) :
    Scans (Node.while_ condition body multiline span).text.toList
      (Node.while_ condition body multiline span).spelling := by
  intro rest hr
  have hb := Scans.bodyText hbody multiline
  simp [hc, hb, stops_bodyText, hr]

end loops

lemma Scans.function {name : Option String} {params : List Param} {body : Node} {autoReturn isAsync : Bool}
    {decorators : List Node} {span : Span} (hn : ∀ n ∈ name, isName n = true) (hp : ∀ p ∈ params, isName p.name = true)
    (hv : ∀ p ∈ params, ∀ d ∈ p.default?, Scans d.text.toList d.spelling)
    (hd : ∀ d ∈ decorators, Scans d.text.toList d.spelling) (hb : Scans body.text.toList body.spelling) :
    Scans (Node.function name params body autoReturn isAsync decorators span).text.toList
      (Node.function name params body autoReturn isAsync decorators span).spelling := by
  intro rest hr
  have hl := Scans.separated Param.text Param.spelling fun p hpm => Scans.param (hp p hpm) (hv p hpm)
  have hm := Scans.bodyText hb true _ hr
  have hds := scanTokens_decoratorLines hd
  cases name with
  | none =>
    cases isAsync <;> cases autoReturn <;>
      simp [paramTexts_eq_map, paramSpellings_eq_map, hds, hl, hb, hm, hr]
  | some name =>
    have hname := Scans.name (hn name rfl)
    cases isAsync <;> cases autoReturn <;>
      simp [paramTexts_eq_map, paramSpellings_eq_map, hds, hl, hname, hb, hm, hr]

theorem Legible.scans {r : Role} {b : Bool} {f : Follow} {n : Node} (h : Legible r b f n) :
    Scans n.text.toList n.spelling := by
  induction h with
  | int h => exact Scans.int h
  | float h => exact Scans.float h
  | str => exact Scans.quoted _
  | ident h => exact Scans.name h
  | list h ih =>
    intro rest hr
    have hl := Scans.separated Node.text Node.spelling ih
    simp [nodeTexts_eq_map, nodeSpellings_eq_map, hl]
  | map hk hv ihk ihv =>
    intro rest hr
    have hl := Scans.separated _ _ fun e he => Scans.entry (ihk e he) (ihv e he)
    simp [entryTexts_eq_map, entrySpellings_eq_map, hl]
  | binary hl hr ihl ihr =>
    intro rest hrest
    simp [ihl, ihr, scanTokens_operator]
  | @unary _ _ op _ _ ho ih =>
    intro rest hr
    obtain ⟨t, ts, hs, ht⟩ := ho.opens (by simp)
    have hm := Scans.minus (hs ▸ ih) ht
    cases op with
    | plus | minus | not_ => simp [UnaryOp.token, ih, hm]
  | await hv ih =>
    intro rest hr
    simp [ih]
  | call hc ha hv ihc ihv =>
    intro rest hr
    have hl := Scans.separated Arg.text Arg.spelling fun a ham => by
      obtain ⟨t, ts, hs, ht⟩ := (hv a ham).opens (by simp)
      exact Scans.arg (ha a ham) (ihv a ham) hs ht
    simp [argTexts_eq_map, argSpellings_eq_map, ihc, hl]
  | member ho hn ih =>
    intro rest hr
    simp [ih, stops_member hn, Scans.name hn, hr]
  | closed _ _ ih | operand _ ih | expr _ ih | statement _ ih | inline _ ih => exact ih
  | assign hn hv ih =>
    intro rest hr
    simp [ih, Scans.name hn, hr]
  | multiAssign hl hn hv ih =>
    intro rest hr
    simp [ih, Scans.names hn, hr]
  | alias_ hn hm =>
    intro rest hr
    simp [Scans.name hn, Scans.name hm, hr]
  | load hk =>
    intro rest hr
    simp [Scans.quoted _ rest hr]
  | del hf hne hn =>
    intro rest hr
    simp [Scans.names hn, hr]
  | @using_ _ _ _ parent _ hf hne hn =>
    intro rest hr
    cases parent <;> simp [Scans.names hn, hr]
  | branchElse hne hc hb hl ihc ihb ihl => exact Scans.branchElse ihc ihb _ ihl
  | @branchOpen _ _ cases_ condition body multiline _ hf hc hb hcond hbody ihc ihb ihcond ihbody =>
    refine Scans.branch ?_ ?_ multiline
    · simpa [or_imp, forall_and] using ⟨fun a b h => ihc (a, b) h, ihcond⟩
    · simpa [or_imp, forall_and] using ⟨fun a b h => ihb (a, b) h, ihbody⟩
  | forRange hn hstart hstop hstep hbody ihstart ihstop ihstep ihbody =>
    exact Scans.forRange ihbody _ hn ihstart ihstop ihstep
  | forIn hne hn hi hbody ihi ihbody => exact Scans.forIn ihbody _ hn ihi
  | while_ hc hbody ihc ihbody => exact Scans.while_ ihbody _ ihc
  | arrow hn hp hfit hv hd hds hb ihv ihds ihb | function hn hp hfit hv hd hds hb ihv ihds ihb =>
    exact Scans.function hn hp ihv ihds ihb
  | namespace_ hn hb ih =>
    intro rest hr
    simp [Scans.name hn, scanTokens_statementLines ih, hr]
  | indexAssign ht hi hv iht ihi ihv =>
    intro rest hr
    simp [iht, ihi, ihv, hr]
  | returnNone | continue_ | break_ =>
    intro rest hr
    simp [hr]
  | return_ hv ih =>
    intro rest hr
    simp [ih, hr]
  | emptyBlock =>
    intro rest hr
    simp [nodeTexts, nodeSpellings, joined]
  | @block _ statements last _ hs hl ihs ihl =>
    have hall : ∀ s ∈ statements ++ [last], Scans s.text.toList s.spelling := by
      simpa [or_imp, forall_and] using ⟨ihs, ihl⟩
    exact Scans.lines hall

end ScriptMachine
