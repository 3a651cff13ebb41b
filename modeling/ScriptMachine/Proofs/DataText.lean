import ScriptMachine.Proofs.RoundTrip
import ScriptMachine.Value.Text

/-! Plain data: the text of none, a boolean, an int, a string, or a list or hashmap of these, as an element of a
container, is an expression. -/

namespace ScriptMachine

open List

def Dict.Ordered {α : Type} (d : Dict α) : Prop := d.Pairwise fun a b => a.1 < b.1

instance {α : Type} (d : Dict α) : Decidable d.Ordered := inferInstanceAs (Decidable (d.Pairwise fun a b => a.1 < b.1))

namespace Value

/-- Values whose text is an expression; the least int is not the opposite of one. -/
inductive IsData : Value → Prop where
  | nil : IsData .nil
  | bool {b} : IsData (.bool b)
  | int {n} : n ≠ Int64.minValue → IsData (.int n)
  | str {s} : IsData (.str s)
  | list {items} : (∀ v ∈ items, IsData v) → IsData (.list items)
  | map {entries} : Dict.Ordered entries → (∀ e ∈ entries, IsData e.2) → IsData (.map entries)

end Value

def signedSpelling : Int → List Token
  | .ofNat n => [.int n]
  | .negSucc n => [.symbol .minus, .int (n + 1)]

def signedLiteral : Int → Node
  | .ofNat n => .int n (.point 0)
  | .negSucc n => .unary .minus (.int (n + 1) (.point 0)) (.point 0)

def Value.word (b : Bool) : String := if b then "true" else "false"

mutual

def Value.spelling : Value → List Token
  | .bool b => [.ident (Value.word b)]
  | .int n => signedSpelling n.toInt
  | .str s => [.str s]
  | .list items => .symbol .leftSquare :: (joined (.symbol .comma) (itemSpellings items) ++ [.symbol .rightSquare])
  | .map entries =>
    .symbol .leftBrace :: (joined (.symbol .comma) (valueSpellings entries) ++ [.symbol .rightBrace])
  | _ => [.ident "none"]

def itemSpellings : List Value → List (List Token)
  | [] => []
  | v :: rest => v.spelling :: itemSpellings rest

def valueSpellings : List (String × Value) → List (List Token)
  | [] => []
  | (key, v) :: rest => (.str key :: .symbol .colon :: v.spelling) :: valueSpellings rest

end

mutual

def Value.literal : Value → Node
  | .bool b => .ident (Value.word b) (.point 0)
  | .int n => signedLiteral n.toInt
  | .str s => .str s (.point 0)
  | .list items => .list (itemLiterals items) (.point 0)
  | .map entries => .map (entryLiterals entries) (.point 0)
  | _ => .ident "none" (.point 0)

def itemLiterals : List Value → List Node
  | [] => []
  | v :: rest => v.literal :: itemLiterals rest

def entryLiterals : List (String × Value) → List (Node × Node)
  | [] => []
  | (key, v) :: rest => (.str key (.point 0), v.literal) :: entryLiterals rest

end

section maps

variable (items : List Value) (entries : List (String × Value))

lemma itemSpellings_eq_map : itemSpellings items = items.map Value.spelling := by
  induction items with
  | nil => rfl
  | cons v items ih => rw [itemSpellings, ih]; rfl

lemma valueSpellings_eq_map :
    valueSpellings entries = entries.map fun e => [.str e.1] ++ .symbol .colon :: e.2.spelling := by
  induction entries with
  | nil => rfl
  | cons e entries ih => rw [valueSpellings, ih]; rfl

lemma itemLiterals_eq_map : itemLiterals items = items.map Value.literal := by
  induction items with
  | nil => rfl
  | cons v items ih => rw [itemLiterals, ih]; rfl

lemma entryLiterals_eq_map : entryLiterals entries = entries.map fun e => (.str e.1 (.point 0), e.2.literal) := by
  induction entries with
  | nil => rfl
  | cons e entries ih => rw [entryLiterals, ih]; rfl

lemma shownItems_eq_map : Value.shownItems items = items.map (Value.shown true) := by
  induction items with
  | nil => rfl
  | cons v items ih => exact congrArg (Value.shown true v :: ·) ih

lemma shownEntries_eq_map :
    Value.shownEntries entries = entries.map fun e => Text.quote e.1 ++ ": " ++ e.2.shown true := by
  induction entries with
  | nil => rfl
  | cons e entries ih => exact congrArg ((Text.quote e.1 ++ ": " ++ e.2.shown true) :: ·) ih

lemma shown_list : (Value.list items).shown true = "[" ++ commaList (items.map (Value.shown true)) ++ "]" := by
  rw [← shownItems_eq_map]
  rfl

lemma shown_map : (Value.map entries).shown true =
    "\x7b" ++ commaList (entries.map fun e => Text.quote e.1 ++ ": " ++ e.2.shown true) ++ "\x7d" := by
  rw [← shownEntries_eq_map]
  rfl

end maps

namespace Value.IsData

variable {v : Value}

lemma natAbs_lt {n : Int64} (h : n ≠ Int64.minValue) : n.toInt.natAbs < Number.wordBound := by
  have hlt := n.toInt_lt
  have hge := n.le_toInt
  have hne : n.toInt ≠ -2 ^ 63 := fun heq => h (Int64.toInt_inj.1 (by rw [heq]; rfl))
  rw [Number.wordBound]
  omega

lemma scans_signed {n : Int} (h : n.natAbs < Number.wordBound) : Scans (toString n).toList (signedSpelling n) := by
  cases n with
  | ofNat n => exact Scans.int h
  | negSucc n =>
    have hn : n + 1 < Number.wordBound := h
    intro rest hr
    have htext : (toString (Int.negSucc n)).toList = '-' :: (toString (n + 1)).toList :=
      String.toList_append (s := "-")
    rw [htext, cons_append, (Scans.int hn).minus rfl, Scans.int hn rest hr]
    simp [signedSpelling, Function.comp_def]

lemma scans (h : v.IsData) : Scans (v.shown true).toList v.spelling := by
  induction h with
  | nil => exact Scans.name (by decide)
  | @bool b => cases b <;> exact Scans.name (by decide)
  | int hn => exact scans_signed (natAbs_lt hn)
  | str => exact Scans.quoted _
  | @list items _ ih =>
    intro rest hr
    have hitems := Scans.separated _ _ ih
    rw [shown_list, spelling, itemSpellings_eq_map]
    simp [hitems, Function.comp_def]
  | @map entries _ _ ih =>
    intro rest hr
    have hentry : ∀ e ∈ entries, Scans (Text.quote e.1 ++ ": " ++ e.2.shown true).toList
        ([.str e.1] ++ .symbol .colon :: e.2.spelling) := by
      intro e he rest hr
      simp [Scans.quoted e.1, ih e he, hr, Function.comp_def]
    have hentries := Scans.separated _ _ hentry
    rw [shown_map, spelling, valueSpellings_eq_map]
    simp [hentries, Function.comp_def]

lemma settles (h : v.IsData) (b : Bool) : Settles b v.spelling := by
  induction h generalizing b with
  | nil | bool | str => exact .bare rfl
  | @int n _ =>
    rw [spelling]
    cases n.toInt with
    | ofNat n => exact .bare rfl
    | negSucc n => exact .cons rfl (.bare rfl)
  | @list items _ ih =>
    rw [spelling, itemSpellings_eq_map]
    refine .items rfl fun ts hts => ?_
    obtain ⟨v, hv, rfl⟩ := mem_map.1 hts
    exact ih v hv true
  | @map entries _ _ ih =>
    rw [spelling, valueSpellings_eq_map]
    refine .items rfl fun ts hts => ?_
    obtain ⟨e, he, rfl⟩ := mem_map.1 hts
    exact .append (.bare rfl) (.cons rfl (ih e he true))

end Value.IsData

def Token.isDatum : Token → Bool
  | .int _ | .str _ | .ident _ | .symbol .minus | .symbol .leftSquare | .symbol .leftBrace => true
  | _ => false

lemma Token.isDatum_spec {t : Token} (h : t.isDatum = true) :
    Productions.climbs t = true ∧ t.isJump = false ∧ t.isNewline = false ∧
      ∀ s : Symbol, s.isCloser = true → t.isSymbol s = false := by
  cases t with
  | symbol s =>
    refine ⟨rfl, rfl, rfl, fun s' hs' => ?_⟩
    cases s <;> first | contradiction | (cases s' <;> first | contradiction | rfl)
  | int _ | str _ | ident _ => exact ⟨rfl, rfl, rfl, fun _ _ => rfl⟩
  | _ => contradiction

namespace Value

lemma leading_spelling (v : Value) (ts : List Token) : (leading (v.spelling ++ ts)).isDatum = true := by
  cases v with
  | int n =>
    rw [spelling]
    cases n.toInt <;> rfl
  | _ => rfl

lemma spelling_ne_nil (v : Value) : v.spelling ≠ [] := by
  cases v with
  | int n =>
    rw [spelling]
    cases n.toInt <;> simp [signedSpelling]
  | _ => simp [spelling]

namespace IsData

open Productions

variable {height : Nat} {f : Follow} {c : Cursor} {rest : List Token} {v : Value}

lemma takes_int {n : Nat} (h : n < Number.wordBound) (hh : 1 ≤ height) (f : Follow) :
    Takes ((tower height).climbExpr .sign) f (.int n (.point 0)) := by
  have hl : Legible .operand true f (.int n (.point 0)) := .operand (.int h)
  exact (hl.readable.1 height hh).1 .sign (by decide)

lemma reads_of_operand {g : Productions} (hf : f.Holds rest) (hc : c.At (v.spelling ++ rest))
    (h : Reads c g.operand v.literal.Like rest) :
    Reads c g.anyExpr v.literal.Like rest := by
  have hnext := Follow.allows_spec hf.first
  have hfirst := Token.isDatum_spec (v.leading_spelling rest)
  exact reads_anyExpr hc hfirst.1 (reads_climbExpr_of_operand h hnext.1) hnext.2.1

lemma reads_operand (h : v.IsData) (hh : v.spelling.length ≤ height) (hf : f.Holds rest)
    (hc : c.At (v.spelling ++ rest)) :
    Reads c (tower height).operand v.literal.Like rest := by
  induction h generalizing height f c rest with
  | nil | bool | str =>
    exact .bind_here fun start => .bind_token hc (.bind_step hc fun c1 h1 => .ret h1 rfl)
  | @int n hn =>
    have hlt := natAbs_lt hn
    rw [spelling] at hh hc
    rw [literal]
    cases hint : n.toInt with
    | ofNat n =>
      rw [hint] at hc
      exact .bind_here fun start => .bind_token hc (.bind_step hc fun c1 h1 => .ret h1 rfl)
    | negSucc n =>
      rw [hint] at hh hc hlt
      obtain ⟨height, rfl⟩ : ∃ k, height = k + 2 := ⟨height - 2, by simp [signedSpelling] at hh; omega⟩
      have hlevel : (tower (height + 2)).climb .sign = (tower (height + 1)).climbExpr .sign := rfl
      refine .bind_here fun start => .bind_token hc (reads_unary ?_ hf hc)
      exact hlevel ▸ takes_int hlt (by omega) f
  | @list items _ ih =>
    rw [spelling, itemSpellings_eq_map] at hh hc
    rw [literal, itemLiterals_eq_map]
    have hlen : items.length ≤ (joined (.symbol .comma) (items.map spelling)).length :=
      length_le_joined _ fun v _ => v.spelling_ne_nil
    simp only [length_cons, length_append] at hh
    obtain ⟨height, rfl⟩ : ∃ k, height = k + 1 := ⟨height - 1, by omega⟩
    refine .bind_here fun start =>
      .bind_token hc (reads_list spelling literal (by simp; omega) ?_ ?_ (by simpa using hc))
    · exact fun w _ ts => (Token.isDatum_spec (w.leading_spelling ts)).2.2.2 _ rfl
    · intro w hw c rest hf hc
      have hmem := length_le_of_mem (.symbol .comma) spelling hw
      exact reads_of_operand hf hc (ih w hw (by omega) hf hc)
  | @map entries _ _ ih =>
    rw [spelling, valueSpellings_eq_map] at hh hc
    rw [literal, entryLiterals_eq_map]
    have hlen : entries.length ≤ (joined (.symbol .comma) (entries.map _)).length :=
      length_le_joined _ fun e _ => cons_ne_nil (.str e.1) (.symbol .colon :: e.2.spelling)
    have hmem : ∀ e ∈ entries, _ ≤ (joined (.symbol .comma) (entries.map _)).length := fun e he =>
      length_le_of_mem _ (fun e : String × Value => .str e.1 :: .symbol .colon :: e.2.spelling) he
    simp only [length_cons, length_append, cons_append, nil_append] at hh hmem
    obtain ⟨height, rfl⟩ : ∃ k, height = k + 1 := ⟨height - 1, by omega⟩
    refine .bind_here fun start => .bind_token hc ?_
    refine reads_map (fun e : String × Value => [.str e.1]) (fun e => e.2.spelling)
      (fun e => (.str e.1 (.point 0), e.2.literal)) (by simp; omega) (fun _ _ _ => rfl) ?_ ?_ (by simpa using hc)
    · intro e he
      have hl : Legible .expr true .separator (.str e.1 (.point 0)) := .expr (.operand .str)
      exact hl.readable height (by have := hmem e he; simp [Node.spelling]; omega)
    · intro e he c rest hf hc
      exact reads_of_operand hf hc (ih e he (by have := hmem e he; omega) hf hc)

theorem parseModule_shown (h : v.IsData) :
    ∃ m n, parseModule (v.shown true) = .ok m ∧ m.statements = [n] ∧ v.literal.Like n := by
  have hscan : scanTokens (v.shown true).toList = some v.spelling := by
    simpa [scanTokens, scanFrom] using h.scans [] rfl
  obtain ⟨q, -, hsettle⟩ := h.settles false .line [] rfl
  have hread : ∀ c : Cursor, c.At v.spelling → Reads c (tower (c.left + 2)).statements
      (fun list => ∃ n, list.statements = [n] ∧ v.literal.Like n) [] := by
    intro c hc
    have hfirst := Token.isDatum_spec (v.leading_spelling [])
    have hat : c.At (v.spelling ++ []) := by simpa using hc
    have hstatement : ∀ c1 : Cursor, c1.At (v.spelling ++ []) →
        Reads c1 (tower (c.left + 1)).anyStatement v.literal.Like [] := by
      intro c1 h1
      rw [Reads, anyStatement_eq_anyExpr (h1.token ▸ hfirst.2.1)]
      exact reads_of_operand holds_end h1 (h.reads_operand (by rw [hc.left]; omega) holds_end h1)
    have hread : Reads c (tower (c.left + 2)).statements
        (fun list => ∃ n ns, list.statements = n :: ns ∧ v.literal.Like n ∧ Forall₂ Node.Like [] ns) [] :=
      reads_program hfirst.2.2.1 hat hstatement (by simp) (by simp) (by simp)
    refine hread.weaken ?_
    rintro list ⟨n, ns, hlist, hn, hns⟩
    rw [forall₂_nil_left_iff] at hns
    exact ⟨n, by rw [hlist, hns], hn⟩
  obtain ⟨m, hm, n, hs, hn⟩ := parseModule_of_reads
    (Q := fun ss => ∃ n, ss = [n] ∧ v.literal.Like n) hscan hsettle hread
  exact ⟨m, n, hm, hs, hn⟩

end IsData

end Value

namespace Text

variable {c : Char} {s : String}

structure Tight (cs : List Char) : Prop where
  unbroken : ∀ c ∈ cs, c ≠ '\n' ∧ c ≠ '\r'
  first : ∃ c ∈ cs.head?, isBlank c = false ∧ c ≠ '#' ∧ c ≠ ';'
  last : ∃ c ∈ cs.getLast?, isBlank c = false

lemma lines_cons (h : c ≠ '\n' ∧ c ≠ '\r') (cs : List Char) : lines (c :: cs) = consHead c (lines cs) := by
  rw [lines]
  · exact h.1
  · intro cs' hc
    exact absurd hc h.2

lemma lines_of_unbroken {cs : List Char} (h : ∀ d ∈ c :: cs, d ≠ '\n' ∧ d ≠ '\r') : lines (c :: cs) = [c :: cs] := by
  induction cs generalizing c with
  | nil => rw [lines_cons (h c (by simp))]; rfl
  | cons d cs ih => rw [lines_cons (h c (by simp)), ih fun e he => h e (by simp [he])]; rfl

namespace Tight

variable {cs : List Char} (h : Tight cs)
include h

lemma lines_eq : lines cs = [cs] := by
  obtain ⟨c, hc, -⟩ := h.first
  obtain - | ⟨d, cs⟩ := cs
  · contradiction
  · exact lines_of_unbroken h.unbroken

lemma trim_eq : trim cs = cs := by
  obtain ⟨c, hc, hblank, -⟩ := h.first
  obtain ⟨d, hd, hlast⟩ := h.last
  have hstart : trimStart cs = cs := by
    obtain - | ⟨e, cs⟩ := cs
    · contradiction
    · obtain rfl : e = c := by simpa using hc
      simp [trimStart, hblank]
  rw [trim, hstart, trimEnd]
  rw [← head?_reverse] at hd
  cases hr : cs.reverse with
  | nil => simp [hr] at hd
  | cons e rest =>
    obtain rfl : e = d := by simpa [hr] using hd
    rw [dropWhile_cons_of_neg (by simp [hlast]), ← hr, reverse_reverse]

lemma strip_eq : strip cs = cs := by simp [strip, h.lines_eq, h.trim_eq]

lemma idleLine_eq : idleLine cs = false := by
  obtain ⟨c, hc, -, h1, h2⟩ := h.first
  obtain - | ⟨d, cs⟩ := cs
  · contradiction
  · obtain rfl : d = c := by simpa using hc
    simp [idleLine, h1, h2]

end Tight

lemma stripLines_of_tight (h : Tight s.toList) : stripLines s = s := by
  rw [stripLines, h.strip_eq, String.ofList_toList]

lemma isIdle_of_tight (h : Tight s.toList) : isIdle s = false := by
  simp [isIdle, h.lines_eq, h.trim_eq, h.idleLine_eq]

lemma mem_escapeChar {d : Char} (h : d ∈ escapeChar c) : d ≠ '\n' ∧ d ≠ '\r' := by
  unfold escapeChar at h
  split at h
  case h_6 _ _ _ _ _ => simp_all
  all_goals simp only [mem_cons, not_mem_nil, or_false] at h; rcases h with rfl | rfl <;> decide

lemma Tight.enclosed {o : Char} (cs : List Char) (hcs : ∀ d ∈ cs, d ≠ '\n' ∧ d ≠ '\r')
    (ho : isBlank o = false ∧ o ≠ '#' ∧ o ≠ ';') (hc : isBlank c = false) : Tight (o :: (cs ++ [c])) := by
  have hbreak : ∀ e : Char, isBlank e = false → e ≠ '\n' ∧ e ≠ '\r' := by
    intro e he
    constructor <;> rintro rfl <;> contradiction
  refine ⟨fun d hd => ?_, ⟨o, rfl, ho⟩, ⟨c, ?_, hc⟩⟩
  · simp only [mem_cons, mem_append, not_mem_nil, or_false] at hd
    rcases hd with rfl | hd | rfl
    · exact hbreak d ho.1
    · exact hcs d hd
    · exact hbreak d hc
  · rw [← cons_append, getLast?_concat]
    rfl

lemma tight_quote (s : String) : Tight (quote s).toList := by
  rw [quote, String.toList_ofList, quoteChars]
  refine .enclosed _ (fun d hd => ?_) (by decide) (by decide)
  obtain ⟨c, -, hc⟩ := mem_flatMap.1 hd
  exact mem_escapeChar hc

lemma unbroken_commaList {α : Type} {text : α → String} {items : List α}
    (h : ∀ a ∈ items, ∀ c ∈ (text a).toList, c ≠ '\n' ∧ c ≠ '\r') :
    ∀ c ∈ (commaList (items.map text)).toList, c ≠ '\n' ∧ c ≠ '\r' := by
  induction items with
  | nil => simp [commaList]
  | cons a items ih =>
    have ha := h a (by simp)
    have hrest := ih fun b hb => h b (by simp [hb])
    cases items with
    | nil => simpa [commaList] using ha
    | cons b items =>
      have heq : commaList ((a :: b :: items).map text) = text a ++ ", " ++ commaList ((b :: items).map text) :=
        String.intercalate_cons_cons
      intro c hc
      rw [heq] at hc
      simp only [String.toList_append, mem_append] at hc
      rcases hc with (hc | hc) | hc
      · exact ha c hc
      · have hsep : ∀ c ∈ [',', ' '], c ≠ '\n' ∧ c ≠ '\r' := by simp
        exact hsep c hc
      · exact hrest c hc

end Text

namespace Value.IsData

open Text

lemma isBlank_of_isDigit {c : Char} (h : c.isDigit = true) : isBlank c = false ∧ c ≠ '#' ∧ c ≠ ';' := by
  have hc := Number.isDigit_cases h
  simp only [mem_cons, not_mem_nil, or_false] at hc
  rcases hc with rfl | rfl | rfl | rfl | rfl | rfl | rfl | rfl | rfl | rfl <;> decide

lemma tight_nat (n : Nat) : Tight (toString n).toList := by
  rw [Nat.toString_eq_repr, Nat.toList_repr]
  have hdigit : ∀ d ∈ Nat.toDigits 10 n, d.isDigit = true := fun d hd =>
    Nat.isDigit_of_mem_toDigits (by decide) (by decide) hd
  have hblank := fun d hd => isBlank_of_isDigit (hdigit d hd)
  obtain ⟨c, cs, hcs⟩ := exists_cons_of_ne_nil (Nat.toDigits_ne_nil (b := 10) (n := n))
  refine ⟨fun d hd => ?_, ⟨c, by rw [hcs]; rfl, hblank c (by simp [hcs])⟩, ?_⟩
  · constructor <;> rintro rfl <;> exact absurd (hblank _ hd).1 (by decide)
  · refine ⟨_, getLast?_eq_some_getLast Nat.toDigits_ne_nil, (hblank _ (getLast_mem _)).1⟩

lemma tight_int (n : Int) : Tight (toString n).toList := by
  cases n with
  | ofNat n => exact tight_nat n
  | negSucc n =>
    have htext : (toString (Int.negSucc n)).toList = '-' :: (toString (n + 1)).toList :=
      String.toList_append (s := "-")
    obtain ⟨hu, ⟨d, hd, -⟩, ⟨e, he, hlast⟩⟩ := tight_nat (n + 1)
    rw [htext]
    refine ⟨fun c hc => ?_, ⟨'-', rfl, by decide⟩, ⟨e, ?_, hlast⟩⟩
    · rcases mem_cons.1 hc with rfl | hc
      · decide
      · exact hu c hc
    · rw [getLast?_cons, he]
      rfl

lemma tight {v : Value} (h : v.IsData) : Tight (v.shown true).toList := by
  induction h with
  | nil => exact Tight.enclosed ['o', 'n'] (by simp) (by decide) (by decide)
  | @bool b =>
    cases b with
    | true => exact Tight.enclosed ['r', 'u'] (by simp) (by decide) (by decide)
    | false => exact Tight.enclosed ['a', 'l', 's'] (by simp) (by decide) (by decide)
  | @int n => exact tight_int n.toInt
  | @str s => exact tight_quote s
  | @list items _ ih =>
    have hitems := unbroken_commaList fun w hw => (ih w hw).unbroken
    have htext : ((Value.list items).shown true).toList = '[' ::
      ((commaList (items.map (shown true))).toList ++ [']']) := by
      simp [shown_list]
    rw [htext]
    exact .enclosed _ hitems (by decide) (by decide)
  | @map entries _ _ ih =>
    have hentry : ∀ e ∈ entries, ∀ c ∈ (quote e.1 ++ ": " ++ e.2.shown true).toList, c ≠ '\n' ∧ c ≠ '\r' := by
      intro e he c hc
      simp only [String.toList_append, mem_append] at hc
      rcases hc with (hc | hc) | hc
      · exact (tight_quote e.1).unbroken c hc
      · have hsep : ∀ c ∈ [':', ' '], c ≠ '\n' ∧ c ≠ '\r' := by simp
        exact hsep c hc
      · exact (ih e he).unbroken c hc
    have hentries := unbroken_commaList hentry
    have htext : ((Value.map entries).shown true).toList = '\x7b' ::
        ((commaList (entries.map fun e => quote e.1 ++ ": " ++ e.2.shown true)).toList ++ ['\x7d']) := by
      simp [shown_map]
    rw [htext]
    exact .enclosed _ hentries (by decide) (by decide)

end Value.IsData

end ScriptMachine
