import ScriptMachine.Proofs.Updates.Productions

/-! The parser ends, and each production that reads something goes forward. -/

namespace ScriptMachine

open List

variable {front : List Lexeme} {last : Lexeme}

/-- A list of lexemes as it is read: an end mark is added if the list lacks one. -/
def closed (lexemes : List Lexeme) : List Lexeme :=
  match lexemes.getLast? with
  | some l => if l.token.isEof then lexemes else lexemes ++ [⟨.eof, .point l.span.stop, false⟩]
  | none => [⟨.eof, .point 0, false⟩]

lemma closed_concat (h : last.token = .eof) : closed (front ++ [last]) = front ++ [last] := by
  rw [closed, getLast?_concat]
  simp only [h, Token.isEof, if_true]

lemma Token.eq_of_isEof {t : Token} (h : t.isEof = true) : t = .eof := by
  cases t <;> first | rfl | contradiction

def beforeEnd (lexemes : List Lexeme) : List Lexeme := lexemes.takeWhile fun l => !l.token.isEof

lemma beforeEnd_append {rest : List Lexeme} (hf : ∀ l ∈ front, l.token ≠ .eof) (hl : last.token = .eof) :
    beforeEnd (front ++ last :: rest) = front := by
  have hfront : ∀ l ∈ front, (!l.token.isEof) = true := by
    intro l hl
    cases ht : l.token with
    | eof => exact absurd ht (hf l hl)
    | _ => rfl
  rw [beforeEnd, takeWhile_append_of_pos hfront, takeWhile_cons, hl]
  simp [Token.isEof]

lemma lexemes_ofLexemes (lexemes : List Lexeme) : (Cursor.ofLexemes lexemes).lexemes = closed lexemes := by
  rw [closed, Cursor.ofLexemes]
  cases hlast : lexemes.getLast? with
  | none => rfl
  | some l =>
    obtain ⟨front, rfl⟩ := getLast?_eq_some_iff.1 hlast
    obtain ⟨token, span, augmented⟩ := l
    cases front with
    | nil | cons => cases token <;> rfl

lemma closed_ofLexemes (lexemes : List Lexeme) : (Cursor.ofLexemes lexemes).Closed := by
  intro l hl
  rw [lexemes_ofLexemes, closed] at hl
  split at hl
  · rename_i last hlast
    split at hl
    · rename_i heof
      obtain rfl := Option.some.inj (hlast.symm.trans hl)
      exact Token.eq_of_isEof heof
    · rw [getLast?_concat] at hl
      cases hl
      rfl
  · cases hl
    rfl

namespace Reader

variable {α : Type}

/-- What a reader does at a place: it gives something only after at least one lexeme and before the first end mark, it
fails at a lexeme, and where it is tried and cannot start, the place is the same as before. -/
structure Progresses (c : Cursor) (r : Reader α) : Prop where
  ok (a : α) (after : Cursor) : r c = .ok a after →
    ∃ between, between ≠ [] ∧ (∀ l ∈ between, l.token ≠ .eof) ∧ c.Passes between after
  fail (fault : SyntaxFault) (after : Cursor) : r c = .fail fault after → fault.IsAt c.lexemes
  attempt (fault : SyntaxFault) (after : Cursor) : Reader.attempt r c = .ok (.error fault) after → after = c

lemma Agree.progresses {c : Cursor} {r r' : Reader α} {P : α → Cursor → Prop} (hc : c.Closed)
    (h : Agree (.untracked hc) c r r' P)
    (hP : ∀ a after, P a after → after.left < c.left ∧ ∃ made, Travels (.untracked hc) {} c made after) :
    Progresses c r := by
  refine ⟨fun a after hok => ?_, fun fault after hfail => ?_, fun fault after hattempt => ?_⟩
  · obtain ⟨hlt, made, between, hcrosses⟩ := hP a after (h.ok hok)
    refine ⟨between, fun hnil => ?_, hcrosses.covers.not_eof, hcrosses.passes⟩
    have hleft := hcrosses.passes.left
    rw [hnil, length_nil] at hleft
    omega
  · have hmeets := h.2
    rw [hfail] at hmeets
    exact hmeets.2
  · exact ((Agree.attempt (Start.reaches_cursor _) h).ok hattempt).2 fault rfl |>.1

end Reader

namespace Productions

open Reader (Agree Progresses)

variable {c : Cursor} {height : Nat}

structure Progress (g : Productions) (c : Cursor) : Prop where
  statement : Progresses c g.anyStatement
  expr : Progresses c g.anyExpr
  climb (level : Precedence) : Progresses c (g.climbExpr level)
  operand : Progresses c g.operand
  extend (left : Node) : Progresses c (g.extend left)
  list : Progresses c g.listExpr
  map : Progresses c g.mapExpr
  branch : Progresses c g.ifExpr
  for_ : Progresses c g.forExpr
  while_ : Progresses c g.whileExpr
  namespace_ : Progresses c g.namespaceExpr
  argument : Progresses c g.argument
  parameter : Progresses c g.parameter
  function : Progresses c g.functionExpr

lemma progress_tower (hc : c.Closed) (hb : c.left < height) : (tower height).Progress c := by
  have hg := parallel_tower (.untracked hc) height
  have h := (Start.untracked hc).reaches_cursor
  have htree {F : Node → Prop} {r : Reader Node} (hr : Agree (.untracked hc) c r r ((Start.untracked hc).Reads F c)) :
      Progresses c r := hr.progresses hc fun _ _ hn => ⟨hn.travels.lt_left, _, hn.travels⟩
  exact {
    statement := htree (hg.anyStatement h hb.le)
    expr := htree ((hg.anyExpr h hb.le).weaken fun _ _ hn => hn.1)
    climb := fun _ => htree (hg.climbExpr h hb.le)
    operand := htree (hg.operand h hb.le)
    extend := fun _ => (hg.extend h hb.le).progresses hc fun _ _ hn => ⟨hn.lt, hn.travels.imp fun _ hm => hm.1⟩
    list := htree (hg.listExpr h hb.le)
    map := htree (hg.mapExpr h hb.le)
    branch := htree (hg.ifExpr h hb.le)
    for_ := htree (hg.forExpr h hb.le)
    while_ := htree (hg.whileExpr h hb.le)
    namespace_ := htree (hg.namespaceExpr h hb.le)
    argument := (hg.argument h hb (by simp [Start.untracked])).progresses hc fun _ _ ha => ⟨ha.2.1, _, ha.1⟩
    parameter := (hg.parameter h hb (by simp [Start.untracked])).progresses hc fun _ _ hp => ⟨hp.2.1, _, hp.1⟩
    function := htree (hg.functionExpr h hb.le) }

lemma statements_iterate (hc : c.Closed) (base : Productions) {height' : Nat} (h : c.left < height)
    (h' : c.left < height') : (raise^[height] base).statements c = (tower height').statements c := by
  rw [← Nat.add_sub_cancel' h, Function.iterate_add_apply]
  exact ((parallel_iterate (.untracked hc) _ h').statements (Start.reaches_cursor _) (Nat.lt_succ_self _)).1

end Productions

section parseLexemes

variable {lexemes : List Lexeme}

def leadingStatements (lexemes : List Lexeme) : Parsed StatementList :=
  (Productions.tower ((Cursor.ofLexemes lexemes).left + 2)).statements (Cursor.ofLexemes lexemes)

lemma leadingStatements_meets (lexemes : List Lexeme) :
    (leadingStatements lexemes).Meets (.untracked (closed_ofLexemes lexemes))
      ((Start.untracked (closed_ofLexemes lexemes)).Lists (.ofLexemes lexemes)) :=
  ((Productions.parallel_tower _ _).statements (Start.reaches_cursor _) (Nat.lt_add_of_pos_right Nat.two_pos)).2

lemma parseLexemes_ok {m : Module} (h : parseLexemes lexemes = .ok m) :
    ∃ list stop, leadingStatements lexemes = .ok list stop ∧
      m = ⟨list.statements, stop.skipNewlines.1.spanFrom (Cursor.ofLexemes lexemes).here⟩ ∧
      (∃ between, (Cursor.ofLexemes lexemes).Passes between stop.skipNewlines.1 ∧
        Covers between (m.statements.map .tree)) ∧ stop.skipNewlines.1.token = .eof := by
  have hmeets := leadingStatements_meets lexemes
  rw [parseLexemes] at h
  dsimp only at h
  split at h
  · contradiction
  · rename_i list stop hread
    rw [leadingStatements, hread] at hmeets
    split at h
    · rename_i heof
      cases h
      obtain ⟨between, hcrosses⟩ := hmeets.travels.newlines
      have hcovers := hcrosses.covers
      rw [Portion.constituents_trees] at hcovers
      exact ⟨list, stop, hread, rfl, ⟨between, hcrosses.passes, hcovers⟩, Token.eq_of_isEof heof⟩
    · contradiction

lemma parseLexemes_error {fault : SyntaxFault} (h : parseLexemes lexemes = .error fault) :
    fault.IsAt (closed lexemes) := by
  have hmeets := leadingStatements_meets lexemes
  rw [← lexemes_ofLexemes]
  rw [parseLexemes] at h
  dsimp only at h
  split at h
  · rename_i fault' stop hread
    rw [leadingStatements, hread] at hmeets
    exact Except.error.inj h ▸ hmeets.2
  · rename_i list stop hread
    rw [leadingStatements, hread] at hmeets
    split at h
    · contradiction
    · cases h
      cases hunmatched : list.unmatched with
      | some fault => exact hmeets.unmatched fault hunmatched
      | none =>
        exact ⟨rfl, .inl ⟨_, hmeets.travels.newlines.before.suffix.subset mem_cons_self, rfl⟩⟩

/-- Whatever list of lexemes is read, the parser ends: its answer depends neither on what the tower of productions
stands on nor on the height of the tower. Every production that reads something goes forward, though not over an end
mark. A program is read up to the first end mark, or else there is a fault at a lexeme of the list or at a parameter. -/
theorem parser_ends_with_progress (lexemes : List Lexeme) :
    (∀ base height, (Cursor.ofLexemes lexemes).left < height →
      (Productions.raise^[height] base).statements (Cursor.ofLexemes lexemes) = leadingStatements lexemes) ∧
    (∀ c height, (Cursor.ofLexemes lexemes).Before c → c.left < height → (Productions.tower height).Progress c) ∧
    match parseLexemes lexemes with
    | .ok m => ∃ list stop, leadingStatements lexemes = .ok list stop ∧ m.statements = list.statements ∧
        (Cursor.ofLexemes lexemes).Passes (beforeEnd (closed lexemes)) stop.skipNewlines.1
    | .error fault => fault.IsAt (closed lexemes) := by
  have hclosed := closed_ofLexemes lexemes
  refine ⟨fun base height h => ?_, fun c height hc hlt => ?_, ?_⟩
  · exact Productions.statements_iterate hclosed base h (by omega)
  · obtain ⟨between, hpass⟩ := hc
    exact Productions.progress_tower (hpass.closed hclosed) hlt
  · cases hparsed : parseLexemes lexemes with
    | error fault => exact parseLexemes_error hparsed
    | ok m =>
      obtain ⟨list, stop, hread, rfl, ⟨between, hpass, hcovers⟩, hend⟩ := parseLexemes_ok hparsed
      refine ⟨list, stop, hread, rfl, ?_⟩
      rw [← lexemes_ofLexemes, hpass.lexemes, Cursor.lexemes, beforeEnd_append hcovers.not_eof hend]
      exact hpass

end parseLexemes

/-- In every tree that is read, blocks are bodies, jumps are statements or bodies, bodies are as their loop, chain or
function says, and parameters can be bound. -/
theorem parsed_trees_well_formed {text : String} {m : Module} (h : parseModule text = .ok m) :
    ∀ n ∈ m.statements, n.isBlock = false ∧ n.Everywhere Node.WellFormed := by
  obtain ⟨lexemes, -, hparsed⟩ := parseModule_ok h
  obtain ⟨list, stop, hread, rfl, -⟩ := parseLexemes_ok hparsed
  have hlist := leadingStatements_meets lexemes
  rw [hread] at hlist
  exact fun n hn => ⟨(hlist.shape n hn).block, (hlist.shape n hn).within⟩

/-- A function with a chain of blocks, a loop with a jump in it, and a function with all kinds of parameters. -/
def blocksAndJumps : String :=
  "defun f(a)\nif a do\nlet x, y = a\nreturn x\nelse\nwhile a do break\ndone\ndone\ndefun g(a, b = 1, *c, **d) -> a"

theorem parsed_trees_well_formed_of_many : ∃ m, parseModule blocksAndJumps = .ok m ∧ m.statements.length = 2 ∧
    ∀ n ∈ m.statements, n.isBlock = false ∧ n.Everywhere Node.WellFormed := by
  have hcount : (parseModule blocksAndJumps).toOption.map (·.statements.length) = some 2 := by decide +kernel
  cases hm : parseModule blocksAndJumps with
  | error fault =>
    rw [hm] at hcount
    contradiction
  | ok m =>
    rw [hm] at hcount
    exact ⟨m, rfl, Option.some.inj hcount, parsed_trees_well_formed hm⟩

end ScriptMachine
