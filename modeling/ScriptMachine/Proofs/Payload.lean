import ScriptMachine.Proofs.Progress

/-! The parser keeps every name and every literal. -/

namespace ScriptMachine

open List

mutual

def Node.payload : Node → List Token
  | .int value _ => [.int value]
  | .float value _ => [.float value]
  | .str value _ => [.str value]
  | .list nodes _ | .block nodes _ => nodesPayload nodes
  | .map entries _ => pairsPayload entries
  | .ident name _ => [.ident name]
  | .assign name value _ => .ident name :: value.payload
  | .multiAssign names value _ => names.map .ident ++ value.payload
  | .alias_ name newName _ => [.ident name, .ident newName]
  | .indexAssign target index value _ => target.payload ++ index.payload ++ value.payload
  | .del names _ => names.map .ident
  | .binary _ left right _ => left.payload ++ right.payload
  | .unary _ operand _ => operand.payload
  | .branch cases_ otherwise _ _ => pairsPayload cases_ ++ optionPayload otherwise
  | .forRange var start stop step body _ _ =>
    .ident var :: (start.payload ++ stop.payload ++ optionPayload step ++ body.payload)
  | .forIn vars iterable body _ _ => vars.map .ident ++ iterable.payload ++ body.payload
  | .while_ condition body _ _ => condition.payload ++ body.payload
  | .function name params body _ _ decorators _ =>
    nodesPayload decorators ++ name.toList.map .ident ++ paramsPayload params ++ body.payload
  | .call callee args _ => callee.payload ++ argsPayload args
  | .member object name _ => object.payload ++ [.ident name]
  | .await value _ => value.payload
  | .return_ value _ => optionPayload value
  | .continue_ _ | .break_ _ => []
  | .load path _ _ => [.str path]
  | .namespace_ name body _ => .ident name :: nodesPayload body
  | .using_ names _ _ => names.map .ident

def nodesPayload : List Node → List Token
  | [] => []
  | n :: rest => n.payload ++ nodesPayload rest

def pairsPayload : List (Node × Node) → List Token
  | [] => []
  | (a, b) :: rest => a.payload ++ b.payload ++ pairsPayload rest

def optionPayload : Option Node → List Token
  | none => []
  | some n => n.payload

def paramsPayload : List Param → List Token
  | [] => []
  | .required name :: rest | .rest name :: rest | .keywords name :: rest => .ident name :: paramsPayload rest
  | .optional name value :: rest => .ident name :: (value.payload ++ paramsPayload rest)

def argsPayload : List Arg → List Token
  | [] => []
  | .positional value :: rest | .spread value :: rest | .spreadKeywords value :: rest =>
    value.payload ++ argsPayload rest
  | .keyword name value :: rest => .ident name :: (value.payload ++ argsPayload rest)

end

def Module.payload (m : Module) : List Token := nodesPayload m.statements

def Constituent.payload : Constituent → List Token
  | word t => [t]
  | tree n => n.payload

lemma nodesPayload_eq (nodes : List Node) : nodesPayload nodes = (nodes.map .tree).flatMap Constituent.payload := by
  induction nodes with
  | nil => rfl
  | cons n nodes ih => rw [nodesPayload, ih, map_cons, flatMap_cons, Constituent.payload]

lemma nameWords_payload (names : List String) : (nameWords names).flatMap Constituent.payload = names.map .ident := by
  induction names with
  | nil => rfl
  | cons name names ih => simpa [nameWords, Constituent.payload] using ih

lemma pairsPayload_eq (pairs : List (Node × Node)) :
    pairsPayload pairs = (pairTrees pairs).flatMap Constituent.payload := by
  induction pairs with
  | nil => rfl
  | cons p pairs ih => simp [pairsPayload, ih, pairTrees, Constituent.payload]

lemma optionPayload_eq (o : Option Node) : optionPayload o = (o.toList.map .tree).flatMap Constituent.payload := by
  cases o with
  | none => rfl
  | some n => simp [optionPayload, Constituent.payload]

lemma paramsPayload_eq (params : List Param) :
    paramsPayload params = (params.flatMap Param.constituents).flatMap Constituent.payload := by
  induction params with
  | nil => rfl
  | cons p params ih => cases p <;> simp [paramsPayload, ih, Param.constituents, Constituent.payload]

lemma argsPayload_eq (args : List Arg) :
    argsPayload args = (args.flatMap Arg.constituents).flatMap Constituent.payload := by
  induction args with
  | nil => rfl
  | cons a args ih => cases a <;> simp [argsPayload, ih, Arg.constituents, Constituent.payload]

lemma Node.payload_eq (n : Node) : n.payload = n.constituents.flatMap Constituent.payload := by
  cases n <;>
    simp [payload, constituents, Constituent.payload, nodesPayload_eq, nameWords_payload, pairsPayload_eq,
      optionPayload_eq, paramsPayload_eq, argsPayload_eq]

def payloadTokens (lexemes : List Lexeme) : List Token := (lexemes.map Lexeme.token).filter Token.isPayload

lemma payloadTokens_append (lexemes more : List Lexeme) :
    payloadTokens (lexemes ++ more) = payloadTokens lexemes ++ payloadTokens more := by
  rw [payloadTokens, map_append, filter_append, payloadTokens, payloadTokens]

lemma Covers.payload {lexemes : List Lexeme} {items : List Constituent} (h : Covers lexemes items) :
    payloadTokens lexemes = items.flatMap Constituent.payload := by
  induction h with
  | nil => rfl
  | @silent l lexemes items hl _ ih =>
    have hnot : l.token.isPayload = false := by cases ht : l.token <;> simp_all [Token.isSilent, Token.isPayload]
    rw [← ih, payloadTokens, map_cons, filter_cons_of_neg (by simp [hnot]), payloadTokens]
  | word hl _ ih =>
    rw [flatMap_cons, ← ih, payloadTokens, map_cons, filter_cons_of_pos hl]
    rfl
  | tree _ _ _ ihcore ih =>
    rw [payloadTokens_append, ihcore, ih, flatMap_cons, Constituent.payload, Node.payload_eq]

/-- Nothing is lost, doubled or moved: the names and literals of a program that is read from tokens are those of the
tokens, in their order. -/
theorem parse_keeps_payload {front : List Lexeme} {last : Lexeme} {m : Module} (hlast : last.token = .eof)
    (hfront : ∀ l ∈ front, l.token ≠ .eof) (hm : parseLexemes (front ++ [last]) = .ok m) :
    m.payload = payloadTokens front := by
  obtain ⟨list, stop, -, -, ⟨between, hpass, hcovers⟩, hend⟩ := parseLexemes_ok hm
  have hbetween : between = front := by
    have hread := hpass.lexemes
    rw [lexemes_ofLexemes, closed_concat hlast] at hread
    rw [← beforeEnd_append hcovers.not_eof hend, ← beforeEnd_append hfront hlast, hread]
    rfl
  rw [Module.payload, nodesPayload_eq, ← hcovers.payload, hbetween]

def updateByCall : List Lexeme :=
  [.keyword .let_, .ident "x", .symbol .assign, .ident "x", .symbol .plus, .ident "f", .symbol .leftParen, .ident "k",
    .symbol .assign, .int 1, .symbol .comma, .str "s", .symbol .rightParen].map fun t => ⟨t, .point 0, t.isSymbol .plus⟩

theorem parse_keeps_payload_of_update : ∃ m, parseLexemes (updateByCall ++ [⟨.eof, .point 0, false⟩]) = .ok m ∧
    m.payload = [.ident "x", .ident "x", .ident "f", .ident "k", .int 1, .str "s"] := by
  have hok : (parseLexemes (updateByCall ++ [⟨.eof, .point 0, false⟩])).isOk = true := by decide +kernel
  cases hm : parseLexemes (updateByCall ++ [⟨.eof, .point 0, false⟩]) with
  | error fault =>
    rw [hm] at hok
    contradiction
  | ok m => exact ⟨m, rfl, parse_keeps_payload rfl (by simp [updateByCall]) hm⟩

end ScriptMachine
