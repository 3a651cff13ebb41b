import ScriptMachine.Proofs.Binding
import ScriptMachine.Proofs.Placement

/-! The shape of the trees that the parser gives. -/

namespace ScriptMachine

open List

def LoadKind.lead : LoadKind → String
  | libs => "libs."
  | beside => "local."

namespace Node

variable {n : Node}

def isBlock : Node → Bool
  | block _ _ => true
  | _ => false

def isJump : Node → Bool
  | return_ _ _ | continue_ _ | break_ _ => true
  | _ => false

def ownStatements : Node → List Node
  | block statements _ | namespace_ _ statements _ => statements
  | _ => []

def bodies : Node → List Node
  | branch cases_ otherwise _ _ => cases_.map Prod.snd ++ otherwise.toList
  | forRange _ _ _ _ body _ _ | forIn _ _ body _ _ | while_ _ body _ _ | function _ _ body _ _ _ _ => [body]
  | _ => []

def operands : Node → List Node
  | block _ _ | namespace_ _ _ _ => []
  | branch cases_ _ _ _ => cases_.map Prod.fst
  | forRange _ start stop step _ _ _ => start :: stop :: step.toList
  | forIn _ iterable _ _ _ => [iterable]
  | while_ condition _ _ _ => [condition]
  | function _ params _ _ _ decorators _ => params.filterMap Param.default? ++ decorators
  | n => n.parts

def FormOk : Node → Prop
  | branch cases_ otherwise multiline _ =>
    cases_ ≠ [] ∧ (multiline = true ↔ ∀ body ∈ cases_.map Prod.snd ++ otherwise.toList, body.isBlock = true)
  | forRange _ _ _ _ body multiline _ | forIn _ _ body multiline _ | while_ _ body multiline _ =>
    multiline = true ↔ body.isBlock = true
  | function _ params body autoReturn _ _ _ =>
    (autoReturn = true ↔ body.isBlock = false) ∧ Declarable (params.map fun p => (p.name, p.slot))
  | multiAssign names _ _ => 2 ≤ names.length
  | del names _ | using_ names _ _ => names ≠ []
  | load path kind _ => path.startsWith kind.lead = true
  | _ => True

structure WellFormed (n : Node) : Prop where
  operands : ∀ k ∈ n.operands, k.isBlock = false ∧ k.isJump = false
  statements : ∀ k ∈ n.ownStatements, k.isBlock = false
  form : n.FormOk

lemma mem_children {k : Node} : k ∈ n.children ↔ k ∈ n.operands ∨ k ∈ n.ownStatements ∨ k ∈ n.bodies := by
  cases n with
  | branch | forRange | function =>
    simp only [children, parts, operands, ownStatements, bodies, mem_append, mem_cons, not_mem_nil,
      or_false, false_or]
    tauto
  | _ => simp [children, operands, ownStatements, bodies, parts]

structure IsExpression (n : Node) : Prop where
  block : n.isBlock = false
  jump : n.isJump = false
  within : n.Everywhere WellFormed

structure IsStatement (n : Node) : Prop where
  block : n.isBlock = false
  within : n.Everywhere WellFormed

structure IsBody (b : Node × Bool) : Prop where
  block : b.1.isBlock = b.2
  within : b.1.Everywhere WellFormed

lemma IsExpression.isStatement (h : n.IsExpression) : n.IsStatement := ⟨h.block, h.within⟩

lemma IsExpression.operand {n k : Node} (h : n.IsExpression) (hk : k ∈ n.operands) : k.IsExpression := by
  obtain ⟨hself, hchildren⟩ := everywhere_iff.1 h.within
  obtain ⟨hblock, hjump⟩ := hself.operands k hk
  exact ⟨hblock, hjump, hchildren k (mem_children.2 (.inl hk))⟩

lemma IsStatement.isBody (h : n.IsStatement) : IsBody (n, false) := ⟨h.block, h.within⟩

lemma everywhere_of_parts (ho : ∀ k ∈ n.operands, k.IsExpression) (hs : ∀ k ∈ n.ownStatements, k.IsStatement)
    (hb : ∀ k ∈ n.bodies, k.Everywhere WellFormed) (hf : n.FormOk) :
    n.Everywhere WellFormed := by
  refine everywhere_iff.2 ⟨⟨fun k hk => ⟨(ho k hk).block, (ho k hk).jump⟩, fun k hk => (hs k hk).block, hf⟩, ?_⟩
  intro k hk
  rcases mem_children.1 hk with hk | hk | hk
  · exact (ho k hk).within
  · exact (hs k hk).within
  · exact hb k hk

lemma IsExpression.of (hk : (n.isBlock || n.isJump) = false) (ho : ∀ k ∈ n.operands, k.IsExpression)
    (hs : ∀ k ∈ n.ownStatements, k.IsStatement) (hb : ∀ k ∈ n.bodies, k.Everywhere WellFormed) (hf : n.FormOk) :
    n.IsExpression := by
  obtain ⟨hblock, hjump⟩ := Bool.or_eq_false_iff.1 hk
  exact ⟨hblock, hjump, everywhere_of_parts ho hs hb hf⟩

lemma IsExpression.simple (hk : (n.isBlock || n.isJump) = false) (hn : n.ownStatements ++ n.bodies = []) (hf : n.FormOk)
    (ho : ∀ k ∈ n.operands, k.IsExpression) : n.IsExpression := by
  obtain ⟨hs, hb⟩ := append_eq_nil_iff.1 hn
  refine .of hk ho ?_ ?_ hf
  · rw [hs]
    exact forall_mem_nil _
  · rw [hb]
    exact forall_mem_nil _

end Node

section parameters

variable {name : String} {slot : Slot} {params : List (String × Slot)}

lemma Declarable.cons (h : Declarable params) (hname : ∀ p ∈ params, p.1 ≠ name)
    (hrest : slot = .rest → ∀ p ∈ params, p.2 ≠ .rest) (hkeywords : slot = .keywords → ∀ p ∈ params, p.2 ≠ .keywords)
    (hrequired : slot = .optional ∨ slot = .rest → ∀ p ∈ params, p.2 ≠ .required) :
    Declarable ((name, slot) :: params) := by
  have hcount {s : Slot} (hone : params.countP (·.2 = s) ≤ 1) (hnone : slot = s → ∀ p ∈ params, p.2 ≠ s) :
      ((name, slot) :: params).countP (·.2 = s) ≤ 1 := by
    rw [countP_cons]
    by_cases hs : slot = s
    · rw [countP_eq_zero.2 fun p hp => by simpa using hnone hs p hp]
      simp [hs]
    · simpa [hs] using hone
  refine ⟨nodup_cons.2 ⟨fun hmem => ?_, h.names⟩, hcount h.rest hrest, hcount h.keywords hkeywords,
    pairwise_cons.2 ⟨fun p hp hslot => hrequired hslot p hp, h.required⟩⟩
  obtain ⟨p, hp, heq⟩ := mem_map.1 hmem
  exact hname p hp heq

namespace Productions

variable {seen : ParamsSeen}

structure ParamsSeen.Takes (seen : ParamsSeen) (name : String) (slot : Slot) : Prop where
  fresh : name ∉ seen.names
  required : seen.defaulted = true ∨ seen.rest = true → slot ≠ .required
  rest : seen.rest = true → slot ≠ .rest
  keywords : seen.keywords = true → slot ≠ .keywords

def ParamsSeen.with_ (seen : ParamsSeen) (name : String) (slot : Slot) : ParamsSeen where
  names := name :: seen.names
  defaulted := seen.defaulted || slot = .optional
  rest := seen.rest || slot = .rest
  keywords := seen.keywords || slot = .keywords

attribute [local simp] ParamsSeen.with_ Param.slot in
lemma takes_of_paramFault? {param : Param} {span : Span} {rest : List (Param × Span)}
    (h : paramFault? seen ((param, span) :: rest) = none) :
    seen.Takes param.name param.slot ∧ paramFault? (seen.with_ param.name param.slot) rest = none := by
  obtain ⟨names, defaulted, restSeen, keywordsSeen⟩ := seen
  unfold paramFault? at h
  split at h
  · contradiction
  · rename_i hname
    have hpasses {b : Bool} {fault : SyntaxFault} {later : Option SyntaxFault}
        (h : (if b = true then some fault else later) = none) : b = false ∧ later = none := by
      cases b with
      | false => exact ⟨rfl, h⟩
      | true => contradiction
    cases param with
    | required name =>
      obtain ⟨hseen, hrest⟩ := hpasses h
      exact ⟨⟨hname, by simp_all, by simp, by simp⟩, by
        simpa using hrest⟩
    | optional name value => exact ⟨⟨hname, by simp, by simp, by simp⟩, by
        simpa using h⟩
    | rest name =>
      obtain ⟨hseen, hrest⟩ := hpasses h
      exact ⟨⟨hname, by simp, by simp_all, by simp⟩, by
        simpa using hrest⟩
    | keywords name =>
      obtain ⟨hseen, hrest⟩ := hpasses h
      exact ⟨⟨hname, by simp, by simp, by simp_all⟩, by
        simpa using hrest⟩

lemma declarable_of_paramFault? {params : List (Param × Span)} (h : paramFault? seen params = none) :
    (∀ p ∈ params, seen.Takes p.1.name p.1.slot) ∧ Declarable (params.map fun p => (p.1.name, p.1.slot)) := by
  induction params generalizing seen with
  | nil => exact ⟨forall_mem_nil _, by decide, by decide, by decide, .nil⟩
  | cons p params ih =>
    obtain ⟨htakes, hrest⟩ := takes_of_paramFault? h
    obtain ⟨hlater, hdeclarable⟩ := ih hrest
    have hafter {P : String × Slot → Prop} (hp : ∀ q ∈ params, P (q.1.name, q.1.slot)) :
        ∀ q ∈ params.map fun q => (q.1.name, q.1.slot), P q := forall_mem_map.2 hp
    refine ⟨forall_mem_cons.2 ⟨htakes, fun q hq => ?_⟩, hdeclarable.cons ?_ ?_ ?_ ?_⟩
    · obtain ⟨hfresh, hrequired, hr, hk⟩ := hlater q hq
      refine ⟨fun hmem => hfresh (.tail _ hmem), fun hs => hrequired ?_, fun hs => hr ?_, fun hs => hk ?_⟩
      · exact hs.imp (by simp +contextual [ParamsSeen.with_]) (by simp +contextual [ParamsSeen.with_])
      · simp [ParamsSeen.with_, hs]
      · simp [ParamsSeen.with_, hs]
    · exact hafter fun q hq heq => (hlater q hq).fresh (mem_cons.2 (.inl heq))
    · exact fun hs => hafter fun q hq => (hlater q hq).rest (by simp [ParamsSeen.with_, hs])
    · exact fun hs => hafter fun q hq => (hlater q hq).keywords (by simp [ParamsSeen.with_, hs])
    · exact fun hs => hafter fun q hq => (hlater q hq).required (by simpa [ParamsSeen.with_] using by tauto)

end Productions

end parameters

end ScriptMachine
