import ScriptMachine.Proofs.Policy.Steps
import ScriptMachine.Session

/-! Programs whose calls write only to tables of their own: the names that a call binds go to tables that were made
for it, apart from those that the program declares with `using`. -/

namespace ScriptMachine

open List

namespace Node

def isAssigning : Node → Bool
  | assign _ _ _ | multiAssign _ _ _ | alias_ _ _ _ | indexAssign _ _ _ _ | del _ _ | forRange _ _ _ _ _ _ _
  | forIn _ _ _ _ _ => true
  | function name _ _ _ _ _ _ => name.isSome
  | _ => false

/-- No load, namespace or asynchronous function, and no function with a default that assigns. -/
def isPlain : Node → Bool
  | load _ _ _ | namespace_ _ _ _ => false
  | function _ params _ _ isAsync _ _ => !isAsync && (withinParams params).all (!·.isAssigning)
  | _ => true

def used : Node → List String
  | using_ names _ _ => names
  | _ => []

def Complies (names : List String) (n : Node) : Prop := ∀ m ∈ n.subtrees, m.isPlain = true ∧ m.used ⊆ names

def Observes (n : Node) : Prop := ∀ m ∈ n.subtrees, m.isAssigning = false

lemma targets_of_not_isAssigning {n : Node} (h : n.isAssigning = false) (hp : n.isPlain = true) : n.targets = [] := by
  cases n with
  | assign | multiAssign | alias_ | indexAssign | del | forRange | forIn | namespace_ => contradiction
  | function name =>
    cases name with
    | none => rfl
    | some => contradiction
  | _ => rfl

end Node

namespace Module

def trees (m : Module) : List Node := withinNodes m.statements

def isPlain (m : Module) : Bool := m.trees.all Node.isPlain

def usedNames (m : Module) : List String := m.trees.flatMap Node.used

lemma complies_of_isPlain {m : Module} {names : List String} (h : m.isPlain = true) (hu : m.usedNames ⊆ names)
    {n : Node} (hn : n ∈ m.statements) : n.Complies names := by
  intro k hk
  have hmem : k ∈ m.trees := subtrees_subset_withinNodes hn hk
  exact ⟨all_eq_true.1 h k hmem, fun name hname => hu (mem_flatMap.2 ⟨k, hmem, hname⟩)⟩

end Module

/-- The tables below a number bind all names, except for some, as they did before. -/
def Tables.Keeps (names : List String) (n : Nat) (t t' : Tables) : Prop :=
  ∀ id < n, ∀ name ∉ names, (t'.table id).get? name = (t.table id).get? name

def Tables.EscapesIn (names : List String) (t : Tables) : Prop := ∀ d ∈ t.escapes, ∀ e ∈ d, e.1 ∈ names

namespace Tables.Keeps

variable {names : List String} {n id : Nat} {t t' t'' : Tables} {name : String}

lemma refl : t.Keeps names n t := fun _ _ _ _ => rfl

lemma trans (h : t.Keeps names n t') (h' : t'.Keeps names n t'') : t.Keeps names n t'' :=
  fun id hid name hname => (h' id hid name hname).trans (h id hid name hname)

lemma set {v : Value} (h : name ∈ names ∨ n ≤ id) : t.Keeps names n (t.set id name v) := by
  intro other hother x hx
  apply get?_set
  rcases h with h | h
  · exact .inr fun heq => hx (heq ▸ h)
  · exact .inl (Nat.ne_of_lt (Nat.lt_of_lt_of_le hother h)).symm

lemma erase (h : name ∈ names ∨ n ≤ id) : t.Keeps names n (t.erase id name) := by
  intro other hother x hx
  apply get?_erase
  rcases h with h | h
  · exact .inr fun heq => hx (heq ▸ h)
  · exact .inl (Nat.ne_of_lt (Nat.lt_of_lt_of_le hother h)).symm

lemma nest {lexical : Context} {parent : Option Context} {entry : Span} (h : n ≤ t.tables.size) :
    t.Keeps names n (Context.nest name lexical parent entry t).2 := by
  intro id hid x _
  have hid : id < t.tables.size := Nat.lt_of_lt_of_le hid h
  have hfirst : (t.alloc []).2.table id = t.table id := table_alloc hid []
  have hsecond : ((t.alloc []).2.alloc []).2.table id = (t.alloc []).2.table id := by
    apply table_alloc
    simpa [alloc] using Nat.lt_succ_of_lt hid
  exact congrArg (Dict.get? · x) (hsecond.trans hfirst)

end Tables.Keeps

namespace Context

variable {names : List String} {n : Nat} {t : Tables} {name : String} {c : Context}

def Fresh (n : Nat) (c : Context) : Prop := n ≤ c.scope.headD 0 ∧ n ≤ c.privateTable

lemma binding_of_not_mem (ht : t.EscapesIn names) (hn : name ∉ names) : c.binding t name = .here := by
  unfold binding
  cases h : (t.escapesOf c.escapes).get? name with
  | none => rfl
  | some b =>
    have hescapes : ∀ e ∈ t.escapesOf c.escapes, e.1 ∈ names := forall_getD ht (forall_mem_nil _)
    exact absurd (hescapes _ (Dict.mem_of_get? h)) hn

lemma home_of_fresh (ht : t.EscapesIn names) (hc : c.Fresh n) : name ∈ names ∨ n ≤ c.home t name := by
  by_cases hn : name ∈ names
  · exact .inl hn
  · right
    unfold home chainOf
    rw [binding_of_not_mem ht hn]
    obtain ⟨hscope, -⟩ := hc
    cases hs : c.scope with
    | nil =>
      rw [hs] at hscope
      exact Nat.le_trans hscope (Nat.zero_le _)
    | cons id ids =>
      rw [hs] at hscope
      exact hscope

end Context

section policy

variable {ctx : Context} {name : String} {t : Tables} {names : List String} {n k : Nat} {t₀ : Tables}

def plainContents (names : List String) : Contents where
  closure c := c.routine.isAsync = false ∧ c.routine.body.Complies names ∧
    ∀ name node, .optional name node ∈ c.routine.params → node.Complies names ∧ node.Observes
  space _ _ := False
  deferred _ _ := False
  place _ _ := True
  failure _ := True

def plainRules (names : List String) (n : Nat) : Rules where
  toContents := plainContents names
  code node ctx := node.Complies names ∧ (ctx.Fresh n ∨ node.Observes)
  binds _ ctx := ctx.Fresh n

def isolation (names : List String) (n k : Nat) (t₀ : Tables) : Policy where
  toRules := plainRules names n
  tables t := k ≤ t.tables.size ∧ t.EscapesIn names ∧ t₀.Keeps names n t

lemma Node.Complies.mono {node m : Node} (h : node.Complies names) (hm : m.subtrees ⊆ node.subtrees) :
    m.Complies names := fun x hx => h x (hm hx)

lemma isolation_closure {name : Option String} {params : List Param} {body : Node} {autoReturn isAsync : Bool}
    {decorators : List Node} {span : Span}
    (h : Node.Complies names (.function name params body autoReturn isAsync decorators span)) :
    (plainContents names).closure ⟨name.getD "<anonymous>", ⟨params, body, autoReturn, isAsync⟩, ctx⟩ := by
  have hplain := (h _ (Node.mem_subtrees_self _)).1
  rw [Node.isPlain, Bool.and_eq_true, Bool.not_eq_true', all_eq_true] at hplain
  obtain ⟨hsync, hdefaults⟩ := hplain
  refine ⟨hsync, h.mono ?_, fun name node hnode => ⟨h.mono ?_, fun m hm => ?_⟩⟩
  · intro m hm
    simp only [Node.subtrees, Node.within, mem_cons, mem_append] at hm ⊢
    tauto
  · intro m hm
    have hwithin := subtrees_subset_withinParams hnode hm
    simp only [Node.subtrees, Node.within, mem_cons, mem_append]
    tauto
  · simpa using hdefaults m (subtrees_subset_withinParams hnode hm)

lemma isolation_enter {lexical : Context} {parent : Option Context} {entry : Span} (hn : n ≤ k)
    (ht : (isolation names n k t₀).tables t) :
    (isolation names n k t₀).tables (Context.nest name lexical parent entry t).2 ∧
      (Context.nest name lexical parent entry t).1.Fresh n := by
  obtain ⟨hsize, hescapes, hkept⟩ := ht
  have hnest : t.Keeps names n (Context.nest name lexical parent entry t).2 := .nest (Nat.le_trans hn hsize)
  refine ⟨⟨?_, ?_, hkept.trans hnest⟩, ?_⟩
  · have hgrown : k ≤ t.tables.size + 1 + 1 := by omega
    simpa [Context.nest, Tables.alloc, Tables.allocEscapes] using hgrown
  · exact forall_mem_push hescapes (forall_mem_nil _)
  · have hle : n ≤ t.tables.size := Nat.le_trans hn hsize
    refine ⟨hle, ?_⟩
    simpa [Context.nest, Context.privateTable, Tables.alloc, Tables.allocEscapes] using Nat.le_succ_of_le hle

lemma isolation_assign {v : Value} (hc : ctx.Fresh n) (ht : (isolation names n k t₀).tables t) :
    (isolation names n k t₀).tables (ctx.assign t name v) := by
  obtain ⟨hsize, hescapes, hkept⟩ := ht
  refine ⟨by simpa [Context.assign] using hsize, hescapes, hkept.trans ?_⟩
  exact .trans (.set (ctx.home_of_fresh hescapes hc)) (.set (.inr hc.2))

lemma isolation_remove (hc : ctx.Fresh n) (ht : (isolation names n k t₀).tables t) :
    (isolation names n k t₀).tables (ctx.remove t name).2 := by
  obtain ⟨hsize, hescapes, hkept⟩ := ht
  refine ⟨by simpa [Context.remove] using hsize, hescapes, hkept.trans ?_⟩
  exact .trans (.erase (ctx.home_of_fresh hescapes hc)) (.erase (.inr hc.2))

lemma isolation_declare {parent : Bool} (hname : name ∈ names) (ht : (isolation names n k t₀).tables t) :
    Gives (fun r => (isolation names n k t₀).tables r.2) (ctx.declare t name parent) := by
  obtain ⟨hsize, hescapes, hkept⟩ := ht
  refine .ite .error (.map (p := fun _ => True) (fun _ _ => trivial) fun b _ => ⟨hsize, ?_, hkept⟩)
  have hrecord : ∀ d ∈ t.escapes.modify ctx.escapes (·.insert name b), ∀ e ∈ d, e.1 ∈ names :=
    forall_mem_modify hescapes fun d hd => Dict.forall_mem_insert hd hname
  exact hrecord

lemma isolation_lawful (hn : n ≤ k) : (isolation names n k t₀).Lawful where
  run h := h
  part := by
    rintro node m ctx ⟨hcomplies, hplace⟩ hm
    have hsub := subtrees_subset_of_parts hm
    exact ⟨hcomplies.mono hsub, hplace.imp_right fun hobserves x hx => hobserves x (hsub hx)⟩
  target := by
    rintro node name ctx ⟨hcomplies, hfresh | hobserves⟩ hname
    · exact hfresh
    · have hself := node.mem_subtrees_self
      rw [Node.targets_of_not_isAssigning (hobserves node hself) (hcomplies node hself).1] at hname
      contradiction
  span _ := trivial
  failure _ := trivial
  stray _ _ _ _ _ _ := trivial
  function h := isolation_closure h.1
  default := by
    intro c name node hclosure hnode
    obtain ⟨hcomplies, hobserves⟩ := hclosure.2.2 name node hnode
    exact ⟨hcomplies, .inr hobserves⟩
  enter := by
    intro c span caller t hclosure _ ht
    obtain ⟨htables, hfresh⟩ := isolation_enter hn ht
    refine ⟨htables, hclosure, ⟨hclosure.2.1, .inl hfresh⟩, fun _ _ => hfresh, fun hasync => ?_⟩
    rw [hclosure.1] at hasync
    contradiction
  drive h := h.elim
  assign := isolation_assign
  remove := isolation_remove
  declare := by
    intro all parent span ctx name t t' b hcode hname hdeclared ht
    have hused := (hcode.1 _ (Node.mem_subtrees_self _)).2 hname
    exact isolation_declare hused ht _ hdeclared
  define _ _ h := by
    have hplain := (h.1 _ (Node.mem_subtrees_self _)).1
    contradiction
  member h := h.elim
  load _ _ h := by
    have hplain := (h.1 _ (Node.mem_subtrees_self _)).1
    contradiction

end policy

end ScriptMachine
