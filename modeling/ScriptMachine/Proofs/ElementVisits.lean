import ScriptMachine.Proofs.Coroutines.Gathering

/-! What an assignment to an element evaluates. -/

namespace ScriptMachine

open List

/-- What an assignment to an element evaluates: the start of a chain, its indexes from left to right, and the value. -/
inductive Operand where
  | base
  | key (i : Nat)
  | value
deriving DecidableEq

namespace Node

def indexed : Node → Node
  | .binary .index left _ _ => left.indexed
  | n => n

def indexes : Node → List Node
  | .binary .index left right _ => left.indexes ++ [right]
  | _ => []

def isIdent : Node → Bool
  | .ident _ _ => true
  | _ => false

lemma indexed_eq_self {n : Node} (h : ∀ left right span, n ≠ .binary .index left right span) :
    n.indexed = n ∧ n.indexes = [] := by
  unfold indexed indexes
  split
  · exact absurd rfl (h _ _ _)
  · exact ⟨rfl, rfl⟩

end Node

def Operand.node (target key value : Node) : Operand → Node
  | .base => target.indexed
  | .key i => (target.indexes ++ [key]).getD i key
  | .value => value

def readOrder (n : Nat) : List Operand := .base :: (List.range n).map .key

def storeOrder (named : Bool) : Nat → List Operand
  | 0 => if named then [] else [.base]
  | n + 1 => .key n :: (readOrder (n + 1) ++ storeOrder named n)

def assignOrder (named : Bool) (n : Nat) : List Operand := .key n :: .value :: storeOrder named n

section order

variable {named : Bool} {i n : Nat}

lemma count_key_readOrder : (readOrder n).count (.key i) = if i < n then 1 else 0 := by
  have hinjective : Function.Injective Operand.key := fun _ _ => Operand.key.inj
  rw [readOrder, count_cons_of_ne (by simp), count_map_of_injective _ _ hinjective]
  split
  · rename_i hi
    exact count_eq_one_of_mem nodup_range (mem_range.2 hi)
  · rename_i hi
    exact count_eq_zero_of_not_mem (mem_range.not.2 hi)

lemma count_key_storeOrder : (storeOrder named n).count (.key i) = if i < n then n + 1 - i else 0 := by
  induction n with
  | zero => cases named <;> simp [storeOrder]
  | succ n ih =>
    rw [storeOrder, count_cons, count_append, count_key_readOrder, ih]
    simp only [beq_iff_eq, Operand.key.injEq]
    split <;> split <;> split <;> omega

lemma count_key_assignOrder (hi : i ≤ n) : (assignOrder named n).count (.key i) = n + 1 - i := by
  rw [assignOrder, count_cons, count_cons_of_ne (by simp), count_key_storeOrder]
  simp only [beq_iff_eq, Operand.key.injEq]
  split <;> split <;> omega

lemma count_base_assignOrder : (assignOrder named n).count .base = n + if named then 0 else 1 := by
  have hread (n : Nat) : (readOrder n).count .base = 1 := by
    rw [readOrder, count_cons_self, count_eq_zero_of_not_mem (by simp)]
  rw [assignOrder, count_cons_of_ne (by simp), count_cons_of_ne (by simp)]
  induction n with
  | zero => cases named <;> rfl
  | succ n ih =>
    rw [storeOrder, count_cons_of_ne (by simp), count_append, hread, ih]
    omega

lemma count_value_assignOrder : (assignOrder named n).count .value = 1 := by
  have hread (n : Nat) : (readOrder n).count .value = 0 := count_eq_zero_of_not_mem (by simp [readOrder])
  rw [assignOrder, count_cons_of_ne (by simp), count_cons_self, Nat.add_eq_right]
  induction n with
  | zero => cases named <;> rfl
  | succ n ih => rw [storeOrder, count_cons_of_ne (by simp), count_append, hread, ih]

end order

structure Labels (node : Operand → Node) (target : Node) : Prop where
  base : node .base = target.indexed
  key {i : Nat} {e : Node} : target.indexes[i]? = some e → node (.key i) = e

namespace Labels

variable {node : Operand → Node} {left right : Node} {span : Span}

lemma of_index (h : Labels node (.binary .index left right span)) : Labels node left where
  base := h.base
  key hi := h.key (getElem?_append_left (List.getElem?_eq_some_iff.1 hi).1 ▸ hi)

lemma last (h : Labels node (.binary .index left right span)) : node (.key left.indexes.length) = right :=
  h.key getElem?_concat_length

end Labels

lemma labels_node (target key value : Node) : Labels (Operand.node target key value) target where
  base := rfl
  key {i e} hi := by
    have hget : (target.indexes ++ [key])[i]? = some e := by
      rw [getElem?_append_left (List.getElem?_eq_some_iff.1 hi).1, hi]
    rw [Operand.node, getD_eq_getElem?_getD, hget, Option.getD_some]

def Frame.isElement : Frame → Bool
  | .storeKey .. | .storeValue .. | .storeOuterKey .. | .storeContainer .. => true
  | .binaryLeft .index .. | .binaryRight .index .. => true
  | _ => false

namespace State

variable {node : Operand → Node} {ctx : Context} {s x y z : State} {base : List Frame} {ms ms' : List Moment}
  {vs vs' : List (Operand × Value)}

structure Visit (n : Node) (ctx : Context) (s : State) (ms : List Moment) (v : Value) (y : State) : Prop where
  start : s.task.control = .eval n ctx
  passes : s.Passes s.task.stack ms y
  back : y.task.stack = s.task.stack
  ends : y.task.control = .done (.value v)

inductive Links (ctx : Context) (s : State) : Prop
  | assigns {target key value : Node} {span : Span} :
      s.task.control = .eval (.indexAssign target key value span) ctx → Links ctx s
  | indexes {left right : Node} {span : Span} :
      s.task.control = .eval (.binary .index left right span) ctx → Links ctx s
  | hands {v : Value} {f : Frame} {rest : List Frame} : s.task.control = .done (.value v) →
      s.task.stack = f :: rest → f.isElement = true → Links ctx s

inductive Visits (node : Operand → Node) (ctx : Context) :
    State → List (Operand × Value) → List Moment → State → Prop
  | done {s : State} : Visits node ctx s [] [] s
  | wait {s y z : State} {base : List Frame} {others ms : List Moment} {vs : List (Operand × Value)} :
      s.Passes base others y → (∀ m ∈ others, m.own = false) → y.task = s.task → Visits node ctx y vs ms z →
        Visits node ctx s vs (others ++ ms) z
  | link {s z : State} {ms : List Moment} {vs : List (Operand × Value)} (time : Nat) : Links ctx s →
      Visits node ctx (s.at_ time).next vs ms z → Visits node ctx s vs (⟨true, s.at_ time⟩ :: ms) z
  | visit {s y z : State} {a : Operand} {v : Value} {ms ms' : List Moment} {vs : List (Operand × Value)} :
      Visit (node a) ctx s ms v y → Visits node ctx y vs ms' z → Visits node ctx s ((a, v) :: vs) (ms ++ ms') z

lemma Visits.append (h : Visits node ctx s vs ms y) (h' : Visits node ctx y vs' ms' z) :
    Visits node ctx s (vs ++ vs') (ms ++ ms') z := by
  induction h with
  | done => exact h'
  | wait hp hothers htask _ ih =>
    rw [append_assoc]
    exact .wait hp hothers htask (ih h')
  | link time hlinks _ ih => exact .link time hlinks (ih h')
  | visit hvisit _ ih =>
    rw [append_assoc]
    exact .visit hvisit (ih h')

section ends

variable {c : Completion} (h : z.next.Passes base ms y) (hstep : z.step = x.finish c) (hx : x.task.stack = base)
include h hstep hx

lemma Passes.of_finish : y.task = z.next.task ∧ ∀ m ∈ ms, m.own = false := by
  have hcontrol : z.next.task.control = .done c := congrArg (·.task.control) hstep
  have hstack : z.next.task.stack = base := (congrArg (·.task.stack) hstep).trans hx
  exact h.of_hasReturned (by simp [Task.hasReturned, hcontrol, hstack])

lemma Passes.ends : y.task.control = .done c := by
  rw [(h.of_finish hstep hx).1]
  exact congrArg (·.task.control) hstep

lemma Passes.not_error (v : Value) {f : Failure} (hc : c = .error f) : y.task.control ≠ .done (.value v) := by
  rw [h.ends hstep hx, hc]
  simp

lemma Passes.visits_nil : Visits node ctx z.next [] ms y := by
  obtain ⟨htask, hothers⟩ := h.of_finish hstep hx
  have hwait : Visits node ctx z.next [] (ms ++ []) y := .wait h hothers htask .done
  rwa [append_nil] at hwait

end ends

lemma resume_element {f : Frame} {c : Completion} (hf : f.isElement = true) (hc : ∀ v, c ≠ .value v) :
    s.resume f c = s.finish c := by
  cases c with
  | value v => exact absurd rfl (hc v)
  | error | return_ | break_ | continue_ =>
    cases f with
    | storeKey | storeValue | storeOuterKey | storeContainer | binaryLeft | binaryRight => rfl
    | _ => contradiction

lemma Passes.visit {n : Node} {f : Frame} {r : Value} (h : s.Passes base ms x) (hc : s.task.control = .eval n ctx)
    (hs : s.task.stack = f :: base) (hf : f.isElement = true) (hx : x.task.stack = base)
    (hr : x.task.control = .done (.value r)) :
    ∃ inside y v tail z rest, ms = inside ++ tail ∧ Visit n ctx s inside v y ∧
      (∀ {node vs}, Visits node ctx z.next vs rest x → Visits node ctx y vs tail x) ∧
      z.step = (z.onto base).resumeValue f v ∧ z.next.Passes base rest x ∧ ⟨true, z⟩ :: rest <:+ tail := by
  have hback : x.task.hasReturned base.length = true := by simp [Task.hasReturned, hx, hr]
  have habove : s.task.Above [] (f :: base) := ⟨hs, forall_mem_nil _⟩
  obtain ⟨inside, y, c, tail, rfl, hinside, hy, hstack, htail⟩ := h.split habove hback
  have hout : y.task.hasReturned base.length = false := by simp [Task.hasReturned, hy, hstack]
  obtain ⟨others, z, time, rest, rfl, hothers, hwait, htask, hrest⟩ := htail.first hout hback
  have hcontrol : (z.at_ time).task.control = .done c := (congrArg Task.control htask).trans hy
  have hframes : (z.at_ time).task.stack = f :: base := (congrArg Task.stack htask).trans hstack
  have hstep := step_of_done hcontrol hframes
  obtain ⟨v, rfl⟩ : ∃ v, c = .value v := by
    by_contra hne
    rw [resume_element hf (not_exists.1 hne)] at hstep
    exact hne ⟨r, Control.done.inj ((hrest.ends hstep rfl).symm.trans hr)⟩
  have hresume : (z.at_ time).step = ((z.at_ time).onto base).resumeValue f v := by
    rw [hstep]
    cases f with
    | storeKey | storeValue | storeOuterKey | storeContainer | binaryLeft | binaryRight => rfl
    | _ => contradiction
  refine ⟨inside, y, v, _, z.at_ time, rest, rfl, ⟨hc, hs ▸ hinside, hstack.trans hs.symm, hy⟩, fun hvisits => ?_,
    hresume, hrest, suffix_append _ _⟩
  exact .wait hwait hothers htask (.link time (.hands hcontrol hframes hf) hvisits)

inductive Reads (ms : List Moment) : Nat → List (Operand × Value) → Value → Prop
  | base {v : Value} : Reads ms 0 [(.base, v)] v
  | key {n : Nat} {vs : List (Operand × Value)} {a k c : Value} {z : State} : Reads ms n vs a → ⟨true, z⟩ ∈ ms →
      z.world.heap.index a k = .ok c → Reads ms (n + 1) (vs ++ [(.key n, k)]) c

/-- A value is stored under a key of a chain with so many indexes: the container is read, the value is put in it under
the key, and the changed container is stored under another value of the last index. -/
inductive Writes (ms : List Moment) (ctx : Context) (root : Node) :
    Nat → Heap → Value → Value → List (Operand × Value) → Prop
  | name {x : String} {place : Span} {h h' : Heap} {k u c changed : Value} {z : State} : root = .ident x place →
      ⟨true, z⟩ ∈ ms → z.lookup ctx x = some c → h.setIndex c k u = .ok (changed, h') →
        z.step.world = { z.world with
          heap := h', tables := if changed.isShared then z.world.tables else ctx.assign z.world.tables x changed } →
          Writes ms ctx root 0 h k u []
  | container {h h' : Heap} {k u c changed : Value} {z : State} : root.isIdent = false → ⟨true, z⟩ ∈ ms →
      z.world.heap.setIndex c k u = .ok (changed, h') → z.step.world = { z.world with heap := h' } →
        Writes ms ctx root 0 h k u [(.base, c)]
  | within {n : Nat} {h h' : Heap} {k k' u c changed : Value} {vs vs' : List (Operand × Value)} {z : State} :
      Reads ms (n + 1) vs c → ⟨true, z⟩ ∈ ms → z.world.heap.setIndex c k u = .ok (changed, h') →
        Writes ms ctx root n h' k' changed vs' → Writes ms ctx root (n + 1) h k u ((.key n, k') :: (vs ++ vs'))

section flow

variable {root : Node} {n : Nat} {h : Heap} {k u c : Value}

lemma Reads.mono (hreads : Reads ms n vs c) (hsub : ms ⊆ ms') : Reads ms' n vs c := by
  induction hreads with
  | base => exact .base
  | key _ hz hindex ih => exact .key ih (hsub hz) hindex

lemma Writes.mono (hwrites : Writes ms ctx root n h k u vs) (hsub : ms ⊆ ms') : Writes ms' ctx root n h k u vs := by
  induction hwrites with
  | name hroot hz hlookup hset hstep => exact .name hroot (hsub hz) hlookup hset hstep
  | container hroot hz hset hstep => exact .container hroot (hsub hz) hset hstep
  | within hreads hz hset _ ih => exact .within (hreads.mono hsub) (hsub hz) hset ih

lemma Reads.order (hreads : Reads ms n vs c) : vs.map Prod.fst = readOrder n := by
  induction hreads with
  | base => rfl
  | key _ _ _ ih => simp [ih, readOrder, range_succ]

lemma Writes.order (hwrites : Writes ms ctx root n h k u vs) : vs.map Prod.fst = storeOrder root.isIdent n := by
  induction hwrites with
  | name hroot =>
    subst hroot
    rfl
  | container hroot =>
    rw [hroot]
    rfl
  | within hreads _ _ _ ih => rw [map_cons, map_append, hreads.order, ih, storeOrder]

end flow

theorem Visit.reads {target : Node} {c : Value} (hlabels : Labels node target) (h : Visit target ctx s ms c y) :
    ∃ vs, Visits node ctx s vs ms y ∧ Reads ms target.indexes.length vs c := by
  induction target using Node.indexes.induct generalizing s ms c y with
  | case1 left right span ih =>
    have hback : y.task.hasReturned s.task.stack.length = true := by simp [Task.hasReturned, h.ends, h.back]
    have hout : s.task.hasReturned s.task.stack.length = false := by simp [Task.hasReturned, h.start]
    -- The index is taken apart, its left side and then its right side are evaluated, and the element is read.
    obtain ⟨others, s₁, time, rest, rfl, hothers, hwait, htask, hrest⟩ := h.passes.first hout hback
    have hopens : (s₁.at_ time).task.control = .eval (.binary .index left right span) ctx :=
      (congrArg Task.control htask).trans h.start
    have hstep : (s₁.at_ time).step = ((s₁.at_ time).push (.binaryLeft .index right span ctx)).eval left ctx := by
      rw [step, hopens]
      rfl
    have hframes : (s₁.at_ time).next.task.stack = .binaryLeft .index right span ctx :: s.task.stack :=
      (congrArg (·.task.stack) hstep).trans (congrArg (_ :: ·) (congrArg Task.stack htask))
    obtain ⟨inside, y₁, a, tail, z₁, rest, rfl, hleft, hgo, hstep₁, hrest, hsuffix⟩ :=
      hrest.visit (congrArg (·.task.control) hstep) hframes rfl h.back h.ends
    obtain ⟨vs, hvisits, hreads⟩ := ih hlabels.of_index hleft
    obtain ⟨inside', y₂, k, tail', z₂, rest, rfl, hright, hgo', hstep₂, hrest, hsuffix'⟩ :=
      hrest.visit (congrArg (·.task.control) hstep₁) (congrArg (·.task.stack) hstep₁) rfl h.back h.ends
    change z₂.step = (z₂.onto s.task.stack).applyBinary .index a k span ctx at hstep₂
    rw [applyBinary_eq, Heap.binary] at hstep₂
    cases hindex : (z₂.onto s.task.stack).world.heap.index a k with
    | error f =>
      rw [hindex] at hstep₂
      exact absurd h.ends (hrest.not_error hstep₂ rfl c rfl)
    | ok c' =>
      rw [hindex] at hstep₂
      obtain rfl := Completion.value.inj (Control.done.inj ((hrest.ends hstep₂ rfl).symm.trans h.ends))
      have hlast : Visits node ctx z₂.next [] rest y := hrest.visits_nil hstep₂ rfl
      have hkey : Visits node ctx y₁ [(.key left.indexes.length, k)] tail y :=
        hgo (.visit (hlabels.last ▸ hright) (hgo' hlast))
      refine ⟨vs ++ [(.key left.indexes.length, k)],
        .wait hwait hothers htask (.link time (.indexes hopens) (hvisits.append hkey)), ?_⟩
      have hz : ⟨true, z₂⟩ ∈ tail := hsuffix.subset (.tail _ (mem_append_right _ (hsuffix'.subset (.head _))))
      rw [Node.indexes, length_append]
      refine .key (z := z₂) (hreads.mono fun m hm => ?_) ?_ hindex
      · exact mem_append_right _ (.tail _ (mem_append_left _ hm))
      · exact mem_append_right _ (.tail _ (mem_append_right _ hz))
  | case2 target htarget =>
    obtain ⟨hindexed, hindexes⟩ := target.indexed_eq_self htarget
    rw [hindexes]
    have hvisit : Visits node ctx s [(.base, c)] (ms ++ []) y :=
      .visit (by rwa [hlabels.base, hindexed]) .done
    rw [append_nil] at hvisit
    exact ⟨_, hvisit, .base⟩

section store

variable {target : Node} {h : Heap} {k u r v : Value} {span : Span}

lemma Passes.stores_name {name : String} {place : Span} (hp : z.next.Passes base ms y)
    (hstep : z.step = x.store (.ident name place) k u r span ctx) (hstack : x.task.stack = base)
    (hworld : x.world = { z.world with heap := h }) (hc : y.task.control = .done (.value v)) :
    v = r ∧ ∃ vs, Visits node ctx z.next vs ms y ∧ Writes (⟨true, z⟩ :: ms) ctx (.ident name place) 0 h k u vs := by
  rw [store] at hstep
  cases hlookup : x.lookup ctx name with
  | none =>
    rw [hlookup] at hstep
    exact absurd hc (hp.not_error hstep hstack v rfl)
  | some c =>
    rw [hlookup] at hstep
    dsimp only at hstep
    cases hset : x.world.heap.setIndex c k u with
    | error f =>
      rw [hset] at hstep
      exact absurd hc (hp.not_error hstep hstack v rfl)
    | ok result =>
      obtain ⟨changed, h'⟩ := result
      rw [hset] at hstep
      dsimp only at hstep
      have hkept : (if changed.isShared then x.setHeap h' else (x.setHeap h').assign ctx name changed).task.stack =
          base := by
        split <;> exact hstack
      obtain rfl := Completion.value.inj (Control.done.inj ((hp.ends hstep hkept).symm.trans hc))
      refine ⟨rfl, [], hp.visits_nil hstep hkept, .name rfl (.head _) (c := c) ?_ (hworld ▸ hset) ?_⟩
      · rw [lookup, hworld] at hlookup
        exact hlookup
      · rw [hstep]
        cases changed.isShared with
        | true =>
          change { x.world with heap := h' } = _
          rw [hworld]
          rfl
        | false =>
          change { x.world with heap := h', tables := ctx.assign x.world.tables name changed } = _
          rw [hworld]
          rfl

lemma Passes.stores_container (hlabels : node .base = target) (hident : target.isIdent = false)
    (hindex : ∀ left right span, target ≠ .binary .index left right span) (hp : z.next.Passes base ms y)
    (hstep : z.step = x.store target k u r span ctx) (hstack : x.task.stack = base) (hy : y.task.stack = base)
    (hc : y.task.control = .done (.value v)) :
    v = r ∧ ∃ vs, Visits node ctx z.next vs ms y ∧ Writes (⟨true, z⟩ :: ms) ctx target 0 h k u vs := by
  have hother : z.step = (x.push (.storeContainer none k u r span ctx)).eval target ctx := by
    rw [hstep]
    unfold store
    split
    · contradiction
    · exact absurd rfl (hindex _ _ _)
    · rfl
  have hframes := (congrArg (·.task.stack) hother).trans (congrArg (_ :: ·) hstack)
  obtain ⟨inside, y₁, c, tail, z₁, rest, rfl, hvisit, hgo, hstep₁, hrest, hsuffix⟩ :=
    hp.visit (congrArg (·.task.control) hother) hframes rfl hy hc
  change z₁.step = (z₁.onto base).storeIn c none k u r span ctx at hstep₁
  rw [storeIn] at hstep₁
  cases hset : (z₁.onto base).world.heap.setIndex c k u with
  | error f =>
    rw [hset] at hstep₁
    exact absurd hc (hrest.not_error hstep₁ rfl v rfl)
  | ok result =>
    obtain ⟨changed, h'⟩ := result
    rw [hset] at hstep₁
    obtain rfl := Completion.value.inj (Control.done.inj ((hrest.ends hstep₁ rfl).symm.trans hc))
    have hlast : Visits node ctx z₁.next [] rest y := hrest.visits_nil hstep₁ rfl
    refine ⟨rfl, [(.base, c)], .visit (hlabels ▸ hvisit) (hgo hlast), .container (z := z₁) hident ?_ hset ?_⟩
    · exact .tail _ (mem_append_right _ (hsuffix.subset (.head _)))
    · rw [hstep₁]
      rfl

theorem Passes.stores (hlabels : Labels node target) (hp : z.next.Passes base ms y)
    (hstep : z.step = x.store target k u r span ctx) (hstack : x.task.stack = base)
    (hworld : x.world = { z.world with heap := h }) (hy : y.task.stack = base)
      (hc : y.task.control = .done (.value v)) :
    v = r ∧ ∃ vs, Visits node ctx z.next vs ms y ∧
      Writes (⟨true, z⟩ :: ms) ctx target.indexed target.indexes.length h k u vs := by
  induction target using Node.indexes.induct generalizing z x h k u ms with
  | case1 left right place ih =>
    -- First the key under which the container will be put back, and then the container with all its keys.
    have hframes := (congrArg (·.task.stack) hstep).trans (congrArg (_ :: ·) hstack)
    obtain ⟨inside, y₁, k', tail, z₁, rest, rfl, hright, hgo, hstep₁, hrest, hsuffix⟩ :=
      hp.visit (congrArg (·.task.control) hstep) hframes rfl hy hc
    obtain ⟨inside', y₂, c, tail', z₂, rest, rfl, htarget, hgo', hstep₂, hrest, hsuffix'⟩ :=
      hrest.visit (congrArg (·.task.control) hstep₁) (congrArg (·.task.stack) hstep₁) rfl hy hc
    obtain ⟨vs, hvisits, hreads⟩ := htarget.reads hlabels
    change z₂.step = (z₂.onto base).storeIn c (some (left, k')) k u r span ctx at hstep₂
    rw [storeIn] at hstep₂
    cases hset : (z₂.onto base).world.heap.setIndex c k u with
    | error f =>
      rw [hset] at hstep₂
      exact absurd hc (hrest.not_error hstep₂ rfl v rfl)
    | ok result =>
      obtain ⟨changed, h'⟩ := result
      rw [hset] at hstep₂
      obtain ⟨rfl, vs', hvisits', hwrites⟩ := ih hlabels.of_index hrest hstep₂ rfl rfl
      have hinside : inside' ++ tail' ⊆ ⟨true, z⟩ :: (inside ++ tail) := fun m hm =>
        .tail _ (mem_append_right _ (hsuffix.subset (.tail _ hm)))
      have htail : ⟨true, z₂⟩ :: rest ⊆ ⟨true, z⟩ :: (inside ++ tail) := fun m hm =>
        hinside (mem_append_right _ (hsuffix'.subset hm))
      refine ⟨rfl, (.key left.indexes.length, k') :: (vs ++ vs'),
        .visit (hlabels.last ▸ hright) (hgo (hvisits.append (hgo' hvisits'))), ?_⟩
      rw [Node.indexes, length_append] at hreads ⊢
      exact .within (z := z₂) (hreads.mono fun m hm => hinside (mem_append_left _ hm)) (htail (.head _)) hset
        (hwrites.mono htail)
  | case2 target htarget =>
    obtain ⟨hindexed, hindexes⟩ := target.indexed_eq_self htarget
    rw [hindexed, hindexes]
    cases hident : target.isIdent with
    | true =>
      cases target with
      | ident name place => exact hp.stores_name hstep hstack hworld hc
      | _ => contradiction
    | false => exact hp.stores_container (hlabels.base.trans hindexed) hident htarget hstep hstack hy hc

end store

end State

/-- An assignment to an element that comes to an end has evaluated its last index and its value once, and then what it
takes to store in the chain: for each container from the inside out its last index, and the whole chain up to it. So of
`n + 1` indexes the first one is evaluated `n + 1` times, the next one `n` times, and so on; what the chain starts from
is read `n + 1` times, if it is a name by a lookup the last time. The value of an index under which a container is put
back comes from another evaluation than the one with which it was read. -/
theorem element_indexes_evaluated_again {m : Machine} {place time : Nat} {moves : List Move} {s : State}
    {ms : List Moment} {target key value : Node} {v : Value} {span : Span} {ctx : Context}
    (h : m.Completes place time moves s ms (.value v))
    (hs : s.task.control = .eval (.indexAssign target key value span) ctx) :
    ∃ n k vs visited z y, n = target.indexes.length ∧ visited = (.key n, k) :: (.value, v) :: vs ∧
      State.Visits (Operand.node target key value) ctx s visited ms y ∧
      ⟨true, z⟩ ∈ ms ∧ State.Writes ms ctx target.indexed n z.world.heap k v vs ∧
      visited.map Prod.fst = assignOrder target.indexed.isIdent n ∧
      (∀ i ≤ n, (visited.map Prod.fst).count (.key i) = n + 1 - i) ∧ (visited.map Prod.fst).count .value = 1 ∧
      (visited.map Prod.fst).count .base = n + if target.indexed.isIdent then 0 else 1 := by
  obtain ⟨rest, y, rfl, hp, hy, hc⟩ := h.passes
  have hstep : s.step = (s.push (.storeKey target value span ctx)).eval key ctx := by
    rw [State.step, hs]
    rfl
  obtain ⟨inside, y₁, k, tail, z₁, rest, rfl, hkey, hgo, hstep₁, hrest, hsuffix⟩ :=
    hp.visit (congrArg (·.task.control) hstep) (congrArg (·.task.stack) hstep) rfl hy hc
  obtain ⟨inside', y₂, u, tail', z₂, rest, rfl, hvalue, hgo', hstep₂, hrest, hsuffix'⟩ :=
    hrest.visit (congrArg (·.task.control) hstep₁) (congrArg (·.task.stack) hstep₁) rfl hy hc
  obtain ⟨rfl, vs, hvisits, hwrites⟩ := hrest.stores (labels_node target key value) hstep₂ rfl rfl hy hc
  have hnode : Operand.node target key value (.key target.indexes.length) = key := by simp [Operand.node]
  have hvisited : State.Visits (Operand.node target key value) ctx s
      ((.key target.indexes.length, k) :: (.value, v) :: vs) (⟨true, s⟩ :: (inside ++ tail)) y :=
    .link s.task.clock (.assigns hs) (.visit (by rwa [hnode]) (hgo (.visit hvalue (hgo' hvisits))))
  have hsub : ⟨true, z₂⟩ :: rest ⊆ ⟨true, s⟩ :: (inside ++ tail) := fun m hm =>
    .tail _ (mem_append_right _ (hsuffix.subset (.tail _ (mem_append_right _ (hsuffix'.subset hm)))))
  have horder : ((Operand.key target.indexes.length, k) :: (.value, v) :: vs).map Prod.fst =
      assignOrder target.indexed.isIdent target.indexes.length := by
    rw [map_cons, map_cons, hwrites.order, assignOrder]
  refine ⟨_, k, vs, _, z₂, y, rfl, rfl, hvisited, hsub (.head _), hwrites.mono hsub, horder, ?_⟩
  rw [horder]
  exact ⟨fun i hi => count_key_assignOrder hi, count_value_assignOrder, count_base_assignOrder⟩

def countedIndex : Module := .ofText
  "c = set_reusable([])\ndefun next() -> len(append(c, 0)) - 1\nx = [[1, 10], [2, 20]]\nx $ next() $ 0 = 9\nx"

def countedMachine : Machine :=
  (Machine.boot ⟨⟨""⟩, 10⟩ [] ⟨[], [], []⟩ []).after (.launch ⟨"", ""⟩ countedIndex :: replicate 27 (.step 0 0))

def countedState : State := ⟨countedMachine.world, { countedMachine.main with clock := 0 }⟩

def countedSteps : List Move := .step 0 0 :: replicate 54 (.step 0 0)

def Task.value? (t : Task) : Option Value :=
  match t.control with
  | .done (.value v) => some v
  | _ => none

def State.assignsElement (n : Nat) (s : State) : Bool :=
  match s.task.control with
  | .eval (.indexAssign target _ _ _) _ => target.indexes.length == n && target.indexed.isIdent
  | _ => false

lemma State.control_of_assignsElement {s : State} {n : Nat} (h : s.assignsElement n = true) :
    ∃ target key value span ctx, s.task.control = .eval (.indexAssign target key value span) ctx ∧
      target.indexes.length = n ∧ target.indexed.isIdent = true := by
  unfold assignsElement at h
  split at h
  · rename_i target key value span ctx hcontrol
    simp only [Bool.and_eq_true, beq_iff_eq] at h
    exact ⟨target, key, value, span, ctx, hcontrol, h⟩
  · contradiction

lemma Task.control_of_value? {t : Task} {v : Value} (h : t.value? = some v) : t.control = .done (.value v) := by
  unfold Task.value? at h
  split at h
  · rename_i v' hv
    cases h
    exact hv
  · contradiction

/-- The index before the last one is evaluated before the name, and again after it. -/
theorem counted_index_evaluated_twice : ∃ ms v target key value span ctx visited y,
    countedMachine.Completes 0 0 (replicate 54 (.step 0 0)) countedState ms (.value v) ∧
      countedState.task.control = .eval (.indexAssign target key value span) ctx ∧
      State.Visits (Operand.node target key value) ctx countedState visited ms y ∧
      visited.map Prod.fst = [.key 1, .value, .key 0, .base, .key 0] := by
  -- The run is evaluated once, for all that is needed to know of it.
  have hrun : countedState.assignsElement 1 = true ∧
      countedMachine.seatAfter countedState.task.stack.length 0 countedSteps = some 0 ∧
      (countedMachine.after countedSteps).main.hasReturned countedState.task.stack.length = true ∧
      (countedMachine.after countedSteps).main.value?.isSome = true := by
    decide +kernel
  obtain ⟨hassigns, hseat, hreturned, hvalue⟩ := hrun
  obtain ⟨v, hv⟩ := Option.isSome_iff_exists.1 hvalue
  have hcompletes : countedMachine.Completes 0 0 (replicate 54 (.step 0 0)) countedState
      (countedMachine.moments 0 countedSteps) (.value v) :=
    ⟨rfl, rfl, 0, _, hseat, rfl, hreturned, Task.control_of_value? hv⟩
  obtain ⟨target, key, value, span, ctx, hcontrol, hlength, hident⟩ := State.control_of_assignsElement hassigns
  obtain ⟨n, k, vs, visited, z, y, hn, -, hvisits, -, -, horder, -⟩ :=
    element_indexes_evaluated_again hcompletes hcontrol
  rw [hn, hlength, hident] at horder
  exact ⟨_, v, target, key, value, span, ctx, visited, y, hcompletes, hcontrol, hvisits, horder⟩

def Machine.hasRows (m : Machine) (a b c d : Int64) : Bool :=
  match m.result? with
  | some (.ok (.list [.list [.int p, .int q], .list [.int r, .int s]])) => p == a && q == b && r == c && s == d
  | _ => false

lemma Machine.result?_of_hasRows {m : Machine} {a b c d : Int64} (h : m.hasRows a b c d = true) :
    m.result? = some (.ok (.list [.list [.int a, .int b], .list [.int c, .int d]])) := by
  unfold hasRows at h
  split at h
  · rename_i hm
    simp only [Bool.and_eq_true, beq_iff_eq] at h
    obtain ⟨⟨⟨rfl, rfl⟩, rfl⟩, rfl⟩ := h
    exact hm
  · contradiction

/-- The second row is read and changed, and put in the place of the first one. -/
theorem row_put_back_elsewhere : ∃ m, (Machine.ofProgram 10 countedIndex).Reaches m ∧
    m.result? = some (.ok (.list [.list [.int 9, .int 20], .list [.int 2, .int 20]])) ∧
      m.world.heap.lists.toList.map List.length = [2] := by
  have hends : (stepsOf Machine.advance 85 (Machine.ofProgram 10 countedIndex)).any (fun m =>
      m.hasRows 9 20 2 20 && m.world.heap.lists.toList.map List.length == [2]) = true := by
    decide +kernel
  obtain ⟨m, hm, hresult⟩ := (Option.any_eq_true _ _).1 hends
  obtain ⟨hrows, hcounted⟩ := Bool.and_eq_true_iff.1 hresult
  exact ⟨m, Machine.reaches_of_stepsOf hm, Machine.result?_of_hasRows hrows, beq_iff_eq.1 hcounted⟩

end ScriptMachine
