import ScriptMachine.Proofs.Cells
import ScriptMachine.Proofs.Reread
import ScriptMachine.Proofs.Stages

/-! Assignments to elements of nested containers. -/

namespace ScriptMachine

open List

inductive Place where
  | item (position : Nat)
  | entry (key : String)
deriving DecidableEq

namespace Value

def part? : Value → Place → Option Value
  | .list items, .item p => items[p]?
  | .map entries, .entry key => Dict.get? entries key
  | _, _ => none

def at? (v : Value) : List Place → Option Value
  | [] => some v
  | p :: path => (v.part? p).bind (at? · path)

def put : Value → Place → Value → Value
  | .list items, .item p, u => .list (items.set p u)
  | .map entries, .entry key, u => .map (Dict.insert entries key u)
  | v, _, _ => v

def replaced (v : Value) : List Place → Value → Value
  | [], u => u
  | p :: path, u => v.put p (((v.part? p).getD .nil).replaced path u)

def place? : Value → Value → Option Place
  | .list items, .int i => (position? i items.length).map .item
  | .map _, .str key => some (.entry key)
  | _, _ => none

inductive Enters : Value → List Value → List Place → Value → Prop where
  | here {v} : Enters v [] [] v
  | within {v k p inner ks path c} : v.place? k = some p → v.part? p = some inner → Enters inner ks path c →
      Enters v (k :: ks) (p :: path) c

inductive IsPlain : Value → Prop where
  | list {items} : (∀ v ∈ items, IsPlain v) → IsPlain (.list items)
  | map {entries} : (∀ e ∈ entries, IsPlain e.2) → IsPlain (.map entries)
  | other {v : Value} : v.tag ≠ .list → v.tag ≠ .hashmap → IsPlain v

/-- Something can be stored under a key: an index of a list from either end, or any key of a hashmap. -/
def Accepts : Value → Value → Prop
  | .list items, .int i => -(items.length : ℤ) ≤ i.toInt ∧ i.toInt < items.length
  | .map _, .str _ => True
  | _, _ => False

variable {v u c k : Value} {p q last : Place} {ks : List Value} {path : List Place}

lemma tag_put : (v.put p u).tag = v.tag := by
  cases v <;> cases p <;> rfl

lemma place?_cases (h : v.place? k = some p) : (∃ items i, v = .list items ∧ p = .item i ∧ i < items.length) ∨
    ∃ entries key, v = .map entries ∧ p = .entry key := by
  unfold place? at h
  split at h
  · rename_i items i
    obtain ⟨j, hj, rfl⟩ := Option.map_eq_some_iff.1 h
    exact .inl ⟨items, j, rfl, rfl, position?_lt hj⟩
  · rename_i entries key
    exact .inr ⟨entries, key, rfl, (Option.some.inj h).symm⟩
  · contradiction

lemma part?_put_self (h : v.place? k = some p) : (v.put p u).part? p = some u := by
  rcases place?_cases h with ⟨items, i, rfl, rfl, hlt⟩ | ⟨entries, key, rfl, rfl⟩
  · exact getElem?_set_self hlt
  · exact Dict.get?_insert_self entries key u

lemma part?_put_of_ne (h : v.place? k = some p) (hne : q ≠ p) : (v.put p u).part? q = v.part? q := by
  rcases place?_cases h with ⟨items, i, rfl, rfl, -⟩ | ⟨entries, key, rfl, rfl⟩
  · cases q with
    | item j => exact getElem?_set_ne (by rintro rfl; exact hne rfl)
    | entry => rfl
  · cases q with
    | item => rfl
    | entry other => exact Dict.get?_insert_of_ne entries u (by rintro rfl; exact hne rfl)

lemma replaced_concat (h : v.at? path = some c) : v.replaced (path ++ [p]) u = v.replaced path (c.put p u) := by
  induction path generalizing v with
  | nil =>
    cases h
    rfl
  | cons q path ih =>
    obtain ⟨inner, hinner, h⟩ := Option.bind_eq_some_iff.1 h
    rw [cons_append, replaced, replaced, hinner, Option.getD_some, ih h]

namespace Enters

lemma at? (h : v.Enters ks path c) : v.at? path = some c := by
  induction h with
  | here => rfl
  | within _ hpart _ ih => rw [Value.at?, hpart, Option.bind_some, ih]

lemma of_concat (h : v.Enters (ks ++ [k]) path c) :
    ∃ outer container p, path = outer ++ [p] ∧ v.Enters ks outer container ∧ container.place? k = some p ∧
      container.part? p = some c := by
  induction ks generalizing v path with
  | nil =>
    cases h with
    | within hplace hpart h =>
      cases h
      exact ⟨[], v, _, rfl, .here, hplace, hpart⟩
  | cons k' ks ih =>
    cases h with
    | @within _ _ q _ _ _ _ hplace hpart h =>
      obtain ⟨outer, container, p, rfl, houter, hlast⟩ := ih h
      exact ⟨q :: outer, container, p, rfl, .within hplace hpart houter, hlast⟩

variable (h : v.Enters ks path c) (hlast : c.place? k = some last)
include h hlast

lemma at?_replaced : (v.replaced (path ++ [last]) u).at? (path ++ [last]) = some u := by
  induction h with
  | here =>
    change ((put _ last u).part? last).bind _ = some u
    rw [part?_put_self hlast]
    rfl
  | within hplace hpart _ ih =>
    rw [cons_append, replaced, hpart, Option.getD_some, Value.at?, part?_put_self hplace]
    exact ih hlast

lemma at?_replaced_of_apart {q : List Place} (hq : ¬ path ++ [last] <+: q) (hq' : ¬ q <+: path ++ [last]) :
    (v.replaced (path ++ [last]) u).at? q = v.at? q := by
  induction h generalizing q with
  | @here v =>
    cases q with
    | nil => exact absurd nil_prefix hq'
    | cons p q =>
      have hne : p ≠ last := by
        rintro rfl
        exact hq (cons_prefix_cons.2 ⟨rfl, nil_prefix⟩)
      change ((v.put last u).part? p).bind _ = _
      rw [part?_put_of_ne hlast hne]
      rfl
  | @within v _ p _ _ path _ hplace hpart _ ih =>
    rw [cons_append, replaced, hpart, Option.getD_some]
    cases q with
    | nil => exact absurd nil_prefix hq'
    | cons p' q =>
      rw [Value.at?, Value.at?]
      by_cases hne : p' = p
      · subst hne
        rw [part?_put_self hplace, hpart]
        refine ih hlast (fun hle => hq ?_) fun hle => hq' ?_
        · exact cons_prefix_cons.2 ⟨rfl, hle⟩
        · exact cons_prefix_cons.2 ⟨rfl, hle⟩
      · rw [part?_put_of_ne hplace hne]

lemma tag_replaced {q : List Place} (hq : q <+: path) :
    ((v.replaced (path ++ [last]) u).at? q).map tag = (v.at? q).map tag := by
  induction h generalizing q with
  | here =>
    obtain rfl := prefix_nil.1 hq
    exact congrArg some tag_put
  | @within v _ p _ _ path _ hplace hpart _ ih =>
    rw [cons_append, replaced, hpart, Option.getD_some]
    cases q with
    | nil => exact congrArg some tag_put
    | cons p' q =>
      obtain ⟨rfl, hrest⟩ := cons_prefix_cons.1 hq
      rw [Value.at?, Value.at?, part?_put_self hplace, hpart]
      exact ih hlast hrest

end Enters

lemma accepts_iff : c.Accepts k ↔ ∃ p, c.place? k = some p := by
  unfold Accepts place?
  split
  · rename_i items i
    simp only [position?, Option.map_eq_some_iff, Option.ite_none_right_eq_some, Option.some.injEq]
    constructor
    · intro h
      exact ⟨_, _, ⟨by split <;> omega, rfl⟩, rfl⟩
    · rintro ⟨-, -, ⟨h, -⟩, -⟩
      split at h <;> omega
  · simp
  · simp

end Value

def Heap.follow (h : Heap) (v : Value) (ks : List Value) : Except Fault Value := ks.foldlM h.index v

namespace Heap

variable {h : Heap} {v u c k : Value} {p : Place} {ks : List Value} {path : List Place}

lemma follow_concat : h.follow v (ks ++ [k]) = (h.follow v ks).bind (h.index · k) := by
  rw [follow, foldlM_append]
  cases hv : List.foldlM h.index v ks with
  | error => rw [follow, hv]; rfl
  | ok c =>
    rw [follow, hv]
    change (h.index c k >>= fun b => pure b) = h.index c k
    exact bind_pure _

lemma index_list (items : List Value) (i : Int64) : h.index (.list items) (.int i) = element "list" i items id := rfl

lemma index_map (entries : List (String × Value)) (key : String) : h.index (.map entries) (.str key) =
    match Dict.get? entries key with
    | some v => .ok v
    | none => .error (.keyNotFound key entries.length) := rfl

lemma setIndex_list (items : List Value) (i : Int64) (u : Value) : h.setIndex (.list items) (.int i) u =
    match position? i items.length with
    | some p => .ok (.list (items.set p u), h)
    | none => .error (.indexOutOfBounds "list" i items.length) := rfl

lemma index_of_place? (hplace : v.place? k = some p) (hpart : v.part? p = some c) : h.index v k = .ok c := by
  unfold Value.place? at hplace
  split at hplace
  · rename_i items i
    obtain ⟨j, hj, rfl⟩ := Option.map_eq_some_iff.1 hplace
    rw [index_list, element, hj, Option.bind_some, show items[j]? = some c from hpart]
    rfl
  · rename_i entries key
    cases hplace
    rw [index_map, show Dict.get? entries key = some c from hpart]
  · contradiction

lemma follow_of_enters (henters : v.Enters ks path c) : h.follow v ks = .ok c := by
  induction henters with
  | here => rfl
  | within hplace hpart _ ih =>
    rw [follow, foldlM_cons, index_of_place? hplace hpart]
    exact ih

lemma index_plain (hv : v.IsPlain) (hindex : h.index v k = .ok c) :
    c.IsPlain ∧ ((c.tag = .list ∨ c.tag = .hashmap) → ∃ p, v.place? k = some p ∧ v.part? p = some c) := by
  cases hv with
  | @list items hitems =>
    cases k with
    | int i =>
      rw [index_list, element] at hindex
      split at hindex
      · rename_i item hitem
        cases hindex
        obtain ⟨p, hp, hpart⟩ := Option.bind_eq_some_iff.1 hitem
        exact ⟨hitems _ (mem_of_getElem? hpart), fun _ => ⟨.item p, congrArg (Option.map Place.item) hp, hpart⟩⟩
      · contradiction
    | _ => contradiction
  | @map entries hentries =>
    cases k with
    | str key =>
      rw [index_map] at hindex
      split at hindex
      · rename_i inner hinner
        cases hindex
        exact ⟨hentries _ (Dict.mem_of_get? hinner), fun _ => ⟨.entry key, rfl, hinner⟩⟩
      · contradiction
    | _ => contradiction
  | other hlist hmap =>
    -- only texts and bytes have elements then, which are no containers
    have helement {α : Type} {container : String} {i : Int64} {items : List α} {wrap : α → Value}
        (hwrap : ∀ a, (wrap a).tag ≠ .list ∧ (wrap a).tag ≠ .hashmap) (hc : element container i items wrap = .ok c) :
        c.tag ≠ .list ∧ c.tag ≠ .hashmap := by
      unfold element at hc
      split at hc
      · exact Except.ok.inj hc ▸ hwrap _
      · contradiction
    have hc : c.tag ≠ .list ∧ c.tag ≠ .hashmap := by
      cases v with
      | list | sharedList => exact absurd rfl hlist
      | map | sharedMap => exact absurd rfl hmap
      | str | bytes =>
        cases k with
        | int i => exact helement (fun _ => by simp [Value.tag]) hindex
        | _ => contradiction
      | _ => contradiction
    exact ⟨.other hc.1 hc.2, fun hcontainer => absurd hcontainer (not_or.2 hc)⟩

lemma tag_of_place? (hplace : v.place? k = some p) : v.tag = .list ∨ v.tag = .hashmap := by
  rcases Value.place?_cases hplace with ⟨items, i, rfl, -⟩ | ⟨entries, key, rfl, -⟩
  · exact .inl rfl
  · exact .inr rfl

lemma follow_plain (hv : v.IsPlain) (hfollow : h.follow v ks = .ok c) :
    c.IsPlain ∧ ((c.tag = .list ∨ c.tag = .hashmap) → ∃ path, v.Enters ks path c) := by
  induction ks generalizing v with
  | nil =>
    cases hfollow
    exact ⟨hv, fun _ => ⟨[], .here⟩⟩
  | cons k ks ih =>
    rw [follow, foldlM_cons] at hfollow
    cases hindex : h.index v k with
    | error f =>
      rw [hindex] at hfollow
      contradiction
    | ok inner =>
      rw [hindex] at hfollow
      obtain ⟨hinner, hplace⟩ := index_plain hv hindex
      obtain ⟨hc, hpath⟩ := ih hinner hfollow
      refine ⟨hc, fun hcontainer => ?_⟩
      obtain ⟨path, henters⟩ := hpath hcontainer
      have hin : inner.tag = .list ∨ inner.tag = .hashmap := by
        cases henters with
        | here => exact hcontainer
        | within hplace _ _ => exact tag_of_place? hplace
      obtain ⟨p, hp, hpart⟩ := hplace hin
      exact ⟨p :: path, .within hp hpart henters⟩

lemma setIndex_of_place? (hplace : v.place? k = some p) : h.setIndex v k u = .ok (v.put p u, h) := by
  unfold Value.place? at hplace
  split at hplace
  · rename_i items i
    obtain ⟨j, hj, rfl⟩ := Option.map_eq_some_iff.1 hplace
    rw [setIndex_list, hj]
    rfl
  · cases hplace
    rfl
  · contradiction

lemma setIndex_of_not_accepts (hv : v.IsPlain) (hk : ¬ v.Accepts k) : ∃ f, h.setIndex v k u = .error f := by
  have hnone : v.place? k = none := by
    rw [Value.accepts_iff, not_exists] at hk
    exact Option.eq_none_iff_forall_ne_some.2 hk
  cases hv with
  | @list items _ =>
    cases k with
    | int i =>
      have hi : position? i items.length = none := Option.map_eq_none_iff.1 hnone
      exact ⟨.indexOutOfBounds "list" i items.length, by rw [setIndex_list, hi]⟩
    | _ => exact ⟨_, rfl⟩
  | map =>
    cases k with
    | str key => contradiction
    | _ => exact ⟨_, rfl⟩
  | other hlist hmap =>
    cases v with
    | list | sharedList => exact absurd rfl hlist
    | map | sharedMap => exact absurd rfl hmap
    | _ => exact ⟨_, rfl⟩

end Heap

section assignment

inductive Constant (w : World) (ctx : Context) : Node → Value → Prop where
  | int {n span} : n < Number.wordBound → Constant w ctx (.int n span) (.int (Int64.ofNat n))
  | float {x span} : Constant w ctx (.float x span) (.float x)
  | str {text span} : Constant w ctx (.str text span) (.str text)
  | negativeInt {n span span'} : n < Number.wordBound →
      Constant w ctx (.unary .minus (.int n span) span') (.int (Int64.ofInt (-n)))
  | negativeFloat {x span span'} : Constant w ctx (.unary .minus (.float x span) span') (.float (-x))
  | name {x span v} : ctx.lookup w.tables x = some v → Constant w ctx (.ident x span) v
  | list {parts : List (Node × Value)} {span} : (∀ e ∈ parts, Constant w ctx e.1 e.2) →
      Constant w ctx (.list (parts.map (·.1)) span) (.list (parts.map (·.2)))
  | map {parts : List (String × Span × Node × Value)} {span} : (∀ e ∈ parts, Constant w ctx e.2.2.1 e.2.2.2) →
      Constant w ctx (.map (parts.map fun e => (.str e.1 e.2.1, e.2.2.1)) span)
        (.map (Dict.ofList (parts.map fun e => (e.1, e.2.2.2))))

inductive Element (w : World) (ctx : Context) (name : String) : Node → List Value → Prop where
  | name {place} : Element w ctx name (.ident name place) []
  | index {target key span ks k} : Element w ctx name target ks → Constant w ctx key k →
      Element w ctx name (.binary .index target key span) (ks ++ [k])

variable {w : World} {ctx : Context}

lemma Constant.evaluates {n : Node} {v : Value} (h : Constant w ctx n v) : Evaluates w ctx n v := by
  induction h with
  | int => exact evaluates_int
  | float => exact fun _ _ => .single fun _ => ⟨rfl, rfl⟩
  | str => exact evaluates_str
  | @negativeInt n _ _ hn =>
    refine evaluates_unary evaluates_int (Value.IsData.negate_ofNat hn (Int64.toInt_ofInt_of_le ?_ ?_))
    all_goals simp only [Number.wordBound] at hn; omega
  | negativeFloat => exact evaluates_unary (fun _ _ => .single fun _ => ⟨rfl, rfl⟩) rfl
  | name hlookup => exact evaluates_ident hlookup
  | @list parts _ _ ih =>
    refine evaluates_list ?_
    rw [forall₂_map_left_iff, forall₂_map_right_iff, forall₂_same]
    exact ih
  | @map parts _ _ ih =>
    refine evaluates_map ?_
    rw [forall₂_map_left_iff, forall₂_map_right_iff, forall₂_same]
    exact fun e he => ⟨evaluates_str, ih e he⟩

def Fails (w : World) (ctx : Context) (n : Node) : Prop :=
  ∃ f, ∀ (t : Task) (stack : List Frame), Goes w t (.eval n ctx, stack) (.done (.error f), stack)

section index

variable {left right : Node} {span : Span} {a k c : Value}

lemma goes_index (hleft : Evaluates w ctx left a) (hright : Evaluates w ctx right k) (t : Task) (stack : List Frame) :
    Goes w t (.eval (.binary .index left right span) ctx, stack)
      (.done (.value k), .binaryRight .index a span ctx :: stack) :=
  .head (fun _ => ⟨rfl, rfl⟩) (.trans (hleft t (.binaryLeft .index right span ctx :: stack))
    (.head (fun _ => ⟨rfl, rfl⟩) (hright t _)))

lemma evaluates_index (hleft : Evaluates w ctx left a) (hright : Evaluates w ctx right k)
    (hindex : w.heap.index a k = .ok c) : Evaluates w ctx (.binary .index left right span) c := by
  refine fun t stack => (goes_index hleft hright t stack).tail fun clock => ⟨rfl, ?_⟩
  change State.applyBinary ⟨w, _⟩ .index a k span ctx = _
  rw [State.applyBinary_eq, Heap.binary, hindex]
  rfl

lemma fails_index (hleft : Evaluates w ctx left a) (hright : Evaluates w ctx right k) {f : Fault}
    (hindex : w.heap.index a k = .error f) : Fails w ctx (.binary .index left right span) := by
  refine ⟨f.at_ span ctx, fun t stack => (goes_index hleft hright t stack).tail fun clock => ⟨rfl, ?_⟩⟩
  change State.applyBinary ⟨w, _⟩ .index a k span ctx = _
  rw [State.applyBinary_eq, Heap.binary, hindex]
  rfl

lemma fails_index_left (hleft : Fails w ctx left) : Fails w ctx (.binary .index left right span) := by
  obtain ⟨f, hleft⟩ := hleft
  exact ⟨f, fun t stack => .head (fun _ => ⟨rfl, rfl⟩)
    (.tail (hleft t (.binaryLeft .index right span ctx :: stack)) fun _ => ⟨rfl, rfl⟩)⟩

lemma fails_ident {name : String} (h : ctx.lookup w.tables name = none) : Fails w ctx (.ident name span) := by
  refine ⟨(Fault.undefined name).at_ span ctx, fun t stack => .single fun clock => ⟨rfl, ?_⟩⟩
  change State.evalNode ⟨w, _⟩ (.ident name span) ctx = _
  rw [State.evalNode, State.lookup, h]
  rfl

end index

namespace Element

variable {name : String} {target : Node} {ks : List Value} {root c : Value}

lemma evaluates (h : Element w ctx name target ks) (hroot : ctx.lookup w.tables name = some root)
    (hfollow : w.heap.follow root ks = .ok c) : Evaluates w ctx target c := by
  induction h generalizing c with
  | name =>
    cases hfollow
    exact evaluates_ident hroot
  | @index target key span ks k _ hkey ih =>
    rw [Heap.follow_concat] at hfollow
    cases houter : w.heap.follow root ks with
    | error f =>
      rw [houter] at hfollow
      contradiction
    | ok outer =>
      rw [houter] at hfollow
      exact evaluates_index (ih houter) hkey.evaluates hfollow

lemma fails (h : Element w ctx name target ks)
    (hnone : ¬ ∃ root c, ctx.lookup w.tables name = some root ∧ w.heap.follow root ks = .ok c) :
    Fails w ctx target := by
  induction h with
  | name =>
    refine fails_ident (Option.eq_none_iff_forall_ne_some.2 fun root hroot => hnone ⟨root, root, hroot, rfl⟩)
  | @index target key span ks k h hkey ih =>
    by_cases houter : ∃ root c, ctx.lookup w.tables name = some root ∧ w.heap.follow root ks = .ok c
    · obtain ⟨root, outer, hroot, houter⟩ := houter
      cases hindex : w.heap.index outer k with
      | error f => exact fails_index (h.evaluates hroot houter) hkey.evaluates hindex
      | ok c =>
        refine absurd ⟨root, c, hroot, ?_⟩ hnone
        rw [Heap.follow_concat, houter]
        exact hindex
    · exact fails_index_left (ih houter)

end Element

structure Stores (t : Task) (w : World) (ctx : Context) (span : Span) (result : Value) (stack : List Frame)
    (work : Control × List Frame) (target : Node) (key u : Value) : Prop where
  busy (clock : Nat) : State.isBusy ⟨w, t.doing work clock⟩ = true
  step (clock : Nat) : State.step ⟨w, t.doing work clock⟩ =
    State.store ⟨w, t.doing (work.1, stack) clock⟩ target key u result span ctx

namespace Stores

variable {t : Task} {span : Span} {result : Value} {stack : List Frame} {work : Control × List Frame} {target : Node}
  {key u root c : Value} {name : String} {ks : List Value} {path : List Place} {p : Place}

lemma goes_container {left right : Node} {place : Span} {k : Value} {end_ : Completion}
    (h : Stores t w ctx span result stack work (.binary .index left right place) key u) (hkey : Evaluates w ctx right k)
    (hcontainer : ∀ stack, Goes w t (.eval (.binary .index left right place) ctx, stack) (.done end_, stack)) :
    Goes w t work (.done end_, .storeContainer (some (left, k)) key u result span ctx :: stack) :=
  .head (fun clock => ⟨h.busy clock, (h.step clock).trans rfl⟩)
    (.trans (hkey t (.storeOuterKey left (.binary .index left right place) key u result span ctx :: stack))
      (.head (fun _ => ⟨rfl, rfl⟩) (hcontainer _)))

theorem comes (h : Stores t w ctx span result stack work target key u) (htarget : Element w ctx name target ks)
    (hroot : ctx.lookup w.tables name = some root) (henters : root.Enters ks path c) (hplace : c.place? key = some p) :
    Stage.Comes t (w, work) (w.assigned ctx name (root.replaced (path ++ [p]) u), .done (.value result), stack) := by
  induction htarget generalizing work key u path c p with
  | @name place =>
    cases henters
    refine .single ⟨h.busy, fun clock => ?_, rfl⟩
    have hshared : (root.put p u).isShared = false := by
      rcases Value.place?_cases hplace with ⟨_, _, rfl, rfl, _⟩ | ⟨_, _, rfl, rfl⟩ <;> rfl
    rw [h.step, State.store, State.lookup, hroot]
    dsimp only
    rw [Heap.setIndex_of_place? hplace]
    dsimp only
    rw [hshared]
    rfl
  | @index target right place ks k htarget hkey ih =>
    have hc : Evaluates w ctx (.binary .index target right place) c :=
      (Element.index htarget hkey).evaluates hroot (Heap.follow_of_enters henters)
    -- The container is read with the keys that led to it, so the changed one goes where it was.
    obtain ⟨outer, container, q, rfl, houter, hq, -⟩ := henters.of_concat
    rw [Value.replaced_concat henters.at?]
    refine (h.goes_container hkey.evaluates (hc t)).comes.trans (ih ⟨fun _ => rfl, fun clock => ?_⟩ houter hq)
    change State.storeIn ⟨w, _⟩ c (some (target, k)) key u result span ctx = _
    rw [State.storeIn, Heap.setIndex_of_place? hplace]
    rfl

theorem fails (h : Stores t w ctx span result stack work target key u) (htarget : Element w ctx name target ks)
    (hplain : ∀ root, ctx.lookup w.tables name = some root → root.IsPlain)
    (hnone : ¬ ∃ root c, ctx.lookup w.tables name = some root ∧ w.heap.follow root ks = .ok c ∧ c.Accepts key) :
    ∃ f, Goes w t work (.done (.error f), stack) := by
  cases htarget with
  | @name place =>
    cases hroot : ctx.lookup w.tables name with
    | none =>
      refine ⟨(Fault.undefined name).at_ place ctx, .single fun clock => ⟨h.busy clock, ?_⟩⟩
      rw [h.step, State.store, State.lookup, hroot]
      rfl
    | some root =>
      obtain ⟨f, hf⟩ := Heap.setIndex_of_not_accepts (h := w.heap) (u := u) (hplain root hroot)
        fun hk => hnone ⟨root, root, hroot, rfl, hk⟩
      refine ⟨f.at_ span ctx, .single fun clock => ⟨h.busy clock, ?_⟩⟩
      rw [h.step, State.store, State.lookup, hroot]
      dsimp only
      rw [hf]
      rfl
  | @index target right place ks k htarget hkey =>
    have hindex : Element w ctx name (.binary .index target right place) (ks ++ [k]) := .index htarget hkey
    -- Either the container is there and does not take the key, or it cannot be read.
    by_cases hread : ∃ root c, ctx.lookup w.tables name = some root ∧ w.heap.follow root (ks ++ [k]) = .ok c
    · obtain ⟨root, c, hroot, hfollow⟩ := hread
      obtain ⟨f, hf⟩ := Heap.setIndex_of_not_accepts (h := w.heap) (u := u)
        (Heap.follow_plain (hplain root hroot) hfollow).1 fun hk => hnone ⟨root, c, hroot, hfollow, hk⟩
      have hc := h.goes_container hkey.evaluates (hindex.evaluates hroot hfollow t)
      refine ⟨f.at_ span ctx, hc.tail fun clock => ⟨rfl, ?_⟩⟩
      change State.storeIn ⟨w, _⟩ c (some (target, k)) key u result span ctx = _
      rw [State.storeIn, hf]
      rfl
    · obtain ⟨f, hf⟩ := hindex.fails hread
      exact ⟨f, (h.goes_container hkey.evaluates (hf t)).tail fun _ => ⟨rfl, rfl⟩⟩

end Stores

variable {t : Task} {name : String} {target key value : Node} {ks : List Value} {k v : Value}

lemma goes_storeValue (hkey : Evaluates w ctx key k) (hvalue : Evaluates w ctx value v) (t : Task) (target : Node)
    (span : Span) (stack : List Frame) :
    Goes w t (.eval (.indexAssign target key value span) ctx, stack)
      (.done (.value v), .storeValue target k span ctx :: stack) :=
  .head (fun _ => ⟨rfl, rfl⟩) (.trans (hkey t (.storeKey target value span ctx :: stack))
    (.head (fun _ => ⟨rfl, rfl⟩) (hvalue t _)))

/-- An assignment to an element of a name, with constants for the indexes and the value, is made as a whole or not at
all. It is made if and only if the name is bound, the keys lead to a container and the last key fits there. Then the
name has the old value with the new one at the path of the keys: what is off the path, and every other name, is as it
was, and the containers on the path are lists and hashmaps as before. Otherwise it fails and nothing has changed. -/
theorem element_assigned_or_unchanged (hborn : w.born = []) (htarget : Element w ctx name target ks)
    (hkey : Constant w ctx key k) (hvalue : Constant w ctx value v)
    (hplain : ∀ root, ctx.lookup w.tables name = some root → root.IsPlain) (span : Span) (stack : List Frame)
    (clock : Nat) :
    (∀ root c, ctx.lookup w.tables name = some root → w.heap.follow root ks = .ok c → c.Accepts k →
      ∃ path last new clock', root.Enters ks path c ∧ c.place? k = some last ∧
        new = root.replaced (path ++ [last]) v ∧
        State.Runs ⟨w, t.doing (.eval (.indexAssign target key value span) ctx, stack) clock⟩
          ⟨w.assigned ctx name new, t.doing (.done (.value v), stack) clock'⟩ ∧
        new.at? (path ++ [last]) = some v ∧
        (∀ q, ¬ path ++ [last] <+: q → ¬ q <+: path ++ [last] → new.at? q = root.at? q) ∧
        (∀ q, q <+: path → (new.at? q).map Value.tag = (root.at? q).map Value.tag) ∧
        (∀ id other, other ≠ name →
          ((w.assigned ctx name new).tables.table id).get? other = (w.tables.table id).get? other) ∧
        (ctx.Stands w.tables → ctx.lookup (w.assigned ctx name new).tables name = some new)) ∧
    ((¬ ∃ root c, ctx.lookup w.tables name = some root ∧ w.heap.follow root ks = .ok c ∧ c.Accepts k) →
      ∃ f clock', State.Runs ⟨w, t.doing (.eval (.indexAssign target key value span) ctx, stack) clock⟩
        ⟨w, t.doing (.done (.error f), stack) clock'⟩) := by
  have hgoes := goes_storeValue hkey.evaluates hvalue.evaluates t target span stack
  have hstores : Stores t w ctx span v stack (.done (.value v), .storeValue target k span ctx :: stack) target k v :=
    ⟨fun _ => rfl, fun _ => rfl⟩
  refine ⟨fun root c hroot hfollow haccepts => ?_, fun hnone => ?_⟩
  · obtain ⟨last, hlast⟩ := Value.accepts_iff.1 haccepts
    obtain ⟨path, henters⟩ := (Heap.follow_plain (hplain root hroot) hfollow).2 (Heap.tag_of_place? hlast)
    have hcomes := hgoes.comes.trans (hstores.comes htarget hroot henters hlast)
    obtain ⟨clock', hruns⟩ := Stage.Comes.runs hcomes hborn clock
    exact ⟨path, last, root.replaced (path ++ [last]) v, clock', henters, hlast, rfl, hruns,
      henters.at?_replaced hlast, fun q hq hq' => henters.at?_replaced_of_apart hlast hq hq',
      fun q hq => henters.tag_replaced hlast hq, fun id other hne => Context.get?_assign_of_ne hne id,
      Context.lookup_assign_self⟩
  · obtain ⟨f, hf⟩ := hstores.fails htarget hplain hnone
    obtain ⟨clock', hruns⟩ := (Goes.comes (hgoes.trans hf)).runs hborn clock
    exact ⟨f, clock', hruns⟩

def nestedValue : Value := .list [.int 7, .map [("a", .list [.int 1, .int 2])]]

def nestedWorld : World := freshEntry.2.world.assigned freshEntry.1 "x" nestedValue

def nestedTarget : Node :=
  .binary .index (.binary .index (.ident "x" (.point 0)) (.unary .minus (.int 1 (.point 0)) (.point 0)) (.point 0))
    (.str "a" (.point 0)) (.point 0)

def nestedStart (i : Nat) : State :=
  ⟨nestedWorld, freshEntry.2.task.doing
    (.eval (.indexAssign nestedTarget (.int i (.point 0)) (.str "new" (.point 0)) (.point 0)) freshEntry.1, []) 0⟩

lemma nestedValue_isPlain : nestedValue.IsPlain := by
  have hnumber (n : Int64) : (Value.int n).IsPlain := .other nofun nofun
  have hinner : (Value.list [.int 1, .int 2]).IsPlain := by
    refine .list fun v hv => ?_
    simp only [mem_cons, not_mem_nil, or_false] at hv
    rcases hv with rfl | rfl <;> exact hnumber _
  refine .list fun v hv => ?_
  simp only [mem_cons, not_mem_nil, or_false] at hv
  rcases hv with rfl | rfl
  · exact hnumber 7
  · refine .map fun e he => ?_
    obtain rfl := mem_singleton.1 he
    exact hinner

theorem element_assigned_in_nested :
    nestedWorld.born = [] ∧ nestedValue.IsPlain ∧
    (∃ clock', State.Runs (nestedStart 0)
      ⟨nestedWorld.assigned freshEntry.1 "x" (.list [.int 7, .map [("a", .list [.str "new", .int 2])]]),
        freshEntry.2.task.doing (.done (.value (.str "new")), []) clock'⟩) ∧
    ∃ f clock', State.Runs (nestedStart 2) ⟨nestedWorld, freshEntry.2.task.doing (.done (.error f), []) clock'⟩ := by
  have hroot : freshEntry.1.lookup nestedWorld.tables "x" = some nestedValue :=
    Context.lookup_assign_self stands_freshEntry
  have hplain (root : Value) (h : freshEntry.1.lookup nestedWorld.tables "x" = some root) : root.IsPlain :=
    Option.some.inj (hroot.symm.trans h) ▸ nestedValue_isPlain
  have htarget : Element nestedWorld freshEntry.1 "x" nestedTarget [.int (Int64.ofInt (-(1 : Nat))), .str "a"] :=
    .index (.index .name (.negativeInt (by decide))) .str
  have hfollow : nestedWorld.heap.follow nestedValue [.int (Int64.ofInt (-(1 : Nat))), .str "a"] =
      .ok (.list [.int 1, .int 2]) := rfl
  have hkey (i : Nat) (hi : i < 3) :
      Constant nestedWorld freshEntry.1 (.int i (.point 0)) (.int (Int64.ofNat i)) := .int (hi.trans (by decide))
  have hvalue : Constant nestedWorld freshEntry.1 (.str "new" (.point 0)) (.str "new") := .str
  have hassigned (i : Nat) (hi : i < 3) := element_assigned_or_unchanged (t := freshEntry.2.task) rfl htarget
    (hkey i hi) hvalue hplain (.point 0) [] 0
  refine ⟨rfl, nestedValue_isPlain, ?_, ?_⟩
  · obtain ⟨path, last, new, clock', henters, hlast, rfl, hruns, -⟩ :=
      (hassigned 0 (by decide)).1 nestedValue _ hroot hfollow ⟨by decide, by decide⟩
    cases henters with
    | within hp hpart hrest =>
      cases hp
      cases hpart
      cases hrest with
      | within hq _ hrest =>
        cases hrest
        cases hq
        cases hlast
        exact ⟨clock', hruns⟩
  · refine (hassigned 2 (by decide)).2 ?_
    rintro ⟨root, c, h, hc, hk⟩
    obtain rfl := Option.some.inj (hroot.symm.trans h)
    obtain rfl := Except.ok.inj (hfollow.symm.trans hc)
    exact absurd hk.2 (by decide)

end assignment

end ScriptMachine
