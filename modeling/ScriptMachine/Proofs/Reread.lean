import ScriptMachine.Proofs.DataText
import ScriptMachine.Proofs.Evaluation
import ScriptMachine.Proofs.Tables

/-! Printed data is read again as itself: a program that is the text of plain data has that data as its value. -/

namespace ScriptMachine

open List

variable {name : String}

namespace Dict

variable {α : Type}

lemma insert_of_forall_lt {d : Dict α} {key : String} (h : ∀ e ∈ d, e.1 < key) (value : α) :
    d.insert key value = d ++ [(key, value)] := by
  induction d with
  | nil => rfl
  | cons e d ih =>
    have he : e.1 < key := h e (by simp)
    rw [insert, if_neg he.ne', if_neg he.asymm, ih fun f hf => h f (by simp [hf])]
    rfl

lemma union_of_ordered {d extra : Dict α} (h : Ordered (d ++ extra)) : d.union extra = d ++ extra := by
  induction extra generalizing d with
  | nil => simp [union]
  | cons e extra ih =>
    have hlt : ∀ f ∈ d, f.1 < e.1 := fun f hf => (pairwise_append.1 h).2.2 f hf e (by simp)
    have hinsert := insert_of_forall_lt hlt e.2
    change union (d.insert e.1 e.2) extra = _
    rw [hinsert, ih (by simpa [Ordered] using h)]
    simp

lemma ofList_of_ordered {d : Dict α} (h : Ordered d) : ofList d = d := union_of_ordered h

lemma get?_of_mem {d : Dict α} (h : Ordered d) {e : String × α} (he : e ∈ d) : d.get? e.1 = some e.2 := by
  induction d with
  | nil => simp at he
  | cons first d ih =>
    obtain ⟨hfirst, hrest⟩ := pairwise_cons.1 h
    rcases mem_cons.1 he with rfl | hmem
    · exact if_pos rfl
    · exact (if_neg (hfirst e hmem).ne).trans (ih hrest hmem)

lemma union_append (d extra more : Dict α) : d.union (extra ++ more) = (d.union extra).union more :=
  foldl_append

end Dict

structure BindsWords (w : World) (ctx : Context) : Prop where
  none : ctx.lookup w.tables "none" = some .nil
  bool : ∀ b, ctx.lookup w.tables (Value.word b) = some (.bool b)

namespace Value.IsData

variable {v : Value}

lemma ofNat_eq {n : Int64} {k : Nat} (h : n.toInt = k) : Int64.ofNat k = n := by
  rw [← Int64.ofInt_eq_ofNat, ← h, Int64.ofInt_toInt]

lemma negate_ofNat {n : Int64} {k : Nat} (hk : k < Number.wordBound) (h : n.toInt = -k) :
    Value.negate (.int (Int64.ofNat k)) = .ok (.int n) := by
  have hto : (Int64.ofNat k).toInt = k := Int64.toInt_ofNat_of_lt (by simpa [Number.wordBound] using hk)
  rw [negate, hto, ← h, ofExact, Number.word?_toInt, ofChecked]

end Value.IsData

namespace Node.Like

variable {n : Node} {span : Span}

lemma ident (h : (Node.ident name span).Like n) : ∃ place, n = .ident name place := by
  cases n <;> simp_all [Node.Like, Node.unplaced]

lemma int {k : Nat} (h : (Node.int k span).Like n) : ∃ place, n = .int k place := by
  cases n <;> simp_all [Node.Like, Node.unplaced]

lemma str {text : String} (h : (Node.str text span).Like n) : ∃ place, n = .str text place := by
  cases n <;> simp_all [Node.Like, Node.unplaced]

lemma unary {op : UnaryOp} {operand : Node} (h : (Node.unary op operand span).Like n) :
    ∃ part place, n = .unary op part place ∧ operand.Like part := by
  cases n <;> simp_all [Node.Like, Node.unplaced]

lemma list {elements : List Node} (h : (Node.list elements span).Like n) :
    ∃ parts place, n = .list parts place ∧ Forall₂ Node.Like elements parts := by
  cases n with
  | list parts place =>
    refine ⟨parts, place, rfl, ?_⟩
    simp only [Node.Like, Node.unplaced, Node.list.injEq, and_true, unplacedNodes_eq_map] at h
    rw [← forall₂_eq_eq_eq, forall₂_map_left_iff, forall₂_map_right_iff] at h
    exact h.flip
  | _ => simp [Node.Like, Node.unplaced] at h

lemma map {entries : List (Node × Node)} (h : (Node.map entries span).Like n) :
    ∃ parts place, n = .map parts place ∧ Forall₂ (fun e p => e.1.Like p.1 ∧ e.2.Like p.2) entries parts := by
  cases n with
  | map parts place =>
    refine ⟨parts, place, rfl, ?_⟩
    simp only [Node.Like, Node.unplaced, Node.map.injEq, and_true, unplacedPairs_eq_map] at h
    rw [← forall₂_eq_eq_eq, forall₂_map_left_iff, forall₂_map_right_iff] at h
    exact h.flip.imp fun e p hp => by simpa using hp
  | _ => simp [Node.Like, Node.unplaced] at h

end Node.Like

namespace Value.IsData

variable {v : Value}

lemma evaluates (h : v.IsData) {n : Node} (hn : v.literal.Like n) {w : World} {ctx : Context} (hc : BindsWords w ctx) :
    Evaluates w ctx n v := by
  induction h generalizing n with
  | nil =>
    obtain ⟨place, rfl⟩ := hn.ident
    exact evaluates_ident hc.none
  | @bool b =>
    obtain ⟨place, rfl⟩ := hn.ident
    exact evaluates_ident (hc.bool b)
  | str =>
    obtain ⟨place, rfl⟩ := hn.str
    exact evaluates_str
  | @int i hi =>
    have hlt := natAbs_lt hi
    rw [literal] at hn
    cases hint : i.toInt with
    | ofNat k =>
      rw [hint] at hn
      obtain ⟨place, rfl⟩ := hn.int
      exact ofNat_eq hint ▸ evaluates_int
    | negSucc k =>
      rw [hint] at hn hlt
      obtain ⟨part, place, rfl, hpart⟩ := hn.unary
      obtain ⟨place, rfl⟩ := hpart.int
      exact evaluates_unary evaluates_int (negate_ofNat hlt hint)
  | @list items _ ih =>
    rw [literal, itemLiterals_eq_map] at hn
    obtain ⟨parts, place, rfl, hparts⟩ := hn.list
    rw [forall₂_map_left_iff] at hparts
    have hboth := (forall₂_and_left items parts).2 ⟨ih, hparts⟩
    exact evaluates_list (Forall₂.flip (hboth.imp fun _ _ h => h.1 h.2))
  | @map entries ho _ ih =>
    rw [literal, entryLiterals_eq_map] at hn
    obtain ⟨parts, place, rfl, hparts⟩ := hn.map
    rw [forall₂_map_left_iff] at hparts
    have hboth := (forall₂_and_left entries parts).2 ⟨ih, hparts⟩
    have hentries : Forall₂ (fun n e => Evaluates w ctx n.1 (.str e.1) ∧ Evaluates w ctx n.2 e.2) parts
      entries := by
      refine Forall₂.flip (hboth.imp fun e p h => ⟨?_, h.1 h.2.2⟩)
      obtain ⟨place, hp⟩ := h.2.1.str
      exact hp ▸ evaluates_str
    exact Dict.ofList_of_ordered ho ▸ evaluates_map hentries

lemma view (h : v.IsData) (heap : Heap) : heap.view v = v := by
  have hwith : ∀ inner, heap.viewWith inner v = v := by
    intro inner
    induction h with
    | nil | bool | int | str => rfl
    | @list items _ ih =>
      have hitems : ∀ l : List Value, (∀ w ∈ l, heap.viewWith inner w = w) → heap.viewItems inner l = l := by
        intro l hl
        induction l with
        | nil => rfl
        | cons w l ihl => rw [Heap.viewItems, hl w (by simp), ihl fun x hx => hl x (by simp [hx])]
      rw [Heap.viewWith, hitems items ih]
    | @map entries _ _ ih =>
      have hentries : ∀ l : List (String × Value), (∀ e ∈ l, heap.viewWith inner e.2 = e.2) →
          heap.viewEntries inner l = l := by
        intro l hl
        induction l with
        | nil => rfl
        | cons e l ihl => rw [Heap.viewEntries, hl e (by simp), ihl fun x hx => hl x (by simp [hx])]
      rw [Heap.viewWith, hentries entries ih]
  rw [Heap.view]
  cases heap.lists.size + heap.maps.size <;> exact hwith _

lemma same_self (h : v.IsData) : v.same v = true := by
  induction h with
  | nil => rfl
  | bool | str => simp [same]
  | @int n => simp [same, sameNumber, promote, relate]
  | @list items _ ih =>
    have hitems : ∀ l : List Value, (∀ w ∈ l, w.same w = true) → sameItems l l = true := by
      intro l hl
      induction l with
      | nil => rfl
      | cons w l ihl => rw [sameItems, hl w (by simp), ihl fun x hx => hl x (by simp [hx])]; rfl
    rw [same, hitems items ih]
  | @map entries hordered _ ih =>
    have hentries : ∀ l : List (String × Value), l ⊆ entries → sameEntries l entries = true := by
      intro l hl
      induction l with
      | nil => rfl
      | cons e l ihl =>
        obtain ⟨he, hl⟩ := cons_subset.1 hl
        rw [sameEntries, Dict.get?_of_mem hordered he]
        simp [ih e he, ihl hl]
    simp [same, hentries entries (List.Subset.refl _)]

end Value.IsData

lemma lookup_of_find? {c : Context} {t : Tables} {v : Value} (he : t.escapesOf c.escapes = [])
    (h : t.find? c.scope name = some v) : c.lookup t name = some v := by
  simp [Context.lookup, Context.binding, he, h]

lemma lookup_moduleContext {s : State} {source : Source} {parent : Option Context} {entry : Span} {isMain : Bool}
    (hg : s.world.globals < s.world.tables.tables.size) {x : String} {v : Value}
    (h : (s.world.tables.table s.world.globals).get? x = some v) :
    (s.moduleContext name source parent entry isMain).1.lookup
      (s.moduleContext name source parent entry isMain).2.world.tables x = some v := by
  rw [State.moduleContext, State.onTables_eq]
  refine lookup_of_find? ?_ ?_
  · simp [State.setTables, Context.ofModule, Tables.alloc, Tables.allocEscapes, Tables.escapesOf, Tables.set]
  · have hkept := Tables.table_set_of_ne (s.world.tables.alloc []).2.allocEscapes.2 "is_main" (.bool isMain) hg.ne'
    have halloc : (s.world.tables.alloc []).2.allocEscapes.2.table s.world.globals =
        s.world.tables.table s.world.globals := Tables.table_alloc hg []
    change ([s.world.globals].findSome? fun id => (Tables.table (Tables.set _ _ _ _) id).get? x) = some v
    rw [findSome?_singleton]
    exact (congrArg (Dict.get? · x) (hkept.trans halloc)).trans h

namespace Session

structure IsIdle (s : Session) : Prop where
  others : s.others = []
  born : s.world.born = []

lemma run_of_evaluates {s : Session} (hs : s.IsIdle) {text : String} {source : Source} {m : Module} {n : Node}
    {v : Value} (hparse : parse name text = .ok (source, m)) (hm : m.statements = [n])
    (heval : Evaluates (s.entry source).2.world (s.entry source).1 n v) :
    ∃ s' : Session, s.run name text = (some (.ok v), s') ∧ s'.world = (s.entry source).2.world := by
  set ctx := (s.entry source).1
  set state := (s.entry source).2 with hstate
  let frame : Frame := .moduleStatement n [] ctx
  have hlaunch : s.launch source m = .alone ⟨state.world, state.task.doing (.eval n ctx, [frame]) s.now⟩ s.now := by
    rw [launch, hm, hs.others]
    rfl
  have hgoes : Goes state.world state.task (.eval n ctx, [frame]) (.done (.value v), []) :=
    .tail (heval state.task [frame]) fun clock => ⟨rfl, rfl⟩
  have hborn : state.world.born = [] := hs.born
  obtain ⟨clock, hruns⟩ := hgoes.runs hborn s.now
  obtain ⟨now, hreaches⟩ := Machine.reaches_of_runs hruns s.now
  have hfinish := (Machine.finish_of_reaches hreaches).trans (Machine.finish_of_isOver rfl)
  let last := Machine.alone ⟨state.world, state.task.doing (.done (.value v), []) clock⟩ now
  refine ⟨ofMachine last, ?_, rfl⟩
  rw [run, hparse]
  simp only [hlaunch, hfinish]
  rfl

lemma globals_start (settings : Settings) (argv : List String) (files : FileTree) (input : List UInt8) :
    (start settings argv files input).globals = initialGlobals argv := by
  simp only [Session.globals, start, Tables.table]
  generalize initialGlobals argv = d
  rfl

end Session

lemma initialGlobals_words (argv : List String) :
    (initialGlobals argv).get? "none" = some .nil ∧ ∀ b, (initialGlobals argv).get?
    (Value.word b) = some (.bool b) := by
  rw [initialGlobals, Dict.ofList, Dict.union_append]
  generalize Dict.union [] _ = d
  refine ⟨?_, fun b => ?_⟩
  · simp [Dict.union, Dict.get?_insert_of_ne, Dict.get?_insert_self]
  · cases b <;> simp [Dict.union, Value.word, Dict.get?_insert_of_ne, Dict.get?_insert_self]

lemma bindsWords_start (settings : Settings) (argv : List String) (files : FileTree) (input : List UInt8)
    (source : Source) :
    let e := (Session.start settings argv files input).entry source
    BindsWords e.2.world e.1 := by
  obtain ⟨hnone, hbool⟩ := initialGlobals_words argv
  rw [← Session.globals_start settings argv files input] at hnone hbool
  exact ⟨lookup_moduleContext Nat.zero_lt_one hnone, fun b => lookup_moduleContext Nat.zero_lt_one (hbool b)⟩

/-- Printed data is read again as itself: a fresh session that runs the text of plain data gets an equal value with
the same text. -/
theorem run_repr_data (settings : Settings) (argv : List String) (files : FileTree) (input : List UInt8) (name : String)
    (heap : Heap) (v : Value) (hv : v.IsData) :
    ∃ w s', (Session.start settings argv files input).run name (heap.repr v) = (some (.ok w), s') ∧
      s'.world.heap.equal w v = true ∧ s'.world.heap.repr w = heap.repr v := by
  have htext : heap.repr v = v.shown true := by rw [Heap.repr, hv.view]
  obtain ⟨m, n, hm, hs, hn⟩ := hv.parseModule_shown
  have hparse : Session.parse name (heap.repr v) = .ok (⟨name, v.shown true⟩, m) := by
    rw [htext, Session.parse, Text.isIdle_of_tight hv.tight, Text.stripLines_of_tight hv.tight]
    simp only [Bool.false_eq_true, if_false, hm]
  have heval := hv.evaluates hn (bindsWords_start settings argv files input ⟨name, v.shown true⟩)
  obtain ⟨s', hrun, -⟩ := Session.run_of_evaluates ⟨rfl, rfl⟩ hparse hs heval
  refine ⟨v, s', hrun, ?_, ?_⟩
  · rw [Heap.equal, hv.view, hv.same_self]
  · rw [htext, Heap.repr, hv.view]

/-- A hashmap with a negative number, quotes, a line break and an empty text. -/
theorem run_repr_hashmap :
    let v : Value := .map [("\"k\n", .list [.int (-7), .str "", .nil]), ("z", .bool false)]
    v.IsData ∧ ∃ w s', (Session.start ⟨⟨"lib"⟩, 100⟩ [] ⟨[], [], []⟩ []).run "main" (Heap.repr {} v) =
      (some (.ok w), s') ∧
      s'.world.heap.equal w v = true ∧ s'.world.heap.repr w = Heap.repr {} v := by
  intro v
  have hlist : (Value.list [.int (-7), .str "", .nil]).IsData := by
    refine .list ?_
    simp only [forall_mem_cons, not_mem_nil, false_imp_iff, implies_true, and_true]
    exact ⟨.int (by decide), .str, .nil⟩
  have hv : v.IsData := by
    refine .map (by decide) ?_
    simp only [forall_mem_cons, not_mem_nil, false_imp_iff, implies_true, and_true]
    exact ⟨hlist, .bool⟩
  exact ⟨hv, run_repr_data _ _ _ _ _ _ v hv⟩

end ScriptMachine
