import ScriptMachine.Proofs.Progress

/-! The spans of a tree lie inside one another. -/

namespace ScriptMachine

open List

variable {lexemes : List Lexeme} {n : Node}

def Lexeme.Precedes (l l' : Lexeme) : Prop :=
  l.isAssign = false → l.span.start ≤ l'.span.start ∧ l.span.stop ≤ l'.span.stop

def Apart (offset : Nat) : List Lexeme → Prop
  | [] => True
  | l :: rest => offset ≤ l.span.start ∧ l.span.start ≤ l.span.stop ∧ Apart l.span.stop rest

lemma Apart.mono {offset offset' : Nat} (h : Apart offset' lexemes) (hle : offset ≤ offset') :
    Apart offset lexemes := by
  cases lexemes with
  | nil => trivial
  | cons l rest => exact ⟨hle.trans h.1, h.2⟩

lemma apart_scanFrom (offset : Nat) (cs : List Char) : Apart offset (scanFrom offset cs).1 := by
  fun_induction scanFrom offset cs with
  | case1 | case4 => trivial
  | case2 offset c cs piece count stop hpiece ih => exact ih.mono (Nat.le_add_right ..)
  | case3 offset c cs piece count stop t hpiece rest ih => exact ⟨le_rfl, Nat.le_add_right .., ih⟩

structure Ordered (program : List Lexeme) (bound : Nat) : Prop where
  precedes : program.Pairwise fun l' l => l.Precedes l'
  stop : ∀ l ∈ program, l.span.start ≤ l.span.stop ∧ l.span.stop ≤ bound
  first : ∀ f ∈ program.getLast?, ∀ l ∈ program, f.span.start ≤ l.span.start

def NameApart (program : List Lexeme) : Prop :=
  ∀ name span a before, program = ⟨.ident name, span, a⟩ :: before → ∀ l ∈ before, l.span.stop ≤ span.start

lemma head_withLet (y : Layout) {program : List Lexeme} {name : String} {span : Span}
    (h : lastName? program = some (name, span)) :
    ∃ a before, y.withLet program = ⟨.ident name, span, a⟩ :: before := by
  unfold lastName? at h
  split at h
  · rename_i name span a before
    cases h
    obtain heq | ⟨_, _, _, _, hcons, heq⟩ := y.withLet_cases (⟨.ident name, span, a⟩ :: before)
    · exact ⟨a, before, heq⟩
    · obtain ⟨hx, rfl⟩ := List.cons.inj hcons
      exact ⟨a, _, by rw [heq, ← hx]⟩
  · contradiction

namespace Ordered

variable {program before : List Lexeme} {bound : Nat} {l : Lexeme}

lemma tail (h : Ordered (l :: before) bound) : Ordered before bound := by
  refine ⟨(pairwise_cons.1 h.precedes).2, (forall_mem_cons.1 h.stop).2, fun f hf l' hl' => ?_⟩
  refine h.first f ?_ l' (mem_cons_of_mem _ hl')
  rw [getLast?_cons, Option.mem_def.1 hf]
  rfl

variable (h : Ordered program bound)
include h

lemma mono {bound' : Nat} (hle : bound ≤ bound') : Ordered program bound' :=
  ⟨h.precedes, fun l hl => ⟨(h.stop l hl).1, (h.stop l hl).2.trans hle⟩, h.first⟩

lemma cons (hp : ∀ l' ∈ program, l'.Precedes l) (hle : l.span.start ≤ l.span.stop)
    (hb : l.span.stop ≤ bound) (hf : ∀ f ∈ program.getLast?, f.span.start ≤ l.span.start) :
    Ordered (l :: program) bound := by
  refine ⟨pairwise_cons.2 ⟨hp, h.precedes⟩, forall_mem_cons.2 ⟨⟨hle, hb⟩, h.stop⟩, fun f hfirst => ?_⟩
  cases hlast : program.getLast? with
  | none =>
    obtain rfl := getLast?_eq_none_iff.1 hlast
    obtain rfl : l = f := by simpa using hfirst
    simp
  | some last =>
    rw [getLast?_cons, hlast] at hfirst
    obtain rfl : last = f := by simpa using hfirst
    exact forall_mem_cons.2 ⟨hf last hlast, h.first last hlast⟩

lemma precedes_of_le (hb : bound ≤ l.span.start) (hle : l.span.start ≤ l.span.stop) :
    ∀ l' ∈ program, l'.Precedes l := by
  intro l' hl' _
  have hstop := h.stop l' hl'
  omega

lemma push (hb : bound ≤ l.span.start) (hle : l.span.start ≤ l.span.stop) : Ordered (l :: program) l.span.stop := by
  refine (h.mono (hb.trans hle)).cons (h.precedes_of_le hb hle) hle le_rfl fun f hf => ?_
  have hstop := h.stop f (mem_of_getLast? hf)
  omega

lemma nameApart_cons (hb : bound ≤ l.span.start) : NameApart (l :: program) := by
  rintro name span a before heq l' hl'
  cases heq
  exact (h.stop l' hl').2.trans hb

lemma withLet (hn : NameApart program) (y : Layout) : Ordered (y.withLet program) bound := by
  obtain heq | ⟨name, span, a, before, rfl, heq⟩ := y.withLet_cases program
  · rwa [heq]
  · rw [heq]
    have hname := h.stop _ mem_cons_self
    have hfirst : ∀ f ∈ before.getLast?, f.span.start ≤ span.start := by
      intro f hf
      have hin := mem_of_getLast? hf
      exact (h.stop f (mem_cons_of_mem _ hin)).1.trans (hn name span a before rfl f hin)
    have hlet : Ordered (⟨.keyword .let_, .point span.start, false⟩ :: before) bound := by
      refine h.tail.cons (fun l hl _ => ?_) le_rfl (hname.1.trans hname.2) hfirst
      have hstop := hn name span a before rfl l hl
      exact ⟨(h.tail.stop l hl).1.trans hstop, hstop⟩
    refine hlet.cons (forall_mem_cons.2 ⟨fun _ => ⟨le_rfl, hname.1⟩, ?_⟩) hname.1 hname.2 fun f hf => ?_
    · exact (pairwise_cons.1 h.precedes).1
    · exact hlet.first f hf ⟨.keyword .let_, .point span.start, false⟩ mem_cons_self

lemma join {y : Layout} {s : Symbol} {e : Lexeme} {name : String} {span : Span}
    (hn : NameApart program) (hname : lastName? program = some (name, span)) (he : e.token = .symbol .assign)
    (hb : bound ≤ l.span.start) (hle : l.span.start ≤ l.span.stop)
    (hb' : l.span.stop ≤ e.span.start) (hle' : e.span.start ≤ e.span.stop) :
    Ordered (⟨.symbol s, l.span, true⟩ :: ⟨.ident name, span, false⟩ :: e :: y.withLet program) e.span.stop := by
  obtain ⟨a, before, hbefore⟩ := head_withLet y hname
  have hprogram := h.withLet hn y
  rw [hbefore] at hprogram ⊢
  obtain ⟨hspan, hbound⟩ := hprogram.stop _ mem_cons_self
  have hexempt (l' : Lexeme) : e.Precedes l' := fun ha => absurd ha (by rw [Lexeme.isAssign, he]; simp [Token.isSymbol])
  have hassign := hprogram.push (hb.trans (hle.trans hb')) hle'
  have hrepeated := hassign.cons (l := ⟨.ident name, span, false⟩) ?_ hspan (by dsimp only at hbound ⊢; omega) ?_
  · refine hrepeated.cons ?_ hle (hb'.trans hle') fun f hf => ?_
    · refine forall_mem_cons.2 ⟨fun _ => ?_, forall_mem_cons.2 ⟨hexempt _, ?_⟩⟩
      · dsimp only at hspan hbound ⊢
        omega
      · exact hprogram.precedes_of_le hb hle
    · have hfirst := hrepeated.first f hf _ mem_cons_self
      dsimp only at hfirst hspan hbound ⊢
      omega
  · refine forall_mem_cons.2 ⟨hexempt _, forall_mem_cons.2 ⟨fun _ => ⟨le_rfl, le_rfl⟩, ?_⟩⟩
    exact (pairwise_cons.1 hprogram.precedes).1
  · intro f hf
    exact hassign.first f hf ⟨.ident name, span, a⟩ (mem_cons_of_mem _ mem_cons_self)

end Ordered

variable {y : Layout} {program rest : List Lexeme} {brackets : List OpenBracket} {bound : Nat}
  {r : Arranged}

lemma Layout.Arranges.ordered (h : y.Arranges program brackets rest r) (hp : Ordered program bound)
    (hn : NameApart program) (hr : Apart bound rest) : ∃ bound', Ordered r.1 bound' := by
  induction h generalizing bound with
  | done | unmatched | mismatched => exact ⟨bound, hp⟩
  | keepBreak _ _ _ ih | open_ _ _ _ ih | close _ _ _ _ ih | keep _ _ _ ih =>
    exact ih (hp.push hr.1 hr.2.1) (hp.nameApart_cons hr.1) hr.2.2
  | dropBreak _ _ _ ih => exact ih hp hn (hr.2.2.mono (hr.1.trans hr.2.1))
  | assign _ _ ih =>
    exact ih ((hp.withLet hn y).push hr.1 hr.2.1) ((hp.withLet hn y).nameApart_cons hr.1) hr.2.2
  | join hl hs he _ hname _ ih =>
    obtain ⟨hb, hle, hb', hle', hrest⟩ := hr
    exact ih (hp.join hn hname he hb hle hb' hle') (fun _ _ _ _ heq => by cases heq) hrest

lemma tokenize_ordered (text : String) : ∃ program bound last, Ordered program bound ∧ last.token = .eof ∧
    (tokenize text).lexemes = program.reverse ++ [last] := by
  obtain ⟨fault, -, heq⟩ := tokenizeChars_eq true text.toList
  obtain ⟨bound, hordered⟩ := ((Layout.ofText true text.toList).arranges [] []
    (scanFrom 0 text.toList).1).ordered ⟨.nil, by simp, by simp⟩ (fun _ _ _ _ h => nomatch h)
    (apart_scanFrom 0 text.toList)
  exact ⟨_, bound, _, hordered, rfl, congrArg Tokenized.lexemes heq⟩

structure Span.Contains (outer inner : Span) : Prop where
  start : outer.start ≤ inner.start
  stop : inner.stop ≤ outer.stop

section lexemes

variable {core : List Lexeme} {span : Span} {l last : Lexeme} (hp : core.Pairwise Lexeme.Precedes) (hl : l ∈ core)
  (ha : l.isAssign = false)
include hp hl ha

lemma stop_le_last (hlast : core.getLast? = some last) : l.span.stop ≤ last.span.stop := by
  obtain ⟨front, rfl⟩ := getLast?_eq_some_iff.1 hlast
  rcases mem_append.1 hl with hl | hl
  · exact ((pairwise_append.1 hp).2.2 l hl last (mem_singleton_self _) ha).2
  · rw [mem_singleton.1 hl]

lemma Frames.contains (h : Frames core span) : span.Contains l.span := by
  obtain ⟨first, hfirst, hfa, hstart⟩ := h.first
  obtain ⟨last, hlast, -, hstop⟩ := h.last
  refine ⟨?_, (stop_le_last hp hl ha hlast).trans hstop⟩
  obtain ⟨tail, rfl⟩ := head?_eq_some_iff.1 hfirst
  rw [← hstart]
  rcases mem_cons.1 hl with rfl | hl
  · exact le_rfl
  · exact ((pairwise_cons.1 hp).1 l hl hfa).1

end lexemes

structure Node.Stands (lexemes : List Lexeme) (n : Node) : Prop where
  nested : ∀ k ∈ n.children, n.span.Contains k.span
  start : ∃ l ∈ lexemes, l.isAssign = false ∧ l.span.start = n.span.start ∧ l.span.stop ≤ n.span.stop
  stop : ∃ l ∈ lexemes, l.isAssign = false ∧ l.span.stop = n.span.stop

def Node.Sits (lexemes : List Lexeme) (n : Node) : Prop := n.Everywhere fun m => m.Stands lexemes

lemma Node.Sits.stands (h : n.Sits lexemes) : n.Stands lexemes :=
  h n n.mem_subtrees_self

lemma Node.Sits.nested (h : n.Sits lexemes) :
    n.Everywhere fun m => ∀ k ∈ m.children, m.span.Contains k.span := fun m hm => (h m hm).nested

lemma Node.Sits.mono {more : List Lexeme} (h : n.Sits lexemes) (hsub : lexemes ⊆ more) : n.Sits more := fun m hm =>
  ⟨(h m hm).nested, (h m hm).start.imp fun _ hl => ⟨hsub hl.1, hl.2⟩, (h m hm).stop.imp fun _ hl => ⟨hsub hl.1, hl.2⟩⟩

lemma Node.Sits.placed {B : Nat → Prop} (h : n.Sits lexemes) (hb : AllWithin B lexemes) : n.Placed B := by
  intro m hm
  obtain ⟨-, ⟨l, hl, -, hstart, hle⟩, ⟨l', hl', -, hstop⟩⟩ := h m hm
  exact ⟨hstart ▸ (hb l hl).le.trans hle, hstart ▸ (hb l hl).start, hstop ▸ (hb l' hl').stop⟩

lemma Covers.sits {items : List Constituent} (h : Covers lexemes items) (hp : lexemes.Pairwise Lexeme.Precedes) :
    ∀ n, .tree n ∈ items → n.Sits lexemes := by
  induction h with
  | nil => exact fun n hn => nomatch hn
  | silent _ _ ih => exact fun n hn => (ih (pairwise_cons.1 hp).2 n hn).mono (subset_cons_self ..)
  | word _ _ ih =>
    intro n hn
    rcases mem_cons.1 hn with hn | hn
    · contradiction
    · exact (ih (pairwise_cons.1 hp).2 n hn).mono (subset_cons_self ..)
  | @tree core rest n items hcore hframe hrest ihcore ih =>
    obtain ⟨hpcore, hprest, -⟩ := pairwise_append.1 hp
    intro k hk
    rcases mem_cons.1 hk with hk | hk
    · obtain rfl := Constituent.tree.inj hk
      have hchildren : ∀ child ∈ k.children, child.Sits core := fun child hchild =>
        ihcore hpcore child (Node.tree_mem_iff.2 hchild)
      have hcontains : ∀ child ∈ k.children, k.span.Contains child.span := by
        intro child hchild
        obtain ⟨-, ⟨l, hl, ha, hstart, -⟩, ⟨l', hl', ha', hstop⟩⟩ := (hchildren child hchild).stands
        have hfirst := (Frames.contains hpcore hl ha hframe).start
        have hlast := (Frames.contains hpcore hl' ha' hframe).stop
        exact ⟨hstart ▸ hfirst, hstop ▸ hlast⟩
      have hsits : k.Sits core := by
        refine Node.everywhere_iff.2 ⟨⟨hcontains, ?_, hframe.stop⟩, hchildren⟩
        obtain ⟨first, hfirst, hfa, hstart⟩ := hframe.first
        have hmem := mem_of_head? hfirst
        exact ⟨first, hmem, hfa, hstart, (Frames.contains hpcore hmem hfa hframe).stop⟩
      exact hsits.mono (subset_append_left ..)
    · exact (ih hprest k hk).mono (subset_append_right ..)

structure Span.IsPartOf (text : String) (span : Span) : Prop where
  le : span.start ≤ span.stop
  stop_le : span.stop ≤ text.utf8ByteSize
  start : (⟨span.start⟩ : String.Pos.Raw).IsValid text
  stop : (⟨span.stop⟩ : String.Pos.Raw).IsValid text

lemma Span.Within.isPartOf {text : String} {span : Span} (h : span.Within (IsBoundary text.toList)) :
    span.IsPartOf text :=
  ⟨h.le, h.stop.isValid.le_utf8ByteSize, h.start.isValid, h.stop.isValid⟩

section modules

variable {B : Nat → Prop} {lexemes : List Lexeme} {m : Module}

lemma Cursor.Passes.spanFrom_within {c d : Cursor} {between : List Lexeme} (h : c.Passes between d)
    (hb : c.behind = none) (hc : AllWithin B c.lexemes) : (d.spanFrom c.here).Within B := by
  have hhere : c.here.Within B := hc c.current mem_cons_self
  have hend : B d.previousEnd := by
    unfold Cursor.previousEnd
    split
    · rename_i l hl
      rw [h.behind, hb, Option.or_none] at hl
      exact (hc l (h.lexemes ▸ mem_append_left _ (mem_of_getLast? hl))).stop
    · exact (hc d.current h.mem).start
  refine ⟨hhere.le.trans (le_max_right ..), hhere.start, ?_⟩
  rcases max_choice d.previousEnd c.here.stop with hmax | hmax
  · exact (congrArg B hmax).mpr hend
  · exact (congrArg B hmax).mpr hhere.stop

lemma behind_ofLexemes (lexemes : List Lexeme) : (Cursor.ofLexemes lexemes).behind = none := by
  unfold Cursor.ofLexemes
  dsimp only
  split <;> rfl

lemma closed_within (h0 : B 0) (h : AllWithin B lexemes) : AllWithin B (closed lexemes) := by
  unfold closed
  split
  · rename_i l hlast
    have hl := h l (mem_of_getLast? hlast)
    split
    · exact h
    · exact forall_mem_append.2 ⟨h, forall_mem_singleton.2 (.point hl.stop)⟩
  · exact forall_mem_singleton.2 (.point h0)

lemma parseLexemes_span_within (h0 : B 0) (h : AllWithin B lexemes) (hm : parseLexemes lexemes = .ok m) :
    m.span.Within B := by
  obtain ⟨list, stop, -, rfl, ⟨between, hpass, -⟩, -⟩ := parseLexemes_ok hm
  exact hpass.spanFrom_within (behind_ofLexemes lexemes) (lexemes_ofLexemes lexemes ▸ closed_within h0 h)

lemma parseLexemes_sits {last : Lexeme} (ho : Ordered program bound) (he : last.token = .eof)
    (hl : lexemes = program.reverse ++ [last]) (hm : parseLexemes lexemes = .ok m) :
    ∀ n ∈ m.statements, n.Sits program ∧ m.span.Contains n.span := by
  obtain ⟨list, stop, -, hmodule, ⟨between, hpass, hcovers⟩, -⟩ := parseLexemes_ok hm
  have hinitial : between <+: program.reverse := by
    have hlexemes := hpass.lexemes
    rw [lexemes_ofLexemes, hl, closed_concat he] at hlexemes
    rcases prefix_concat_iff.1 ⟨_, hlexemes.symm⟩ with hall | hinitial
    · rw [hall, self_eq_append_right] at hlexemes
      contradiction
    · exact hinitial
  have hsub : between ⊆ program := fun l hl => mem_reverse.1 (hinitial.subset hl)
  have hpairs : between.Pairwise Lexeme.Precedes := (pairwise_reverse.2 ho.precedes).sublist hinitial.sublist
  intro n hn
  have hsits := hcovers.sits hpairs n (mem_map_of_mem hn)
  refine ⟨hsits.mono hsub, ?_⟩
  obtain ⟨-, ⟨l, hl, ha, hstart, -⟩, ⟨l', hl', ha', hstop⟩⟩ := hsits.stands
  have hlt : stop.skipNewlines.1.left < (Cursor.ofLexemes lexemes).left := by
    have hleft := hpass.left
    have hlength := length_pos_of_mem hl
    omega
  obtain ⟨tail, final, hbetween, hfinal, hbehind⟩ := hpass.ends hlt
  rw [hmodule]
  constructor
  · have hfirst : program.getLast? = some (Cursor.ofLexemes lexemes).current := by
      obtain ⟨more, hmore⟩ := hinitial
      rw [← head?_reverse, ← hmore, hbetween]
      rfl
    rw [← hstart]
    exact ho.first _ hfirst l (hsub hl)
  · rw [← hstop]
    refine (stop_le_last hpairs hl' ha' hfinal).trans ?_
    rw [Cursor.spanFrom, Cursor.previousEnd, hbehind]
    exact le_max_left _ _

lemma parseModule_placed {text : String} (hm : parseModule text = .ok m) :
    ∀ n ∈ m.statements, n.Placed (IsBoundary text.toList) := by
  intro n hn
  obtain ⟨lexemes, htokens, hparsed⟩ := parseModule_ok hm
  obtain ⟨program, bound, last, hordered, heof, hlexemes⟩ := tokenize_ordered text
  rw [htokens] at hlexemes
  apply (parseLexemes_sits hordered heof hlexemes hparsed n hn).1.placed
  intro l hl
  apply tokenize_within htokens
  rw [show lexemes = _ from hlexemes]
  exact mem_append_left _ (mem_reverse.2 hl)

/-- The spans of a program that is read from a text are ranges of its characters, each tree lies inside the tree it is a
part of, and the statements lie inside the program. -/
theorem spans_nest {text : String} (hm : parseModule text = .ok m) :
    m.span.IsPartOf text ∧ ∀ n ∈ m.statements, m.span.Contains n.span ∧
      n.Everywhere fun k => k.span.IsPartOf text ∧ ∀ child ∈ k.children, k.span.Contains child.span := by
  obtain ⟨lexemes, htokens, hparsed⟩ := parseModule_ok hm
  have hwithin := tokenize_within htokens
  refine ⟨(parseLexemes_span_within (.start _) hwithin hparsed).isPartOf, fun n hn => ?_⟩
  obtain ⟨program, bound, last, hordered, heof, hlexemes⟩ := tokenize_ordered text
  rw [htokens] at hlexemes
  obtain ⟨hsits, hcontains⟩ := parseLexemes_sits hordered heof hlexemes hparsed n hn
  refine ⟨hcontains, fun k hk => ⟨?_, hsits.nested k hk⟩⟩
  exact (parseModule_placed hm n hn k hk).isPartOf

/-- A text with a character of two bytes, a name that is repeated, brackets that leave no tree, and an inline `if`. -/
def repeatedAfterAccent : String := "x = \"é\"\nx += (y + 2) * if x do y else z"

theorem spans_nest_past_accent : ∃ m, parseModule repeatedAfterAccent = .ok m ∧ m.span = ⟨0, 40⟩ ∧
    m.statements.map Node.span = [⟨0, 8⟩, ⟨9, 40⟩] ∧ ∀ n ∈ m.statements, m.span.Contains n.span ∧
      n.Everywhere fun k => k.span.IsPartOf repeatedAfterAccent ∧ ∀ child ∈ k.children, k.span.Contains child.span := by
  have hspans : (parseModule repeatedAfterAccent).toOption.any
      (fun m => m.span = ⟨0, 40⟩ ∧ m.statements.map Node.span = [⟨0, 8⟩, ⟨9, 40⟩]) = true := by
    decide +kernel
  cases hm : parseModule repeatedAfterAccent with
  | error fault =>
    rw [hm] at hspans
    contradiction
  | ok m =>
    rw [hm] at hspans
    obtain ⟨hmodule, hstatements⟩ := of_decide_eq_true hspans
    exact ⟨m, rfl, hmodule, hstatements, (spans_nest hm).2⟩

end modules

end ScriptMachine
