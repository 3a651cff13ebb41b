import ScriptMachine.Proofs.Histories
import ScriptMachine.Proofs.SpanNesting

/-! Where failures are reported. Code runs in contexts of the source that it was read from, whether it is a statement,
the body of a function or of a namespace, a default or a module; so every site of every failure is a place in the text
of its own source. -/

namespace ScriptMachine

open List

structure Site.IsValid (s : Site) : Prop where
  le : s.span.start ≤ s.span.stop
  stop_le : s.span.stop ≤ s.source.text.utf8ByteSize
  start : (⟨s.span.start⟩ : String.Pos.Raw).IsValid s.source.text
  stop : (⟨s.span.stop⟩ : String.Pos.Raw).IsValid s.source.text

/-- The line and column of a site are those of a part of the text that ends where the site starts. -/
def Site.IsShown (s : Site) : Prop :=
  ∃ before after : String, s.source.text = before ++ after ∧ before.utf8ByteSize = s.span.start ∧
    s.source.lineCol s.span.start = Source.placeAfter before.toList

def Site.Located (s : Site) : Prop := s.span.Within (IsBoundary s.source.text.toList)

lemma Site.Located.isValid {s : Site} (h : s.Located) : s.IsValid :=
  ⟨h.le, h.stop.isValid.le_utf8ByteSize, h.start.isValid, h.stop.isValid⟩

lemma Site.Located.isShown {s : Site} (h : s.Located) : s.IsShown := by
  obtain ⟨before, after, htext, hsize⟩ := h.start
  refine ⟨String.ofList before, String.ofList after, ?_, ?_, ?_⟩
  · rw [← String.ofList_append, ← htext, String.ofList_toList]
  · rw [utf8ByteSize_ofList, hsize]
  · rw [Source.lineCol, htext, ← hsize, takeBytes_append, String.toList_ofList]

def Context.Traced (c : Context) : Prop := ∀ site ∈ c.callers, site.Located

def Context.Places (c : Context) (n : Node) : Prop := c.Traced ∧ n.Placed (IsBoundary c.source.text.toList)

def locations : Policy where
  closure c := ∀ n ∈ c.routine.body :: c.routine.params.filterMap Param.default?, c.context.Places n
  space _ ns := ∀ n ∈ ns.body, ns.context.Places n
  deferred c inner := inner.Places c.routine.body
  place span ctx := ctx.Traced ∧ span.Within (IsBoundary ctx.source.text.toList)
  failure f := ∀ site ∈ f.sites, site.Located
  code n ctx := ctx.Places n
  binds _ _ := True
  tables _ := True

section policy

variable {ctx inner : Context} {place : Span} {n : Node}

lemma Context.Places.child {k : Node} (h : ctx.Places n) (hk : k ∈ n.children) : ctx.Places k := ⟨h.1, h.2.child hk⟩

lemma Context.Places.span (h : ctx.Places n) : locations.place n.span ctx := ⟨h.1, h.2.span⟩

lemma Context.Traced.of_place (hp : locations.place place ctx) (hi : inner.callers = callersFrom place (some ctx)) :
    inner.Traced := by
  intro site hsite
  rw [hi] at hsite
  rcases mem_cons.1 hsite with rfl | hsite
  · exact hp.2
  · exact hp.1 site hsite

lemma locations_failure {r : Reason} (hp : locations.place place ctx) : locations.failure (r.at_ place ctx) := by
  intro site hsite
  rcases mem_cons.1 (mem_reverse.1 hsite) with rfl | hsite
  · exact hp.2
  · exact hp.1 site hsite

lemma Param.default?_of_optional {params : List Param} {name : String} (h : .optional name n ∈ params) :
    n ∈ params.filterMap Param.default? := mem_filterMap.2 ⟨_, h, rfl⟩

lemma findModule_placed {s : State} {path : String} {kind : LoadKind} {source : Source} {m : Module}
    (h : s.findModule path kind ctx = .ok (source, m)) :
    ∀ n ∈ m.statements, n.Placed (IsBoundary source.text.toList) := by
  unfold State.findModule at h
  dsimp only at h
  split at h
  · contradiction
  · unfold State.readModule at h
    split at h
    · contradiction
    · dsimp only at h
      split at h
      · contradiction
      · rename_i m' hparsed
        cases h
        exact parseModule_placed hparsed

lemma locations_lawful : locations.Lawful where
  run h := h
  part h hm := ⟨h.1, fun x hx => h.2 x (subtrees_subset_of_parts hm hx)⟩
  target _ _ := trivial
  span h := h.span
  failure := locations_failure
  stray _ _ _ _ _ := locations_failure
  function h := by
    intro k hk
    refine h.child ?_
    rcases mem_cons.1 hk with rfl | hk
    · exact mem_cons_self ..
    · exact mem_cons_of_mem _ (mem_append_left _ hk)
  default h hnode := h _ (mem_cons_of_mem _ (Param.default?_of_optional hnode))
  enter := by
    intro c span caller t hclosure hp _
    have hbody := hclosure _ (mem_cons_self ..)
    have hentered : (Context.nest c.name c.context (some caller) span t).1.Places c.routine.body :=
      ⟨.of_place hp rfl, hbody.2⟩
    exact ⟨trivial, hclosure, hentered, fun _ _ => trivial, fun _ => hentered⟩
  drive h := h
  assign _ _ := trivial
  remove _ _ := trivial
  declare _ _ _ _ := trivial
  define _ _ h _ := ⟨trivial, fun _ hk => ⟨.of_place h.span rfl, (h.child hk).2⟩⟩
  member h := h
  load _ _ h hfound _ := ⟨trivial, fun k hk => ⟨.of_place h.span rfl, findModule_placed hfound k hk⟩⟩

end policy

section runs

variable {settings : Settings} {argv : List String} {files : FileTree} {input : List UInt8} {s : Session}
  {name text : String} {source : Source} {program : Module} {m : Machine} {f : Failure} {moves : List Move}

lemma Session.placed_of_parse (h : parse name text = .ok (source, program)) :
    ∀ n ∈ program.statements, n.Placed (IsBoundary source.text.toList) := by
  unfold parse at h
  split at h
  · contradiction
  · dsimp only at h
    split at h
    · rename_i m' hparsed
      cases h
      exact parseModule_placed hparsed
    · contradiction

lemma Machine.located_after (hp : FromTexts moves) :
    ((boot settings argv files input).after moves).Holds locations.shared (locations.task []) := by
  refine (holds_boot trivial).after_of locations_lawful (fun _ _ => trivial) fun m source program hlaunch _ => ?_
  obtain ⟨name, text, hparse⟩ := hp source program hlaunch
  exact ⟨trivial, fun n hn => ⟨forall_mem_nil _, Session.placed_of_parse hparse n hn⟩⟩

/-- Failures that are in a machine: those on their way to where they are caught, those kept until a cleanup is over, and
those that are the outcomes of coroutines, threads and jobs. -/
inductive Machine.Bears (m : Machine) (f : Failure) : Prop
  | raised {t : Task} (ht : t ∈ m.tasks) (hc : t.control = .done (.error f))
  | kept {t : Task} (ht : t ∈ m.tasks) (hf : .cleanedUp (.error f) ∈ t.stack)
  | awaited {t : Task} {span : Span} {ctx : Context} (ht : t ∈ m.tasks)
      (hc : t.control = .wait (.background (.error f) span ctx))
  | background (hc : .pending (.background (.error f)) ∈ m.world.coroutines)
  | coroutine (hc : .done (.error f) ∈ m.world.coroutines)
  | thread {t : Thread} (ht : t ∈ m.world.threads) (ho : .error f ∈ t.outcome.sent ∨ .error f ∈ t.outcome.settled)
  | job {j : Future} (hj : j ∈ m.world.futures) (ho : .error f ∈ j.outcome.sent ∨ .error f ∈ j.outcome.settled)

def Task.failure? (t : Task) : Option Failure :=
  match t.control with
  | .done (.error f) => some f
  | _ => none

lemma Task.control_of_failure? {t : Task} (h : t.failure? = some f) : t.control = .done (.error f) := by
  unfold failure? at h
  split at h
  · rename_i f' hcontrol
    rw [hcontrol, Option.some.inj h]
  · contradiction

lemma Machine.bears_of_failure? (h : m.main.failure? = some f) : m.Bears f :=
  .raised (mem_cons_self ..) (Task.control_of_failure? h)

lemma Machine.Holds.failure {P : Policy} (h : m.Holds P.shared (P.task [])) (hf : m.Bears f) : P.failure f := by
  have houtcome {o : Outcome} (ho : P.outcome o) (hr : .error f ∈ o.sent ∨ .error f ∈ o.settled) : P.failure f :=
    hr.elim (ho.1 _) (ho.2 _)
  cases hf with
  | @raised t ht hc =>
    have hcontrol := (h.2 t ht).2
    rw [hc] at hcontrol
    exact hcontrol
  | @kept t ht hframe =>
    obtain ⟨frames, hstack, hframes⟩ := (h.2 t ht).1
    rw [append_nil] at hstack
    rcases hframes _ (hstack ▸ hframe) with hallowed | ⟨-, future, pool, hjob⟩
    · exact hallowed
    · contradiction
  | @awaited t span ctx ht hc =>
    have hcontrol := (h.2 t ht).2
    rw [hc] at hcontrol
    exact hcontrol.1
  | background hc | coroutine hc => exact h.1.1.coroutines _ hc
  | thread ht ho => exact houtcome (h.1.1.threads _ ht) ho
  | job hj ho => exact houtcome (h.1.1.futures _ hj) ho

lemma Session.parse_ne_failed : parse name text ≠ .error (.failed f) := by
  intro h
  unfold parse at h
  split at h
  · cases Except.error.inj h
  · dsimp only at h
    split at h
    · contradiction
    · cases Except.error.inj h

lemma Session.bears_of_ending (h : ending m = some (.error (.failed f))) : m.Bears f := by
  obtain ⟨r, hr, hfailed⟩ := Option.map_eq_some_iff.1 h
  unfold Machine.result? at hr
  split at hr
  · rename_i c hcontrol _
    cases c with
    | error f' =>
      cases hr
      obtain rfl : f' = f := ProgramError.failed.inj (Except.error.inj hfailed)
      exact .raised (mem_cons_self ..) hcontrol
    | value | return_ | break_ | continue_ =>
      cases hr
      contradiction
  · contradiction

lemma Session.bears_of_run (h : (s.run name text).1 = some (.error (.failed f))) :
    ∃ source program m, parse name text = .ok (source, program) ∧ (s.launch source program).Reaches m ∧ m.Bears f := by
  unfold Session.run at h
  split at h
  · rename_i e hparse
    cases h
    exact absurd hparse parse_ne_failed
  · rename_i source program hparse
    split at h
    · rename_i m hfinish
      exact ⟨source, program, m, hparse, Machine.reaches_of_finish hfinish, bears_of_ending h⟩
    · contradiction

/-- In whatever order tasks take their steps, whatever programs are started one after the other, whatever modules they
load and whatever is in the texts, each site of each failure is a range of whole characters of its own source; so its
line and column are read off a part of the text. This is so at every moment, and for the failure that a program ends
with. -/
theorem failure_sites_valid (hp : FromTexts moves) (f : Failure) :
    (((Machine.boot settings argv files input).after moves).Bears f → ∀ site ∈ f.sites, site.IsValid ∧ site.IsShown) ∧
    ∀ s name text, (Session.start settings argv files input).After s →
      (s.run name text).1 = some (.error (.failed f)) → ∀ site ∈ f.sites, site.IsValid ∧ site.IsShown := by
  have hborne {moves : List Move} (hp : FromTexts moves)
      (hf : ((Machine.boot settings argv files input).after moves).Bears f) :
      ∀ site ∈ f.sites, site.IsValid ∧ site.IsShown := by
    intro site hsite
    have hlocated : site.Located := (Machine.located_after hp).failure hf site hsite
    exact ⟨hlocated.isValid, hlocated.isShown⟩
  refine ⟨hborne hp, fun s name text hs hrun => ?_⟩
  obtain ⟨source, program, m, hparse, hm, hf⟩ := Session.bears_of_run hrun
  obtain ⟨moves, hmoves, rfl⟩ := hm.exists_history hs hparse
  exact hborne hmoves hf

def unboundAfterAccent : String := "[\"é\", x]"

lemma parse_unboundAfterAccent :
    Session.parse "" unboundAfterAccent = .ok (⟨"", unboundAfterAccent⟩, .ofText unboundAfterAccent) := by
  have hidle : Text.isIdle unboundAfterAccent = false := by decide +kernel
  have hstrip : Text.stripLines unboundAfterAccent = unboundAfterAccent := by decide +kernel
  have hok : (parseModule unboundAfterAccent).isOk = true := by decide +kernel
  cases hparsed : parseModule unboundAfterAccent with
  | error fault =>
    rw [hparsed] at hok
    contradiction
  | ok m => simp [Session.parse, hidle, hstrip, hparsed, Module.ofText, Except.toOption]

def accentMoves : List Move :=
  .launch ⟨"", unboundAfterAccent⟩ (.ofText unboundAfterAccent) :: replicate 4 (.step 0 0)

theorem failure_site_past_accent : FromTexts accentMoves ∧ ∃ f site,
    ((Machine.boot ⟨⟨""⟩, 10⟩ [] ⟨[], [], []⟩ []).after accentMoves).Bears f ∧
      site ∈ f.sites ∧ site.span = ⟨7, 8⟩ ∧ site.IsValid ∧ site.IsShown := by
  have hparsed : FromTexts accentMoves := by
    intro source program h
    obtain ⟨rfl, rfl⟩ : source = _ ∧ program = _ := by simpa [accentMoves] using h
    exact ⟨"", unboundAfterAccent, parse_unboundAfterAccent⟩
  have hfails : ((Machine.boot ⟨⟨""⟩, 10⟩ [] ⟨[], [], []⟩ []).after accentMoves).main.failure?.any
      (·.sites.any (·.span = ⟨7, 8⟩)) = true := by
    decide +kernel
  obtain ⟨f, hfailure, hsites⟩ := (Option.any_eq_true _ _).1 hfails
  obtain ⟨site, hsite, hspan⟩ := any_eq_true.1 hsites
  have hf := Machine.bears_of_failure? hfailure
  obtain ⟨hvalid, hshown⟩ := (failure_sites_valid hparsed f).1 hf site hsite
  exact ⟨hparsed, f, site, hf, hsite, of_decide_eq_true hspan, hvalid, hshown⟩

end runs

end ScriptMachine
