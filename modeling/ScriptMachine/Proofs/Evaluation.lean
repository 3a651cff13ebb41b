import Mathlib
import ScriptMachine.Session

/-! Runs of a machine whose main task is alone, and the values that pieces of code come to in them; and runs of given
programs. -/

namespace ScriptMachine

open List

namespace Machine

variable {m m' : Machine}

def Reaches : Machine → Machine → Prop := Relation.ReflTransGen fun m m' => m.main.isOver = false ∧ m.step = some m'

lemma finish_of_isOver (h : m.main.isOver = true) : m.finish = some m := by
  rw [finish, if_pos h]

lemma finish_of_step (ho : m.main.isOver = false) (h : m.step = some m') : m.finish = m'.finish := by
  obtain ⟨⟨time, place⟩, hnext, rfl⟩ := Option.map_eq_some_iff.1 h
  rw [finish, if_neg (by simp [ho])]
  simp only [hnext]

theorem finish_of_reaches (h : m.Reaches m') : m.finish = m'.finish := by
  induction h with
  | refl => rfl
  | tail _ hs ih => rw [ih, finish_of_step hs.1 hs.2]

end Machine

namespace State

def tick (s : State) : State := { s with task := { s.task with clock := s.task.clock + Machine.stepTime } }

def isBusy (s : State) : Bool :=
  match s.task.control with
  | .wait _ => false
  | _ => !s.task.isOver

def Runs : State → State → Prop :=
  Relation.ReflTransGen fun s s' => s.isBusy = true ∧ s.step.world.born = [] ∧ s' = s.step.tick

end State

namespace Machine

def alone (s : State) (now : Nat) : Machine := ⟨s.world, s.task, [], now⟩

lemma alone_step {s : State} (hb : s.isBusy = true) (hw : s.step.world.born = []) (now : Nat) :
    (alone s now).step = some (alone s.step.tick s.task.clock) := by
  have hnext : (alone s now).next? = some (s.task.clock, 0) := by
    have hready : readyAt? s.world now s.task = some s.task.clock := by
      unfold State.isBusy at hb
      unfold readyAt?
      cases hc : s.task.control with
      | wait w => simp [hc] at hb
      | _ => rfl
    simp [next?, tasks, alone, earliest, hready]
  rw [step, hnext, Option.map_some]
  have hadopt : (alone s.step.tick s.task.clock).adopt = alone s.step.tick s.task.clock := by
    unfold adopt
    split
    · rfl
    · rename_i hborn
      exact absurd hw hborn
  exact congrArg some hadopt

theorem reaches_of_runs {s s' : State} (h : s.Runs s') (now : Nat) : ∃ now', (alone s now).Reaches (alone s' now') := by
  induction h with
  | refl => exact ⟨now, .refl⟩
  | @tail s s' _ hs ih =>
    obtain ⟨now', ih⟩ := ih
    obtain ⟨hb, hw, rfl⟩ := hs
    have ho : s.task.isOver = false := by
      unfold State.isBusy at hb
      split at hb
      · contradiction
      · simpa using hb
    exact ⟨_, ih.tail ⟨ho, alone_step hb hw now'⟩⟩

end Machine

def Session.entry (s : Session) (source : Source) : Context × State :=
  State.moduleContext ⟨s.world, ⟨.done (.value .nil), [], 0, none, none, s.now⟩⟩ "<program>" source
    none (Span.point 0) true

section evaluation

variable {span : Span} {nodes : List Node} {items : List Value} {entries : List (String × Value)}

def Task.doing (t : Task) (work : Control × List Frame) (clock : Nat) : Task :=
  { t with control := work.1, stack := work.2, clock }

def Turns (w : World) (t : Task) (a b : Control × List Frame) : Prop :=
  ∀ clock, State.isBusy ⟨w, t.doing a clock⟩ = true ∧ State.step ⟨w, t.doing a clock⟩ = ⟨w, t.doing b clock⟩

def Goes (w : World) (t : Task) : Control × List Frame → Control × List Frame → Prop :=
    Relation.ReflTransGen (Turns w t)

lemma Goes.runs {w : World} {t : Task} {a b : Control × List Frame} (hw : w.born = []) (h : Goes w t a b)
    (clock : Nat) :
    ∃ clock', State.Runs ⟨w, t.doing a clock⟩ ⟨w, t.doing b clock'⟩ := by
  induction h with
  | refl => exact ⟨clock, .refl⟩
  | tail _ hs ih =>
    obtain ⟨clock', hruns⟩ := ih
    obtain ⟨hb, hstep⟩ := hs clock'
    exact ⟨clock' + Machine.stepTime, hruns.tail ⟨hb, by rw [hstep]; exact hw, by rw [hstep]; rfl⟩⟩

def Evaluates (w : World) (ctx : Context) (n : Node) (v : Value) : Prop :=
  ∀ (t : Task) (stack : List Frame), Goes w t (.eval n ctx, stack) (.done (.value v), stack)

variable {w : World} {ctx : Context}

lemma evaluates_int {n : Nat} : Evaluates w ctx (.int n span) (.int (Int64.ofNat n)) :=
  fun _ _ => .single fun _ => ⟨rfl, rfl⟩

lemma evaluates_str {text : String} : Evaluates w ctx (.str text span) (.str text) :=
  fun _ _ => .single fun _ => ⟨rfl, rfl⟩

lemma evaluates_ident {name : String} {v : Value} (h : ctx.lookup w.tables name = some v) :
    Evaluates w ctx (.ident name span) v := by
  refine fun t stack => .single fun clock => ⟨rfl, ?_⟩
  change State.evalNode ⟨w, _⟩ (.ident name span) ctx = _
  rw [State.evalNode, State.lookup, h]
  rfl

lemma evaluates_unary {op : UnaryOp} {operand : Node} {a v : Value} (ho : Evaluates w ctx operand a)
    (h : w.heap.unary op a = .ok v) : Evaluates w ctx (.unary op operand span) v := by
  intro t stack
  refine .head (fun _ => ⟨rfl, rfl⟩) (.tail (ho t (.unary op span ctx :: stack)) fun clock => ⟨rfl, ?_⟩)
  change State.resumeValue ⟨w, _⟩ (.unary op span ctx) a = _
  rw [State.resumeValue, h]
  rfl

lemma goes_listItem (h : Forall₂ (Evaluates w ctx) nodes items) (t : Task) (v : Value) (done : List Value)
    (stack : List Frame) :
    Goes w t (.done (.value v), .listItem done nodes ctx :: stack)
      (.done (.value (.list (done.reverse ++ v :: items))), stack) := by
  induction h generalizing v done with
  | nil =>
    rw [← reverse_cons]
    exact .single fun clock => ⟨rfl, rfl⟩
  | @cons n v' nodes items hn _ ih =>
    refine .head (fun clock => ⟨rfl, rfl⟩) (.trans (hn t (.listItem (v :: done) nodes ctx :: stack)) ?_)
    have hrest := ih v' (v :: done)
    rwa [reverse_cons, append_assoc, singleton_append] at hrest

lemma evaluates_list (h : Forall₂ (Evaluates w ctx) nodes items) :
    Evaluates w ctx (.list nodes span) (.list items) := by
  intro t stack
  cases h with
  | nil => exact .single fun clock => ⟨rfl, rfl⟩
  | @cons n v nodes items hn h =>
    exact .head (fun clock => ⟨rfl, rfl⟩) (.trans (hn t _) (goes_listItem h t v [] stack))

lemma goes_mapValue {nodes : List (Node × Node)}
    (h : Forall₂ (fun n e => Evaluates w ctx n.1 (.str e.1) ∧ Evaluates w ctx n.2 e.2) nodes entries) (t : Task)
    (key : String) (v : Value) (done : Dict Value) (stack : List Frame) :
    Goes w t (.done (.value v), .mapValue done key nodes ctx :: stack)
      (.done (.value (.map ((done.insert key v).union entries))), stack) := by
  induction h generalizing key v done with
  | nil => exact .single fun clock => ⟨rfl, rfl⟩
  | @cons n e nodes entries hn _ ih =>
    obtain ⟨nkey, nvalue⟩ := n
    refine .head (fun clock => ⟨rfl, rfl⟩)
      (.trans (hn.1 t (.mapKey (done.insert key v) nkey nvalue nodes ctx :: stack)) ?_)
    refine .head (fun clock => ⟨rfl, rfl⟩)
      (.trans (hn.2 t (.mapValue (done.insert key v) e.1 nodes ctx :: stack)) ?_)
    exact ih e.1 e.2 (done.insert key v)

lemma evaluates_map {nodes : List (Node × Node)}
    (h : Forall₂ (fun n e => Evaluates w ctx n.1 (.str e.1) ∧ Evaluates w ctx n.2 e.2) nodes entries) :
    Evaluates w ctx (.map nodes span) (.map (Dict.ofList entries)) := by
  intro t stack
  cases h with
  | nil => exact .single fun clock => ⟨rfl, rfl⟩
  | @cons n e nodes entries hn h =>
    obtain ⟨nkey, nvalue⟩ := n
    refine .head (fun clock => ⟨rfl, rfl⟩) (.trans (hn.1 t (.mapKey [] nkey nvalue nodes ctx :: stack)) ?_)
    refine .head (fun clock => ⟨rfl, rfl⟩) (.trans (hn.2 t (.mapValue [] e.1 nodes ctx :: stack)) ?_)
    exact goes_mapValue h t e.1 e.2 [] stack

end evaluation

def stepsOf {α : Type} (step : α → Option α) : Nat → α → Option α
  | 0, a => some a
  | k + 1, a => (step a).bind (stepsOf step k)

lemma reflTransGen_of_stepsOf {α : Type} {step : α → Option α} {r : α → α → Prop} {k : Nat} {a b : α}
    (hr : ∀ a b, step a = some b → r a b) (h : stepsOf step k a = some b) : Relation.ReflTransGen r a b := by
  induction k generalizing a with
  | zero => exact Option.some.inj h ▸ .refl
  | succ k ih =>
    obtain ⟨c, hc, hrest⟩ := Option.bind_eq_some_iff.1 h
    exact .head (hr a c hc) (ih hrest)

def Machine.advance (m : Machine) : Option Machine := if m.main.isOver then none else m.step

lemma Machine.reaches_of_stepsOf {m m' : Machine} {k : Nat} (h : stepsOf advance k m = some m') : m.Reaches m' := by
  refine reflTransGen_of_stepsOf (fun a b hab => ?_) h
  unfold advance at hab
  split at hab
  · contradiction
  · rename_i ho
    exact ⟨by simpa using ho, hab⟩

def Module.ofText (text : String) : Module := (parseModule text).toOption.getD ⟨[], Span.point 0⟩

def Module.ofTexts (texts : List String) : Module := ⟨texts.flatMap fun text => (ofText text).statements, Span.point 0⟩

def Machine.ofProgram (maxDepth : Nat) (program : Module) : Machine :=
  (Session.start ⟨⟨""⟩, maxDepth⟩ [] ⟨[], [], []⟩ []).launch ⟨"", ""⟩ program

end ScriptMachine
