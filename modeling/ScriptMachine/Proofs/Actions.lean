import ScriptMachine.Proofs.Cells
import ScriptMachine.Proofs.Signals

/-! What a task can do in one step, as a short list of actions. -/

namespace ScriptMachine

section results

variable {α β : Type} {p : α → Prop} {q : β → Prop}

def Gives (p : α → Prop) (r : Except Fault α) : Prop := ∀ a, r = .ok a → p a

lemma Gives.ok {a : α} (h : p a) : Gives p (.ok a) := fun _ ha => Except.ok.inj ha ▸ h

lemma Gives.error {f : Fault} : Gives p (.error f) := fun _ ha => nomatch ha

lemma Gives.ite {c : Prop} {_ : Decidable c} {r r' : Except Fault α} (h : Gives p r) (h' : Gives p r') :
    Gives p (if c then r else r') := by
  split
  · exact h
  · exact h'

lemma Gives.bind {r : Except Fault α} {f : α → Except Fault β} (h : ∀ a, r = .ok a → Gives q (f a)) :
    Gives q (r >>= f) := by
  cases r with
  | error => exact .error
  | ok a => exact h a rfl

lemma Gives.map {r : Except Fault α} {f : α → β} (hr : Gives p r) (hf : ∀ a, p a → q (f a)) : Gives q (r.map f) := by
  cases r with
  | error => exact .error
  | ok a => exact .ok (hf a (hr a rfl))

lemma Gives.map_of_forall {r : Except Fault α} {f : α → β} (hf : ∀ a, q (f a)) : Gives q (r.map f) :=
  map (p := fun _ => True) (fun _ _ => trivial) fun a _ => hf a

end results

/-- The signals that a step may let out. -/
structure Leeway where
  signal : Signal → Prop

namespace Leeway

variable (L : Leeway)

def any : Leeway := ⟨fun _ => True⟩

def allows (free : Signal → Bool) : Prop := ∀ σ, free σ = true → L.signal σ

def completion : Completion → Prop
  | .value _ | .error _ => True
  | .return_ _ => L.signal .return_
  | .break_ => L.signal .break_
  | .continue_ => L.signal .continue_

variable {L} {a b : Signal → Bool}

lemma allows_none : L.allows fun _ => false := fun _ h => nomatch h

lemma allows_or : L.allows (fun σ => a σ || b σ) ↔ L.allows a ∧ L.allows b := by
  simp only [allows, Bool.or_eq_true, or_imp, forall_and]

end Leeway

namespace Frame

def isOrdinary : Frame → Bool
  | .moduleStatement _ _ _ | .namespaceBody _ _ _ _ _ _ | .default _ _ _ _ _ | .functionBody _ _ | .leaveModule
  | .restoreDeadline _ | .memoize _ | .cleanedUp _ | .threadEnd _ | .jobEnd _ _ => false
  | _ => true

def isEntry : Frame → Bool
  | .moduleStatement _ _ _ | .default _ _ _ _ _ => true
  | _ => false

end Frame

structure Task.Reports (last : Frame) (t : Task) : Prop where
  call : ∃ callee args kwargs span ctx, t.control = .call callee args kwargs span ctx
  stack : ∃ span ctx, t.stack = [.settle span ctx, last]
  depth : t.depth = 0
  deadline : t.deadline = none

structure World.Agrees (w w' : World) : Prop where
  settings : w.settings = w'.settings
  coroutines : w.coroutines = w'.coroutines
  namespaces : w.namespaces = w'.namespaces
  threads : w.threads = w'.threads
  futures : w.futures = w'.futures
  pools : w.pools = w'.pools
  born : w.born = w'.born

namespace State

def addThread (s : State) : State := { s with world := { s.world with threads := s.world.threads.push {} } }

def addFuture (s : State) : State := { s with world := { s.world with futures := s.world.futures.push {} } }

def addPool (s : State) (p : Pool) : State := { s with world := { s.world with pools := s.world.pools.push p } }

def cancelThread (s : State) (number : Nat) : State :=
  { s with world := { s.world with threads := s.world.threads.modify number ({ · with cancelled := true }) } }

def enterModule (s : State) : State :=
  { s.push .leaveModule with task := { (s.push .leaveModule).task with depth := s.task.depth + 1 } }

inductive Prepares (L : Leeway) (s : State) : State → Prop
  | refl : Prepares L s s
  | share {x : State} {w : World} : Prepares L s x → w.Agrees x.world → Prepares L s ⟨w, x.task⟩
  | coroutine {x : State} (name : String) (work : Work) : Prepares L s x →
      Prepares L s (x.newCoroutine name work).2
  | cancel {x : State} (number : Nat) : Prepares L s x → Prepares L s (x.cancelThread number)
  | thread {x : State} {t : Task} : Prepares L s x → t.Reports (.threadEnd x.world.threads.size) →
      Prepares L s (x.addThread.spawn t)
  | pool {x : State} {p : Pool} : Prepares L s x → p.queue = [] → Prepares L s (x.addPool p)
  | tend {x : State} {id : Nat} {p : Pool} (p' : Pool) : Prepares L s x → x.world.pools[id]? = some p →
      p'.queue = p.queue →
      Prepares L s (x.setPool id p')
  | enqueue {x : State} {id : Nat} {p : Pool} {job : Job} : Prepares L s x → x.world.pools[id]? = some p →
      job.future = x.world.futures.size →
        Prepares L s (x.addFuture.setPool id { p with queue := p.queue ++ [job] })
  | employ {x : State} {id : Nat} {p : Pool} {t : Task} (p' : Pool) : Prepares L s x → x.world.pools[id]? = some p →
      p'.queue = p.queue → t.Reports (.jobEnd x.world.futures.size id) →
        Prepares L s ((x.addFuture.setPool id p').spawn t)
  | push {x : State} {f : Frame} : Prepares L s x → f.isOrdinary = true → L.allows (f.hasFree ·) →
      Prepares L s (x.push f)
  | keep {x : State} {c : Completion} : Prepares L s x → L.completion c → Prepares L s (x.push (.cleanedUp c))
  | enterModule {x : State} : Prepares L s x → x.task.depth < x.world.settings.maxDepth → Prepares L s x.enterModule

inductive Does (L : Leeway) (s : State) : State → Prop
  | finish {x : State} {c : Completion} : s.Prepares L x → L.completion c → Does L s (x.finish c)
  | call {x : State} {callee : Value} {args : List Value} {kwargs : Dict Value} {span : Span} {ctx : Context} :
      s.Prepares L x → Does L s (x.call callee args kwargs span ctx)
  | wait {x : State} {w : Wait} : s.Prepares L x → Does L s (x.wait w)
  | eval {x : State} {f : Frame} {n : Node} {ctx : Context} : s.Prepares L x → f.isOrdinary = true →
      L.allows (f.hasFree ·) → L.allows (fun σ => n.hasFree σ && !f.takes σ) → Does L s ((x.push f).eval n ctx)
  | enter {x : State} {f : Frame} {n : Node} {ctx : Context} : s.Prepares L x → f.isEntry = true → f.unit? = some n →
      Does L s ((x.push f).eval n ctx)
  | body {x : State} {c : Closure} {inner : Context} : s.Prepares L x → Does L s (x.enterBody c inner)

lemma callTask_reports {s : State} {callee : Value} {args : List Value} {kwargs : Dict Value} {span : Span}
    {ctx : Context} {last : Frame} {thread : Option Nat} :
    (s.callTask callee args kwargs span ctx last thread).Reports last :=
  ⟨⟨callee, args, kwargs, span, ctx, rfl⟩, ⟨span, ctx, rfl⟩, rfl, rfl⟩

namespace Prepares

variable {text : String} {c : Closure} {args : List Value} {kwargs : Dict Value} {path : Path} {L : Leeway}
  {s₀ s : State} {ctx : Context} {span : Span} {name : String} {v : Value} (h : s₀.Prepares L s)
include h

lemma value : s₀.Does L (s.value v) := .finish h trivial

lemma ofResult {r : Result} : s₀.Does L (s.finish (.ofResult r)) := .finish h (by cases r <;> trivial)

lemma fail {f : Fault} : s₀.Does L (s.fail f span ctx) := .finish h trivial

lemma part {f : Frame} {n : Node} (hf : f.isOrdinary = true) (hr : L.allows (f.hasFree ·))
    (hn : L.allows (n.hasFree ·)) :
    s₀.Does L ((s.push f).eval n ctx) :=
  .eval h hf hr fun σ hσ => hn σ (Bool.and_eq_true_iff.1 hσ).1

lemma setHeap {x : Heap} : s₀.Prepares L (s.setHeap x) := h.share ⟨rfl, rfl, rfl, rfl, rfl, rfl, rfl⟩

lemma setTables {t : Tables} : s₀.Prepares L (s.setTables t) := h.share ⟨rfl, rfl, rfl, rfl, rfl, rfl, rfl⟩

lemma onTables {α : Type} {f : Tables → α × Tables} : s₀.Prepares L (s.onTables f).2 := h.setTables

lemma assign : s₀.Prepares L (s.assign ctx name v) := h.setTables

lemma print : s₀.Prepares L (s.print text) := h.share ⟨rfl, rfl, rfl, rfl, rfl, rfl, rfl⟩

lemma setChannels {channels : Array (List Value)} : s₀.Prepares L { s with world := { s.world with channels } } :=
  h.share ⟨rfl, rfl, rfl, rfl, rfl, rfl, rfl⟩

lemma setCoChannels {coChannels : Array (List Value)} : s₀.Prepares L { s with world := { s.world with coChannels } } :=
  h.share ⟨rfl, rfl, rfl, rfl, rfl, rfl, rfl⟩

lemma setFiles {files : FileTree} : s₀.Prepares L { s with world := { s.world with files } } :=
  h.share ⟨rfl, rfl, rfl, rfl, rfl, rfl, rfl⟩

lemma bindParams {inner : Context} {bound : List (Param × Option Value)} : s₀.Does L (s.bindParams c inner bound) := by
  induction bound generalizing s with
  | nil =>
    unfold State.bindParams
    split
    · exact (h.coroutine c.name (.call c inner)).value
    · exact .body h
  | cons e rest ih =>
    obtain ⟨param, v?⟩ := e
    cases v? with
    | some v => cases param <;> exact ih h.assign
    | none =>
      cases param with
      | optional name node => exact .enter (f := .default c inner name node rest) h rfl rfl
      | _ => exact ih h.assign

lemma callFunction : s₀.Does L (s.callFunction c args kwargs span ctx) := by
  unfold State.callFunction
  dsimp only
  split
  · exact h.fail
  · exact h.onTables.bindParams

variable {inv : Invocation}

lemma input : s₀.Does L (s.input inv) := by
  have hread (text : String) : s₀.Prepares L { s with world := ((s.print text).world.readLine).2 } :=
    h.share ⟨rfl, rfl, rfl, rfl, rfl, rfl, rfl⟩
  unfold State.input
  dsimp only
  split
  · exact (hread _).value
  · exact (hread _).fail

lemma convert {α : Type} {target : String} {wrap : α → Value} {r : Option α} :
    Gives (s₀.Does L) (s.convert inv target wrap r) := by
  cases r with
  | none => exact .error
  | some a => exact .ok h.value

lemma bytesOf : Gives (s₀.Does L) (s.bytesOf inv) := by
  unfold State.bytesOf
  split
  · exact .ok h.value
  · exact .ok h.value
  · split
    · split
      · exact .ok h.value
      · exact .error
    · exact .error

lemma textOf : Gives (s₀.Does L) (s.textOf inv) := by
  unfold State.textOf
  split
  · split
    · exact .ok h.value
    · exact .error
  · exact .error

lemma withItems {list : Value} {items : List Value} : s₀.Does L (s.withItems list items) := h.setHeap.value

lemma pop : Gives (s₀.Does L) (s.pop inv) := by
  refine .bind fun items _ => .bind fun index _ => ?_
  cases position? index items.length with
  | none => exact .error
  | some p => exact .ok (h.setHeap (x := (s.world.heap.putItems (items.eraseIdx p) (inv.arg 0)).2)).value

lemma range : Gives (s₀.Does L) (s.range inv) := by
  have hrest (bounds : Int64 × Int64) : Gives (s₀.Does L) (do
      let step ← inv.int 2
      if step.toInt = 0 then .error .zeroRangeStep
      else return s.value (.list ((countUpTo bounds.2 step bounds.1 []).map .int))) :=
    .bind fun _ _ => .ite .error (.ok h.value)
  unfold State.range
  refine .ite (.bind fun stop _ => hrest (0, stop)) ?_
  exact .bind fun start _ => .bind fun stop _ => hrest (start, stop)

lemma setShared : Gives (s₀.Does L) (s.setShared inv) := by
  refine .bind fun shared _ => ?_
  split
  · exact .ite (.ok h.setHeap.value) (.ok h.value)
  · exact .ite (.ok h.setHeap.value) (.ok h.value)
  · exact .error

lemma writeFile : Gives (s₀.Does L) (s.writeFile path text) := by
  unfold State.writeFile
  split
  · exact .ok h.setFiles.value
  · exact .error

lemma inBackground {r : Except Fault Value} : s₀.Does L (s.inBackground inv r) :=
  (h.coroutine inv.builtin.name _).value

lemma writeInBackground : s₀.Does L (s.writeInBackground inv path text) := by
  unfold State.writeInBackground State.writeFile
  cases s.world.files.write path text with
  | ok files => exact (h.setFiles.share ⟨rfl, rfl, rfl, rfl, rfl, rfl, rfl⟩).inBackground
  | error reason => exact h.inBackground

lemma guarded {f : Frame} {first : Nat} (ho : f.isOrdinary = true) (hf : L.allows (f.hasFree ·)) :
    Gives (s₀.Does L) (s.guarded inv f first) := by
  refine .bind fun callee _ => .bind fun args _ => ?_
  refine .bind fun kwargs _ => .ok ?_
  exact .call ((h.push ho hf).push (f := .settle inv.span inv.ctx) rfl Leeway.allows_none)

lemma finallyCall : Gives (s₀.Does L) (s.finallyCall inv) := by
  refine .bind fun _ _ => .bind fun final _ => ?_
  exact h.guarded (f := .cleanup final inv.span inv.ctx) rfl Leeway.allows_none

lemma sleep : Gives (s₀.Does L) (s.sleep inv) := by
  refine .bind fun x _ => ?_
  split
  · exact .ok (.wait h)
  · exact .error

lemma asyncSleep : Gives (s₀.Does L) (s.asyncSleep inv) :=
  .bind fun _ _ => .ok (h.coroutine inv.builtin.name (.timer _)).value

lemma threadStart : Gives (s₀.Does L) (s.threadStart inv) := by
  refine .bind fun _ _ => .bind fun _ _ => ?_
  exact .bind fun _ _ => .ok (h.thread callTask_reports).value

lemma newPool : Gives (s₀.Does L) (s.newPool inv) :=
  .bind fun _ _ => .ite .error (.ok (h.pool rfl).value)

lemma submit : Gives (s₀.Does L) (s.submit inv) := by
  refine .bind fun id _ => .bind fun callee _ => ?_
  refine .bind fun args _ => .bind fun kwargs _ => ?_
  cases hpool : s.world.pools[id]? with
  | none => exact .error
  | some p =>
    refine .ite .error (.ok ?_)
    dsimp only
    split
    · exact (h.enqueue hpool rfl).value
    · rename_i idle _
      exact (h.employ { p with idle } hpool rfl callTask_reports).value

lemma closePool {id : Nat} : s₀.Prepares L (match s.world.pools[id]? with
    | some p => s.setPool id { p with closed := true }
    | none => s) := by
  split
  · rename_i p hp
    exact h.tend { p with closed := true } hp rfl
  · exact h

lemma shutdown : Gives (s₀.Does L) (s.shutdown inv) := by
  refine .bind fun id _ => .bind fun wait _ => .ok ?_
  cases wait with
  | true => exact .wait h.closePool
  | false => exact h.closePool.value

lemma perform (hg : inv.builtin ≠ .gather) (ht : inv.builtin ≠ .timeout) : Gives (s₀.Does L) (s.perform inv) := by
  obtain ⟨b, args, span, ctx⟩ := inv
  cases b with
  | print | println => exact .ok h.print.value
  | input => exact .ok h.input
  | type | isNone | toStr | timeNow => exact .ok h.value
  | len =>
    unfold State.perform
    dsimp only
    split
    · exact .ok h.value
    · exact .error
  | toInt | toFloat | toDecimal => exact h.convert
  | toBytes => exact h.bytesOf
  | fromBytes => exact h.textOf
  | keys | values | channelIsEmpty | coChannelIsEmpty | open_ | fileExists => exact .bind fun _ _ => .ok h.value
  | append => exact .bind fun _ _ => .ok h.withItems
  | extend =>
    exact .bind fun _ _ => .bind fun _ _ => .ok h.withItems
  | pop => exact h.pop
  | range => exact h.range
  | catch_ | isPanic => exact h.guarded rfl Leeway.allows_none
  | finally_ => exact h.finallyCall
  | setReusable => exact h.setShared
  | sleep => exact h.sleep
  | asyncSleep => exact h.asyncSleep
  | gather | timeout => contradiction
  | threadStart => exact h.threadStart
  | threadJoin | futureResult | channelReceive =>
    exact .bind fun _ _ => .bind fun _ _ =>
      .ok (.wait h)
  | threadIsAlive | futureDone => exact .bind fun _ _ => .ok (.wait h)
  | threadCancel => exact .bind fun number _ => .ok (h.cancel number).value
  | threadPoolNew => exact h.newPool
  | threadPoolSubmit => exact h.submit
  | threadPoolShutdown => exact h.shutdown
  | channelNew => exact .ok h.setChannels.value
  | channelSend => exact .bind fun _ _ => .ok h.setChannels.value
  | coChannelNew => exact .ok h.setCoChannels.value
  | coChannelSend => exact .bind fun _ _ => .ok h.setCoChannels.value
  | coChannelReceive =>
    exact .bind fun id _ =>
      .ok (h.coroutine Builtin.coChannelReceive.name (.receive id span ctx)).value
  | readFile => exact .bind fun _ _ => .bind fun _ _ => .ok h.value
  | writeFile => exact .bind fun _ _ => .bind fun _ _ => h.writeFile
  | readFileAsync => exact .bind fun _ _ => .ok h.inBackground
  | writeFileAsync =>
    exact .bind fun _ _ => .bind fun _ _ => .ok h.writeInBackground

lemma callBuiltin {b : Builtin} (hg : b ≠ .gather) (ht : b ≠ .timeout) :
    s₀.Does L (s.callBuiltin b args kwargs span ctx) := by
  unfold State.callBuiltin
  split
  · exact h.fail
  · rename_i bound _
    split
    · exact h.fail
    · rename_i s' hs'
      exact h.perform hg ht s' hs'

end Prepares

end State

end ScriptMachine
