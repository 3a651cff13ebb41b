import ScriptMachine.Proofs.Reread

/-! Binding the arguments of a call to parameters. -/

namespace ScriptMachine

open List

structure Declarable (params : List (String × Slot)) : Prop where
  names : (params.map Prod.fst).Nodup
  rest : params.countP (·.2 = .rest) ≤ 1
  keywords : params.countP (·.2 = .keywords) ≤ 1
  required : params.Pairwise fun p q => p.2 = .optional ∨ p.2 = .rest → q.2 ≠ .required

def positionalNames (params : List (String × Slot)) : List String :=
  ((params.takeWhile (·.2 ≠ .rest)).filter (·.2.isSingle)).map Prod.fst

def hasSlot (params : List (String × Slot)) (slot : Slot) : Bool := params.any (·.2 = slot)

def namesSingle (params : List (String × Slot)) (key : String) : Bool := params.any fun p => p.1 = key && p.2.isSingle

section call

variable (params : List (String × Slot)) (args : List Value) (kwargs : Dict Value)

def takenNames : List String := (positionalNames params).take args.length

def Accepts (key : String) : Prop :=
  namesSingle params key = true ∧ key ∉ takenNames params args ∨
    namesSingle params key = false ∧ hasSlot params .keywords = true

def IsGiven (name : String) : Prop := name ∈ takenNames params args ∨ name ∈ kwargs.keys

def PositionsSuffice : Prop := hasSlot params .rest = true ∨ args.length ≤ params.countP (·.2.isSingle)

structure Fits : Prop where
  positions : PositionsSuffice params args
  keywords : ∀ e ∈ kwargs, Accepts params args e.1
  required : ∀ p ∈ params, p.2 = .required → IsGiven params args kwargs p.1

def positioned : Dict Value := (positionalNames params).zip args

def argumentFor : String × Slot → Option Value
  | (_, .rest) => some (.list (args.drop (positionalNames params).length))
  | (_, .keywords) => some (.map (kwargs.filter fun e => !namesSingle params e.1))
  | (name, _) => (positioned params args).get? name <|> kwargs.get? name

end call

def Slot.contents : Slot → Option Value → List Value
  | .rest, some (.list values) => values
  | .keywords, some (.map entries) => Dict.values entries
  | _, value => value.toList

/-- The arguments of a call are handed out to the parameters, each of them once. -/
structure HandsOut (params : List (String × Slot)) (args : List Value) (kwargs : Dict Value)
    (bound : List (Option Value)) : Prop where
  length : bound.length = params.length
  entries : bound = params.map (argumentFor params args kwargs)
  unfilled : ∀ p ∈ params.zip bound, p.2 = none → p.1.2 = .optional
  contents : ((params.zip bound).flatMap fun p => p.1.2.contents p.2).Perm (args ++ kwargs.values)

/-- What is wrong with the arguments of a call. Those by position come first, then those by name in their order, then
the parameters in theirs. -/
inductive Reports (function : String) (params : List (String × Slot)) (args : List Value) (kwargs : Dict Value) :
    Fault → Prop
  | tooMany : ¬PositionsSuffice params args →
      Reports function params args kwargs (.tooManyArguments function (params.countP (·.2.isSingle)) args.length)
  | twice {before key value after} : PositionsSuffice params args → kwargs = before ++ (key, value) :: after →
      (∀ e ∈ before, Accepts params args e.1) → namesSingle params key = true → key ∈ takenNames params args →
      Reports function params args kwargs (.argumentTwice function key)
  | unexpected {before key value after} : PositionsSuffice params args → kwargs = before ++ (key, value) :: after →
      (∀ e ∈ before, Accepts params args e.1) → namesSingle params key = false → hasSlot params .keywords = false →
      Reports function params args kwargs (.unexpectedArgument function key)
  | missing {before name after} : PositionsSuffice params args → (∀ e ∈ kwargs, Accepts params args e.1) →
      params = before ++ (name, .required) :: after →
      (∀ p ∈ before, p.2 = .required → IsGiven params args kwargs p.1) → ¬IsGiven params args kwargs name →
      Reports function params args kwargs (.missingArgument function name)

section names

variable {params : List (String × Slot)} {args : List Value} {key name : String} {slot : Slot}

lemma positionalNames_single (h : slot.isSingle = true) :
    positionalNames ((name, slot) :: params) = name :: positionalNames params := by
  cases slot with
  | required | optional => rfl
  | rest | keywords => contradiction

lemma namesSingle_cons :
    namesSingle ((name, slot) :: params) key = (name = key && slot.isSingle || namesSingle params key) :=
  rfl

lemma namesSingle_iff : namesSingle params key = true ↔ ∃ p ∈ params, p.1 = key ∧ p.2.isSingle = true := by
  simp [namesSingle]

lemma Dict.get?_isSome_iff {α : Type} {d : Dict α} : (d.get? key).isSome = true ↔ key ∈ d.keys := by
  induction d with
  | nil => simp [keys]
  | cons e d ih =>
    obtain ⟨k, v⟩ := e
    rw [get?, keys, map_cons, mem_cons, ← keys, ← ih]
    split
    · rename_i hk
      simp [hk]
    · rename_i hk
      simp [Ne.symm hk]

lemma keys_positioned : (positioned params args).keys = takenNames params args := by
  rw [Dict.keys, positioned, takenNames]
  generalize positionalNames params = names
  induction names generalizing args with
  | nil => simp
  | cons name names ih =>
    cases args with
    | nil => rfl
    | cons a args => simpa using ih

lemma positioned_eq_some_iff : (∃ v, (positioned params args).get? key = some v) ↔ key ∈ takenNames params args := by
  rw [← Option.isSome_iff_exists, Dict.get?_isSome_iff, keys_positioned]

end names

section positions

variable {name : String} {surplus : List Value} {p : String × Slot} {params : List (String × Slot)} {args : List Value}

def afterPositions (given : Dict Value) (surplus : List Value) (p : String × Slot) : Filled :=
  ⟨p.1, p.2, match p.2 with
    | .rest => some (.list surplus)
    | .keywords => none
    | _ => given.get? p.1⟩

lemma afterPositions_nil (h : p.2 ≠ .rest) : afterPositions [] surplus p = ⟨p.1, p.2, none⟩ := by
  obtain ⟨name, slot⟩ := p
  cases slot with
  | rest => contradiction
  | _ => rfl

lemma afterPositions_cons {given : Dict Value} {v : Value} (h : p.1 ≠ name) :
    afterPositions ((name, v) :: given) surplus p = afterPositions given surplus p := by
  obtain ⟨key, slot⟩ := p
  have hget : Dict.get? ((name, v) :: given) key = given.get? key := if_neg fun hn => h hn.symm
  cases slot with
  | rest | keywords => rfl
  | required | optional => rw [afterPositions, afterPositions, hget]

lemma fillPositional_nil {open_ : Bool} (h : ∀ p ∈ params, p.2 ≠ .rest) :
    fillPositional open_ params [] = (params.map fun p => ⟨p.1, p.2, none⟩, []) := by
  induction params with
  | nil => rfl
  | cons p params ih =>
    obtain ⟨name, slot⟩ := p
    obtain ⟨hp, hparams⟩ := forall_mem_cons.1 h
    cases slot with
    | rest => contradiction
    | _ => simp [fillPositional, ih hparams]

lemma fillPositional_keywords : fillPositional true ((name, .keywords) :: params) args =
    (⟨name, .keywords, none⟩ :: (fillPositional true params args).1, (fillPositional true params args).2) := by
  cases args <;> rfl

lemma fillPositional_single {slot : Slot} {a : Value} (h : slot.isSingle = true) :
    fillPositional true ((name, slot) :: params) (a :: args) =
      (⟨name, slot, some a⟩ :: (fillPositional true params args).1, (fillPositional true params args).2) := by
  cases slot with
  | required | optional => rfl
  | rest | keywords => contradiction

lemma fillPositional_eq (hn : (params.map Prod.fst).Nodup) (hr : params.countP (·.2 = .rest) ≤ 1) :
    fillPositional true params args =
      (params.map (afterPositions (positioned params args) (args.drop (positionalNames params).length)),
        if hasSlot params .rest then [] else args.drop (positionalNames params).length) := by
  induction params generalizing args with
  | nil => rfl
  | cons p params ih =>
    obtain ⟨name, slot⟩ := p
    obtain ⟨hname, hnames⟩ := nodup_cons.1 hn
    have hsingle (h : slot.isSingle = true) (hcount : params.countP (·.2 = .rest) ≤ 1) :
        fillPositional true ((name, slot) :: params) args = (((name, slot) :: params).map (afterPositions
            (positioned ((name, slot) :: params) args) (args.drop (positionalNames ((name, slot) :: params)).length)),
          if hasSlot ((name, slot) :: params) .rest then []
          else args.drop (positionalNames ((name, slot) :: params)).length) := by
      have hslot : hasSlot ((name, slot) :: params) .rest = hasSlot params .rest := by
        cases slot <;> first | rfl | contradiction
      have hfirst (given : Dict Value) (surplus : List Value) :
          afterPositions given surplus (name, slot) = ⟨name, slot, given.get? name⟩ := by
        cases slot <;> first | rfl | contradiction
      rw [hslot, positioned, positionalNames_single h, map_cons, hfirst]
      cases args with
      | nil =>
        have hnone : fillPositional true ((name, slot) :: params) [] =
            (⟨name, slot, none⟩ :: (fillPositional true params []).1, (fillPositional true params []).2) := by
          cases slot <;> first | rfl | contradiction
        rw [hnone, ih hnames hcount]
        simp [positioned]
      | cons a args =>
        rw [fillPositional_single h, ih hnames hcount, zip_cons_cons, length_cons, drop_succ_cons]
        refine Prod.ext (congrArg₂ _ (by simp [Dict.get?]) (map_congr_left fun q hq => ?_)) rfl
        have hne : q.1 ≠ name := by
          rintro rfl
          exact hname (mem_map.2 ⟨q, hq, rfl⟩)
        exact (afterPositions_cons hne).symm
    cases slot with
    | required | optional => exact hsingle rfl (by simpa using hr)
    | keywords =>
      have hcount : params.countP (·.2 = .rest) ≤ 1 := by simpa using hr
      rw [fillPositional_keywords, ih hnames hcount]
      rfl
    | rest =>
      have hnone : ∀ q ∈ params, q.2 ≠ .rest := by
        have hzero : params.countP (·.2 = .rest) = 0 := by simpa using hr
        simpa using countP_eq_zero.1 hzero
      rw [fillPositional, fillPositional_nil hnone]
      refine Prod.ext (congrArg₂ _ rfl (map_congr_left fun q hq => ?_)) rfl
      exact (afterPositions_nil (hnone q hq)).symm

end positions

section keywords

variable {p : Filled} {other function : String} {collects : Bool} {collected : Dict Value} {filled : List Filled}
  {key : String} {value : Value} {kwargs : Dict Value}

def Filled.answers (key : String) (p : Filled) : Bool := p.name = key && p.slot.isSingle

lemma Filled.answers_iff : p.answers key = true ↔ p.name = key ∧ p.slot.isSingle = true := by
  simp [answers]

def Filled.give (key : String) (value : Value) (p : Filled) : Filled :=
  if p.answers key then { p with value := some value } else p

def Filled.merge (kwargs : Dict Value) (p : Filled) : Filled :=
  if p.slot.isSingle then { p with value := p.value <|> kwargs.get? p.name } else p

lemma placeKeyword_unknown (h : ∀ p ∈ filled, p.answers key = false) : placeKeyword key value filled = .unknown := by
  induction filled with
  | nil => rfl
  | cons p filled ih =>
    obtain ⟨hp, hfilled⟩ := forall_mem_cons.1 h
    have hnot : ¬(p.name = key ∧ p.slot.isSingle = true) := by simpa [Filled.answers] using hp
    rw [placeKeyword, if_neg hnot, ih hfilled]

lemma placeKeyword_append {before after : List Filled} (h : ∀ q ∈ before, q.answers key = false)
    (hp : p.answers key = true) : placeKeyword key value (before ++ p :: after) =
      if p.value.isSome then .taken else .filled (before ++ { p with value := some value } :: after) := by
  induction before with
  | nil =>
    rw [nil_append, placeKeyword, if_pos (Filled.answers_iff.1 hp)]
    cases p.value <;> rfl
  | cons q before ih =>
    obtain ⟨hq, hbefore⟩ := forall_mem_cons.1 h
    have hnot : ¬(q.name = key ∧ q.slot.isSingle = true) := by simpa [Filled.answers] using hq
    rw [cons_append, placeKeyword, if_neg hnot, ih hbefore]
    cases p.value <;> rfl

lemma map_give_of_answers (h : ∀ p ∈ filled, p.answers key = false) : filled.map (Filled.give key value) = filled := by
  have hsame : ∀ p ∈ filled, Filled.give key value p = id p := fun p hp => by rw [Filled.give, h p hp]; rfl
  rw [map_congr_left hsame, map_id]

lemma placeKeyword_known (hn : (filled.map Filled.name).Nodup) (hp : p ∈ filled) (ha : p.answers key = true) :
    placeKeyword key value filled =
      if p.value.isSome then .taken else .filled (filled.map (Filled.give key value)) := by
  obtain ⟨before, after, rfl⟩ := append_of_mem hp
  have hname : p.name = key := (Filled.answers_iff.1 ha).1
  have hothers {others : List Filled} (h : p.name ∉ others.map Filled.name) : ∀ q ∈ others, q.answers key = false := by
    intro q hq
    have hne : q.name ≠ key := fun hq' => h (hname ▸ hq' ▸ mem_map_of_mem hq)
    simp [Filled.answers, hne]
  rw [map_append, map_cons, nodup_middle, nodup_cons, mem_append] at hn
  have hbefore := hothers fun h => hn.1 (.inl h)
  have hafter := hothers fun h => hn.1 (.inr h)
  rw [placeKeyword_append hbefore ha, map_append, map_cons, map_give_of_answers hbefore,
    map_give_of_answers hafter, Filled.give, if_pos ha]

lemma answers_give : (p.give key value).answers other = p.answers other := by
  rw [Filled.give]
  split <;> rfl

lemma any_answers_give :
    (filled.map (Filled.give key value)).any (Filled.answers other) = filled.any (Filled.answers other) := by
  rw [any_map]
  exact congrArg _ (funext fun p => answers_give)

lemma names_give : (filled.map (Filled.give key value)).map Filled.name = filled.map Filled.name := by
  rw [map_map]
  refine map_congr_left fun p _ => ?_
  rw [Function.comp_apply, Filled.give]
  split <;> rfl

def Welcome (collects : Bool) (filled : List Filled) (key : String) : Prop :=
  (∃ p ∈ filled, p.answers key = true ∧ p.value = none) ∨ collects = true ∧ filled.any (Filled.answers key) = false

lemma Welcome.give (h : Welcome collects filled other) (hne : other ≠ key) :
    Welcome collects (filled.map (Filled.give key value)) other := by
  rcases h with ⟨p, hp, ha, hnone⟩ | ⟨hc, hnot⟩
  · refine .inl ⟨p.give key value, mem_map_of_mem hp, by rwa [answers_give], ?_⟩
    have hkey : p.answers key = false := by simp [Filled.answers, (Filled.answers_iff.1 ha).1, hne]
    rw [Filled.give, hkey]
    exact hnone
  · exact .inr ⟨hc, by rwa [any_answers_give]⟩

lemma merge_give (h : p.answers key = true → p.value = none) :
    (p.give key value).merge kwargs = p.merge ((key, value) :: kwargs) := by
  obtain ⟨name, slot, v⟩ := p
  by_cases hs : slot.isSingle = true
  · by_cases hname : name = key
    · have hnone : v = none := h (by simp [Filled.answers, hname, hs])
      simp [Filled.give, Filled.answers, Filled.merge, hs, hname, hnone, Dict.get?]
    · simp [Filled.give, Filled.answers, Filled.merge, hs, hname, Dict.get?, Ne.symm hname]
  · simp [Filled.give, Filled.answers, Filled.merge, hs]

lemma merge_of_answers (h : p.answers key = false) : p.merge kwargs = p.merge ((key, value) :: kwargs) := by
  obtain ⟨name, slot, v⟩ := p
  by_cases hs : slot.isSingle = true
  · have hne : key ≠ name := by
      rintro rfl
      simp [Filled.answers, hs] at h
    simp [Filled.merge, hs, Dict.get?, hne]
  · simp [Filled.merge, hs]

lemma placeKeywords_ok (hn : (filled.map Filled.name).Nodup) (hk : kwargs.keys.Nodup)
    (h : ∀ e ∈ kwargs, Welcome collects filled e.1) :
    placeKeywords function collects kwargs filled collected = .ok (filled.map (Filled.merge kwargs),
      collected.union (kwargs.filter fun e => !filled.any (Filled.answers e.1))) := by
  induction kwargs generalizing filled collected with
  | nil =>
    have hsame : ∀ p ∈ filled, Filled.merge [] p = id p := by
      rintro ⟨name, slot, v⟩ -
      simp [Filled.merge]
    rw [map_congr_left hsame, map_id]
    rfl
  | cons e kwargs ih =>
    obtain ⟨key, value⟩ := e
    obtain ⟨hkey, hkeys⟩ := nodup_cons.1 hk
    obtain ⟨hfirst, hrest⟩ := forall_mem_cons.1 h
    have hne : ∀ e ∈ kwargs, e.1 ≠ key := fun e he heq => hkey (mem_map.2 ⟨e, he, heq⟩)
    rw [placeKeywords]
    rcases hfirst with ⟨p, hp, ha, hnone⟩ | ⟨hc, hnot⟩
    · have hwaits : ∀ q ∈ filled, q.answers key = true → q.value = none := by
        intro q hq hqa
        have hname : q.name = p.name := (Filled.answers_iff.1 hqa).1.trans (Filled.answers_iff.1 ha).1.symm
        rw [inj_on_of_nodup_map hn hq hp hname, hnone]
      have hknown : filled.any (Filled.answers key) = true := any_eq_true.2 ⟨p, hp, ha⟩
      rw [placeKeyword_known hn hp ha, hnone, Option.isSome_none, if_neg Bool.false_ne_true]
      dsimp only
      rw [ih (by rwa [names_give]) hkeys fun e he => (hrest e he).give (hne e he), map_map, filter_cons,
        hknown]
      simp only [any_answers_give, Bool.not_true, Bool.false_eq_true, if_false]
      exact congrArg (fun ps => Except.ok (ps, _)) (map_congr_left fun q hq => merge_give (hwaits q hq))
    · have hnone : ∀ p ∈ filled, p.answers key = false := by simpa using hnot
      rw [placeKeyword_unknown hnone]
      dsimp only
      rw [if_pos hc, ih hn hkeys hrest, filter_cons, hnot]
      refine congrArg (fun ps => Except.ok (ps, _)) (map_congr_left fun q hq => ?_)
      exact merge_of_answers (hnone q hq)

lemma placeKeywords_append {more : Dict Value} : placeKeywords function collects (kwargs ++ more) filled collected =
      (placeKeywords function collects kwargs filled collected).bind fun r =>
        placeKeywords function collects more r.1 r.2 := by
  induction kwargs generalizing filled collected with
  | nil => rfl
  | cons e kwargs ih =>
    obtain ⟨key, value⟩ := e
    rw [cons_append, placeKeywords, placeKeywords]
    cases placeKeyword key value filled with
    | filled filled => exact ih
    | taken => rfl
    | unknown =>
      dsimp only
      split
      · exact ih
      · rfl

lemma answers_merge : (p.merge kwargs).answers key = p.answers key := by
  rw [Filled.merge]
  split <;> rfl

lemma names_merge : (filled.map (Filled.merge kwargs)).map Filled.name = filled.map Filled.name := by
  rw [map_map]
  refine map_congr_left fun p _ => ?_
  rw [Function.comp_apply, Filled.merge]
  split <;> rfl

lemma placeKeywords_error {function : String} {collects : Bool} {collected after : Dict Value}
    (hn : (filled.map Filled.name).Nodup) (hk : (kwargs ++ (key, value) :: after).keys.Nodup)
    (h : ∀ e ∈ kwargs, Welcome collects filled e.1) (hkey : ¬Welcome collects filled key) :
    placeKeywords function collects (kwargs ++ (key, value) :: after) filled collected =
      .error (if filled.any (Filled.answers key) then .argumentTwice function key
        else .unexpectedArgument function key) := by
  have hkeys : kwargs.keys.Nodup := by
    rw [Dict.keys, map_append] at hk
    exact hk.of_append_left
  rw [placeKeywords_append, placeKeywords_ok hn hkeys h, Except.bind, placeKeywords]
  cases hany : filled.any (Filled.answers key) with
  | true =>
    obtain ⟨p, hp, ha⟩ := any_eq_true.1 hany
    obtain ⟨v, hv⟩ : ∃ v, p.value = some v :=
      Option.ne_none_iff_exists'.1 fun hnone => hkey (.inl ⟨p, hp, ha, hnone⟩)
    have hvalue : (p.merge kwargs).value = some v := by
      rw [Filled.merge]
      split <;> simp [hv]
    rw [placeKeyword_known (by rwa [names_merge]) (mem_map_of_mem hp) (by rwa [answers_merge]), hvalue]
    rfl
  | false =>
    have hnone : ∀ p ∈ filled.map (Filled.merge kwargs), p.answers key = false := by
      rw [forall_mem_map]
      intro p hp
      rw [answers_merge]
      simpa using any_eq_false.1 hany p hp
    have hc : collects = false := by
      by_contra hc
      exact hkey (.inr ⟨by simpa using hc, hany⟩)
    rw [placeKeyword_unknown hnone, hc]
    rfl

end keywords

lemma fillKeywords_eq {collected : Dict Value} {filled : List Filled} (h : filled.countP (·.slot = .keywords) ≤ 1) :
    fillKeywords collected filled =
      filled.map fun p => if p.slot = .keywords then { p with value := some (.map collected) } else p := by
  induction filled with
  | nil => rfl
  | cons p filled ih =>
    rw [fillKeywords, map_cons]
    by_cases hp : p.slot = .keywords
    · have hzero : filled.countP (·.slot = .keywords) = 0 := by simpa [hp] using h
      have hothers : ∀ q ∈ filled,
          (if q.slot = .keywords then { q with value := some (.map collected) } else q) = id q := by
        intro q hq
        have hq' : q.slot ≠ .keywords := by simpa using countP_eq_zero.1 hzero q hq
        rw [if_neg hq', id]
      rw [if_pos hp, if_pos hp, map_congr_left hothers, map_id]
    · rw [if_neg hp, if_neg hp, ih (by simpa [hp] using h)]

lemma exists_first_not {α : Type} {P : α → Prop} {l : List α} (h : ¬∀ a ∈ l, P a) :
    ∃ before a after, l = before ++ a :: after ∧ (∀ b ∈ before, P b) ∧ ¬P a := by
  induction l with
  | nil => exact absurd (forall_mem_nil _) h
  | cons a l ih =>
    by_cases ha : P a
    · obtain ⟨before, b, after, rfl, hbefore, hb⟩ := ih fun hl => h (forall_mem_cons.2 ⟨ha, hl⟩)
      exact ⟨a :: before, b, after, rfl, forall_mem_cons.2 ⟨ha, hbefore⟩, hb⟩
    · exact ⟨[], a, l, rfl, forall_mem_nil _, ha⟩

section calls

variable {key : String} {function : String} {params : List (String × Slot)} {args : List Value} {kwargs : Dict Value}

lemma Dict.Ordered.nodup_keys {α : Type} {d : Dict α} (h : d.Ordered) : d.keys.Nodup :=
  pairwise_map.2 (h.imp fun hlt => hlt.ne)

def started (params : List (String × Slot)) (args : List Value) : List Filled :=
  params.map (afterPositions (positioned params args) (args.drop (positionalNames params).length))

lemma names_started : (started params args).map Filled.name = params.map Prod.fst := by
  rw [started, map_map]
  rfl

lemma answers_started : (started params args).any (Filled.answers key) = namesSingle params key := by
  rw [started, any_map]
  rfl

lemma welcome_iff_accepts : Welcome (hasSlot params .keywords) (started params args) key ↔ Accepts params args key := by
  have hwaits : (∃ q ∈ started params args, q.answers key = true ∧ q.value = none) ↔
      namesSingle params key = true ∧ key ∉ takenNames params args := by
    rw [← positioned_eq_some_iff, ← Option.ne_none_iff_exists', not_not, namesSingle_iff, started]
    simp only [mem_map, exists_exists_and_eq_and]
    constructor
    · rintro ⟨⟨name, slot⟩, hp, ha, hnone⟩
      obtain ⟨rfl, hs⟩ : name = key ∧ slot.isSingle = true := Filled.answers_iff.1 ha
      refine ⟨⟨_, hp, rfl, hs⟩, ?_⟩
      cases slot <;> first | exact hnone | contradiction
    · rintro ⟨⟨⟨name, slot⟩, hp, rfl, hs⟩, hnone⟩
      refine ⟨_, hp, Filled.answers_iff.2 ⟨rfl, hs⟩, ?_⟩
      cases slot <;> first | exact hnone | contradiction
  rw [Welcome, Accepts, hwaits, answers_started, and_comm (a := hasSlot params .keywords = true)]

lemma length_positionalNames (h : hasSlot params .rest = false) :
    (positionalNames params).length = params.countP (·.2.isSingle) := by
  have hall : ∀ p ∈ params, decide (p.2 ≠ .rest) = true := by simpa [hasSlot] using h
  rw [positionalNames, takeWhile_eq_self_iff.2 hall, length_map, countP_eq_length_filter]

lemma fillPositional_of_positions (hp : Declarable params) (h : PositionsSuffice params args) :
    fillPositional true params args = (started params args, []) := by
  rw [fillPositional_eq hp.names hp.rest]
  split
  · rfl
  · rename_i hrest
    rw [length_positionalNames (by simpa using hrest), drop_eq_nil_of_le (h.resolve_left hrest), started,
      length_positionalNames (by simpa using hrest), drop_eq_nil_of_le (h.resolve_left hrest)]

lemma bindArguments_of_positions (hp : Declarable params) (h : PositionsSuffice params args) :
    bindArguments function params args kwargs =
      (placeKeywords function (hasSlot params .keywords) kwargs (started params args) []).bind fun r =>
        match firstMissing? (fillKeywords r.2 r.1) with
        | some name => .error (.missingArgument function name)
        | none => .ok ((fillKeywords r.2 r.1).map (·.value)) := by
  rw [bindArguments, fillPositional_of_positions hp h]
  rfl

lemma bindArguments_tooMany (hp : Declarable params) (h : ¬PositionsSuffice params args) :
    bindArguments function params args kwargs =
      .error (.tooManyArguments function (params.countP (·.2.isSingle)) args.length) := by
  obtain ⟨hrest, hcount⟩ : hasSlot params .rest = false ∧ params.countP (·.2.isSingle) < args.length := by
    simpa [PositionsSuffice] using h
  have hne : (args.drop (params.countP (·.2.isSingle))).isEmpty = false := by
    simpa using hcount
  rw [bindArguments, fillPositional_eq hp.names hp.rest]
  dsimp only
  rw [hrest, if_neg Bool.false_ne_true, length_positionalNames hrest, hne]
  rfl

def completed (params : List (String × Slot)) (args : List Value) (kwargs : Dict Value) : List Filled :=
  params.map fun p => ⟨p.1, p.2, argumentFor params args kwargs p⟩

lemma placeKeywords_accepted (hp : Declarable params) (hk : kwargs.Ordered)
    (h : ∀ e ∈ kwargs, Accepts params args e.1) : ∃ filled collected,
      placeKeywords function (hasSlot params .keywords) kwargs (started params args) [] = .ok (filled, collected) ∧
        fillKeywords collected filled = completed params args kwargs := by
  have hn : ((started params args).map Filled.name).Nodup := by
    rw [names_started]
    exact hp.names
  refine ⟨_, _, placeKeywords_ok hn hk.nodup_keys fun e he => welcome_iff_accepts.2 (h e he), ?_⟩
  have hcollected : Dict.union [] (kwargs.filter fun e => !(started params args).any (Filled.answers e.1)) =
      kwargs.filter fun e => !namesSingle params e.1 := by
    simp only [answers_started]
    exact Dict.ofList_of_ordered (hk.filter _)
  have hslots : ((started params args).map (Filled.merge kwargs)).countP (·.slot = .keywords) ≤ 1 := by
    refine le_of_eq_of_le ?_ hp.keywords
    rw [started, map_map, countP_map]
    refine countP_congr fun p _ => ?_
    obtain ⟨name, slot⟩ := p
    cases slot <;> simp [afterPositions, Filled.merge, Slot.isSingle]
  rw [fillKeywords_eq hslots, hcollected, started, map_map, map_map, completed]
  refine map_congr_left fun p _ => ?_
  obtain ⟨name, slot⟩ := p
  cases slot <;> simp [afterPositions, Filled.merge, Slot.isSingle, argumentFor]

lemma isNone_argumentFor {name : String} :
    (argumentFor params args kwargs (name, .required)).isNone = true ↔ ¬IsGiven params args kwargs name := by
  rw [IsGiven, ← keys_positioned, ← Dict.get?_isSome_iff, ← Dict.get?_isSome_iff]
  simp only [argumentFor]
  cases (positioned params args).get? name <;> simp

lemma firstMissing?_completed : firstMissing? (completed params args kwargs) =
    (params.find? fun p => p.2 = .required ∧ (argumentFor params args kwargs p).isNone).map Prod.fst := by
  rw [firstMissing?, completed, find?_map, Option.map_map]
  rfl

lemma bindArguments_of_fits (hp : Declarable params) (hk : kwargs.Ordered) (h : Fits params args kwargs) :
    bindArguments function params args kwargs = .ok (params.map (argumentFor params args kwargs)) := by
  obtain ⟨filled, collected, hplaced, hcompleted⟩ := @placeKeywords_accepted function _ _ _ hp hk h.keywords
  have hnone : params.find? (fun p => p.2 = .required ∧ (argumentFor params args kwargs p).isNone) = none := by
    rw [find?_eq_none]
    rintro ⟨name, slot⟩ hmem
    simp only [decide_eq_true_eq, not_and]
    rintro rfl
    exact fun hnone => isNone_argumentFor.1 hnone (h.required _ hmem rfl)
  rw [bindArguments_of_positions hp h.positions, hplaced, Except.bind]
  dsimp only
  rw [hcompleted, firstMissing?_completed, hnone, completed, Option.map_none, map_map]
  rfl

lemma bindArguments_of_not_fits (hp : Declarable params) (hk : kwargs.Ordered) (h : ¬Fits params args kwargs) :
    ∃ fault, bindArguments function params args kwargs = .error fault ∧ Reports function params args kwargs fault := by
  by_cases hpos : PositionsSuffice params args
  swap
  · exact ⟨_, bindArguments_tooMany hp hpos, .tooMany hpos⟩
  rw [bindArguments_of_positions hp hpos]
  by_cases hkw : ∀ e ∈ kwargs, Accepts params args e.1
  · have hrequired : ¬∀ p ∈ params, p.2 = .required → IsGiven params args kwargs p.1 := fun hr => h ⟨hpos, hkw, hr⟩
    obtain ⟨before, ⟨name, slot⟩, after, hparams, hbefore, hnot⟩ := exists_first_not hrequired
    obtain ⟨rfl, hnot⟩ := Classical.not_imp.1 hnot
    obtain ⟨filled, collected, hplaced, hcompleted⟩ := @placeKeywords_accepted function _ _ _ hp hk hkw
    have hfirst : params.find? (fun p => p.2 = .required ∧ (argumentFor params args kwargs p).isNone) =
        some (name, .required) := by
      rw [find?_eq_some_iff_append]
      refine ⟨by simpa using isNone_argumentFor.2 hnot, before, after, hparams, ?_⟩
      rintro ⟨name, slot⟩ hmem
      simp only [Bool.not_eq_true', decide_eq_false_iff_not, not_and]
      rintro rfl
      exact fun hnone => isNone_argumentFor.1 hnone (hbefore _ hmem rfl)
    refine ⟨.missingArgument function name, ?_, .missing hpos hkw hparams hbefore hnot⟩
    rw [hplaced, Except.bind]
    dsimp only
    rw [hcompleted, firstMissing?_completed, hfirst]
    rfl
  · obtain ⟨before, ⟨key, value⟩, after, rfl, hbefore, hnot⟩ := exists_first_not hkw
    have hn : ((started params args).map Filled.name).Nodup := by
      rw [names_started]
      exact hp.names
    have herror := @placeKeywords_error _ _ _ _ function _ [] _ hn hk.nodup_keys
      (fun e he => welcome_iff_accepts.2 (hbefore e he)) fun hw => hnot (welcome_iff_accepts.1 hw)
    rw [herror, answers_started]
    cases hsingle : namesSingle params key with
    | true =>
      refine ⟨_, rfl, .twice hpos rfl hbefore hsingle ?_⟩
      by_contra hmem
      exact hnot (.inl ⟨hsingle, hmem⟩)
    | false =>
      refine ⟨_, rfl, .unexpected hpos rfl hbefore hsingle ?_⟩
      by_contra hslot
      exact hnot (.inr ⟨hsingle, by simpa using hslot⟩)

def byPosition (params : List (String × Slot)) (args : List Value) (p : String × Slot) : List Value :=
  p.2.contents (afterPositions (positioned params args) (args.drop (positionalNames params).length) p).value

def byName (kwargs : Dict Value) : String × Slot → List Value
  | (_, .rest) | (_, .keywords) => []
  | (name, _) => (kwargs.get? name).toList

def byCollection (params : List (String × Slot)) (kwargs : Dict Value) : String × Slot → List Value
  | (_, .keywords) => Dict.values (kwargs.filter fun e => !namesSingle params e.1)
  | _ => []

lemma contents_argumentFor (h : ∀ e ∈ kwargs, Accepts params args e.1) {p : String × Slot} (hp : p ∈ params) :
    p.2.contents (argumentFor params args kwargs p) =
      byPosition params args p ++ (byName kwargs p ++ byCollection params kwargs p) := by
  obtain ⟨name, slot⟩ := p
  -- a parameter that gets an argument by position gets none by name
  have hsingle (hs : slot.isSingle = true) : ((positioned params args).get? name <|> kwargs.get? name).toList =
      ((positioned params args).get? name).toList ++ (kwargs.get? name).toList := by
    cases hpos : (positioned params args).get? name with
    | none => rfl
    | some v =>
      have hnone : kwargs.get? name = none := by
        by_contra hsome
        obtain ⟨⟨key, w⟩, hmem, rfl⟩ := mem_map.1 (Dict.get?_isSome_iff.1 (Option.isSome_iff_ne_none.2 hsome))
        have htaken := positioned_eq_some_iff.1 ⟨v, hpos⟩
        rcases h _ hmem with ⟨-, hnot⟩ | ⟨hnot, -⟩
        · exact hnot htaken
        · rw [namesSingle_iff.2 ⟨_, hp, rfl, hs⟩] at hnot
          contradiction
      simp [hnone]
  cases slot with
  | rest | keywords => simp [argumentFor, Slot.contents, byPosition, afterPositions, byName, byCollection]
  | required | optional =>
    simpa [argumentFor, Slot.contents, byPosition, afterPositions, byName, byCollection] using hsingle rfl

lemma contents_fillPositional (hr : params.countP (·.2 = .rest) ≤ 1) :
    ((fillPositional true params args).1.flatMap fun p => p.slot.contents p.value) ++
      (fillPositional true params args).2 = args := by
  induction params generalizing args with
  | nil => rfl
  | cons p params ih =>
    obtain ⟨name, slot⟩ := p
    cases slot with
    | keywords =>
      rw [fillPositional_keywords]
      exact ih (by simpa using hr)
    | rest =>
      have hnone : ∀ q ∈ params, q.2 ≠ .rest := by
        have hzero : params.countP (·.2 = .rest) = 0 := by simpa using hr
        simpa using countP_eq_zero.1 hzero
      have hothers :
          ((params.map fun p => (⟨p.1, p.2, none⟩ : Filled)).flatMap fun p => p.slot.contents p.value) = [] := by
        rw [flatMap_map, flatMap_eq_nil_iff]
        rintro ⟨name, slot⟩ -
        cases slot <;> rfl
      rw [fillPositional, fillPositional_nil hnone]
      simp only [flatMap_cons, hothers, append_nil]
      rfl
    | required | optional =>
      have hcount : params.countP (·.2 = .rest) ≤ 1 := by simpa using hr
      cases args with
      | nil => exact @ih [] hcount
      | cons a args =>
        rw [fillPositional_single rfl]
        exact congrArg (a :: ·) (ih hcount)

lemma flatMap_byPosition (hp : Declarable params) (h : PositionsSuffice params args) :
    params.flatMap (byPosition params args) = args := by
  have hall := @contents_fillPositional params args hp.rest
  rw [fillPositional_of_positions hp h, append_nil, started, flatMap_map] at hall
  exact hall

lemma values_filter_key (hk : kwargs.keys.Nodup) (name : String) :
    Dict.values (kwargs.filter fun e => name = e.1) = (kwargs.get? name).toList := by
  induction kwargs with
  | nil => rfl
  | cons e kwargs ih =>
    obtain ⟨key, value⟩ := e
    obtain ⟨hkey, hkeys⟩ := nodup_cons.1 hk
    rw [filter_cons, Dict.get?]
    by_cases hname : name = key
    · subst hname
      have hnone : (kwargs.filter fun e => name = e.1) = [] :=
        filter_eq_nil_iff.2 fun e he heq => hkey (mem_map.2 ⟨e, he, (of_decide_eq_true heq).symm⟩)
      simp [hnone, Dict.values]
    · rw [if_neg (by simpa using hname), if_neg (Ne.symm hname), ih hkeys]

lemma flatMap_byName (hn : (params.map Prod.fst).Nodup) (hk : kwargs.keys.Nodup) :
    (params.flatMap (byName kwargs)).Perm (Dict.values (kwargs.filter fun e => namesSingle params e.1)) := by
  induction params with
  | nil => simp [namesSingle, Dict.values]
  | cons p params ih =>
    obtain ⟨name, slot⟩ := p
    obtain ⟨hname, hnames⟩ := nodup_cons.1 hn
    rw [flatMap_cons]
    cases hs : slot.isSingle with
    | false =>
      have hfirst : byName kwargs (name, slot) = [] := by cases slot <;> first | rfl | contradiction
      simp only [hfirst, namesSingle_cons, hs, Bool.and_false, Bool.false_or]
      exact ih hnames
    | true =>
      have hfirst : byName kwargs (name, slot) = Dict.values (kwargs.filter fun e => name = e.1) := by
        rw [values_filter_key hk]
        cases slot <;> first | rfl | contradiction
      have hothers (e : String × Value) : (namesSingle params e.1 = true) → name ≠ e.1 := by
        intro hsingle heq
        obtain ⟨q, hq, hqe, -⟩ := namesSingle_iff.1 hsingle
        exact hname (mem_map.2 ⟨q, hq, hqe.trans heq.symm⟩)
      have hsplit := filter_append_perm (fun e : String × Value => decide (name = e.1))
        (kwargs.filter fun e => namesSingle ((name, slot) :: params) e.1)
      rw [filter_filter, filter_filter] at hsplit
      refine (List.Perm.append (.of_eq hfirst) (ih hnames)).trans ?_
      refine .trans (.of_eq ?_) (hsplit.map Prod.snd)
      rw [Dict.values, Dict.values, ← map_append]
      refine congrArg _ (congrArg₂ _ (filter_congr fun e _ => ?_) (filter_congr fun e _ => ?_))
      · simp only [namesSingle_cons, hs, Bool.and_true]
        cases decide (name = e.1) <;> rfl
      · have hne := hothers e
        simp only [namesSingle_cons, hs, Bool.and_true]
        cases hsingle : namesSingle params e.1 with
        | false => simp
        | true => simp [hne hsingle]

lemma flatMap_byCollection {some_ : List (String × Slot)} (h : some_.countP (·.2 = .keywords) ≤ 1) :
    some_.flatMap (byCollection params kwargs) =
      if hasSlot some_ .keywords then Dict.values (kwargs.filter fun e => !namesSingle params e.1) else [] := by
  induction some_ with
  | nil => rfl
  | cons p some_ ih =>
    obtain ⟨name, slot⟩ := p
    rw [flatMap_cons]
    cases slot with
    | keywords =>
      have hzero : some_.countP (·.2 = .keywords) = 0 := by simpa using h
      have hnone : hasSlot some_ .keywords = false := by simpa [hasSlot] using countP_eq_zero.1 hzero
      rw [ih (by omega), hnone]
      simp [byCollection, hasSlot]
    | rest | required | optional => exact ih (by simpa using h)

lemma Fits.contents_perm (h : Fits params args kwargs) (hp : Declarable params) (hk : kwargs.Ordered) :
    (params.flatMap fun p => p.2.contents (argumentFor params args kwargs p)).Perm (args ++ kwargs.values) := by
  have hcollected : params.flatMap (byCollection params kwargs) =
      Dict.values (kwargs.filter fun e => !namesSingle params e.1) := by
    rw [flatMap_byCollection hp.keywords]
    split
    · rfl
    · rename_i hslot
      have hnone : (kwargs.filter fun e => !namesSingle params e.1) = [] := by
        rw [filter_eq_nil_iff]
        intro e he
        rcases h.keywords e he with ⟨hsingle, -⟩ | ⟨-, hsome⟩
        · simp [hsingle]
        · exact absurd hsome hslot
      rw [hnone]
      rfl
  have hnamed : (params.flatMap fun p => byName kwargs p ++ byCollection params kwargs p).Perm kwargs.values := by
    refine (flatMap_append_perm ..).symm.trans ?_
    rw [hcollected]
    refine ((flatMap_byName hp.names hk.nodup_keys).append_right _).trans ?_
    rw [Dict.values, Dict.values, ← map_append]
    exact (filter_append_perm _ _).map _
  have hparts : params.flatMap (fun p => p.2.contents (argumentFor params args kwargs p)) =
      params.flatMap fun p => byPosition params args p ++ (byName kwargs p ++ byCollection params kwargs p) :=
    flatMap_congr fun p hmem => contents_argumentFor h.keywords hmem
  rw [hparts]
  refine (flatMap_append_perm ..).symm.trans ?_
  rw [flatMap_byPosition hp h.positions]
  exact hnamed.append_left args

lemma Fits.handsOut (h : Fits params args kwargs) (hp : Declarable params) (hk : kwargs.Ordered) :
    HandsOut params args kwargs (params.map (argumentFor params args kwargs)) where
  length := length_map _
  entries := rfl
  unfilled := by
    rw [← map_prod_left_eq_zip, forall_mem_map]
    rintro ⟨name, slot⟩ hmem hnone
    cases slot with
    | optional => rfl
    | rest | keywords => contradiction
    | required => exact absurd (h.required _ hmem rfl) (isNone_argumentFor.1 (Option.isNone_iff_eq_none.2 hnone))
  contents := by
    rw [← map_prod_left_eq_zip, flatMap_map]
    exact h.contents_perm hp hk

/-- The arguments of a call are bound exactly if they fit the parameters; then each parameter gets what is meant for it
and each argument is handed out once. Otherwise the first of what is wrong is reported. -/
theorem arguments_bound_iff_fit (hp : Declarable params) (hk : kwargs.Ordered) :
    ((∃ bound, bindArguments function params args kwargs = .ok bound) ↔ Fits params args kwargs) ∧
      (∀ bound, bindArguments function params args kwargs = .ok bound → HandsOut params args kwargs bound) ∧
      ∀ fault, bindArguments function params args kwargs = .error fault →
        Reports function params args kwargs fault := by
  by_cases h : Fits params args kwargs
  · rw [bindArguments_of_fits hp hk h]
    refine ⟨⟨fun _ => h, fun _ => ⟨_, rfl⟩⟩, fun bound hbound => ?_, fun fault hfault => nomatch hfault⟩
    exact Except.ok.inj hbound ▸ h.handsOut hp hk
  · obtain ⟨fault, herror, hreports⟩ := @bindArguments_of_not_fits function _ _ _ hp hk h
    rw [herror]
    refine ⟨⟨fun ⟨_, hok⟩ => (nomatch hok), fun hfits => absurd hfits h⟩, fun _ hok => (nomatch hok), ?_⟩
    intro fault' hfault
    exact Except.error.inj hfault ▸ hreports

end calls

/-- Parameters with a collector of keywords among those that take one argument, and one that only a keyword can
reach. -/
def manyParams : List (String × Slot) :=
  [("a", .required), ("opts", .keywords), ("b", .optional), ("rest", .rest), ("k", .optional)]

theorem arguments_bound_around_collectors :
    Declarable manyParams ∧
    HandsOut manyParams [.bool true, .bool false, .nil] [("k", .str "4"), ("opts", .str "5")]
      [some (.bool true), some (.map [("opts", .str "5")]), some (.bool false), some (.list [.nil]), some (.str "4")] ∧
    Reports "f" manyParams [.bool true] [("a", .nil), ("z", .nil)] (.argumentTwice "f" "a") := by
  have hp : Declarable manyParams := ⟨by decide +kernel, by decide, by decide, by decide⟩
  refine ⟨hp, ?_, ?_⟩
  · exact (@arguments_bound_iff_fit "f" _ _ _ hp (by decide +kernel)).2.1 _ rfl
  · exact (arguments_bound_iff_fit hp (by decide +kernel)).2.2 _ rfl

end ScriptMachine
