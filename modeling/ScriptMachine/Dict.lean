/-! Finite maps from names, kept as a list in the order of the names. -/

namespace ScriptMachine

abbrev Dict (α : Type) := List (String × α)

namespace Dict

variable {α : Type}

def get? (d : Dict α) (key : String) : Option α :=
  match d with
  | [] => none
  | (k, v) :: rest => if k = key then some v else get? rest key

def has (d : Dict α) (key : String) : Bool := (d.get? key).isSome

def insert (d : Dict α) (key : String) (value : α) : Dict α :=
  match d with
  | [] => [(key, value)]
  | (k, v) :: rest =>
    if key = k then (key, value) :: rest
    else if key < k then (key, value) :: (k, v) :: rest
    else (k, v) :: insert rest key value

def erase (d : Dict α) (key : String) : Dict α := d.filter (·.1 ≠ key)

def union (d extra : Dict α) : Dict α := extra.foldl (fun d e => d.insert e.1 e.2) d

def ofList (entries : List (String × α)) : Dict α := union [] entries

def keys (d : Dict α) : List String := d.map Prod.fst

def values (d : Dict α) : List α := d.map Prod.snd

@[simp] theorem get?_nil (key : String) : get? ([] : Dict α) key = none := rfl

theorem get?_insert_self (d : Dict α) (key : String) (value : α) : (d.insert key value).get? key = some value := by
  induction d with
  | nil => simp [insert, get?]
  | cons e rest ih =>
    obtain ⟨k, v⟩ := e
    by_cases h : key = k
    · simp [insert, get?, h]
    · by_cases hlt : key < k
      · simp [insert, get?, h, hlt]
      · simp [insert, get?, h, hlt, ih, Ne.symm h]

theorem get?_insert_of_ne (d : Dict α) (value : α) {key other : String} (h : other ≠ key) :
    (d.insert key value).get? other = d.get? other := by
  induction d with
  | nil => simp [insert, get?, Ne.symm h]
  | cons e rest ih =>
    obtain ⟨k, v⟩ := e
    by_cases hk : key = k
    · subst hk
      simp [insert, get?, Ne.symm h]
    · by_cases hlt : key < k
      · simp [insert, get?, hk, hlt, Ne.symm h]
      · simp [insert, get?, hk, hlt, ih]

theorem get?_erase_self (d : Dict α) (key : String) : (d.erase key).get? key = none := by
  induction d with
  | nil => rfl
  | cons e rest ih =>
    obtain ⟨k, v⟩ := e
    by_cases h : k = key
    · simpa [erase, h] using ih
    · simpa [erase, h, get?] using ih

theorem get?_erase_of_ne (d : Dict α) {key other : String} (h : other ≠ key) :
    (d.erase key).get? other = d.get? other := by
  induction d with
  | nil => rfl
  | cons e rest ih =>
    obtain ⟨k, v⟩ := e
    by_cases hk : k = key
    · subst hk
      simpa [erase, get?, Ne.symm h] using ih
    · by_cases ho : k = other
      · subst ho
        simp [erase, get?, hk]
      · simpa [erase, get?, hk, ho] using ih

end Dict

end ScriptMachine
