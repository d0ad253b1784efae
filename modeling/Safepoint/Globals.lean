import Safepoint.Value

/-!
# Global variables

The variables of one interpreter, by name. A variable that holds nil is one that is not there, so
setting nil removes it. `get_set` says that a variable holds what it was last set to, and that
setting one leaves the others alone.
-/

namespace Safepoint

variable {κ : Type}

/-- Global variables, each name at most once. -/
structure Globals (κ : Type) where
  entries : List (String × Value κ)

namespace Globals

/-- No variables. -/
def empty : Globals κ := ⟨[]⟩

/-- The value of a variable, nil if it is not there. -/
def get (g : Globals κ) (name : String) : Value κ :=
  match g.entries.lookup name with
  | some v => v
  | none => .nil

/-- Removes a variable. -/
def erase (g : Globals κ) (name : String) : Globals κ :=
  ⟨g.entries.filter fun e => e.1 != name⟩

/-- Sets a variable. -/
def set (g : Globals κ) (name : String) (v : Value κ) : Globals κ :=
  -- a variable that is set to nil is one that is not there
  if v.isNil then g.erase name else ⟨(name, v) :: (g.erase name).entries⟩

/-- The values of all variables. -/
def values (g : Globals κ) : List (Value κ) :=
  g.entries.map (·.2)

@[simp] theorem get_empty (name : String) : (empty : Globals κ).get name = .nil := rfl

/-- Entries of one name taken out are found no more, and those of the others are found as before. -/
private theorem lookup_filter_ne (entries : List (String × Value κ)) (name other : String) :
    (entries.filter fun e => e.1 != name).lookup other =
      if other = name then none else entries.lookup other := by
  induction entries with
  | nil => simp
  | cons e rest ih =>
    obtain ⟨k, v⟩ := e
    -- an entry of the name is dropped by the filter, one of the name asked for ends the search
    by_cases hk : k = name
    · subst hk
      by_cases ho : other = k
      · simpa [ho] using ih
      · have hb : (other == k) = false := by simp [ho]
        simpa [ho, List.lookup_cons, hb] using ih
    · by_cases ho : other = k
      · subst ho
        simp [hk]
      · have hb : (other == k) = false := by simp [ho]
        simpa [hk, List.lookup_cons, hb] using ih

/-- A global that is erased is nil, and no other changes. -/
theorem get_erase (g : Globals κ) (name other : String) :
    (g.erase name).get other = if other = name then .nil else g.get other := by
  unfold get erase
  rw [lookup_filter_ne]
  by_cases h : other = name <;> simp [h]

/-- A variable holds what it was last set to, and setting one leaves the others alone. -/
theorem get_set (g : Globals κ) (name other : String) (v : Value κ) :
    (g.set name v).get other = if other = name then v else g.get other := by
  unfold set
  split
  next h =>
    rw [get_erase]
    cases v <;> simp_all [Value.isNil]
  next h =>
    -- a new entry stands in front, and hides nothing but what was erased
    by_cases ho : other = name
    · simp [get, ho]
    · have hb : (other == name) = false := by simp [ho]
      have he := get_erase g name other
      simp only [get, ho, if_false] at he
      simp [get, List.lookup_cons, hb, ho, he]

end Globals

end Safepoint
