/-!
# Rosters — objects under handles, newest first

A roster keeps values under keys in the order in which they were taken in, the newest first. That
order is what decides who goes first when everything left is dropped. Lookups see the newest entry
of a key; `erase` forgets all of them, and `modify` changes all of them.
-/

namespace ScopedLabels

/-- Values under keys, newest first. -/
structure Roster (κ ν : Type) where
  entries : List (κ × ν) := []
deriving DecidableEq

namespace Roster

variable {κ ν : Type} [DecidableEq κ]

/-- The value under a key. -/
def get? (roster : Roster κ ν) (key : κ) : Option ν :=
  (roster.entries.find? fun entry => entry.1 == key).map Prod.snd

/-- Is there a value under the key? -/
def contains (roster : Roster κ ν) (key : κ) : Bool :=
  (roster.get? key).isSome

/-- Take in a new value. -/
def insert (roster : Roster κ ν) (key : κ) (value : ν) : Roster κ ν :=
  ⟨(key, value) :: roster.entries⟩

/-- Change the value under a key. -/
def modify (roster : Roster κ ν) (key : κ) (f : ν → ν) : Roster κ ν :=
  ⟨roster.entries.map fun entry => if entry.1 = key then (entry.1, f entry.2) else entry⟩

/-- Forget what is under a key. -/
def erase (roster : Roster κ ν) (key : κ) : Roster κ ν :=
  ⟨roster.entries.filter fun entry => entry.1 != key⟩

/-- The keys, newest first. -/
def keys (roster : Roster κ ν) : List κ :=
  roster.entries.map Prod.fst

theorem get?_insert (roster : Roster κ ν) (key other : κ) (value : ν) :
    (roster.insert key value).get? other =
      if key = other then some value else roster.get? other := by
  by_cases h : key = other <;> simp [get?, insert, h]

theorem get?_modify (roster : Roster κ ν) (key other : κ) (f : ν → ν) :
    (roster.modify key f).get? other =
      if key = other then (roster.get? other).map f else roster.get? other := by
  obtain ⟨entries⟩ := roster
  simp only [get?, modify]
  induction entries with
  | nil => simp
  | cons entry rest ih =>
    obtain ⟨k, v⟩ := entry
    by_cases hk : k = key
    · subst hk
      by_cases ho : k = other
      · simp [ho]
      · have : (k == other) = false := by simpa using ho
        simp_all
    · by_cases ho : k = other
      · subst ho
        have : ¬ key = k := fun h => hk h.symm
        simp [hk, this]
      · have : (k == other) = false := by simpa using ho
        simp_all

theorem get?_erase (roster : Roster κ ν) (key other : κ) :
    (roster.erase key).get? other = if key = other then none else roster.get? other := by
  obtain ⟨entries⟩ := roster
  simp only [get?, erase]
  induction entries with
  | nil => simp
  | cons entry rest ih =>
    obtain ⟨k, v⟩ := entry
    by_cases hk : k = key
    · subst hk
      by_cases ho : k = other
      · simp_all
      · have : (k == other) = false := by simpa using ho
        simp_all
    · have hk' : (k != key) = true := by simpa using hk
      by_cases ho : k = other
      · subst ho
        have : ¬ key = k := fun h => hk h.symm
        simp [hk', this]
      · have : (k == other) = false := by simpa using ho
        simp_all

/-- It does not matter how a value was changed that is forgotten. -/
theorem erase_modify (roster : Roster κ ν) (key : κ) (f : ν → ν) :
    (roster.modify key f).erase key = roster.erase key := by
  obtain ⟨entries⟩ := roster
  simp only [modify, erase, mk.injEq]
  induction entries with
  | nil => rfl
  | cons entry rest ih =>
    by_cases h : entry.1 = key
    · simpa [h] using ih
    · simpa [h] using ih

/-- Forgetting a value that was just taken in under a new key restores the roster. -/
theorem erase_insert (roster : Roster κ ν) {key : κ} (value : ν) (h : roster.get? key = none) :
    (roster.insert key value).erase key = roster := by
  obtain ⟨entries⟩ := roster
  have hnone : ∀ entry ∈ entries, (entry.1 != key) = true := by
    intro entry hmem
    have hfind : entries.find? (fun entry => entry.1 == key) = none := by simpa [get?] using h
    simpa [bne] using List.find?_eq_none.mp hfind entry hmem
  show (⟨List.filter _ ((key, value) :: entries)⟩ : Roster κ ν) = ⟨entries⟩
  rw [List.filter_cons_of_neg (by simp), List.filter_eq_self.mpr hnone]

end Roster

end ScopedLabels
