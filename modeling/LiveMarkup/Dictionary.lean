/-
This file gives lists of entries with keys: lookup, replacement and removal.
-/

namespace LiveMarkup

/-- An association lists its entries in the order in which their keys were first put. -/
abbrev Assoc (K A : Type) := List (K × A)

/-- A dictionary associates values with names. -/
abbrev Dictionary (A : Type) := Assoc String A

namespace Assoc

variable {K A : Type} [DecidableEq K]

def get? (entries : Assoc K A) (key : K) : Option A :=
  match entries with
  | [] => none
  | entry :: rest => if entry.1 = key then some entry.2 else get? rest key

def contains (entries : Assoc K A) (key : K) : Bool := (get? entries key).isSome

/-- A new value for a known key keeps the place of its entry. -/
def put (entries : Assoc K A) (key : K) (value : A) : Assoc K A :=
  match entries with
  | [] => [(key, value)]
  | entry :: rest => if entry.1 = key then (key, value) :: rest else entry :: put rest key value

def erase (entries : Assoc K A) (key : K) : Assoc K A :=
  entries.filter fun entry => entry.1 ≠ key

theorem mem_of_get? {entries : Assoc K A} {key : K} {value : A}
    (found : get? entries key = some value) : (key, value) ∈ entries := by
  induction entries with
  | nil => cases found
  | cons entry rest inductionHypothesis =>
      rw [get?] at found
      split at found
      · rename_i same
        cases found
        rw [← same]
        exact List.mem_cons_self
      · exact List.mem_cons_of_mem _ (inductionHypothesis found)

/-- A replacement brings in no other entry. -/
theorem mem_put {entries : Assoc K A} {key : K} {value : A} {entry : K × A}
    (member : entry ∈ put entries key value) : entry = (key, value) ∨ entry ∈ entries := by
  induction entries with
  | nil => exact Or.inl (List.mem_singleton.mp member)
  | cons first rest inductionHypothesis =>
      rw [put] at member
      split at member
      · rcases List.mem_cons.mp member with new | old
        · exact Or.inl new
        · exact Or.inr (List.mem_cons_of_mem _ old)
      · rcases List.mem_cons.mp member with head | tail
        · exact Or.inr (head ▸ List.mem_cons_self)
        · rcases inductionHypothesis tail with new | old
          · exact Or.inl new
          · exact Or.inr (List.mem_cons_of_mem _ old)

@[simp] theorem get?_put (entries : Assoc K A) (key : K) (value : A) :
    get? (put entries key value) key = some value := by
  induction entries with
  | nil => simp [put, get?]
  | cons entry rest inductionHypothesis =>
      by_cases same : entry.1 = key <;> simp [put, get?, same, inductionHypothesis]

theorem get?_put_of_ne (entries : Assoc K A) {key other : K} (value : A)
    (different : other ≠ key) : get? (put entries key value) other = get? entries other := by
  induction entries with
  | nil => simp [put, get?, Ne.symm different]
  | cons entry rest inductionHypothesis =>
      by_cases same : entry.1 = key
      · simp [put, get?, same, Ne.symm different]
      · simp [put, get?, same, inductionHypothesis]

@[simp] theorem get?_erase (entries : Assoc K A) (key : K) : get? (erase entries key) key = none := by
  induction entries with
  | nil => rfl
  | cons entry rest inductionHypothesis =>
      have step : erase (entry :: rest) key =
          if entry.1 ≠ key then entry :: erase rest key else erase rest key := by
        simp [erase, List.filter_cons]
      by_cases same : entry.1 = key
      · rw [step, if_neg (by simpa using same), inductionHypothesis]
      · rw [step, if_pos same]
        simp [get?, same, inductionHypothesis]

theorem get?_erase_of_ne (entries : Assoc K A) {key other : K} (different : other ≠ key) :
    get? (erase entries key) other = get? entries other := by
  induction entries with
  | nil => rfl
  | cons entry rest inductionHypothesis =>
      by_cases same : entry.1 = key
      · have step : erase (entry :: rest) key = erase rest key := by simp [erase, same]
        have other : ¬ entry.1 = other := fun equal => different (equal ▸ same)
        simp [step, get?, other, inductionHypothesis]
      · have step : erase (entry :: rest) key = entry :: erase rest key := by simp [erase, same]
        simp [step, get?, inductionHypothesis]

end Assoc

namespace Dictionary

variable {A : Type}

/-- This function keeps the entries in the order of their names. -/
def putSorted (entries : Dictionary A) (name : String) (value : A) : Dictionary A :=
  match entries with
  | [] => [(name, value)]
  | entry :: rest =>
      if entry.1 = name then (name, value) :: rest
      else if name < entry.1 then (name, value) :: entry :: rest
      else entry :: putSorted rest name value

/-- Of several entries with one name the last one counts. -/
def sorted (entries : Dictionary A) : Dictionary A :=
  entries.foldl (fun result entry => putSorted result entry.1 entry.2) []

@[simp] theorem get?_putSorted (entries : Dictionary A) (name : String) (value : A) :
    Assoc.get? (putSorted entries name value) name = some value := by
  induction entries with
  | nil => simp [putSorted, Assoc.get?]
  | cons entry rest inductionHypothesis =>
      by_cases same : entry.1 = name
      · simp [putSorted, Assoc.get?, same]
      · by_cases before : name < entry.1
        · simp [putSorted, Assoc.get?, same, before]
        · simp [putSorted, Assoc.get?, same, before, inductionHypothesis]

theorem get?_putSorted_of_ne (entries : Dictionary A) {name other : String} (value : A)
    (different : other ≠ name) :
    Assoc.get? (putSorted entries name value) other = Assoc.get? entries other := by
  induction entries with
  | nil => simp [putSorted, Assoc.get?, Ne.symm different]
  | cons entry rest inductionHypothesis =>
      by_cases same : entry.1 = name
      · simp [putSorted, Assoc.get?, same, Ne.symm different]
      · by_cases before : name < entry.1
        · simp [putSorted, Assoc.get?, same, before, Ne.symm different]
        · simp [putSorted, Assoc.get?, same, before, inductionHypothesis]

/-- The names ascend, so that no name has two entries. -/
def IsSorted (entries : Dictionary A) : Prop := entries.Pairwise fun first second => first.1 < second.1

theorem mem_putSorted {entries : Dictionary A} {name : String} {value : A} {entry : String × A}
    (member : entry ∈ putSorted entries name value) : entry = (name, value) ∨ entry ∈ entries := by
  induction entries with
  | nil => simpa [putSorted] using member
  | cons first rest inductionHypothesis =>
      by_cases same : first.1 = name
      · simp only [putSorted, if_pos same, List.mem_cons] at member
        rcases member with new | old
        · exact Or.inl new
        · exact Or.inr (List.mem_cons_of_mem first old)
      · by_cases before : name < first.1
        · simpa [putSorted, same, before] using member
        · simp only [putSorted, if_neg same, if_neg before, List.mem_cons] at member
          rcases member with head | tail
          · exact Or.inr (head ▸ List.mem_cons_self)
          · rcases inductionHypothesis tail with new | old
            · exact Or.inl new
            · exact Or.inr (List.mem_cons_of_mem first old)

theorem isSorted_putSorted {entries : Dictionary A} (ordered : IsSorted entries) (name : String)
    (value : A) : IsSorted (putSorted entries name value) := by
  induction entries with
  | nil => simp [putSorted, IsSorted]
  | cons first rest inductionHypothesis =>
      obtain ⟨least, tail⟩ := List.pairwise_cons.mp ordered
      by_cases same : first.1 = name
      · simp only [putSorted, if_pos same]
        exact List.pairwise_cons.mpr ⟨fun entry member => same ▸ least entry member, tail⟩
      · by_cases before : name < first.1
        · simp only [putSorted, if_neg same, if_pos before]
          refine List.pairwise_cons.mpr ⟨?_, ordered⟩
          intro entry member
          rcases List.mem_cons.mp member with head | later
          · exact head ▸ before
          · exact String.lt_trans before (least entry later)
        · simp only [putSorted, if_neg same, if_neg before]
          refine List.pairwise_cons.mpr ⟨?_, inductionHypothesis tail⟩
          intro entry member
          rcases mem_putSorted member with new | old
          · have after : first.1 < name := Decidable.byContradiction fun reverse =>
              same (String.le_antisymm (String.not_lt.mp before) (String.not_lt.mp reverse))
            exact new ▸ after
          · exact least entry old

theorem isSorted_sorted (entries : Dictionary A) : IsSorted (sorted entries) := by
  have general : ∀ (rest current : Dictionary A), IsSorted current →
      IsSorted (rest.foldl (fun result entry => putSorted result entry.1 entry.2) current) := by
    intro rest
    induction rest with
    | nil => exact fun _ ordered => ordered
    | cons entry rest inductionHypothesis =>
        exact fun current ordered =>
          inductionHypothesis _ (isSorted_putSorted ordered entry.1 entry.2)
  exact general entries [] List.Pairwise.nil

end Dictionary

end LiveMarkup
