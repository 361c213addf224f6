import LiveMarkup.Expr.Reading

/-
This file keeps the results of parsing, one for each source text.
-/

namespace LiveMarkup

/-- A parse is remembered with its source. Its place in the cache is its identity. -/
structure ParseCache where
  entries : Array (String × Except EvalError Expr)
  faithful : ∀ entry ∈ entries, entry.2 = Expr.parse entry.1

namespace ParseCache

def empty : ParseCache := ⟨#[], fun _ member => absurd member (Array.not_mem_empty _)⟩

def place? (cache : ParseCache) (source : String) : Option Nat :=
  cache.entries.findIdx? fun entry => entry.1 == source

/-- This function adds a source that the cache does not hold. -/
def add (cache : ParseCache) (source : String) : ParseCache where
  entries := cache.entries.push (source, Expr.parse source)
  faithful := by
    intro entry member
    rcases Array.mem_push.mp member with old | new
    · exact cache.faithful entry old
    · rw [new]

/-- This function parses a source unless it was parsed before, and gives the place of the result. -/
def parse (cache : ParseCache) (source : String) : Except EvalError (Nat × Expr) × ParseCache :=
  match cache.place? source with
  | some place =>
      match cache.entries[place]? with
      | some entry => (entry.2.map fun expr => (place, expr), cache)
      | none => ((Expr.parse source).map fun expr => (place, expr), cache)
  | none => ((Expr.parse source).map fun expr => (cache.entries.size, expr), cache.add source)

end ParseCache

end LiveMarkup
