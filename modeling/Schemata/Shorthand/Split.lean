/-!
Cutting a line at separators that stand outside quotes. A quote opened by `'` or `"` ends at the next character of the same
kind; one that never ends covers the rest of the line.
-/

namespace Schemata.Shorthand

def isQuote (c : Char) : Bool :=
  c = '\'' || c = '"'

/-- The open quote after reading `c`, given the open quote before it. -/
def quoteAfter (quote : Option Char) (c : Char) : Option Char :=
  match quote with
  | some q => if c = q then none else some q
  | none => if isQuote c then some c else none

/-- Whether `c` separates, given the open quote before it. -/
def cutsAt (separates : Char → Bool) (quote : Option Char) (c : Char) : Bool :=
  quote.isNone && !isQuote c && separates c

/-- The parts of a line that starts inside `quote`. There is always at least one. -/
def partsFrom (separates : Char → Bool) (quote : Option Char) : List Char → List (List Char)
  | [] => [[]]
  | c :: rest =>
    if cutsAt separates quote c then [] :: partsFrom separates none rest
    else match partsFrom separates (quoteAfter quote c) rest with
      | p :: ps => (c :: p) :: ps
      | [] => [[c]]

/-- The parts of a line between its separators outside quotes. -/
def parts (separates : Char → Bool) (line : List Char) : List (List Char) :=
  partsFrom separates none line

/-- What stands before and after the first separator of a line that starts inside `quote`. -/
def cutFrom (separator : Char) (quote : Option Char) : List Char → Option (List Char × List Char)
  | [] => none
  | c :: rest =>
    if cutsAt (· = separator) quote c then some ([], rest)
    else (cutFrom separator (quoteAfter quote c) rest).map fun (before, after) => (c :: before, after)

/-- What stands before and after the first separator outside quotes. -/
def cut (separator : Char) (line : List Char) : Option (List Char × List Char) :=
  cutFrom separator none line

theorem partsFrom_ne_nil (separates : Char → Bool) (quote : Option Char) (line : List Char) :
    partsFrom separates quote line ≠ [] := by
  cases line with
  | nil => simp [partsFrom]
  | cons c rest =>
    simp only [partsFrom]
    split
    · simp
    · split <;> simp

/-- The separator is all that a cut removes. -/
theorem cutFrom_append {separator : Char} {quote : Option Char} {line before after : List Char}
    (h : cutFrom separator quote line = some (before, after)) : before ++ separator :: after = line := by
  induction line generalizing quote before with
  | nil => simp [cutFrom] at h
  | cons c rest ih =>
    simp only [cutFrom] at h
    split at h
    · rename_i hc
      obtain ⟨rfl, rfl⟩ := by simpa using h
      simp [cutsAt] at hc
      simp [hc]
    · obtain ⟨⟨b, a⟩, hr, heq⟩ := Option.map_eq_some_iff.1 h
      obtain ⟨rfl, rfl⟩ := by simpa using heq
      simp [ih hr]

end Schemata.Shorthand
