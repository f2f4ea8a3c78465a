import Renaming.Symbol

/-!
# Reading a text from left to right

A `Cursor` is a place in a text that is being read: what is left of the text, how many bytes lie
behind, and the class names met on the way. A `Scanner` reads from a cursor and fails with a flaw or
leaves the cursor further right. The cursor survives a failure, so the names met before it are
known.

The one loop of the grammars is `repeatFrom`. It makes at most one round per character that is left
when it starts, so it ends whatever its body does; a body that reads at least one character in each
round is never cut short by this.
-/

namespace Renaming

/-- A place in a text that is being read. -/
structure Cursor where
  /-- What is left of the text. -/
  rest : List Char
  /-- How many bytes of the text lie behind. -/
  offset : Nat
  /-- The class names met so far, in order. -/
  names : List ClassName

/-- The number of bytes that characters take. -/
def byteCount : List Char → Nat
  | [] => 0
  | c :: rest => c.utf8Size + byteCount rest

namespace Cursor

/-- The start of a text. -/
def start (text : List Char) : Cursor := ⟨text, 0, []⟩

/-- The cursor behind the next `count` characters. -/
def advance (cursor : Cursor) (count : Nat) : Cursor :=
  { cursor with
    rest := cursor.rest.drop count
    offset := cursor.offset + byteCount (cursor.rest.take count) }

end Cursor

/-- A computation that reads from a cursor and may fail with a flaw. -/
abbrev Scanner (flaw : Type) := EStateM flaw Cursor

namespace Scanner

variable {flaw α σ : Type}

/-- The next character, which stays unread. -/
def peek : Scanner flaw (Option Char) := fun cursor => .ok cursor.rest.head? cursor

/-- Reads the next character. -/
def next : Scanner flaw (Option Char) := fun cursor => .ok cursor.rest.head? (cursor.advance 1)

/-- Reads the next character if it is the given one, and tells whether it was. -/
def eat (c : Char) : Scanner flaw Bool := fun cursor =>
  if cursor.rest.head? = some c then .ok true (cursor.advance 1) else .ok false cursor

/-- Reads all characters before the first of the stops. -/
def takeUntil (stops : List Char) : Scanner flaw (List Char) := fun cursor =>
  let taken := cursor.rest.takeWhile (· ∉ stops)
  .ok taken (cursor.advance taken.length)

/-- Reads as many of the given character as there are. -/
def takeAll (c : Char) : Scanner flaw (List Char) := fun cursor =>
  let taken := cursor.rest.takeWhile (· = c)
  .ok taken (cursor.advance taken.length)

/-- What is left of the text. -/
def remaining : Scanner flaw (List Char) := fun cursor => .ok cursor.rest cursor

/-- How many bytes lie behind. -/
def offset : Scanner flaw Nat := fun cursor => .ok cursor.offset cursor

/-- Notes a class name that was read. -/
def meet (name : ClassName) : Scanner flaw Unit := fun cursor =>
  .ok () { cursor with names := cursor.names ++ [name] }

/-- Runs `step` as long as `more` says so, for at most the given number of rounds. -/
def rounds (more : Scanner flaw Bool) (step : σ → Scanner flaw σ) : Nat → σ → Scanner flaw σ
  | 0, state => pure state
  | count + 1, state => do
    if ← more then
      rounds more step count (← step state)
    else
      pure state

/-- Runs `step` from `state` as long as `more` says so. -/
def repeatFrom (more : Scanner flaw Bool) (step : σ → Scanner flaw σ) (state : σ) :
    Scanner flaw σ := fun cursor =>
  rounds more step (cursor.rest.length + 1) state cursor

/-- The list of what `item` reads as long as `more` says so. -/
def many (more : Scanner flaw Bool) (item : Scanner flaw α) : Scanner flaw (List α) :=
  repeatFrom more (fun done => do return done ++ [← item]) []

/-- Whether the next character is not the given one, which is read if it is. -/
def notYet (c : Char) : Scanner flaw Bool := do return !(← eat c)

/-- Reads what the scanner reads, and nothing else. -/
def whole (leftover : String → flaw) (scan : Scanner flaw α) : Scanner flaw α := do
  let tree ← scan
  let rest ← remaining
  unless rest.isEmpty do
    throw (leftover (String.ofList rest))
  return tree

end Scanner

end Renaming
