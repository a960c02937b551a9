/-!
# Line ends

A line may end with a newline, a carriage return, or both. Text that is read from outside gets a
newline for each.
-/

namespace Sangria

/-- A text in which every line ends with a newline. -/
def normalizeLineEnds : List Char → List Char
  | '\r' :: '\n' :: rest => '\n' :: normalizeLineEnds rest
  | '\r' :: rest => '\n' :: normalizeLineEnds rest
  | c :: rest => c :: normalizeLineEnds rest
  | [] => []

end Sangria
