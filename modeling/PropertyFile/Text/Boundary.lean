import PropertyFile.Text.Basic

/-!
# Lines of a text for comparison

Two texts are compared line by line, and here a line ends wherever a
reader sees it end: at line feeds and carriage returns, but also at
vertical tabs, form feeds, the separators U+001C to U+001E, and the
Unicode line breaks U+0085, U+2028 and U+2029. Every line keeps its end,
so that the lines together are the text.
-/

namespace PropertyFile.Text

/-- Whether a character ends a line for comparison. -/
def isBoundary (c : Char) : Bool :=
  let n := c.toNat
  (0x0a ≤ n && n ≤ 0x0d) || (0x1c ≤ n && n ≤ 0x1e) || n == 0x85 || n == 0x2028 || n == 0x2029

/-- **The lines of a text with their ends.** A carriage return and the
line feed behind it are one end. -/
def linesWithEnds : Text → List Text
  | [] => []
  | '\r' :: '\n' :: rest => ['\r', '\n'] :: linesWithEnds rest
  | c :: rest => if isBoundary c then [c] :: linesWithEnds rest else consHead c (linesWithEnds rest)

theorem flatten_consHead (c : Char) (ts : List Text) :
    (consHead c ts).flatten = c :: ts.flatten := by
  cases ts <;> rfl

/-- Put together again, the lines are the text. -/
theorem flatten_linesWithEnds (t : Text) : (linesWithEnds t).flatten = t := by
  fun_induction linesWithEnds t with simp_all [flatten_consHead]

end PropertyFile.Text
