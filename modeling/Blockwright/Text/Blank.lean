import Blockwright.Text.Chars
/-!
# White space

Two sets are in use: the five characters that patterns over code mean by white space
(`isCodeBlank`), and all white space of the character standard (`isBlank`).
-/

namespace Blockwright.Text

/-- White space in code: tab, line feed, form feed, carriage return and space. -/
def isCodeBlank (c : Char) : Bool :=
  c == '\t' || c == '\n' || c == '\x0c' || c == '\r' || c == ' '

/-- White space of the character standard. -/
def isBlank (c : Char) : Bool :=
  ('\t' ≤ c && c ≤ '\r') || c == ' ' || c == '\u0085' || c == '\u00A0' || c == '\u1680'
    || ('\u2000' ≤ c && c ≤ '\u200A') || c == '\u2028' || c == '\u2029' || c == '\u202F'
    || c == '\u205F' || c == '\u3000'

/-- Drops the elements at both ends that satisfy `p`. -/
def trimChars (p : Char → Bool) (cs : List Char) : List Char :=
  ((cs.dropWhile p).reverse.dropWhile p).reverse

/-- Where nothing satisfies `p`, nothing is dropped. -/
theorem trimChars_eq_self {p : Char → Bool} {cs : List Char} (h : ∀ c ∈ cs, p c = false) : trimChars p cs = cs := by
  have hkeep : ∀ {ds : List Char}, (∀ d ∈ ds, p d = false) → ds.dropWhile p = ds := by
    intro ds hds
    cases ds with
    | nil => rfl
    | cons d ds => rw [List.dropWhile_cons, hds d List.mem_cons_self, if_neg (by simp)]
  rw [trimChars, hkeep h, hkeep fun c hc => h c (List.mem_reverse.1 hc), List.reverse_reverse]

/-- Drops the white space at both ends. -/
def trim (s : String) : String := String.ofList (trimChars isBlank s.toList)

end Blockwright.Text
