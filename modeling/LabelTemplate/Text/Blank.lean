/-!
# Blank characters

The Unicode property `White_Space`.  It decides what trimming removes and
which element texts count as empty.  It is wider than the four blanks of
markup (`isMarkupBlank`), which alone separate attributes and tokens.
-/

namespace LabelTemplate

/-- The 25 characters with the property `White_Space`. -/
def isBlank (c : Char) : Bool :=
  let n := c.toNat
  (0x09 ≤ n && n ≤ 0x0d) || n == 0x20 || n == 0x85 || n == 0xa0 || n == 0x1680 ||
    (0x2000 ≤ n && n ≤ 0x200a) || n == 0x2028 || n == 0x2029 || n == 0x202f ||
    n == 0x205f || n == 0x3000

/-- Space, tab, carriage return and line feed. -/
def isMarkupBlank (c : Char) : Bool :=
  c == ' ' || c == '\t' || c == '\r' || c == '\n'

theorem isBlank_of_isMarkupBlank {c : Char} (h : isMarkupBlank c = true) :
    isBlank c = true := by
  simp only [isMarkupBlank, Bool.or_eq_true, beq_iff_eq] at h
  rcases h with ((rfl | rfl) | rfl) | rfl <;> rfl

end LabelTemplate
