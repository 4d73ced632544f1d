/-!
# Widths of integers

Integers of documents and settings have at most 64 bits. `fitsSigned` and
`fitsUnsigned` are the two ranges, and `fitsWord` joins them.
-/

namespace PromptDoc.Width

def fitsSigned (n : Int) : Bool :=
  -0x8000000000000000 ≤ n && n < 0x8000000000000000

/-- Whether 64 bits without a sign hold the integer. -/
def fitsUnsigned (n : Int) : Bool :=
  0 ≤ n && n < 0x10000000000000000

/-- Whether 64 bits hold the integer, with a sign or without. -/
def fitsWord (n : Int) : Bool :=
  -0x8000000000000000 ≤ n && n < 0x10000000000000000

/-- Whether 128 bits hold the integer, with a sign or without. -/
def fitsDoubleWord (n : Int) : Bool :=
  -0x80000000000000000000000000000000 ≤ n && n < 0x100000000000000000000000000000000

theorem fitsWord_iff (n : Int) :
    fitsWord n = true ↔ fitsSigned n = true ∨ fitsUnsigned n = true := by
  simp only [fitsWord, fitsSigned, fitsUnsigned, Bool.and_eq_true, decide_eq_true_eq]
  omega

end PromptDoc.Width
