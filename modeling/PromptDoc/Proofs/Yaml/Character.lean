import PromptDoc.Yaml.Block
import PromptDoc.Yaml.Character

/-!
# How the character classes lie within each other

A printable character is graphic, and a graphic one is readable unless it is
one of the two codes at the end of the basic plane that are no characters. None
of them is a line break, and the only blank among them is the space. The writer
emits graphic characters, line feeds and tabs, so what it emits is told apart
from line breaks and blanks by these lemmas alone.
-/

namespace PromptDoc.Yaml

theorem toNat_ne_of_ne {c d : Char} (h : c ≠ d) : c.toNat ≠ d.toNat :=
  fun e => h (Char.toNat_inj.1 e)

theorem isGraphic_of_isPrintable {c : Char} (h : isPrintable c = true) : isGraphic c = true := by
  simp only [isPrintable, isGraphic, Bool.or_eq_true, Bool.and_eq_true, decide_eq_true_eq,
    Bool.not_eq_true', Bool.or_eq_false_iff, Bool.and_eq_false_imp, decide_eq_false_iff_not] at h ⊢
  omega

theorem isReadable_of_isPrintable {c : Char} (h : isPrintable c = true) :
    isReadable c = true := by
  simp only [isPrintable, isReadable, Bool.or_eq_true, Bool.and_eq_true, decide_eq_true_eq] at h ⊢
  omega

/-- The two codes without a character are the only graphic ones that a reader
refuses. -/
theorem isReadable_of_isGraphic {c : Char} (h : isGraphic c = true) (hfffe : c ≠ '\ufffe')
    (hffff : c ≠ '\uffff') : isReadable c = true := by
  have h₁ : c.toNat ≠ 0xFFFE := toNat_ne_of_ne hfffe
  have h₂ : c.toNat ≠ 0xFFFF := toNat_ne_of_ne hffff
  -- The surrogates are missing among characters.
  have h₃ : c.toNat < 0xD800 ∨ 0xDFFF < c.toNat ∧ c.toNat < 0x110000 := c.valid
  simp only [isGraphic, isReadable, Bool.or_eq_true, Bool.and_eq_true, decide_eq_true_eq,
    Bool.not_eq_true', Bool.or_eq_false_iff, Bool.and_eq_false_imp, decide_eq_false_iff_not] at h ⊢
  omega

theorem isBreak_of_isGraphic {c : Char} (h : isGraphic c = true) : isBreak c = false := by
  simp only [isGraphic, Bool.not_eq_true', Bool.or_eq_false_iff, Bool.and_eq_false_imp,
    decide_eq_true_eq, decide_eq_false_iff_not] at h
  simp only [isBreak, Bool.or_eq_false_iff, decide_eq_false_iff_not]
  refine ⟨⟨⟨⟨?_, ?_⟩, ?_⟩, ?_⟩, ?_⟩ <;> rintro rfl <;> revert h <;> decide

theorem ne_tab_of_isGraphic {c : Char} (h : isGraphic c = true) : c ≠ '\t' := by
  rintro rfl
  exact absurd h (by decide)

theorem ne_lineFeed_of_isGraphic {c : Char} (h : isGraphic c = true) : c ≠ '\n' := by
  rintro rfl
  exact absurd h (by decide)

theorem ne_mark_of_isGraphic {c : Char} (h : isGraphic c = true) : c ≠ byteOrderMark := by
  rintro rfl
  exact absurd h (by decide)

theorem isBreak_of_isPrintable {c : Char} (h : isPrintable c = true) : isBreak c = false :=
  isBreak_of_isGraphic (isGraphic_of_isPrintable h)

theorem isBlank_of_isGraphic {c : Char} (h : isGraphic c = true) :
    isBlank c = decide (c = ' ') := by
  simp [isBlank, ne_tab_of_isGraphic h]

theorem isBlank_of_isPrintable {c : Char} (h : isPrintable c = true) :
    isBlank c = decide (c = ' ') :=
  isBlank_of_isGraphic (isGraphic_of_isPrintable h)

@[simp] theorem atGap_nil : atGap [] = true := rfl

@[simp] theorem atGap_cons (c : Char) (cs : List Char) :
    atGap (c :: cs) = (isBlank c || isBreak c) := rfl

@[simp] theorem isBlank_space : isBlank ' ' = true := rfl

@[simp] theorem isBreak_space : isBreak ' ' = false := by decide

@[simp] theorem isBreak_lineFeed : isBreak '\n' = true := by decide

@[simp] theorem isBlank_lineFeed : isBlank '\n' = false := by decide

end PromptDoc.Yaml
