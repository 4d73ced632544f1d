import PromptDoc.Proofs.Yaml.Legible
import PromptDoc.Proofs.Yaml.Plain
import PromptDoc.Yaml.Token.Lexer

/-!
# Compact JSON text as YAML

A compact JSON text takes one line, and YAML reads its parts much as JSON does.
`spellable` says where: JSON strings hold characters as they are that YAML text must
not hold, and keys are bounded. This module is about the characters of such a text
(`isPrintable_of_mem_compact`) and about its strings, whose escapes are escapes of
YAML too (`doubleQuoted?_json`).
-/

namespace PromptDoc

namespace Json

/-! ## Collections entry by entry -/

/-- The items behind the first one, and the bracket. -/
def moreItems : List Json → List Char
  | [] => [']']
  | x :: xs => ',' :: (compactChars x ++ moreItems xs)

/-- A field without the comma or brace around it. -/
def compactField (k : String) (x : Json) : List Char :=
  quote k.toList ++ ':' :: compactChars x

/-- The fields behind the first one, and the brace. -/
def moreFields : List (String × Json) → List Char
  | [] => ['\x7d']
  | (k, x) :: fs => ',' :: (compactField k x ++ moreFields fs)

theorem compactChars_arr_cons (x : Json) (xs : List Json) :
    compactChars (.arr (x :: xs)) = '[' :: (compactChars x ++ moreItems xs) := by
  have hitems : ∀ x xs, compactItems (x :: xs) ++ [']'] = compactChars x ++ moreItems xs := by
    intro x xs
    induction xs generalizing x with
    | nil => rw [compactItems, moreItems]
    | cons y ys ih => rw [compactItems, moreItems, List.append_assoc, List.cons_append, ih]
  rw [compactChars, hitems]

theorem compactChars_obj_cons (k : String) (x : Json) (fs : List (String × Json)) :
    compactChars (.obj ((k, x) :: fs)) = '\x7b' :: (compactField k x ++ moreFields fs) := by
  have hfields : ∀ k x fs, compactFields ((k, x) :: fs) ++ ['\x7d'] =
      compactField k x ++ moreFields fs := by
    intro k x fs
    induction fs generalizing k x with
    | nil => rw [compactFields, moreFields, compactField]
    | cons f fs ih =>
        rw [compactFields, moreFields, compactField]
        simp only [List.append_assoc, List.cons_append, ih]
  rw [compactChars, hfields]

end Json

namespace Yaml

/-! ## Values whose text is YAML -/

/-- Whether a character that JSON text has as it is may stand in YAML text. -/
def isSpelled (c : Char) : Bool :=
  let n := c.toNat
  !((0x7F ≤ n && n ≤ 0x9F) || n = 0x2028 || n = 0x2029 || n = 0xFEFF || n = 0xFFFE || n = 0xFFFF)

mutual

/-- Whether the compact text of a value is YAML text: strings and keys can be
spelled, keys are within the lexer's limit, and doubles read back. -/
def spellable : Json → Bool
  | .float x => x.ReadsBack
  | .str s => s.toList.all isSpelled
  | .arr items => spellableItems items
  | .obj fields => spellableFields fields
  | _ => true

def spellableItems : List Json → Bool
  | [] => true
  | x :: xs => spellable x && spellableItems xs

def spellableFields : List (String × Json) → Bool
  | [] => true
  | (k, x) :: fs =>
    (k.toList.all isSpelled && byteCount (Json.quote k.toList) ≤ Token.keyByteLimit) &&
      (spellable x && spellableFields fs)

end

theorem isPrintable_of_isSpelled {c : Char} (h : isSpelled c = true) (hn : ¬ c.toNat < 0x20) :
    isPrintable c = true := by
  -- The surrogates are missing among characters.
  have hvalid : c.toNat < 0xD800 ∨ 0xDFFF < c.toNat ∧ c.toNat < 0x110000 := c.valid
  simp only [isSpelled, Bool.not_eq_true', Bool.or_eq_false_iff, Bool.and_eq_false_imp,
    decide_eq_true_eq, decide_eq_false_iff_not] at h
  simp only [isPrintable, Bool.or_eq_true, Bool.and_eq_true, decide_eq_true_eq]
  omega

/-! ## Atoms -/

/-- The values that are written in one word. -/
def isAtom : Json → Bool
  | .null | .bool _ | .int _ | .float _ => true
  | _ => false

theorem isPlain_atom {v : Json} (hv : isAtom v = true) : IsPlain v.compactChars := by
  cases v with
  | null => exact isPlain_null
  | bool b =>
      cases b with
      | true => exact isPlain_true
      | false => exact isPlain_false
  | int n => exact isPlain_intText n
  | float x => exact isPlain_text x
  | _ => cases hv

/-- Whether a character means the same inside flow collections as outside. -/
def isFlowSafe (c : Char) : Bool :=
  !(c = ':' || c = '?' || Token.isFlowPunctuation c)

theorem isFlowSafe_of_isDecimalChar {c : Char} (h : isDecimalChar c = true) :
    isFlowSafe c = true := by
  rw [isFlowSafe, Bool.not_eq_true', Bool.eq_false_iff]
  intro hc
  simp only [Token.isFlowPunctuation, List.mem_cons, List.not_mem_nil, or_false, Bool.or_eq_true,
    decide_eq_true_eq] at hc
  rcases hc with (rfl | rfl) | rfl | rfl | rfl | rfl | rfl <;> exact absurd h (by decide)

theorem isFlowSafe_of_mem_atom {v : Json} (hv : isAtom v = true) :
    ∀ c ∈ v.compactChars, isFlowSafe c = true := by
  cases v with
  | null => exact List.all_eq_true.1 (by decide)
  | bool b => cases b <;> exact List.all_eq_true.1 (by decide)
  | int n => exact fun c hc => isFlowSafe_of_isDecimalChar (isDecimalChar_of_mem_intText hc)
  | float x => exact fun c hc => isFlowSafe_of_isDecimalChar (isDecimalChar_of_mem_text hc)
  | _ => cases hv

/-! ## Strings -/

namespace Token

theorem value?_jsonDigit : ∀ d < 16, Digits.value? 16 (Json.hexDigit d) = some d := by decide

/-- A control character by its code. -/
theorem doubleQuoted?_control {c : Char} (hc : c.toNat < 0x20) (seen : List Char) {p : Position}
    (hp : 0 < p.column) (rest : List Char) :
    let text := ['\\', 'u', '0', '0', Json.hexDigit (c.toNat / 16), Json.hexDigit (c.toNat % 16)]
    doubleQuoted? (.text (Gap.within seen)) p (text ++ rest) =
      (doubleQuoted? (.text .none) (p.after text) rest).map (·.prepend (seen ++ [c])) := by
  intro text
  have hzero : Digits.value? 16 '0' = some 0 := by decide
  have hhigh := value?_jsonDigit (c.toNat / 16) (by omega)
  have hlow := value?_jsonDigit (c.toNat % 16) (by omega)
  have hcode : c.toNat / 16 * 16 + c.toNat % 16 = c.toNat := by omega
  have hchar : charOfCode? c.toNat = some c := by
    rw [charOfCode?, if_pos (show c.toNat.isValidChar from c.valid), Char.ofNat_toNat]
  have hescape : doubleQuoted? .escape (p.next '\\') (text.tail ++ rest) =
      (doubleQuoted? (.text .none) (p.after text) rest).map (·.prepend [c]) := by
    simp [text, doubleQuoted?, show isBreak 'u' = false by decide,
      show codeWidth? 'u' = some 4 by decide, hzero, hhigh, hlow, hcode, hchar]
  change doubleQuoted? _ p ('\\' :: (text.tail ++ rest)) = _
  rw [doubleQuoted?_backslash seen hp, hescape]
  simp [Option.map_map, Function.comp_def, ScalarResult.prepend_prepend]

theorem unescapes_escapeChar {c : Char} (hspelled : isSpelled c = true) (hspace : c ≠ ' ') :
    Unescapes Json.escapeChar c := by
  intro seen p hp rest
  unfold Json.escapeChar
  by_cases hquote : c = '"'
  · subst hquote
    exact doubleQuoted?_letter (by decide) (by decide) (by decide) seen hp rest
  rw [if_neg hquote]
  by_cases hslash : c = '\\'
  · subst hslash
    exact doubleQuoted?_letter (by decide) (by decide) (by decide) seen hp rest
  rw [if_neg hslash]
  iterate 5
    split
    · next hc =>
      subst hc
      exact doubleQuoted?_letter (by decide) (by decide) (by decide) seen hp rest
  split
  · next hc => exact doubleQuoted?_control hc seen hp rest
  · next hc =>
    exact doubleQuoted?_self (isPrintable_of_isSpelled hspelled hc) hspace hquote hslash seen hp
      rest

/-- A JSON string is read as the string it was written for. -/
theorem doubleQuoted?_json {s : List Char} (hs : s.all isSpelled = true) {p : Position}
    (hp : 0 < p.column) (rest : List Char) :
    doubleQuoted? (.text .none) p (s.flatMap Json.escapeChar ++ '"' :: rest) =
      some ⟨s, (p.after (s.flatMap Json.escapeChar)).next '"', rest⟩ :=
  doubleQuoted?_flatMap (by decide)
    (fun c hc hspace => unescapes_escapeChar (List.all_eq_true.1 hs c hc) hspace) [] hp rest

end Token

/-! ## Characters -/

theorem isPrintable_jsonDigit : ∀ d < 16, isPrintable (Json.hexDigit d) = true := by decide

theorem isPrintable_of_mem_escapeChar {c d : Char} (hc : isSpelled c = true)
    (hd : d ∈ Json.escapeChar c) : isPrintable d = true := by
  have hletter : ∀ l, isPrintable l = true → d ∈ ['\\', l] → isPrintable d = true := by
    intro l hl hd
    rcases List.mem_cons.1 hd with rfl | hd
    · decide
    · rwa [List.mem_singleton.1 hd]
  unfold Json.escapeChar at hd
  iterate 7
    split at hd
    · exact hletter _ (by decide) hd
  split at hd
  · next hcontrol =>
    have hdigit := fun n => isPrintable_jsonDigit (n % 16) (Nat.mod_lt n (by decide))
    have hhigh : isPrintable (Json.hexDigit (c.toNat / 16)) = true :=
      isPrintable_jsonDigit _ (by omega)
    have hzero : isPrintable '0' = true := by decide
    simp only [List.mem_cons, List.not_mem_nil, or_false] at hd
    rcases hd with rfl | rfl | rfl | rfl | rfl | rfl
    · decide
    · decide
    · exact hzero
    · exact hzero
    · exact hhigh
    · exact hdigit _
  · next hcontrol =>
    rw [List.mem_singleton.1 hd]
    exact isPrintable_of_isSpelled hc hcontrol

theorem isPrintable_of_mem_flatMap {s : List Char} (hs : s.all isSpelled = true) :
    ∀ d ∈ s.flatMap Json.escapeChar, isPrintable d = true := by
  intro d hd
  obtain ⟨c, hc, hd⟩ := List.mem_flatMap.1 hd
  exact isPrintable_of_mem_escapeChar (List.all_eq_true.1 hs c hc) hd

theorem isPrintable_of_mem_quote {s : List Char} (hs : s.all isSpelled = true) :
    ∀ d ∈ Json.quote s, isPrintable d = true := by
  have hquote : isPrintable '"' = true := by decide
  rw [Json.quote, List.forall_mem_cons, List.forall_mem_append, List.forall_mem_singleton]
  exact ⟨hquote, isPrintable_of_mem_flatMap hs, hquote⟩

mutual

/-- All of the text is printable, so it takes one line. -/
theorem isPrintable_of_mem_compact :
    ∀ v : Json, spellable v = true → ∀ c ∈ v.compactChars, isPrintable c = true
  | .null, _ => (isPlain_atom rfl).printable
  | .bool b, _ => (isPlain_atom rfl).printable
  | .int n, _ => (isPlain_atom rfl).printable
  | .float x, _ => (isPlain_atom rfl).printable
  | .str s, h => isPrintable_of_mem_quote h
  | .arr [], _ => List.all_eq_true.1 (by decide)
  | .obj [], _ => List.all_eq_true.1 (by decide)
  | .arr (x :: xs), h => by
      obtain ⟨hx, hxs⟩ := Bool.and_eq_true_iff.1 h
      rw [Json.compactChars_arr_cons, List.forall_mem_cons, List.forall_mem_append]
      exact ⟨by decide, isPrintable_of_mem_compact x hx, isPrintable_of_mem_moreItems xs hxs⟩
  | .obj ((k, x) :: fs), h => by
      obtain ⟨hk, hx, hfs⟩ := (Bool.and_eq_true_iff.1 h).imp_right Bool.and_eq_true_iff.1
      have hquote := isPrintable_of_mem_quote (Bool.and_eq_true_iff.1 hk).1
      rw [Json.compactChars_obj_cons, Json.compactField, List.forall_mem_cons,
        List.forall_mem_append, List.forall_mem_append, List.forall_mem_cons]
      exact ⟨by decide, ⟨hquote, by decide, isPrintable_of_mem_compact x hx⟩,
        isPrintable_of_mem_moreFields fs hfs⟩

theorem isPrintable_of_mem_moreItems :
    ∀ xs : List Json, spellableItems xs = true → ∀ c ∈ Json.moreItems xs, isPrintable c = true
  | [], _ => List.all_eq_true.1 (by decide)
  | x :: xs, h => by
      obtain ⟨hx, hxs⟩ := Bool.and_eq_true_iff.1 h
      rw [Json.moreItems, List.forall_mem_cons, List.forall_mem_append]
      exact ⟨by decide, isPrintable_of_mem_compact x hx, isPrintable_of_mem_moreItems xs hxs⟩

theorem isPrintable_of_mem_moreFields :
    ∀ fs : List (String × Json), spellableFields fs = true →
      ∀ c ∈ Json.moreFields fs, isPrintable c = true
  | [], _ => List.all_eq_true.1 (by decide)
  | (k, x) :: fs, h => by
      obtain ⟨hk, hx, hfs⟩ := (Bool.and_eq_true_iff.1 h).imp_right Bool.and_eq_true_iff.1
      have hquote := isPrintable_of_mem_quote (Bool.and_eq_true_iff.1 hk).1
      rw [Json.moreFields, Json.compactField, List.forall_mem_cons, List.forall_mem_append,
        List.forall_mem_append, List.forall_mem_cons]
      exact ⟨by decide, ⟨hquote, by decide, isPrintable_of_mem_compact x hx⟩,
        isPrintable_of_mem_moreFields fs hfs⟩

end

end Yaml

end PromptDoc
