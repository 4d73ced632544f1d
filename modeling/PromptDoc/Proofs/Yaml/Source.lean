import PromptDoc.Proofs.Yaml.Body
import PromptDoc.Proofs.Yaml.Legible
import PromptDoc.Proofs.Yaml.Multiline
import PromptDoc.Yaml.Document
import PromptDoc.Yaml.Source

/-!
# The characters of written text

A written text consists of printable characters, line feeds and the characters of
those strings that are written as blocks of several lines (`forall_mem_body`). So it
is plain text, as far as it is printable at all, except for two codes that are no
characters: blocks take them over from their strings (`plain_document_iff`). For a
legible value all of its text is readable, and the reader takes it as it is: there
is no byte order mark to drop and no line break to unify.
-/

namespace PromptDoc.Yaml

/-! ## Strings that are written as blocks -/

namespace Layout

/-- Whether a string below an owner at a column is written as a literal block or
folded. -/
def isBlock (o : Layout) (column : Nat) (s : List Char) : Bool :=
  s.contains '\n' && Literal.fits s ||
    decide (o.width < column + s.length) && Folded.fits s

mutual

/-- The strings of a value that are written as blocks. The value belongs to an owner
at a column, whose entries stand `step` columns further on. -/
def blocks (o : Layout) (step column : Nat) : Json → List String
  | .str s => if o.isBlock column s.toList then [s] else []
  | .arr items => blocksItems o (column + step) items
  | .obj fields => blocksFields o (column + step) fields
  | _ => []

/-- Those of the items of a sequence at a column. -/
def blocksItems (o : Layout) (column : Nat) : List Json → List String
  | [] => []
  | x :: xs => blocks o o.entryStep column x ++ blocksItems o column xs

/-- Those of the fields of a mapping at a column. -/
def blocksFields (o : Layout) (column : Nat) : List (String × Json) → List String
  | [] => []
  | (_, x) :: fs => blocks o o.step column x ++ blocksFields o column fs

end

/-- The strings of a document that are written as blocks; one at its root is not. -/
def blocksRoot (o : Layout) : Json → List String
  | .arr items => o.blocksItems 0 items
  | .obj fields => o.blocksFields 0 fields
  | _ => []

/-- Characters of a block are kept as they are, so there are none in it that would
have to be escaped. -/
theorem of_isBlock {o : Layout} {column : Nat} {s : List Char} (h : o.isBlock column s = true) :
    ∀ c ∈ s, c = '\n' ∨ c = '\t' ∨ isGraphic c = true := by
  rcases Bool.or_eq_true_iff.1 h with h | h
  · exact (Literal.of_fits (Bool.and_eq_true_iff.1 h).2).2.1
  · exact fun c hc => .inr (.inr ((Folded.of_fits (Bool.and_eq_true_iff.1 h).2).2 c hc))

mutual

theorem of_mem_blocks {o : Layout} {s : String} : ∀ (v : Json) {step column : Nat},
    s ∈ o.blocks step column v → s ∈ strings v ∧ ∃ n, o.isBlock n s.toList = true
  | .str t, step, column, h => by
      rw [blocks] at h
      split at h
      · next hblock =>
        obtain rfl := List.mem_singleton.1 h
        exact ⟨List.mem_singleton_self s, column, hblock⟩
      · cases h
  | .arr xs, _, _, h => of_mem_blocksItems xs h
  | .obj fs, _, _, h => of_mem_blocksFields fs h
  | .null, _, _, h | .bool _, _, _, h | .int _, _, _, h | .float _, _, _, h => nomatch h

theorem of_mem_blocksItems {o : Layout} {s : String} : ∀ (xs : List Json) {column : Nat},
    s ∈ o.blocksItems column xs → s ∈ stringsItems xs ∧ ∃ n, o.isBlock n s.toList = true
  | x :: xs, _, h => by
      rcases List.mem_append.1 h with h | h
      · exact (of_mem_blocks x h).imp_left (List.mem_append_left _)
      · exact (of_mem_blocksItems xs h).imp_left (List.mem_append_right _)

theorem of_mem_blocksFields {o : Layout} {s : String} :
    ∀ (fs : List (String × Json)) {column : Nat},
      s ∈ o.blocksFields column fs → s ∈ stringsFields fs ∧ ∃ n, o.isBlock n s.toList = true
  | (_, x) :: fs, _, h => by
      rcases List.mem_append.1 h with h | h
      · exact (of_mem_blocks x h).imp_left (List.mem_append_left _)
      · exact (of_mem_blocksFields fs h).imp_left (List.mem_append_right _)

end

theorem of_mem_blocksRoot {o : Layout} {v : Json} {s : String} (h : s ∈ o.blocksRoot v) :
    s ∈ strings v ∧ ∃ n, o.isBlock n s.toList = true := by
  cases v with
  | arr xs => exact of_mem_blocksItems xs h
  | obj fs => exact of_mem_blocksFields fs h
  | _ => cases h

end Layout

/-! ## The characters of a document -/

/-- The last line feed, which the header may stand for, makes no difference. -/
theorem forall_mem_chomp {P : Char → Prop} (hfeed : P '\n') (s : List Char) :
    (∀ c ∈ (Literal.chomp s).2, P c) ↔ ∀ c ∈ s, P c := by
  refine ⟨fun h c hc => ?_, fun h c hc => h c (Literal.mem_of_mem_chomp hc)⟩
  rcases Literal.chomp_spec s with ⟨heq, -⟩ | ⟨body, rfl, ⟨heq, -⟩ | ⟨heq, -⟩⟩ <;> rw [heq] at h
  · exact h c hc
  all_goals
    rcases List.mem_append.1 hc with hc | hc
    · exact h c hc
    · rw [List.mem_singleton.1 hc]
      exact hfeed

section Characters

variable {P : Char → Prop} (hprint : ∀ c, isPrintable c = true → P c) (hfeed : P '\n')

include hprint

theorem forall_mem_spaces (n : Nat) : ∀ c ∈ spaces n, P c := by
  intro c hc
  rw [List.eq_of_mem_replicate hc]
  exact hprint ' ' (by decide)

theorem forall_mem_of_isPlain {s : List Char} (hs : IsPlain s) : ∀ c ∈ s, P c :=
  fun c hc => hprint c (hs.printable c hc)

theorem forall_mem_text (s : List Char) : ∀ c ∈ Quoted.text s, P c :=
  fun c hc => hprint c (Quoted.isPrintable_of_mem_text hc)

include hfeed

/-- A literal block has the string's own characters on indented lines. -/
theorem forall_mem_literal (step column : Nat) (s : List Char) :
    (∀ c ∈ Literal.text step column s, P c) ↔ ∀ c ∈ s, P c := by
  have hbar : P '|' := hprint '|' (by decide)
  have hdigit : ∀ b : Bool, ∀ c ∈ if b then Nat.toDigits 10 step else [], P c := by
    intro b c hc
    split at hc
    · exact hprint c (isDecimalChar_ne (isDecimalChar_of_isDigit
        (Digits.isDigit_of_mem_toDigits hc))).1
    · cases hc
  have hindicator : ∀ c ∈ (Literal.chomp s).1.indicator, P c := by
    intro c hc
    cases hchomp : (Literal.chomp s).1 <;> rw [hchomp] at hc
    · rw [List.mem_singleton.1 hc]
      exact hprint '-' (by decide)
    · cases hc
    · rw [List.mem_singleton.1 hc]
      exact hprint '+' (by decide)
  have hline : ∀ l, (∀ c ∈ Literal.line column l, P c) ↔ ∀ c ∈ l, P c := by
    intro l
    rw [Literal.line, List.forall_mem_cons, and_iff_right hfeed]
    split
    · next hempty =>
      rw [List.isEmpty_iff.1 hempty]
    · rw [List.forall_mem_append, and_iff_right (forall_mem_spaces hprint column)]
  rw [Literal.text, List.forall_mem_cons, List.forall_mem_append, List.forall_mem_append,
    and_iff_right hbar, and_iff_right ⟨hdigit _, hindicator⟩, List.forall_mem_flatMap]
  simp only [hline]
  rw [← Text.forall_mem_join hfeed, Text.join_pieces, forall_mem_chomp hfeed]

/-- A folded block has the string's own characters on indented lines. -/
theorem forall_mem_folded {s : List Char} (hfits : Folded.fits s = true) (width column : Nat) :
    (∀ c ∈ Folded.text width column s, P c) ↔ ∀ c ∈ s, P c := by
  have hmore : P '>' := hprint '>' (by decide)
  have hhyphen : P '-' := hprint '-' (by decide)
  have hspace : P ' ' := hprint ' ' (by decide)
  obtain ⟨hjoin, -⟩ := Folded.lines_spec hfits (max 1 (width - column))
  rw [Folded.text, List.forall_mem_cons, List.forall_mem_cons, and_iff_right hmore,
    and_iff_right hhyphen, List.forall_mem_flatMap]
  simp only [List.forall_mem_cons, List.forall_mem_append, and_iff_right hfeed,
    and_iff_right (forall_mem_spaces hprint column)]
  rw [← Text.forall_mem_join hspace, hjoin]

theorem forall_mem_string (o : Layout) (column : Nat) (s : List Char) :
    (∀ c ∈ o.string column s, P c) ↔ (o.isBlock column s = true → ∀ c ∈ s, P c) := by
  rw [Layout.string, Layout.isBlock]
  split
  · next hliteral =>
    rw [forall_mem_literal hprint hfeed, hliteral, Bool.true_or, forall_prop_of_true rfl]
  split
  · next hfolded =>
    rw [forall_mem_folded hprint hfeed (Bool.and_eq_true_iff.1 hfolded).2, hfolded, Bool.or_true,
      forall_prop_of_true rfl]
  · next hliteral hfolded =>
    refine iff_of_true (forall_mem_text hprint s) fun h => ?_
    rcases Bool.or_eq_true_iff.1 h with h | h
    · exact absurd h hliteral
    · exact absurd h hfolded

theorem forall_mem_scalar (o : Layout) (step column : Nat) {v : Json}
    (hv : Layout.isLeaf v = true) :
    (∀ c ∈ o.scalar column v, P c) ↔
      ∀ s ∈ o.blocks step column v, ∀ c ∈ s.toList, P c := by
  have hplain : ∀ {s}, IsPlain s → ((∀ c ∈ s, P c) ↔ ∀ s ∈ ([] : List String),
      ∀ c ∈ s.toList, P c) := fun hs => iff_of_true (forall_mem_of_isPlain hprint hs) nofun
  cases v with
  | null => exact hplain isPlain_null
  | bool b =>
      cases b with
      | true => exact hplain isPlain_true
      | false => exact hplain isPlain_false
  | int n => exact hplain (isPlain_intText n)
  | float x => exact hplain (isPlain_text x)
  | str s =>
      rw [Layout.scalar, forall_mem_string hprint hfeed, Layout.blocks]
      split
      · next hblock => simp [hblock]
      · next hblock => simp [hblock]
  | arr xs =>
      cases xs with
      | cons x xs => cases hv
      | nil => exact iff_of_true (by simpa [Layout.scalar] using
          ⟨hprint '[' (by decide), hprint ']' (by decide)⟩) nofun
  | obj fs =>
      cases fs with
      | cons f fs => cases hv
      | nil => exact iff_of_true (by simpa [Layout.scalar] using
          ⟨hprint '\x7b' (by decide), hprint '\x7d' (by decide)⟩) nofun

theorem forall_mem_key (column : Nat) (k : String) : ∀ c ∈ Layout.key column k, P c := by
  have hcolon : P ':' := hprint ':' (by decide)
  rw [Layout.key]
  split
  · simp only [List.forall_mem_cons, List.forall_mem_append]
    exact ⟨hprint '?' (by decide), hprint ' ' (by decide), forall_mem_text hprint k.toList, hfeed,
      forall_mem_spaces hprint column, hcolon, nofun⟩
  · simp only [List.forall_mem_cons, List.forall_mem_append]
    exact ⟨forall_mem_text hprint k.toList, hcolon, nofun⟩

theorem forall_mem_leaf (o : Layout) (column : Nat) {v : Json} (hv : Layout.isLeaf v = true) :
    ((∀ c ∈ o.behindKey column v, P c) ↔
        ∀ s ∈ o.blocks o.step column v, ∀ c ∈ s.toList, P c) ∧
      ((∀ c ∈ o.behindDash column v, P c) ↔
        ∀ s ∈ o.blocks o.entryStep column v, ∀ c ∈ s.toList, P c) := by
  constructor
  · rw [Layout.behindKey_leaf o column hv, List.forall_mem_cons,
      and_iff_right (hprint ' ' (by decide)), forall_mem_scalar hprint hfeed o _ column hv]
  · rw [Layout.behindDash_leaf o column hv, List.forall_mem_append,
      and_iff_right (forall_mem_spaces hprint _), forall_mem_scalar hprint hfeed o _ column hv]

mutual

theorem forall_mem_value {o : Layout} : ∀ (v : Json) (column : Nat),
    ((∀ c ∈ o.behindKey column v, P c) ↔
        ∀ s ∈ o.blocks o.step column v, ∀ c ∈ s.toList, P c) ∧
      ((∀ c ∈ o.behindDash column v, P c) ↔
        ∀ s ∈ o.blocks o.entryStep column v, ∀ c ∈ s.toList, P c)
  | .null, column => forall_mem_leaf hprint hfeed o column rfl
  | .bool _, column => forall_mem_leaf hprint hfeed o column rfl
  | .int _, column => forall_mem_leaf hprint hfeed o column rfl
  | .float _, column => forall_mem_leaf hprint hfeed o column rfl
  | .str _, column => forall_mem_leaf hprint hfeed o column rfl
  | .arr [], column => forall_mem_leaf hprint hfeed o column rfl
  | .obj [], column => forall_mem_leaf hprint hfeed o column rfl
  | .arr (x :: xs), column => by
      constructor
      · rw [Layout.behindKey, Layout.blocks]
        exact forall_mem_itemLines (x :: xs) _
      · rw [Layout.behindDash, Layout.blocks, Layout.blocksItems, List.forall_mem_append,
          List.forall_mem_cons, List.forall_mem_append, List.forall_mem_append,
          and_iff_right (forall_mem_spaces hprint _), and_iff_right (hprint '-' (by decide)),
          (forall_mem_value x _).2, forall_mem_itemLines xs]
  | .obj ((k, x) :: fs), column => by
      constructor
      · rw [Layout.behindKey, Layout.blocks]
        exact forall_mem_fieldLines ((k, x) :: fs) _
      · rw [Layout.behindDash, Layout.blocks, Layout.blocksFields, List.forall_mem_append,
          List.forall_mem_append, List.forall_mem_append, List.forall_mem_append,
          and_iff_right (forall_mem_spaces hprint _),
          and_iff_right (forall_mem_key hprint hfeed _ k),
          (forall_mem_value x _).1, forall_mem_fieldLines fs]

theorem forall_mem_itemLines {o : Layout} : ∀ (xs : List Json) (column : Nat),
    (∀ c ∈ o.itemLines column xs, P c) ↔
      ∀ s ∈ o.blocksItems column xs, ∀ c ∈ s.toList, P c
  | [], _ => iff_of_true nofun nofun
  | x :: xs, column => by
      rw [Layout.itemLines, Layout.blocksItems, List.forall_mem_cons, List.forall_mem_append,
        List.forall_mem_cons, List.forall_mem_append, List.forall_mem_append,
        and_iff_right hfeed, and_iff_right (forall_mem_spaces hprint _),
        and_iff_right (hprint '-' (by decide)), (forall_mem_value x _).2, forall_mem_itemLines xs]

theorem forall_mem_fieldLines {o : Layout} : ∀ (fs : List (String × Json)) (column : Nat),
    (∀ c ∈ o.fieldLines column fs, P c) ↔
      ∀ s ∈ o.blocksFields column fs, ∀ c ∈ s.toList, P c
  | [], _ => iff_of_true nofun nofun
  | (k, x) :: fs, column => by
      rw [Layout.fieldLines, Layout.blocksFields, List.forall_mem_cons, List.forall_mem_append,
        List.forall_mem_append, List.forall_mem_append, List.forall_mem_append,
        and_iff_right hfeed, and_iff_right (forall_mem_spaces hprint _),
        and_iff_right (forall_mem_key hprint hfeed _ k), (forall_mem_value x _).1,
        forall_mem_fieldLines fs]

end

/-- The characters of a document: printable ones, line feeds, and those of the
strings that are written as blocks. -/
theorem forall_mem_body (o : Layout) (v : Json) :
    (∀ c ∈ o.body v, P c) ↔ ∀ s ∈ o.blocksRoot v, ∀ c ∈ s.toList, P c := by
  cases v with
  | str s => exact iff_of_true (forall_mem_text hprint s.toList) nofun
  | arr xs =>
      cases xs with
      | nil => exact forall_mem_scalar hprint hfeed o 0 0 (v := .arr []) rfl
      | cons x xs =>
          rw [Layout.body, Layout.blocksRoot, Layout.blocksItems, List.forall_mem_cons,
            List.forall_mem_append, List.forall_mem_append, and_iff_right (hprint '-' (by decide)),
            (forall_mem_value hprint hfeed x 0).2, forall_mem_itemLines hprint hfeed xs]
  | obj fs =>
      cases fs with
      | nil => exact forall_mem_scalar hprint hfeed o 0 0 (v := .obj []) rfl
      | cons f fs =>
          rw [Layout.body, Layout.blocksRoot, Layout.blocksFields, List.forall_mem_append,
            List.forall_mem_append, List.forall_mem_append,
            and_iff_right (forall_mem_key hprint hfeed 0 f.1),
            (forall_mem_value hprint hfeed f.2 0).1, forall_mem_fieldLines hprint hfeed fs]
  | null => exact forall_mem_scalar hprint hfeed o 0 0 (v := .null) rfl
  | bool b => exact forall_mem_scalar hprint hfeed o 0 0 (v := .bool b) rfl
  | int n => exact forall_mem_scalar hprint hfeed o 0 0 (v := .int n) rfl
  | float x => exact forall_mem_scalar hprint hfeed o 0 0 (v := .float x) rfl

end Characters

/-! ## Plain text -/

/-- A character of plain text: a line feed, a tab, or a printable character. -/
def isText (c : Char) : Bool :=
  c = '\n' || c = '\t' || isPrintable c

theorem isPrintable_of_isGraphic {c : Char} (h : isGraphic c = true) :
    isPrintable c = true ↔ c ≠ '\ufffe' ∧ c ≠ '\uffff' := by
  constructor
  · intro hprint
    constructor <;> rintro rfl <;> exact absurd hprint (by decide)
  · rintro ⟨hfffe, hffff⟩
    have hread := isReadable_of_isGraphic h hfffe hffff
    simp only [isGraphic, Bool.not_eq_true', Bool.or_eq_false_iff, Bool.and_eq_false_imp,
      decide_eq_true_eq, decide_eq_false_iff_not] at h
    simp only [isReadable, Bool.or_eq_true, Bool.and_eq_true, decide_eq_true_eq] at hread
    simp only [isPrintable, Bool.or_eq_true, Bool.and_eq_true, decide_eq_true_eq]
    omega

theorem isText_of_isBlock {o : Layout} {column : Nat} {s : List Char}
    (h : o.isBlock column s = true) :
    (∀ c ∈ s, isText c = true) ↔ '\ufffe' ∉ s ∧ '\uffff' ∉ s := by
  constructor
  · intro htext
    constructor <;> exact fun hmem => absurd (htext _ hmem) (by decide)
  · rintro ⟨hfffe, hffff⟩ c hc
    rcases Layout.of_isBlock h c hc with rfl | rfl | hgraphic
    · rfl
    · rfl
    · have hprint := (isPrintable_of_isGraphic hgraphic).2
        ⟨fun heq => hfffe (heq ▸ hc), fun heq => hffff (heq ▸ hc)⟩
      simp [isText, hprint]

theorem isText_of_isPrintable {c : Char} (h : isPrintable c = true) : isText c = true := by
  simp [isText, h]

theorem isText_body_iff (o : Layout) (v : Json) :
    (∀ c ∈ o.body v, isText c = true) ↔
      ∀ s ∈ o.blocksRoot v, '\ufffe' ∉ s.toList ∧ '\uffff' ∉ s.toList := by
  rw [forall_mem_body (fun c => isText_of_isPrintable) rfl]
  refine forall₂_congr fun s hs => ?_
  obtain ⟨-, n, hblock⟩ := Layout.of_mem_blocksRoot hs
  exact isText_of_isBlock hblock

/-- A document is plain text exactly when no string that is written as a block has
one of the two codes that are no characters. -/
theorem plain_document_iff (o : Layout) (v : Json) :
    (∀ c ∈ o.document v, isText c = true) ↔
      ∀ s ∈ o.blocksRoot v, '\ufffe' ∉ s.toList ∧ '\uffff' ∉ s.toList := by
  have hfeed : isText '\n' = true := rfl
  rw [Layout.document_eq_body, List.forall_mem_append, List.forall_mem_singleton,
    and_iff_left hfeed, isText_body_iff]

/-- A literal block takes over a code that is no character, and the reader refuses
the text. -/
theorem not_plain_document_fffe :
    let v : Json := .obj [("k", .str "a\n\ufffe")]
    '\ufffe' ∈ Layout.stable.document v ∧ isText '\ufffe' = false ∧
      readChars (Layout.stable.document v) ≠ .ok v ∧
      ¬ ∀ (o : Layout) (v : Json), ∀ c ∈ o.document v, isText c = true := by
  have hmem : '\ufffe' ∈ Layout.stable.document (.obj [("k", .str "a\n\ufffe")]) := by
    decide +kernel
  refine ⟨hmem, by decide, by decide +kernel, fun h => ?_⟩
  exact absurd (h _ _ _ hmem) (by decide)

/-! ## Readable text -/

/-- What a reader leaves as it is: a character that it allows, and that neither
marks the byte order nor is another spelling of a line break. -/
def isKept (c : Char) : Bool :=
  isReadable c && c != '\r' && c != '\u0085' && c != byteOrderMark

theorem isKept_of_isPrintable {c : Char} (h : isPrintable c = true) : isKept c = true := by
  have hgraphic := isGraphic_of_isPrintable h
  have hreturn : c ≠ '\r' := by
    rintro rfl
    exact absurd h (by decide)
  have hnext : c ≠ '\u0085' := by
    rintro rfl
    exact absurd h (by decide)
  simp [isKept, isReadable_of_isPrintable h, hreturn, hnext, ne_mark_of_isGraphic hgraphic]

theorem isKept_of_isText {c : Char} (h : isText c = true) : isKept c = true := by
  simp only [isText, Bool.or_eq_true, decide_eq_true_eq, or_assoc] at h
  rcases h with rfl | rfl | h
  · decide
  · decide
  · exact isKept_of_isPrintable h

namespace Source

theorem unifyBreaks_of_isKept {s : List Char} (h : ∀ c ∈ s, isKept c = true) :
    unifyBreaks s = s := by
  induction s with
  | nil => rfl
  | cons c s ih =>
      have hc := h c (by simp)
      simp only [isKept, Bool.and_eq_true, bne_iff_ne] at hc
      obtain ⟨⟨⟨-, hreturn⟩, hnext⟩, -⟩ := hc
      rw [unifyBreaks, ih fun d hd => h d (by simp [hd]), if_neg (by simp [hreturn, hnext])]
      intro more heq
      exact absurd heq hreturn

theorem dropMark_eq_self {s : List Char} (h : byteOrderMark ∉ s) : dropMark s = s := by
  cases s with
  | nil => rfl
  | cons c s =>
      rw [dropMark, if_neg]
      rintro rfl
      exact h (by simp)

theorem prepare?_of_isKept {s : List Char} (h : ∀ c ∈ s, isKept c = true) :
    prepare? s = some s := by
  have hread : s.all isReadable = true := by
    apply List.all_eq_true.2
    intro c hc
    have hkept := h c hc
    simp only [isKept, Bool.and_eq_true] at hkept
    exact hkept.1.1.1
  have hmark : dropMark s = s := by
    refine dropMark_eq_self fun hmem => ?_
    exact absurd (h _ hmem) (by decide)
  rw [prepare?, hmark, hread, unifyBreaks_of_isKept h]
  rfl

end Source

/-- The text of a legible value is taken as it is. -/
theorem isKept_of_mem_body {o : Layout} {v : Json} (hv : Legible v) {c : Char}
    (hc : c ∈ o.body v) : isKept c = true := by
  have htext : ∀ d ∈ o.body v, isText d = true := (isText_body_iff o v).2 fun s hs =>
    legible_of_mem_strings v hv (Layout.of_mem_blocksRoot hs).1
  exact isKept_of_isText (htext c hc)

end PromptDoc.Yaml
