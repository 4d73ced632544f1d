import PromptDoc.Proofs.Yaml.Source
import PromptDoc.Proofs.Yaml.Written

/-!
# No written line starts with three hyphens

Such a line would be taken for the delimiter behind a block of front matter.
`MarkerFree` says that no line feed in a text is followed by three hyphens. What
is written below an owner is indented, so only keys and dashes at column zero
matter: a dash has a space behind it, and text that starts like a marker is not
written plain.
-/

namespace PromptDoc.Yaml

/-- Three hyphens at the front of a text. -/
def startsWithHyphens : List Char → Bool
  | '-' :: '-' :: '-' :: _ => true
  | _ => false

/-- No line after the first one starts with three hyphens. -/
def MarkerFree : List Char → Prop
  | [] => True
  | c :: cs => (c = '\n' → startsWithHyphens cs = false) ∧ MarkerFree cs

theorem startsWithHyphens_of_ne {c : Char} (h : c ≠ '-') (cs : List Char) :
    startsWithHyphens (c :: cs) = false := by
  unfold startsWithHyphens
  split
  · next heq => exact absurd (List.cons.inj heq).1 h
  · rfl

theorem startsWithHyphens_cons_of_ne {c d : Char} (h : d ≠ '-') (cs : List Char) :
    startsWithHyphens (c :: d :: cs) = false := by
  unfold startsWithHyphens
  split
  · next heq => exact absurd (List.cons.inj (List.cons.inj heq).2).1 h
  · rfl

theorem markerFree_append {s : List Char} (hs : ∀ c ∈ s, c ≠ '\n') {rest : List Char}
    (hrest : MarkerFree rest) : MarkerFree (s ++ rest) := by
  induction s with
  | nil => exact hrest
  | cons c s ih =>
      exact ⟨fun h => absurd h (hs c (by simp)), ih fun d hd => hs d (by simp [hd])⟩

theorem startsWithHyphens_of_append {s rest : List Char}
    (h : startsWithHyphens (s ++ rest) = false) : startsWithHyphens s = false := by
  unfold startsWithHyphens
  split
  · exact h
  · rfl

theorem MarkerFree.of_append {s rest : List Char} (h : MarkerFree (s ++ rest)) :
    MarkerFree s := by
  induction s with
  | nil => trivial
  | cons c s ih => exact ⟨fun hc => startsWithHyphens_of_append (h.1 hc), ih h.2⟩

theorem ne_lineFeed_of_isPrintable {c : Char} (h : isPrintable c = true) : c ≠ '\n' :=
  ne_lineFeed_of_isGraphic (isGraphic_of_isPrintable h)

theorem ne_lineFeed_of_mem_spaces {n : Nat} {c : Char} (h : c ∈ spaces n) : c ≠ '\n' := by
  rw [List.eq_of_mem_replicate h]
  decide

/-- The end of the text or of a line. -/
def EndsLine (rest : List Char) : Prop :=
  rest = [] ∨ ∃ more, rest = '\n' :: more

theorem EndsLine.startsWithHyphens {rest : List Char} (h : EndsLine rest) :
    startsWithHyphens rest = false := by
  rcases h with rfl | ⟨more, rfl⟩
  · rfl
  · exact startsWithHyphens_of_ne (by decide) more

/-- An indented line. -/
theorem markerFree_line {n : Nat} (hn : 0 < n) {rest : List Char} (hrest : MarkerFree rest) :
    MarkerFree ('\n' :: (spaces n ++ rest)) := by
  refine ⟨fun _ => ?_, markerFree_append (fun c => ne_lineFeed_of_mem_spaces) hrest⟩
  obtain ⟨m, rfl⟩ : ∃ m, n = m + 1 := ⟨n - 1, by omega⟩
  rw [spaces_succ]
  exact startsWithHyphens_of_ne (by decide) _

/-! ## Scalars -/

/-- The lines of a block. -/
theorem markerFree_lines {column : Nat} (hcolumn : 0 < column) {ls : List (List Char)}
    (hls : ∀ l ∈ ls, ∀ c ∈ l, c ≠ '\n') {rest : List Char} (hrest : MarkerFree rest)
    (hend : EndsLine rest) :
    MarkerFree (ls.flatMap (Literal.line column) ++ rest) ∧
      EndsLine (ls.flatMap (Literal.line column) ++ rest) := by
  induction ls with
  | nil => exact ⟨hrest, hend⟩
  | cons l ls ih =>
      obtain ⟨hfree, hends⟩ := ih fun m hm => hls m (by simp [hm])
      refine ⟨?_, .inr ⟨_, rfl⟩⟩
      rw [List.flatMap_cons, Literal.line, List.append_assoc, List.cons_append]
      cases l with
      | nil => exact ⟨fun _ => hends.startsWithHyphens, hfree⟩
      | cons c l =>
          rw [if_neg (by simp), List.append_assoc]
          exact markerFree_line hcolumn (markerFree_append (hls _ (by simp)) hfree)

theorem markerFree_literal (s : List Char) (step : Nat) {column : Nat}
    (hcolumn : 0 < column) {rest : List Char} (hrest : MarkerFree rest) (hend : EndsLine rest) :
    MarkerFree (Literal.text step column s ++ rest) := by
  have hlines : ∀ l ∈ Text.pieces '\n' (Literal.chomp s).2, ∀ c ∈ l, c ≠ '\n' :=
    fun l hl c hc => (Text.mem_of_mem_pieces hl hc).2
  obtain ⟨hfree, -⟩ := markerFree_lines hcolumn hlines hrest hend
  simp only [Literal.text]
  rw [List.cons_append, List.append_assoc, ← List.cons_append]
  refine markerFree_append ?_ hfree
  intro c hc
  simp only [List.mem_cons, List.mem_append] at hc
  rcases hc with rfl | hc | hc
  · decide
  · split at hc
    · exact ne_lineFeed_of_isPrintable (isDecimalChar_ne (isDecimalChar_of_isDigit
        (Digits.isDigit_of_mem_toDigits hc))).1
    · cases hc
  · cases hchomp : (Literal.chomp s).1 <;> rw [hchomp] at hc
    · rw [List.mem_singleton.1 hc]
      decide
    · cases hc
    · rw [List.mem_singleton.1 hc]
      decide

theorem markerFree_folded {s : List Char} (hs : Folded.fits s = true) (width : Nat)
    {column : Nat} (hcolumn : 0 < column) {rest : List Char} (hrest : MarkerFree rest)
    (hend : EndsLine rest) : MarkerFree (Folded.text width column s ++ rest) := by
  obtain ⟨hjoin, -⟩ := Folded.lines_spec hs (max 1 (width - column))
  have hlines : ∀ l ∈ Folded.lines (max 1 (width - column)) s, ∀ c ∈ l, c ≠ '\n' := by
    intro l hl c hc
    apply ne_lineFeed_of_isGraphic
    apply (Folded.of_fits hs).2
    rw [← hjoin]
    exact Text.mem_join_of_mem ' ' hl hc
  obtain ⟨hfree, -⟩ := markerFree_lines hcolumn hlines hrest hend
  rw [Folded.text_eq hs]
  exact ⟨fun h => absurd h (by decide), fun h => absurd h (by decide), hfree⟩

/-- A scalar below its owner. -/
theorem markerFree_scalar (o : Layout) (column : Nat) (v : Json) {rest : List Char}
    (hrest : MarkerFree rest) (hend : EndsLine rest) :
    MarkerFree (o.scalar column v ++ rest) := by
  have hplain : ∀ {s}, IsPlain s → MarkerFree (s ++ rest) := fun hs =>
    markerFree_append (fun c hc => ne_lineFeed_of_isPrintable (hs.printable c hc)) hrest
  have hstep : 1 ≤ o.step := Nat.le_max_left 1 o.indent
  cases v with
  | null => exact hplain isPlain_null
  | bool b =>
      cases b with
      | true => exact hplain isPlain_true
      | false => exact hplain isPlain_false
  | int n => exact hplain (isPlain_intText n)
  | float x => exact hplain (isPlain_text x)
  | str s =>
      rw [Layout.scalar, Layout.string]
      split
      · exact markerFree_literal s.toList o.step (by omega) hrest hend
      split
      · next h =>
        exact markerFree_folded (Bool.and_eq_true_iff.1 h).2 o.width (by omega) hrest hend
      · exact markerFree_append
          (fun c hc => ne_lineFeed_of_isPrintable (Quoted.isPrintable_of_mem_text hc)) hrest
  | arr xs => exact ⟨fun h => absurd h (by decide), fun h => absurd h (by decide), hrest⟩
  | obj fs => exact ⟨fun h => absurd h (by decide), fun h => absurd h (by decide), hrest⟩

/-! ## Entries -/

theorem markerFree_key (column : Nat) (k : String) {rest : List Char}
    (hrest : MarkerFree rest) : MarkerFree (Layout.key column k ++ rest) := by
  have htext : ∀ c ∈ Quoted.text k.toList, c ≠ '\n' := fun c hc =>
    ne_lineFeed_of_isPrintable (Quoted.isPrintable_of_mem_text hc)
  have hcolon : MarkerFree (':' :: rest) := ⟨fun h => absurd h (by decide), hrest⟩
  unfold Layout.key
  simp only
  split
  · simp only [List.cons_append, List.append_assoc, List.nil_append]
    have hline : MarkerFree ('\n' :: (spaces column ++ ':' :: rest)) := by
      refine ⟨fun _ => ?_, markerFree_append (fun c => ne_lineFeed_of_mem_spaces) hcolon⟩
      cases column with
      | zero => exact startsWithHyphens_of_ne (by decide) _
      | succ n => exact startsWithHyphens_of_ne (by decide) _
    exact ⟨fun h => absurd h (by decide), fun h => absurd h (by decide),
      markerFree_append htext hline⟩
  · rw [List.append_assoc]
    exact markerFree_append htext hcolon

/-- Plain text does not begin with three hyphens, nor does it when a line feed
or a colon follows. -/
theorem startsWithHyphens_of_isPlain {s : List Char} (hs : IsPlain s) {rest : List Char}
    (hrest : ∀ c, rest.head? = some c → c ≠ '-') : startsWithHyphens (s ++ rest) = false := by
  apply Bool.eq_false_iff.2
  intro h
  have hmarker := hs.marker
  unfold startsWithHyphens at h
  split at h
  · next more heq =>
    match s, hs.ne_nil with
    | [a], _ =>
        obtain ⟨-, rfl⟩ := List.cons.inj heq
        exact hrest '-' rfl rfl
    | [a, b], _ =>
        obtain ⟨-, heq⟩ := List.cons.inj heq
        obtain ⟨-, rfl⟩ := List.cons.inj heq
        exact hrest '-' rfl rfl
    | a :: b :: d :: ds, _ =>
        simp only [List.cons_append, List.cons.injEq] at heq
        obtain ⟨rfl, rfl, rfl, -⟩ := heq
        exact absurd hmarker (by simp [Quoted.startsWithMarker])
  · cases h

/-- Nor does a string on one line. -/
theorem startsWithHyphens_text (s : List Char) {rest : List Char}
    (hrest : ∀ c, rest.head? = some c → c ≠ '-') :
    startsWithHyphens (Quoted.text s ++ rest) = false := by
  cases hs : Token.Lexer.staysPlain s with
  | true =>
      obtain ⟨htext, hplain⟩ := Token.Lexer.isPlain_of_staysPlain hs
      rw [htext]
      exact startsWithHyphens_of_isPlain hplain hrest
  | false =>
      rw [Token.Lexer.staysPlain, Bool.and_eq_false_imp] at hs
      rw [Quoted.text]
      cases hall : s.all isPrintable with
      | false => exact startsWithHyphens_of_ne (by decide) _
      | true =>
          rw [hs hall]
          exact startsWithHyphens_of_ne (by decide) _

theorem startsWithHyphens_key (column : Nat) (k : String) (rest : List Char) :
    startsWithHyphens (Layout.key column k ++ rest) = false := by
  unfold Layout.key
  simp only
  split
  · exact startsWithHyphens_of_ne (by decide) _
  · rw [List.append_assoc]
    exact startsWithHyphens_text k.toList (by rintro c ⟨⟩; decide)

theorem startsWithHyphens_dash {o : Layout} {column : Nat} (v : Json) (rest : List Char) :
    startsWithHyphens ('-' :: (o.behindDash column v ++ rest)) = false := by
  obtain ⟨cs, hcs⟩ := Token.Lexer.behindDash_eq_cons o column v
  rw [hcs]
  exact startsWithHyphens_cons_of_ne (by decide) _

/-- The line feed before an entry at a column, whatever the column. -/
theorem markerFree_entry {n : Nat} {rest : List Char} (hstart : startsWithHyphens rest = false)
    (hrest : MarkerFree rest) : MarkerFree ('\n' :: (spaces n ++ rest)) := by
  cases n with
  | zero => exact ⟨fun _ => hstart, hrest⟩
  | succ n => exact markerFree_line (Nat.succ_pos n) hrest

theorem endsLine_itemLines (o : Layout) (column : Nat) (xs : List Json) {rest : List Char}
    (h : EndsLine rest) : EndsLine (o.itemLines column xs ++ rest) := by
  cases xs with
  | nil => exact h
  | cons x xs => exact .inr ⟨_, rfl⟩

theorem endsLine_fieldLines (o : Layout) (column : Nat) (fs : List (String × Json))
    {rest : List Char} (h : EndsLine rest) : EndsLine (o.fieldLines column fs ++ rest) := by
  cases fs with
  | nil => exact h
  | cons f fs => exact .inr ⟨_, rfl⟩

theorem markerFree_leaf {o : Layout} {column : Nat} {v : Json} (hv : Layout.isLeaf v = true)
    {rest : List Char} (hrest : MarkerFree rest) (hend : EndsLine rest) :
    MarkerFree (o.behindKey column v ++ rest) ∧ MarkerFree (o.behindDash column v ++ rest) := by
  have hscalar := markerFree_scalar o column v hrest hend
  constructor
  · rw [Layout.behindKey_leaf o column hv]
    exact ⟨fun h => absurd h (by decide), hscalar⟩
  · rw [Layout.behindDash_leaf o column hv, List.append_assoc]
    exact markerFree_append (fun c => ne_lineFeed_of_mem_spaces) hscalar

mutual

theorem markerFree_value {o : Layout} : ∀ (v : Json) (column : Nat) {rest : List Char},
    MarkerFree rest → EndsLine rest →
      MarkerFree (o.behindKey column v ++ rest) ∧ MarkerFree (o.behindDash column v ++ rest)
  | .null, _, _, hrest, hend => markerFree_leaf rfl hrest hend
  | .bool _, _, _, hrest, hend => markerFree_leaf rfl hrest hend
  | .int _, _, _, hrest, hend => markerFree_leaf rfl hrest hend
  | .float _, _, _, hrest, hend => markerFree_leaf rfl hrest hend
  | .str _, _, _, hrest, hend => markerFree_leaf rfl hrest hend
  | .arr [], _, _, hrest, hend => markerFree_leaf rfl hrest hend
  | .obj [], _, _, hrest, hend => markerFree_leaf rfl hrest hend
  | .arr (x :: xs), column, rest, hrest, hend => by
      constructor
      · rw [Layout.behindKey]
        exact markerFree_itemLines (x :: xs) _ hrest hend
      · have hxs := markerFree_itemLines (o := o) xs (column + o.entryStep) hrest hend
        have hx := (markerFree_value (o := o) x (column + o.entryStep) hxs
          (endsLine_itemLines o _ xs hend)).2
        rw [Layout.behindDash, List.append_assoc, List.cons_append, List.append_assoc]
        exact markerFree_append (fun c => ne_lineFeed_of_mem_spaces)
          ⟨fun h => absurd h (by decide), hx⟩
  | .obj ((k, x) :: fs), column, rest, hrest, hend => by
      constructor
      · rw [Layout.behindKey]
        exact markerFree_fieldLines ((k, x) :: fs) _ hrest hend
      · have hfs := markerFree_fieldLines (o := o) fs (column + o.entryStep) hrest hend
        have hx := (markerFree_value (o := o) x (column + o.entryStep) hfs
          (endsLine_fieldLines o _ fs hend)).1
        rw [Layout.behindDash, List.append_assoc, List.append_assoc, List.append_assoc]
        exact markerFree_append (fun c => ne_lineFeed_of_mem_spaces) (markerFree_key _ k hx)

theorem markerFree_itemLines {o : Layout} : ∀ (xs : List Json) (column : Nat)
    {rest : List Char}, MarkerFree rest → EndsLine rest →
      MarkerFree (o.itemLines column xs ++ rest)
  | [], _, _, hrest, _ => hrest
  | x :: xs, column, rest, hrest, hend => by
      have hxs := markerFree_itemLines (o := o) xs column hrest hend
      have hx := (markerFree_value (o := o) x column hxs
        (endsLine_itemLines o _ xs hend)).2
      rw [Layout.itemLines, List.cons_append, List.append_assoc, List.cons_append,
        List.append_assoc]
      exact markerFree_entry (startsWithHyphens_dash x _) ⟨fun h => absurd h (by decide), hx⟩

theorem markerFree_fieldLines {o : Layout} : ∀ (fs : List (String × Json)) (column : Nat)
    {rest : List Char}, MarkerFree rest → EndsLine rest →
      MarkerFree (o.fieldLines column fs ++ rest)
  | [], _, _, hrest, _ => hrest
  | (k, x) :: fs, column, rest, hrest, hend => by
      have hfs := markerFree_fieldLines (o := o) fs column hrest hend
      have hx := (markerFree_value (o := o) x column hfs
        (endsLine_fieldLines o _ fs hend)).1
      rw [Layout.fieldLines, List.cons_append, List.append_assoc, List.append_assoc,
        List.append_assoc]
      exact markerFree_entry (startsWithHyphens_key column k _) (markerFree_key column k hx)

end

/-- No line of a written document starts with three hyphens, the first one
included. -/
theorem markerFree_document (o : Layout) (v : Json) : MarkerFree ('\n' :: o.document v) := by
  have hfeed : MarkerFree ['\n'] := ⟨fun _ => rfl, trivial⟩
  have hend : EndsLine ['\n'] := .inr ⟨[], rfl⟩
  have hnext : ∀ c, ['\n'].head? = some c → c ≠ '-' := by
    rintro c ⟨⟩
    decide
  have hscalar := markerFree_scalar o 0 v hfeed hend
  have hplain : ∀ {s}, IsPlain s → startsWithHyphens (s ++ ['\n']) = false :=
    fun hs => startsWithHyphens_of_isPlain hs hnext
  rw [Layout.document_eq_body]
  cases v with
  | null => exact ⟨fun _ => hplain isPlain_null, hscalar⟩
  | bool b =>
      cases b with
      | true => exact ⟨fun _ => hplain isPlain_true, hscalar⟩
      | false => exact ⟨fun _ => hplain isPlain_false, hscalar⟩
  | int n => exact ⟨fun _ => hplain (isPlain_intText n), hscalar⟩
  | float x => exact ⟨fun _ => hplain (isPlain_text x), hscalar⟩
  | str s =>
      refine ⟨fun _ => startsWithHyphens_text s.toList hnext, markerFree_append ?_ hfeed⟩
      exact fun c hc => ne_lineFeed_of_isPrintable (Quoted.isPrintable_of_mem_text hc)
  | arr xs =>
      cases xs with
      | nil => exact ⟨fun _ => rfl, hscalar⟩
      | cons x xs =>
          have hxs := markerFree_itemLines (o := o) xs 0 hfeed hend
          have hx := (markerFree_value (o := o) x 0 hxs (endsLine_itemLines o 0 xs hend)).2
          rw [Layout.body, List.cons_append, List.append_assoc]
          exact ⟨fun _ => startsWithHyphens_dash x _, fun h => absurd h (by decide), hx⟩
  | obj fs =>
      cases fs with
      | nil => exact ⟨fun _ => rfl, hscalar⟩
      | cons f fs =>
          have hfs := markerFree_fieldLines (o := o) fs 0 hfeed hend
          have hx := (markerFree_value (o := o) f.2 0 hfs (endsLine_fieldLines o 0 fs hend)).1
          rw [Layout.body, List.append_assoc, List.append_assoc]
          exact ⟨fun _ => startsWithHyphens_key 0 f.1 _, markerFree_key 0 f.1 hx⟩

end PromptDoc.Yaml
