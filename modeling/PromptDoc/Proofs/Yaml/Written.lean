import PromptDoc.Proofs.Yaml.Tree

/-!
# Written text as tokens

The lexer cuts what the writer writes into the tokens of the written value's
tree. The proof follows the writer's recursion: `run?_behindKey` and
`run?_behindDash` are about what follows a key or a dash, `resumes_itemLines`
and `resumes_fieldLines` about the entries that come after a scalar. Each goes
on with the text that is left, so nothing depends on where in the document the
part stands.
-/

namespace PromptDoc.Yaml.Token.Lexer

open Layout

theorem isEmpty_itemLines (o : Layout) (column : Nat) (xs : List Json) (tail : List Char) :
    (!(o.itemLines column xs ++ tail).isEmpty) = (!tail.isEmpty || !xs.isEmpty) := by
  cases xs <;> simp [itemLines]

theorem isEmpty_fieldLines (o : Layout) (column : Nat) (fs : List (String × Json))
    (tail : List Char) :
    (!(o.fieldLines column fs ++ tail).isEmpty) = (!tail.isEmpty || !fs.isEmpty) := by
  cases fs <;> simp [fieldLines]

/-- Values that are written in one word, whatever their owner. -/
def isWord : Json → Bool
  | .str _ | .arr (_ :: _) | .obj (_ :: _) => false
  | _ => true

theorem isLeaf_of_isWord {v : Json} (h : isWord v = true) : isLeaf v = true := by
  cases v with
  | arr xs => cases xs <;> trivial
  | obj fs => cases fs <;> trivial
  | _ => rfl

/-- The word of a value that has one. -/
theorem run?_word {is : List Nat} {allowed : Bool} {ts r : List Token} {p : Position}
    (hp : parentOf is ≤ p.column + 1) (hreq : allowed = true → parentOf is ≠ p.column + 1)
    {v : Json} (hv : isWord v = true) {o : Layout} {owner inner : Nat} {ended : Bool}
    {tail : List Char} (α : Type)
    (h : Resumes is (ts ++ (o.node owner inner ended v : Node α).tokens) tail r) :
    (settled is allowed ts p).run? (o.scalar owner v ++ tail) = some r := by
  cases v with
  | null => exact run?_plain hp hreq isPlain_null h
  | bool b =>
      cases b with
      | true => exact run?_plain hp hreq isPlain_true h
      | false => exact run?_plain hp hreq isPlain_false h
  | int n => exact run?_plain hp hreq (isPlain_intText n) h
  | float x => exact run?_plain hp hreq (isPlain_text x) h
  | str s => cases hv
  | arr xs =>
      cases xs with
      | nil => exact run?_empty hp hreq (.inl rfl) h
      | cons x xs => cases hv
  | obj fs =>
      cases fs with
      | nil => exact run?_empty hp hreq (.inr rfl) h
      | cons f fs => cases hv

/-- A string below its owner, in whichever style it is written. -/
theorem run?_string {is : List Nat} {allowed : Bool} {ts r : List Token} {p : Position}
    {owner : Nat} (hp : owner < p.column) {o : Layout} (ho : o.step < 10) (s : List Char)
    {tail : List Char}
    (h : Resumes (owner :: is) (ts ++ [.scalar (o.writesPlain owner s)
      (readString (!tail.isEmpty) s)]) tail r) :
    (settled (owner :: is) allowed ts p).run? (o.string owner s ++ tail) = some r := by
  have hparent : parentOf (owner :: is) ≤ p.column + 1 := Nat.le_succ_of_le hp
  have hpos : 0 < o.step := Nat.le_max_left 1 o.indent
  unfold Layout.string
  unfold writesPlain readString at h
  by_cases hliteral : (s.contains '\n' && Literal.fits s) = true
  · rw [if_pos hliteral, if_pos hliteral] at h
    rw [if_pos hliteral]
    obtain ⟨q, rest, hend, hrun⟩ := h
    have hfits := (Bool.and_eq_true_iff.1 hliteral).2
    obtain ⟨cs, q', htext, hq', hread⟩ := blockScalar?_literal hfits hpos ho hend
    exact run?_block hparent (.inl rfl) htext (by simp [Literal.text]) hend hq' hread hrun
  rw [if_neg hliteral, if_neg hliteral] at h
  rw [if_neg hliteral]
  by_cases hfolded : (decide (o.width < owner + s.length) && Folded.fits s) = true
  · rw [if_pos hfolded] at h
    rw [if_pos hfolded]
    obtain ⟨q, rest, hend, hrun⟩ := h
    have hfits := (Bool.and_eq_true_iff.1 hfolded).2
    obtain ⟨cs, q', htext, hq', hread⟩ := blockScalar?_folded hfits hpos o.width hend
    exact run?_block hparent (.inr rfl) htext (by simp [Folded.text]) hend hq' hread hrun
  · rw [if_neg hfolded] at h
    rw [if_neg hfolded]
    refine run?_text hparent (fun _ => ?_) h
    simp only [parentOf]
    omega

theorem atGap_behindKey (o : Layout) (column : Nat) (v : Json) (rest : List Char) :
    atGap (o.behindKey column v ++ rest) = true := by
  cases v with
  | arr xs => cases xs <;> rfl
  | obj fs => cases fs <;> rfl
  | _ => rfl

theorem behindDash_eq_cons (o : Layout) (column : Nat) (v : Json) :
    ∃ cs, o.behindDash column v = ' ' :: cs := by
  have hspaces : spaces (o.entryStep - 1) = ' ' :: spaces (o.entryStep - 2) := by
    have h : 2 ≤ o.entryStep := Nat.le_max_left 2 o.step
    rw [← spaces_succ]
    congr 1
    omega
  cases hleaf : isLeaf v with
  | true =>
      rw [behindDash_leaf o column hleaf, hspaces]
      exact ⟨_, rfl⟩
  | false =>
      cases v with
      | arr xs =>
          cases xs with
          | nil => cases hleaf
          | cons x xs =>
              rw [behindDash, hspaces]
              exact ⟨_, rfl⟩
      | obj fs =>
          cases fs with
          | nil => cases hleaf
          | cons f fs =>
              rw [behindDash, hspaces]
              exact ⟨_, rfl⟩
      | _ => cases hleaf

theorem run?_dashSpaces {is : List Nat} {ts r : List Token} {column : Nat} {o : Layout}
    {cs : List Char}
    (h : (settled is true ts ⟨column + o.entryStep, column + o.entryStep⟩).run? cs = some r) :
    (settled is true ts ⟨column + 1, column + 1⟩).run? (spaces (o.entryStep - 1) ++ cs) =
      some r := by
  have hstep : 2 ≤ o.entryStep := Nat.le_max_left 2 o.step
  have hcolumn : column + 1 + (o.entryStep - 1) = column + o.entryStep := by omega
  apply run?_spaces
  rw [Position.after_spaces]
  simpa only [hcolumn] using h

/-- The dash of an item before the text behind it. -/
theorem run?_item {is js : List Nat} {column : Nat} {opened ts r : List Token}
    (h : Opens .blockSequenceStart is column opened js) {o : Layout} {v : Json}
    {rest : List Char}
    (hrun : (settled js true (ts ++ opened ++ [.blockEntry]) ⟨column + 1, column + 1⟩).run?
      (o.behindDash column v ++ rest) = some r) :
    (settled is true ts ⟨column, column⟩).run? ('-' :: (o.behindDash column v ++ rest)) =
      some r := by
  obtain ⟨cs, hcs⟩ := behindDash_eq_cons o column v
  rw [hcs] at hrun ⊢
  exact run?_dash h hrun

theorem key_eq_cons (column : Nat) (k : String) :
    ∃ c cs, Layout.key column k = c :: cs ∧ opensToken c = true := by
  unfold Layout.key
  simp only
  split
  · exact ⟨_, _, rfl, by decide⟩
  cases hs : staysPlain k.toList with
  | true =>
      obtain ⟨htext, hplain⟩ := isPlain_of_staysPlain hs
      obtain ⟨c, cs, hcons⟩ := List.exists_cons_of_ne_nil hplain.ne_nil
      rw [hcons] at hplain
      have hopens := (token?_plain (s := settled [] true [] .lineStart) hplain nofun []
        (by simp)).1
      rw [htext, hcons]
      exact ⟨c, _, rfl, hopens⟩
  | false =>
      rw [staysPlain, Bool.and_eq_false_imp] at hs
      rw [Quoted.text]
      cases hall : k.toList.all isPrintable with
      | false => exact ⟨_, _, rfl, by decide⟩
      | true =>
          rw [hs hall]
          exact ⟨_, _, rfl, by decide⟩

/-- The key of a field before the text behind it. -/
theorem run?_field {is js : List Nat} {column : Nat} {opened ts r : List Token}
    (h : Opens .blockMappingStart is column opened js) {k : String} (hk : KeyFits k) {o : Layout}
    {v : Json} {rest : List Char}
    (hrun : ∀ allowed q, column < q.column →
      (settled js allowed (ts ++ opened ++ keyTokens k) q).run? (o.behindKey column v ++ rest) =
        some r) :
    (settled is true ts ⟨column, column⟩).run?
      (Layout.key column k ++ (o.behindKey column v ++ rest)) = some r :=
  run?_key h hk (atGap_behindKey o column v rest) hrun

/-- A word behind a key. -/
theorem run?_keyWord {α : Type} {o : Layout} {v : Json} {owner inner : Nat} {is : List Nat}
    {allowed ended : Bool} {ts r : List Token} {p : Position} {tail : List Char}
    (hp : owner < p.column) (hv : isWord v = true)
    (h : Resumes (owner :: is) (ts ++ (o.node owner inner ended v : Node α).tokens) tail r) :
    (settled (owner :: is) allowed ts p).run? (o.behindKey owner v ++ tail) = some r := by
  have hleaf : isLeaf v = true := isLeaf_of_isWord hv
  rw [behindKey_leaf o owner hleaf]
  apply run?_space
  refine run?_word ?_ (fun _ => ?_) hv α h
  · simp only [parentOf, Position.column_next]
    omega
  · simp only [parentOf, Position.column_next]
    omega

/-- A word behind a dash. -/
theorem run?_dashWord {α : Type} {o : Layout} {v : Json} {owner inner : Nat} {is : List Nat}
    {ended : Bool} {ts r : List Token} {tail : List Char} (hv : isWord v = true)
    (h : Resumes (owner :: is) (ts ++ (o.node owner inner ended v : Node α).tokens) tail r) :
    (settled (owner :: is) true ts ⟨owner + 1, owner + 1⟩).run? (o.behindDash owner v ++ tail) =
      some r := by
  have hstep : 2 ≤ o.entryStep := Nat.le_max_left 2 o.step
  have hleaf : isLeaf v = true := isLeaf_of_isWord hv
  rw [behindDash_leaf o owner hleaf, List.append_assoc]
  apply run?_dashSpaces
  refine run?_word ?_ (fun _ => ?_) hv α h
  · simp only [parentOf]
    omega
  · simp only [parentOf]
    omega

mutual

/-- What follows a key's colon is cut into the tokens of the value's tree. -/
theorem run?_behindKey {α : Type} {o : Layout} (ho : o.step < 10) :
    ∀ (v : Json), Legible v → ∀ {owner : Nat} {is : List Nat} {allowed : Bool}
      {ts r : List Token} {p : Position} {tail : List Char}, owner < p.column →
      Resumes (owner :: is)
        (ts ++ (o.node owner (owner + o.step) (!tail.isEmpty) v : Node α).tokens) tail r →
      (settled (owner :: is) allowed ts p).run? (o.behindKey owner v ++ tail) = some r
  | .arr (x :: xs), hv, owner, is, allowed, ts, r, p, tail, hp, h => by
      have hcolumn : parentOf (owner :: is) ≤ owner + o.step :=
        Nat.add_le_add_left (Nat.le_max_left 1 o.indent) owner
      rw [behindKey, itemLines, List.cons_append, List.append_assoc, List.cons_append,
        List.append_assoc]
      apply run?_line
      apply run?_item (.new hcolumn)
      apply run?_behindDash ho x hv.1
      apply resumes_itemLines ho xs hv.2 hcolumn
      rw [isEmpty_itemLines]
      simpa [node, nodeItems, Node.tokens, Node.tokensItems] using h
  | .obj ((k, v) :: fs), hv, owner, is, allowed, ts, r, p, tail, hp, h => by
      have hcolumn : parentOf (owner :: is) ≤ owner + o.step :=
        Nat.add_le_add_left (Nat.le_max_left 1 o.indent) owner
      rw [behindKey, fieldLines, List.cons_append, List.append_assoc, List.append_assoc,
        List.append_assoc]
      apply run?_line
      apply run?_field (.new hcolumn) hv.1
      intro allowed q hq
      apply run?_behindKey ho v hv.2.1 hq
      apply resumes_fieldLines ho fs hv.2.2 hcolumn
      rw [isEmpty_fieldLines]
      simpa [node, nodeFields, Node.tokens, Node.tokensEntries, keyTokens] using h
  | .str s, hv, owner, is, allowed, ts, r, p, tail, hp, h =>
      run?_space (run?_string (Nat.lt_succ_of_lt hp) ho s.toList h)
  | .null, hv, owner, is, allowed, ts, r, p, tail, hp, h => run?_keyWord hp rfl h
  | .bool b, hv, owner, is, allowed, ts, r, p, tail, hp, h => run?_keyWord hp rfl h
  | .int n, hv, owner, is, allowed, ts, r, p, tail, hp, h => run?_keyWord hp rfl h
  | .float x, hv, owner, is, allowed, ts, r, p, tail, hp, h => run?_keyWord hp rfl h
  | .arr [], hv, owner, is, allowed, ts, r, p, tail, hp, h => run?_keyWord hp rfl h
  | .obj [], hv, owner, is, allowed, ts, r, p, tail, hp, h => run?_keyWord hp rfl h

/-- What follows an item's dash is cut into the tokens of the item's tree. -/
theorem run?_behindDash {α : Type} {o : Layout} (ho : o.step < 10) :
    ∀ (v : Json), Legible v → ∀ {owner : Nat} {is : List Nat} {ts r : List Token}
      {tail : List Char},
      Resumes (owner :: is)
        (ts ++ (o.node owner (owner + o.entryStep) (!tail.isEmpty) v : Node α).tokens) tail r →
      (settled (owner :: is) true ts ⟨owner + 1, owner + 1⟩).run? (o.behindDash owner v ++ tail) =
        some r
  | .arr (x :: xs), hv, owner, is, ts, r, tail, h => by
      have hstep : 2 ≤ o.entryStep := Nat.le_max_left 2 o.step
      have hcolumn : parentOf (owner :: is) ≤ owner + o.entryStep := by
        simp only [parentOf]
        omega
      rw [behindDash, List.append_assoc, List.cons_append, List.append_assoc]
      apply run?_dashSpaces
      apply run?_item (.new hcolumn)
      apply run?_behindDash ho x hv.1
      apply resumes_itemLines ho xs hv.2 hcolumn
      rw [isEmpty_itemLines]
      simpa [node, nodeItems, Node.tokens, Node.tokensItems] using h
  | .obj ((k, v) :: fs), hv, owner, is, ts, r, tail, h => by
      have hstep : 2 ≤ o.entryStep := Nat.le_max_left 2 o.step
      have hcolumn : parentOf (owner :: is) ≤ owner + o.entryStep := by
        simp only [parentOf]
        omega
      rw [behindDash, List.append_assoc, List.append_assoc, List.append_assoc]
      apply run?_dashSpaces
      apply run?_field (.new hcolumn) hv.1
      intro allowed q hq
      apply run?_behindKey ho v hv.2.1 hq
      apply resumes_fieldLines ho fs hv.2.2 hcolumn
      rw [isEmpty_fieldLines]
      simpa [node, nodeFields, Node.tokens, Node.tokensEntries, keyTokens] using h
  | .str s, hv, owner, is, ts, r, tail, h => by
      have hstep : 2 ≤ o.entryStep := Nat.le_max_left 2 o.step
      have hcolumn : owner < owner + o.entryStep := by omega
      rw [behindDash_leaf o owner rfl, List.append_assoc]
      exact run?_dashSpaces (run?_string hcolumn ho s.toList h)
  | .null, hv, owner, is, ts, r, tail, h => run?_dashWord rfl h
  | .bool b, hv, owner, is, ts, r, tail, h => run?_dashWord rfl h
  | .int n, hv, owner, is, ts, r, tail, h => run?_dashWord rfl h
  | .float x, hv, owner, is, ts, r, tail, h => run?_dashWord rfl h
  | .arr [], hv, owner, is, ts, r, tail, h => run?_dashWord rfl h
  | .obj [], hv, owner, is, ts, r, tail, h => run?_dashWord rfl h

/-- Behind a scalar the further items of its sequence follow, and the end of
the sequence. -/
theorem resumes_itemLines {α : Type} {o : Layout} (ho : o.step < 10) :
    ∀ (xs : List Json), LegibleItems xs → ∀ {column : Nat} {is : List Nat} {ts r : List Token}
      {tail : List Char}, parentOf is ≤ column →
      Resumes is (ts ++ (Node.tokensItems (o.nodeItems column (!tail.isEmpty) xs : List (Node α)) ++
        [.blockEnd])) tail r →
      Resumes (column :: is) ts (o.itemLines column xs ++ tail) r
  | [], hxs, column, is, ts, r, tail, hc, h => h.close hc
  | x :: xs, hxs, column, is, ts, r, tail, hc, h => by
      refine ⟨⟨column, column⟩, '-' :: (o.behindDash column x ++ (o.itemLines column xs ++ tail)),
        ?_, ?_⟩
      · rw [itemLines, List.cons_append, List.append_assoc, List.cons_append, List.append_assoc]
        exact .next (Nat.lt_succ_self _) (by decide) _
      · apply run?_item (.same is column)
        apply run?_behindDash ho x hxs.1
        apply resumes_itemLines ho xs hxs.2 hc
        rw [isEmpty_itemLines]
        simpa [nodeItems, Node.tokensItems] using h

/-- Behind a scalar the further fields of its mapping follow, and the end of
the mapping. -/
theorem resumes_fieldLines {α : Type} {o : Layout} (ho : o.step < 10) :
    ∀ (fs : List (String × Json)), LegibleFields fs → ∀ {column : Nat} {is : List Nat}
      {ts r : List Token} {tail : List Char}, parentOf is ≤ column →
      Resumes is (ts ++ (Node.tokensEntries (o.nodeFields column (!tail.isEmpty) fs :
        List (Node α × Node α)) ++ [.blockEnd])) tail r →
      Resumes (column :: is) ts (o.fieldLines column fs ++ tail) r
  | [], hfs, column, is, ts, r, tail, hc, h => h.close hc
  | (k, v) :: fs, hfs, column, is, ts, r, tail, hc, h => by
      obtain ⟨c, cs, hkey, hopens⟩ := key_eq_cons column k
      refine ⟨⟨column, column⟩, Layout.key column k ++
        (o.behindKey column v ++ (o.fieldLines column fs ++ tail)), ?_, ?_⟩
      · rw [fieldLines, List.cons_append, List.append_assoc, List.append_assoc,
          List.append_assoc, hkey]
        exact .next (Nat.lt_succ_self _) hopens _
      · apply run?_field (.same is column) hfs.1
        intro allowed q hq
        apply run?_behindKey ho v hfs.2.1 hq
        apply resumes_fieldLines ho fs hfs.2.2 hc
        rw [isEmpty_fieldLines]
        simpa [nodeFields, Node.tokensEntries, Node.tokens, keyTokens] using h

end

/-- A written document, with a line feed behind it or without, is cut into the
tokens of its tree. -/
theorem scan?_body {α : Type} {o : Layout} (ho : o.step < 10) {v : Json} (hv : Legible v)
    {tail : List Char} (htail : tail = [] ∨ tail = ['\n']) :
    scan? (o.body v ++ tail) = some (root o (!tail.isEmpty) v : Node α).tokens := by
  have hend : ∀ ts, Resumes [] ts tail ts := by
    intro ts
    rcases htail with rfl | rfl
    · exact ⟨.lineStart, [], .stop _, by simp [run?_nil]⟩
    · exact ⟨.lineStart, [], .last, by simp [run?_nil]⟩
  have hinitial : initial = settled [] true [] ⟨0, 0⟩ := rfl
  have hparent : ∀ p : Position, parentOf [] ≤ p.column + 1 := fun p => Nat.zero_le _
  have hreq : ∀ p : Position, true = true → parentOf [] ≠ p.column + 1 := fun p _ => by
    simp [parentOf]
  have hword : isWord v = true → o.body v = o.scalar 0 v →
      (root o (!tail.isEmpty) v : Node α) = o.node 0 0 (!tail.isEmpty) v →
      scan? (o.body v ++ tail) = some (root o (!tail.isEmpty) v : Node α).tokens := by
    intro hw hbody hroot
    rw [scan?, hinitial, hbody, hroot]
    exact run?_word (hparent .lineStart) (hreq .lineStart) hw α (hend _)
  cases v with
  | null => exact hword rfl rfl rfl
  | bool b => exact hword rfl rfl rfl
  | int n => exact hword rfl rfl rfl
  | float x => exact hword rfl rfl rfl
  | str s =>
      rw [scan?, hinitial]
      exact run?_text (hparent .lineStart) (hreq .lineStart) (hend _)
  | arr xs =>
      cases xs with
      | nil => exact hword rfl rfl rfl
      | cons x xs =>
          rw [scan?, hinitial, body, List.cons_append, List.append_assoc]
          apply run?_item (.new (Nat.le_refl 0))
          apply run?_behindDash ho x hv.1
          apply resumes_itemLines ho xs hv.2 (Nat.le_refl 0)
          rw [isEmpty_itemLines]
          simpa [root, node, nodeItems, Node.tokens, Node.tokensItems] using hend _
  | obj fs =>
      cases fs with
      | nil => exact hword rfl rfl rfl
      | cons f fs =>
          obtain ⟨k, x⟩ := f
          rw [scan?, hinitial, body, List.append_assoc, List.append_assoc]
          apply run?_field (.new (Nat.le_refl 0)) hv.1
          intro allowed q hq
          apply run?_behindKey ho x hv.2.1 hq
          apply resumes_fieldLines ho fs hv.2.2 (Nat.le_refl 0)
          rw [isEmpty_fieldLines]
          simpa [root, node, nodeFields, Node.tokens, Node.tokensEntries, keyTokens] using hend _

end PromptDoc.Yaml.Token.Lexer
