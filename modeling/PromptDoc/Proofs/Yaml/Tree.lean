import PromptDoc.Proofs.Yaml.Body
import PromptDoc.Proofs.Yaml.Lexing
import PromptDoc.Proofs.Yaml.Portable
import PromptDoc.Yaml.Node

/-!
# The tree of a written value

`Layout.node` is the tree that written text describes: one scalar for each leaf,
plain or not, and one collection for each array and object. It is the link
between the two halves of the reader, the tokens (`Node.tokens`) on one side and
the value on the other. `Layout.reread` is that value. Both ask whether a line
feed stands behind the text, because a literal block at its very end notices.
-/

namespace PromptDoc.Yaml

/-! ## Values that are read back -/

namespace Layout

/-- The string that a written string is read as below an owner; `ended` says
whether a line feed stands behind it. -/
def readString (ended : Bool) (s : List Char) : List Char :=
  if s.contains '\n' && Literal.fits s then Literal.readText ended s else s

/-- Whether a string is written as a plain scalar below an owner. -/
def writesPlain (o : Layout) (column : Nat) (s : List Char) : Bool :=
  if s.contains '\n' && Literal.fits s then false
  else if o.width < column + s.length && Folded.fits s then false
  else Token.Lexer.staysPlain s

mutual

/-- The value that a written value is read as below an owner. -/
def reread (ended : Bool) : Json → Json
  | .str s => .str (String.ofList (readString ended s.toList))
  | .arr items => .arr (rereadItems ended items)
  | .obj fields => .obj (rereadFields ended fields)
  | v => v

/-- The items as they are read; all but the last one have a line feed behind
them. -/
def rereadItems (ended : Bool) : List Json → List Json
  | [] => []
  | x :: xs => reread (ended || !xs.isEmpty) x :: rereadItems ended xs

/-- The fields as they are read. -/
def rereadFields (ended : Bool) : List (String × Json) → List (String × Json)
  | [] => []
  | (k, x) :: fs => (k, reread (ended || !fs.isEmpty) x) :: rereadFields ended fs

end

/-- The value that a document is read as: a string at its root is on one line
and loses nothing. -/
def rereadRoot (ended : Bool) : Json → Json
  | .str s => .str s
  | v => reread ended v

mutual

/-- With a line feed behind it every value is read back. -/
theorem reread_true : ∀ v, reread true v = v
  | .null | .bool _ | .int _ | .float _ => by rw [reread] <;> simp
  | .str s => by
      have h : readString true s.toList = s.toList := by
        unfold readString
        split <;> rfl
      rw [reread, h, String.ofList_toList]
  | .arr xs => by rw [reread, rereadItems_true xs]
  | .obj fs => by rw [reread, rereadFields_true fs]

theorem rereadItems_true : ∀ xs, rereadItems true xs = xs
  | [] => rfl
  | x :: xs => by rw [rereadItems, Bool.true_or, reread_true x, rereadItems_true xs]

theorem rereadFields_true : ∀ fs, rereadFields true fs = fs
  | [] => rfl
  | (k, x) :: fs => by rw [rereadFields, Bool.true_or, reread_true x, rereadFields_true fs]

end

theorem rereadRoot_true (v : Json) : rereadRoot true v = v := by
  cases v with
  | str s => rfl
  | _ => exact reread_true _

theorem keys_rereadFields (ended : Bool) (fs : List (String × Json)) :
    (rereadFields ended fs).map Prod.fst = fs.map Prod.fst := by
  induction fs with
  | nil => rfl
  | cons f fs ih =>
      obtain ⟨k, x⟩ := f
      rw [rereadFields, List.map_cons, ih]
      rfl

variable {ended : Bool}

theorem mem_rereadItems {xs : List Json} {y : Json} (h : y ∈ rereadItems ended xs) :
    ∃ ended', ∃ x ∈ xs, y = reread ended' x := by
  induction xs with
  | nil => cases h
  | cons x xs ih =>
      rw [rereadItems] at h
      rcases List.mem_cons.1 h with rfl | h
      · exact ⟨_, x, by simp, rfl⟩
      · obtain ⟨ended', z, hz, rfl⟩ := ih h
        exact ⟨ended', z, by simp [hz], rfl⟩

theorem mem_rereadFields {fs : List (String × Json)} {f : String × Json}
    (h : f ∈ rereadFields ended fs) : ∃ ended', ∃ g ∈ fs, f = (g.1, reread ended' g.2) := by
  induction fs with
  | nil => cases h
  | cons g fs ih =>
      rw [rereadFields] at h
      rcases List.mem_cons.1 h with rfl | h
      · exact ⟨_, g, by simp, rfl⟩
      · obtain ⟨ended', g', hg', rfl⟩ := ih h
        exact ⟨ended', g', by simp [hg'], rfl⟩

theorem mem_of_mem_readString {s : List Char} {c : Char} (h : c ∈ readString ended s) :
    c ∈ s := by
  unfold readString Literal.readText at h
  split at h
  · split at h
    · exact h
    · exact Literal.mem_of_mem_chomp h
  · exact h

theorem portable_readString {n : Nat} {s : String} (h : Portable n (.str s)) :
    Portable n (.str (String.ofList (readString ended s.toList))) := by
  obtain ⟨hfffe, hffff⟩ := portable_str.1 h
  refine portable_str.2 ⟨fun hmem => hfffe ?_, fun hmem => hffff ?_⟩
  all_goals
    rw [String.toList_ofList] at hmem
    exact mem_of_mem_readString hmem

/-- Reading keeps a value portable, by induction on the bound for its nesting. -/
theorem portable_reread {n : Nat} {v : Json} (h : Portable n v) :
    Portable n (reread ended v) := by
  induction n generalizing v ended with
  | zero =>
      cases v with
      | str s => exact portable_readString h
      | arr xs =>
          obtain ⟨m, hm⟩ := h.exists_of_arr
          cases hm
      | obj fs =>
          obtain ⟨m, hm⟩ := h.exists_of_obj
          cases hm
      | _ => exact h
  | succ n ih =>
      cases v with
      | str s => exact portable_readString h
      | arr xs =>
          refine portable_arr.2 fun y hy => ?_
          obtain ⟨ended', x, hx, rfl⟩ := mem_rereadItems hy
          exact ih (portable_arr.1 h x hx)
      | obj fs =>
          obtain ⟨hkeys, hfields⟩ := portable_obj.1 h
          refine portable_obj.2 ⟨by rwa [keys_rereadFields], fun f hf => ?_⟩
          obtain ⟨ended', g, hg, rfl⟩ := mem_rereadFields hf
          exact ⟨(hfields g hg).1, ih (hfields g hg).2⟩
      | _ => exact h

theorem portable_rereadRoot {n : Nat} {v : Json} (h : Portable n v) :
    Portable n (rereadRoot ended v) := by
  cases v with
  | str s => exact h
  | _ => exact portable_reread h

/-! ## Trees -/

mutual

/-- The tree of a value below an owner; a collection has its entries at column
`inner`. -/
def node {α : Type} (o : Layout) (owner inner : Nat) (ended : Bool) : Json → Node α
  | .str s => .scalar .none (o.writesPlain owner s.toList) (readString ended s.toList)
  | .arr items => .sequence .none (nodeItems o inner ended items)
  | .obj fields => .mapping .none (nodeFields o inner ended fields)
  | v => .scalar .none true (o.scalar owner v)

/-- The trees of items at a column. -/
def nodeItems {α : Type} (o : Layout) (column : Nat) (ended : Bool) : List Json → List (Node α)
  | [] => []
  | x :: xs =>
    node o column (column + o.entryStep) (ended || !xs.isEmpty) x :: nodeItems o column ended xs

/-- The trees of fields at a column. -/
def nodeFields {α : Type} (o : Layout) (column : Nat) (ended : Bool) :
    List (String × Json) → List (Node α × Node α)
  | [] => []
  | (k, x) :: fs =>
    (.scalar .none (Token.Lexer.staysPlain k.toList) k.toList,
      node o column (column + o.step) (ended || !fs.isEmpty) x) :: nodeFields o column ended fs

end

/-- The tree of a document: a string at its root is on one line. -/
def root {α : Type} (o : Layout) (ended : Bool) : Json → Node α
  | .str s => .scalar .none (Token.Lexer.staysPlain s.toList) s.toList
  | v => o.node 0 0 ended v

end Layout

namespace Node

mutual

/-- The tokens of a tree in block style; collections without entries are
written between brackets. -/
def tokens {α : Type} : Node α → List Token
  | .alias _ => []
  | .scalar _ plain text => [.scalar plain text]
  | .sequence _ [] => [.flowSequenceStart, .flowSequenceEnd]
  | .sequence _ (n :: ns) => .blockSequenceStart :: (tokensItems (n :: ns) ++ [.blockEnd])
  | .mapping _ [] => [.flowMappingStart, .flowMappingEnd]
  | .mapping _ (e :: es) => .blockMappingStart :: (tokensEntries (e :: es) ++ [.blockEnd])

/-- The tokens of items, each behind its dash. -/
def tokensItems {α : Type} : List (Node α) → List Token
  | [] => []
  | n :: ns => .blockEntry :: (tokens n ++ tokensItems ns)

/-- The tokens of entries. -/
def tokensEntries {α : Type} : List (Node α × Node α) → List Token
  | [] => []
  | (k, v) :: es => .key :: (tokens k ++ .value :: (tokens v ++ tokensEntries es))

end

end Node

end PromptDoc.Yaml
