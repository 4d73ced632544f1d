import PromptDoc.Proofs.Canonical
import PromptDoc.Proofs.Yaml.RoundTrip

/-!
# Documents without their last line feed

A block of front matter is the written document without the line feed at its
end. Reading it gives the document back unless the text ends in a literal block
whose string ends with a line feed (`losesLineFeed`): of the line feeds at the
end of that string the last one is gone. What is read instead is as canonical as
the document and within the same limits.
-/

namespace PromptDoc.Yaml

open Layout

/-! ## The last string -/

mutual

/-- Whether the text of a value below an owner ends in a literal block whose
string ends with a line feed. -/
def endsWithLineFeed : Json → Bool
  | .str s => Literal.fits s.toList && s.toList.getLast? == some '\n'
  | .arr items => endsWithLineFeedItems items
  | .obj fields => endsWithLineFeedFields fields
  | _ => false

/-- Whether the text of the last item does. -/
def endsWithLineFeedItems : List Json → Bool
  | [] => false
  | x :: xs => if xs.isEmpty then endsWithLineFeed x else endsWithLineFeedItems xs

/-- Whether the text of the last field does. -/
def endsWithLineFeedFields : List (String × Json) → Bool
  | [] => false
  | (_, x) :: fs => if fs.isEmpty then endsWithLineFeed x else endsWithLineFeedFields fs

end

/-- Whether a document loses a line feed when the one at the end of its text is
cut off; a string at its root is on one line. -/
def losesLineFeed : Json → Bool
  | .str _ => false
  | v => endsWithLineFeed v

theorem readString_false_eq_iff (s : List Char) :
    readString false s = s ↔ (Literal.fits s && s.getLast? == some '\n') = false := by
  cases hfits : Literal.fits s with
  | false => simp [readString, hfits]
  | true =>
      rw [Bool.true_and, beq_eq_false_iff_ne]
      rcases Literal.chomp_spec s with ⟨heq, hlast⟩ | ⟨body, hs, hbody⟩
      · have hread : readString false s = s := by
          unfold readString Literal.readText
          split
          · rw [heq]
            rfl
          · rfl
        exact iff_of_true hread hlast
      · have hchomp : (Literal.chomp s).2 = body := by
          rcases hbody with ⟨heq, -⟩ | ⟨heq, -⟩ <;> rw [heq]
        have hcontains : s.contains '\n' = true := by
          rw [hs]
          simp
        have hread : readString false s = body := by
          rw [readString, hcontains, hfits, Literal.readText, hchomp]
          rfl
        refine iff_of_false ?_ fun hne => hne (by rw [hs]; exact List.getLast?_concat)
        rw [hread]
        intro hsame
        have hlength := congrArg List.length (hsame.trans hs)
        simp at hlength

mutual

theorem reread_false_eq_iff : ∀ v, reread false v = v ↔ endsWithLineFeed v = false
  | .null | .bool _ | .int _ | .float _ => iff_of_true rfl rfl
  | .str s => by
      rw [endsWithLineFeed, ← readString_false_eq_iff, reread, Json.str.injEq,
        ← String.toList_inj, String.toList_ofList]
  | .arr xs => by
      rw [reread, Json.arr.injEq, rereadItems_false_eq_iff xs, endsWithLineFeed]
  | .obj fs => by
      rw [reread, Json.obj.injEq, rereadFields_false_eq_iff fs, endsWithLineFeed]

theorem rereadItems_false_eq_iff :
    ∀ xs, rereadItems false xs = xs ↔ endsWithLineFeedItems xs = false
  | [] => iff_of_true rfl rfl
  | x :: xs => by
      have hx := reread_false_eq_iff x
      have hxs := rereadItems_false_eq_iff xs
      cases xs with
      | nil => simpa [rereadItems, endsWithLineFeedItems] using hx
      | cons y ys =>
          rw [rereadItems, endsWithLineFeedItems, List.cons.injEq, hxs]
          simp [reread_true]

theorem rereadFields_false_eq_iff :
    ∀ fs, rereadFields false fs = fs ↔ endsWithLineFeedFields fs = false
  | [] => iff_of_true rfl rfl
  | (k, x) :: fs => by
      have hx := reread_false_eq_iff x
      have hfs := rereadFields_false_eq_iff fs
      cases fs with
      | nil => simpa [rereadFields, endsWithLineFeedFields] using hx
      | cons g gs =>
          rw [rereadFields, endsWithLineFeedFields, List.cons.injEq, hfs]
          simp [reread_true]

end

/-- A document is read back from its text without the last line feed exactly
when it loses none. -/
theorem rereadRoot_false_eq_iff (v : Json) :
    rereadRoot false v = v ↔ losesLineFeed v = false := by
  cases v with
  | str s => exact iff_of_true rfl rfl
  | _ => exact reread_false_eq_iff _

/-! ## What is read instead -/

variable {ended : Bool}

theorem isSorted_rereadFields {order : List String} {fs : List (String × Json)}
    (h : Fields.IsSorted order fs) : Fields.IsSorted order (rereadFields ended fs) := by
  rwa [Fields.IsSorted, Fields.keys, keys_rereadFields]

theorem isCanonicalInput_reread {v : Json} (h : v.IsCanonicalInput) :
    (reread ended v).IsCanonicalInput := by
  cases v with
  | obj fs => exact isSorted_rereadFields h
  | _ => trivial

theorem isCanonicalInputs_reread {v : Json} (h : v.IsCanonicalInputs) :
    (reread ended v).IsCanonicalInputs := by
  cases v with
  | arr xs =>
      intro y hy
      obtain ⟨ended', x, hx, rfl⟩ := mem_rereadItems hy
      exact isCanonicalInput_reread (h x hx)
  | _ => trivial

/-- Reading keeps a document canonical. -/
theorem isCanonical_rereadRoot {v : Json} (h : v.IsCanonical) :
    (rereadRoot ended v).IsCanonical := by
  cases v with
  | obj fs =>
      refine ⟨isSorted_rereadFields h.1, fun f hf hkey => ?_⟩
      obtain ⟨ended', g, hg, rfl⟩ := mem_rereadFields hf
      exact isCanonicalInputs_reread (h.2 g hg hkey)
  | _ => trivial

end PromptDoc.Yaml
