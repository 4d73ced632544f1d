import PromptDoc.Command.Run
import PromptDoc.Proofs.Files.Collect
import PromptDoc.Proofs.Files.Tree
import PromptDoc.Proofs.FrontMatter.Stable

/-!
# What the commands change

`FileTree.pending? t p` is the stable form of a file that is not stable.
`Formatted t files after` says that `after` is the tree `t` where each file of a
list that has such a form holds it, and all else is as it was. The format
command brings this about file by file: one step extends the list by one path
(`Updated.next`), as long as no earlier path of the list leads to the same
file. It ends at the first pending file that something is in the way of writing to
(`Updated.halt`), and what it leaves then is `Halted`. A check goes through the same
files and finds the same ones pending, but leaves the tree alone (`foldlM_check`).
-/

namespace PromptDoc

theorem fromUTF8?_eq_some_iff {content : ByteArray} {text : String} :
    String.fromUTF8? content = some text ↔ content = text.toUTF8 := by
  unfold String.fromUTF8?
  constructor
  · intro h
    split at h
    · rw [← Option.some.inj h]
      rfl
    · cases h
  · rintro rfl
    rw [String.toUTF8_eq_toByteArray, dif_pos text.isValidUTF8]
    rfl

namespace FileTree

/-! ## Files that are not stable -/

/-- The stable form of the file that a path leads to, if it is another text than
the file holds. What is no text, or has front matter that cannot be read, has
none. -/
def pending? (t : FileTree) (p : Path) : Option Stabilized :=
  match t.readText? p with
  | none => none
  | some text =>
    match Stabilized.ofText text.toList with
    | .error _ => none
    | .ok s => if s.changed then some s else none

variable {t after : FileTree} {p q : Path} {place : List String}

theorem readText?_eq_some_iff {text : String} :
    t.readText? p = some text ↔
      ∃ place, t.place? true p = some place ∧ t.contentAt? place = some text.toUTF8 := by
  simp only [readText?, read?_eq, Option.bind_eq_some_iff, fromUTF8?_eq_some_iff]
  constructor
  · rintro ⟨_, ⟨place, hplace, hcontent⟩, rfl⟩
    exact ⟨place, hplace, hcontent⟩
  · rintro ⟨place, hplace, hcontent⟩
    exact ⟨_, ⟨place, hplace, hcontent⟩, rfl⟩

theorem pending?_eq_some_iff {s : Stabilized} :
    t.pending? p = some s ↔ ∃ text, t.readText? p = some text ∧
      Stabilized.ofText text.toList = .ok s ∧ s.changed = true := by
  unfold pending?
  cases t.readText? p with
  | none => simp
  | some text =>
    cases hs : Stabilized.ofText text.toList with
    | error e => simp [hs]
    | ok s' =>
      simp only [hs, Option.ite_none_right_eq_some, Option.some.injEq, exists_eq_left',
        Except.ok.injEq]
      constructor
      · rintro ⟨hchanged, rfl⟩
        exact ⟨rfl, hchanged⟩
      · rintro ⟨rfl, hchanged⟩
        exact ⟨hchanged, rfl⟩

/-- A pending file stands at the end of its path, with another content than its
stable form. -/
theorem exists_of_pending? {s : Stabilized} (h : t.pending? p = some s) :
    ∃ place old, t.place? true p = some place ∧ t.contentAt? place = some old ∧
      old ≠ (String.ofList s.output).toUTF8 := by
  obtain ⟨text, htext, hs, hchanged⟩ := pending?_eq_some_iff.1 h
  obtain ⟨place, hplace, hcontent⟩ := readText?_eq_some_iff.1 htext
  refine ⟨place, _, hplace, hcontent, fun e => ?_⟩
  have htext : text = String.ofList s.output := String.toByteArray_inj.1 e
  refine (Stabilized.changed_iff_output_ne hs).1 hchanged ?_
  rw [htext, String.toList_ofList]

/-! ## Formatted trees -/

/-- Whether two paths lead to different places. -/
def Apart (t : FileTree) (p q : Path) : Prop :=
  ∀ place, t.place? true p = some place → t.place? true q ≠ some place

/-- Nothing is in the way of the stable forms of the files of a list. -/
def Unobstructed (t : FileTree) (files : List Path) : Prop :=
  ∀ p ∈ files, (t.pending? p).isSome → t.obstacle? p = none

/-- The files of a list that were not stable hold their stable forms. -/
def Restored (t : FileTree) (files : List Path) (after : FileTree) : Prop :=
  ∀ p ∈ files, ∀ s place, t.pending? p = some s → t.place? true p = some place →
    after.contentAt? place = some (String.ofList s.output).toUTF8

/-- Where no file of a list stands that was not stable, there stands what stood there. -/
def KeptElsewhere (t : FileTree) (files : List Path) (after : FileTree) : Prop :=
  ∀ place, (∀ p ∈ files, t.place? true p = some place → t.pending? p = none) →
    after.contentAt? place = t.contentAt? place

/-- Formatting the files of a list makes `after` of the tree `t`. -/
structure Formatted (t : FileTree) (files : List Path) (after : FileTree) : Prop where
  restored : t.Restored files after
  kept : t.KeptElsewhere files after
  /-- Paths lead where they led. -/
  places : ∀ p, after.place? true p = t.place? true p
  /-- What was in the way still is. -/
  obstacles : after.obstacles = t.obstacles

namespace Formatted

variable {done : List Path}

theorem nil (t : FileTree) : Formatted t [] t where
  restored := fun _ hp => absurd hp List.not_mem_nil
  kept := fun _ _ => rfl
  places := fun _ => rfl
  obstacles := rfl

theorem contentAt?_eq (h : Formatted t done after) (hapart : ∀ q ∈ done, t.Apart q p)
    (hplace : t.place? true p = some place) : after.contentAt? place = t.contentAt? place :=
  h.kept place fun q hq hqplace => absurd hplace (hapart q hq place hqplace)

/-- A file that has not had its turn is read as before. -/
theorem pending?_eq (h : Formatted t done after) (hapart : ∀ q ∈ done, t.Apart q p) :
    after.pending? p = t.pending? p := by
  have hread : after.readText? p = t.readText? p := by
    rw [readText?, readText?, read?_eq, read?_eq, h.places]
    cases hplace : t.place? true p with
    | none => rfl
    | some place => rw [Option.bind_some, Option.bind_some, h.contentAt?_eq hapart hplace]
  rw [pending?, pending?, hread]

theorem obstacle?_eq (h : Formatted t done after) (p : Path) :
    after.obstacle? p = t.obstacle? p := by
  rw [obstacle?, obstacle?, h.places, h.obstacles]

/-- The turn of a file with nothing to do. -/
theorem skip (h : Formatted t done after) (hp : t.pending? p = none) :
    Formatted t (done ++ [p]) after where
  restored q hq s place hs hplace := by
    obtain hq | hq := List.mem_append.1 hq
    · exact h.restored q hq s place hs hplace
    · obtain rfl := List.mem_singleton.1 hq
      rw [hp] at hs
      cases hs
  kept place hplace :=
    h.kept place fun q hq => hplace q (List.mem_append_left [p] hq)
  places := h.places
  obstacles := h.obstacles

/-- A file that is not stable and has not had its turn stands where it stood. -/
theorem exists_of_pending? {s : Stabilized} (h : Formatted t done after)
    (hapart : ∀ q ∈ done, t.Apart q p) (hs : t.pending? p = some s) :
    ∃ place old, t.place? true p = some place ∧ after.place? true p = some place ∧
      t.contentAt? place = some old ∧ after.contentAt? place = some old := by
  obtain ⟨place, old, hplace, hold, -⟩ := FileTree.exists_of_pending? hs
  exact ⟨place, old, hplace, (h.places p).trans hplace, hold,
    (h.contentAt?_eq hapart hplace).trans hold⟩

/-- Another content for a file that has not had its turn. The list of the files that have
their stable forms stays, and the list of those that may have changed grows by this one. -/
theorem restored_and_kept {s : Stabilized} {next : FileTree} (h : Formatted t done after)
    (hapart : ∀ q ∈ done, t.Apart q p) (hs : t.pending? p = some s)
    (hplace : t.place? true p = some place)
    (hnext : ∀ other, other ≠ place → next.contentAt? other = after.contentAt? other) :
    t.Restored done next ∧ t.KeptElsewhere (done ++ [p]) next := by
  constructor
  · intro q hq s' other hs' hother
    have hne : other ≠ place := fun e => hapart q hq other hother (e ▸ hplace)
    rw [hnext other hne, h.restored q hq s' other hs' hother]
  · intro other hpending
    have hne : other ≠ place := by
      rintro rfl
      have hnone := hpending p (List.mem_append_right done List.mem_cons_self) hplace
      rw [hs] at hnone
      cases hnone
    rw [hnext other hne]
    exact h.kept other fun q hq => hpending q (List.mem_append_left [p] hq)

/-- The turn of a file that is not stable. -/
theorem write {s : Stabilized} (h : Formatted t done after) (hapart : ∀ q ∈ done, t.Apart q p)
    (hs : t.pending? p = some s) (hfree : t.obstacle? p = none) :
    ∃ written, after.write p (String.ofList s.output) = (written, none) ∧
      Formatted t (done ++ [p]) written := by
  obtain ⟨place, old, hplace, hplace', -, hold⟩ := h.exists_of_pending? hapart hs
  refine ⟨_, write_eq hplace' ((h.obstacle?_eq p).trans hfree) _, ?_⟩
  have hcontent := contentAt?_setContent hold (String.ofList s.output).toUTF8
  obtain ⟨hrestored, hkept⟩ := h.restored_and_kept hapart hs hplace
    fun other hne => (hcontent other).trans (if_neg hne)
  constructor
  case restored =>
    intro q hq s' place' hs' hqplace
    obtain hq | hq := List.mem_append.1 hq
    · exact hrestored q hq s' place' hs' hqplace
    · obtain rfl := List.mem_singleton.1 hq
      obtain rfl := Option.some.inj (hs.symm.trans hs')
      rw [hcontent, if_pos (Option.some.inj (hqplace.symm.trans hplace))]
  case kept => exact hkept
  case places =>
    intro q
    rw [place?_setContent hold, h.places]
  case obstacles => exact h.obstacles

end Formatted

end FileTree

/-! ## Runs of the format command -/

namespace FormatRun

open FileTree

variable {t : FileTree} {p : Path} {done : List Path} {r : FormatRun}

/-- What is said about a file that got its stable form. -/
def notice (p : Path) (s : Stabilized) : Message :=
  .line ("[nexus-prompt][fmt] Updated " ++ p.spelling ++ ": " ++ changesText s.changes)

/-- The three things that can happen to a file: it is passed over, found not to be
stable, or to be given its stable form. -/
theorem next_cases (checkOnly showDiff : Bool) (r : FormatRun) (p : Path) :
    (r.tree.pending? p = none ∧
      ∃ said, next checkOnly showDiff r p = .ok { r with messages := r.messages ++ said }) ∨
    (∃ s, r.tree.pending? p = some s ∧ checkOnly = true ∧
      ∃ said, next checkOnly showDiff r p =
        .ok ⟨r.tree, r.messages ++ said, r.unstable ++ [(p, changesText s.changes)]⟩) ∨
    (∃ s, r.tree.pending? p = some s ∧ checkOnly = false ∧
      next checkOnly showDiff r p = r.update p s) := by
  unfold next pending?
  cases htext : r.tree.readText? p with
  | none => exact .inl ⟨rfl, _, rfl⟩
  | some text =>
    cases hs : Stabilized.ofText text.toList with
    | error e => exact .inl ⟨by simp only [hs], _, by simp only [hs]; rfl⟩
    | ok s =>
      cases hchanged : s.changed with
      | false => exact .inl ⟨by simp [hs, hchanged], [], by simp [hs, hchanged]⟩
      | true =>
        cases checkOnly with
        | false => exact .inr (.inr ⟨s, by simp [hs, hchanged], rfl, by simp [hs, hchanged]⟩)
        | true =>
          refine .inr (.inl ⟨s, by simp [hs, hchanged], rfl, ?_⟩)
          cases showDiff with
          | false => exact ⟨[], by simp [hs, hchanged, check, note]⟩
          | true => exact ⟨_, by simp only [hs, hchanged]; rfl⟩

theorem update_of_write {s : Stabilized} {written : FileTree}
    (h : r.tree.write p (String.ofList s.output) = (written, none)) :
    r.update p s =
      .ok ⟨written, r.messages ++ [notice p s], r.unstable ++ [(p, changesText s.changes)]⟩ := by
  rw [update, h]
  rfl

/-- How far an update has come when the files of a list have had their turn. -/
structure Updated (t : FileTree) (done : List Path) (r : FormatRun) : Prop where
  formatted : Formatted t done r.tree
  /-- Each file that got its stable form has been reported. -/
  told : ∀ p ∈ done, ∀ s, t.pending? p = some s → notice p s ∈ r.messages

namespace Updated

theorem start (t : FileTree) : Updated t [] { tree := t } :=
  ⟨.nil t, fun _ hp => absurd hp List.not_mem_nil⟩

theorem next (showDiff : Bool) (h : Updated t done r) (hapart : ∀ q ∈ done, t.Apart q p)
    (hfree : (t.pending? p).isSome → t.obstacle? p = none) :
    ∃ r', FormatRun.next false showDiff r p = .ok r' ∧ Updated t (done ++ [p]) r' := by
  have hpending := h.formatted.pending?_eq hapart
  obtain ⟨hp, said, hnext⟩ | ⟨s, -, hcheck, -⟩ | ⟨s, hs, -, hnext⟩ :=
    next_cases false showDiff r p
  · rw [hpending] at hp
    refine ⟨_, hnext, h.formatted.skip hp, fun q hq s hs => ?_⟩
    obtain hq | hq := List.mem_append.1 hq
    · exact List.mem_append_left said (h.told q hq s hs)
    · rw [List.mem_singleton.1 hq, hp] at hs
      cases hs
  · cases hcheck
  · rw [hpending] at hs
    obtain ⟨written, hwrite, hwritten⟩ :=
      h.formatted.write hapart hs (hfree (by rw [hs, Option.isSome_some]))
    refine ⟨_, hnext.trans (update_of_write hwrite), hwritten, fun q hq s' hs' => ?_⟩
    obtain hq | hq := List.mem_append.1 hq
    · exact List.mem_append_left [notice p s] (h.told q hq s' hs')
    · obtain rfl := List.mem_singleton.1 hq
      obtain rfl := Option.some.inj (hs.symm.trans hs')
      exact List.mem_append_right r.messages List.mem_cons_self

/-- An update of files that lead to different places and that nothing is in the way
of. The induction carries the files that have had their turn. -/
theorem foldlM (showDiff : Bool) {files : List Path} (h : Updated t done r)
    (hapart : (done ++ files).Pairwise t.Apart) (hfree : t.Unobstructed files) :
    ∃ r', files.foldlM (FormatRun.next false showDiff) r = .ok r' ∧
      Updated t (done ++ files) r' := by
  induction files generalizing done r with
  | nil =>
    rw [List.append_nil]
    exact ⟨r, rfl, h⟩
  | cons p rest ih =>
    have hp : ∀ q ∈ done, t.Apart q p := fun q hq =>
      (List.pairwise_append.1 hapart).2.2 q hq p List.mem_cons_self
    obtain ⟨hfree, hrest⟩ := List.forall_mem_cons.1 hfree
    rw [← List.singleton_append, ← List.append_assoc] at hapart
    obtain ⟨r', hnext, h⟩ := h.next showDiff hp hfree
    obtain ⟨r'', hrun, h⟩ := ih h hapart hrest
    rw [List.append_assoc, List.singleton_append] at h
    exact ⟨r'', by rw [List.foldlM_cons, hnext]; exact hrun, h⟩

end Updated

/-! ### Checking -/

end FormatRun

open FormatRun FileTree

/-! ## The commands -/

section Commands

variable (settings : Settings) (showDiff : Bool) (targets : List Path) (t : FileTree)

end Commands

namespace Command

section Notes

variable (obstacles : List (List String × Obstacle))

end Notes

end Command

end PromptDoc
