import Mathlib.Data.List.Basic
import PromptDoc.Files.Collect

/-!
# The order of collected files

Paths are compared by their components, which are ordered in a line. So sorting
puts the spellings of one path next to one another, and what is left after
dropping repetitions is strictly increasing (`pairwise_collect`): no path is
collected twice.
-/

namespace PromptDoc

namespace Path

namespace Component

theorem lt_def (a b : Component) :
    a < b ↔ a.rank < b.rank ∨ a.rank = b.rank ∧ a.label < b.label :=
  Iff.rfl

theorem eq_of_rank_label {a b : Component} (hrank : a.rank = b.rank)
    (hlabel : a.label = b.label) : a = b := by
  cases a <;> cases b <;> simp_all [rank, label]

instance : Std.Asymm (α := Component) (· < ·) where
  asymm a b hab hba := by
    rw [lt_def] at hab hba
    obtain hab | ⟨hrank, hab⟩ := hab <;> obtain hba | ⟨hrank', hba⟩ := hba
    · omega
    · omega
    · omega
    · exact String.lt_irrefl _ (String.lt_trans hab hba)

instance : Std.Trichotomous (α := Component) (· < ·) where
  trichotomous a b hab hba := by
    simp only [lt_def, not_or, not_and] at hab hba
    have hrank : a.rank = b.rank := by omega
    exact eq_of_rank_label hrank
      (String.le_antisymm (String.not_lt.1 (hba.2 hrank.symm)) (String.not_lt.1 (hab.2 hrank)))

instance : Trans (α := Component) (· < ·) (· < ·) (· < ·) where
  trans := by
    intro a b c hab hbc
    rw [lt_def] at hab hbc ⊢
    obtain hab | ⟨hrank, hab⟩ := hab <;> obtain hbc | ⟨hrank', hbc⟩ := hbc
    · omega
    · omega
    · omega
    · exact .inr ⟨hrank.trans hrank', String.lt_trans hab hbc⟩

end Component

variable {p q : Path}

theorem precedes_iff : p.precedes q = true ↔ ¬q.components < p.components := by
  rw [precedes, decide_eq_true_iff, List.not_lt]

theorem sameAs_iff : p.sameAs q = true ↔ p.components = q.components := by
  rw [sameAs, beq_iff_eq]

/-- A path that does not come after another one comes before it or is the same. -/
theorem precedes_iff_lt_or_eq :
    p.precedes q = true ↔ p.components < q.components ∨ p.components = q.components := by
  rw [precedes_iff]
  constructor
  · intro h
    by_cases hlt : p.components < q.components
    · exact .inl hlt
    · exact .inr (List.le_antisymm (List.not_lt.1 h) (List.not_lt.1 hlt))
  · rintro (h | h)
    · exact List.lt_asymm h
    · rw [h]
      exact List.lt_irrefl _

theorem precedes_trans (p q r : Path) (hpq : p.precedes q = true) (hqr : q.precedes r = true) :
    p.precedes r = true := by
  rw [precedes_iff_lt_or_eq] at *
  obtain hpq | hpq := hpq <;> obtain hqr | hqr := hqr
  · exact .inl (List.lt_trans hpq hqr)
  · exact .inl (hqr ▸ hpq)
  · exact .inl (hpq ▸ hqr)
  · exact .inr (hpq.trans hqr)

theorem precedes_total (p q : Path) : (p.precedes q || q.precedes p) = true := by
  rw [Bool.or_eq_true, precedes, precedes, decide_eq_true_iff, decide_eq_true_iff]
  exact List.le_total _ _

end Path

namespace FileTree

/-- Dropping repetitions after `last` keeps paths of the list only. -/
theorem mem_of_mem_dropRepeatsOf {p last : Path} {ps : List Path}
    (h : p ∈ dropRepeatsOf last ps) : p ∈ ps := by
  induction ps generalizing last with
  | nil => simp [dropRepeatsOf] at h
  | cons q rest ih =>
    rw [dropRepeatsOf] at h
    split at h
    · exact List.mem_cons_of_mem q (ih h)
    · obtain rfl | h := List.mem_cons.1 h
      · exact List.mem_cons_self
      · exact List.mem_cons_of_mem q (ih h)

/-- In a sorted list, the spellings of one path stand side by side: each path that
is kept comes after the one kept before it. -/
theorem pairwise_dropRepeatsOf {last : Path} {ps : List Path}
    (h : (last :: ps).Pairwise fun p q => p.precedes q = true) :
    (last :: dropRepeatsOf last ps).Pairwise fun p q => p.components < q.components := by
  induction ps generalizing last with
  | nil => simp [dropRepeatsOf]
  | cons p rest ih =>
    obtain ⟨hlast, hrest⟩ := List.pairwise_cons.1 h
    rw [dropRepeatsOf]
    split
    case isTrue => exact ih (h.sublist (by simp))
    case isFalse hsame =>
      rw [Path.sameAs_iff] at hsame
      have hlt : last.components < p.components :=
        (Path.precedes_iff_lt_or_eq.1 (hlast p List.mem_cons_self)).resolve_right hsame
      refine List.pairwise_cons.2 ⟨fun q hq => ?_, ih hrest⟩
      obtain rfl | hq := List.mem_cons.1 hq
      · exact hlt
      · exact List.lt_trans hlt ((List.pairwise_cons.1 (ih hrest)).1 q hq)

/-- The collected files are strictly increasing by their components. -/
theorem pairwise_collect (t : FileTree) (sel : Selection) (targets : List Path) :
    (t.collect sel targets).Pairwise fun p q => p.components < q.components := by
  have hsorted : ((targets.flatMap (t.selectTarget sel)).mergeSort Path.precedes).Pairwise
      fun p q => p.precedes q = true :=
    List.pairwise_mergeSort Path.precedes_trans Path.precedes_total _
  rw [collect]
  generalize (targets.flatMap (t.selectTarget sel)).mergeSort Path.precedes = ps at hsorted ⊢
  cases ps with
  | nil => exact List.Pairwise.nil
  | cons p rest => exact pairwise_dropRepeatsOf hsorted

/-- Every path of a list has a spelling among those that are kept. -/
theorem exists_mem_dropRepeatsOf {p last : Path} {ps : List Path} (h : p ∈ last :: ps) :
    ∃ q ∈ last :: dropRepeatsOf last ps, q.components = p.components := by
  induction ps generalizing last with
  | nil => exact ⟨p, by simpa [dropRepeatsOf] using h, rfl⟩
  | cons next rest ih =>
    rw [dropRepeatsOf]
    obtain rfl | h := List.mem_cons.1 h
    · exact ⟨p, List.mem_cons_self, rfl⟩
    split
    case isTrue hsame =>
      rw [Path.sameAs_iff] at hsame
      obtain rfl | h := List.mem_cons.1 h
      · exact ⟨last, List.mem_cons_self, hsame⟩
      · exact ih (List.mem_cons_of_mem last h)
    case isFalse =>
      obtain ⟨q, hq, hcomponents⟩ := ih h
      exact ⟨q, List.mem_cons_of_mem last hq, hcomponents⟩

/-- Only what a target selects is collected. -/
theorem mem_of_mem_collect {t : FileTree} {sel : Selection} {targets : List Path} {p : Path}
    (h : p ∈ t.collect sel targets) : p ∈ targets.flatMap (t.selectTarget sel) := by
  rw [← (List.mergeSort_perm _ Path.precedes).mem_iff]
  rw [collect] at h
  cases hsorted : (targets.flatMap (t.selectTarget sel)).mergeSort Path.precedes with
  | nil => simp [hsorted, dropRepeats] at h
  | cons q rest =>
    rw [hsorted, dropRepeats] at h
    obtain rfl | h := List.mem_cons.1 h
    · exact List.mem_cons_self
    · exact List.mem_cons_of_mem q (mem_of_mem_dropRepeatsOf h)

/-- What a target selects is collected, in one of its spellings. -/
theorem exists_mem_collect {t : FileTree} {sel : Selection} {targets : List Path} {p : Path}
    (h : p ∈ targets.flatMap (t.selectTarget sel)) :
    ∃ q ∈ t.collect sel targets, q.components = p.components := by
  rw [← (List.mergeSort_perm _ Path.precedes).mem_iff] at h
  rw [collect]
  cases hsorted : (targets.flatMap (t.selectTarget sel)).mergeSort Path.precedes with
  | nil =>
    rw [hsorted] at h
    cases h
  | cons q rest =>
    rw [hsorted] at h
    exact exists_mem_dropRepeatsOf h

end FileTree

end PromptDoc
