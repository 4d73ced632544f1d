import Mathlib.Data.List.Basic
import PromptDoc.Files.Path

/-!
# Paths of entries

The path of an entry in a folder has the components of the folder's path and the name of
the entry behind them (`Path.components_join`), however the folder is spelled. To follow
it in a tree one goes to the folder and then to the name; a slash at the end of the
folder's spelling asks for nothing more (`Path.exists_steps_join`).
-/

namespace PromptDoc.Path

open Text

/-- Names that the entries of a folder can have. -/
def IsName (s : String) : Prop :=
  s ≠ "" ∧ s ≠ "." ∧ s ≠ ".." ∧ '/' ∉ s.toList

instance (s : String) : Decidable (IsName s) :=
  inferInstanceAs (Decidable (_ ∧ _))

theorem IsName.ofPiece? {s : String} (h : IsName s) :
    Component.ofPiece? s.toList = some (.name s) := by
  obtain ⟨hempty, hdot, hdots, -⟩ := h
  unfold Component.ofPiece?
  split
  · next heq => exact absurd (String.toList_inj.1 heq) hempty
  · next heq => exact absurd (String.toList_inj.1 heq) hdot
  · next heq => exact absurd (String.toList_inj.1 heq) hdots
  · rw [String.ofList_toList]

/-- The last piece does not decide whether a path starts at the root. -/
theorem rootStep_append {parts : List (List Char)} (hne : parts ≠ []) (last other : List Char) :
    rootStep (parts ++ [last]) = rootStep (parts ++ [other]) := by
  match parts with
  | [] => exact absurd rfl hne
  | [[]] => rfl
  | [_ :: _] => rfl
  | [] :: _ :: _ => rfl
  | (_ :: _) :: _ :: _ => rfl

theorem rootStep_append_of_ne {parts : List (List Char)} (hne : parts ≠ []) (h : parts ≠ [[]])
    (last : List Char) : rootStep (parts ++ [last]) = rootStep parts := by
  match parts with
  | [] => exact absurd rfl hne
  | [[]] => exact absurd rfl h
  | [_ :: _] => rfl
  | [] :: _ :: _ => rfl
  | (_ :: _) :: _ :: _ => rfl

theorem components_eq (p : Path) :
    p.components =
      (if (pieces '/' p.spelling.toList).head? = some ['.'] then [.here]
        else rootStep (pieces '/' p.spelling.toList)) ++
      ((pieces '/' p.spelling.toList).filterMap Component.ofPiece?).filter (· ≠ .here) := by
  unfold components
  simp only
  split
  · next heq => rw [heq]; rfl
  · next hno =>
    rw [if_neg]
    intro hhead
    obtain ⟨others, hparts⟩ := List.head?_eq_some_iff.1 hhead
    exact hno others hparts

variable {p : Path} {name : String}

theorem spelling_join_ne_empty (p : Path) (hname : name ≠ "") : (p.join name).spelling ≠ "" := by
  unfold join
  split
  · exact hname
  · split <;> simp [hname]

/-- The pieces between the slashes in the path of an entry. The spelling of the folder may
end with a slash, and then with an empty piece. -/
theorem exists_pieces_join (hp : p.spelling ≠ "") (hname : '/' ∉ name.toList) :
    ∃ parts, parts ≠ [] ∧
      pieces '/' (p.join name).spelling.toList = parts ++ [name.toList] ∧
      (pieces '/' p.spelling.toList = parts ++ [[]] ∨
        pieces '/' p.spelling.toList = parts ∧ parts.getLast? ≠ some []) := by
  have hne : p.spelling.toList ≠ [] := fun h => hp (String.toList_inj.1 h)
  obtain ⟨s, c, hs⟩ := (List.eq_nil_or_concat' p.spelling.toList).resolve_left hne
  have hjoin : p.join name =
      if c = '/' then ⟨p.spelling ++ name⟩ else ⟨p.spelling ++ "/" ++ name⟩ := by
    unfold join
    rw [hs, List.getLast?_concat]
  by_cases hc : c = '/'
  · subst hc
    refine ⟨pieces '/' s, pieces_ne_nil '/' s, ?_, .inl ?_⟩
    · rw [hjoin, if_pos rfl, String.toList_append, hs, List.append_assoc, List.singleton_append,
        pieces_append, pieces_of_notMem hname]
    · rw [hs, pieces_append_separator]
  · refine ⟨pieces '/' p.spelling.toList, pieces_ne_nil '/' _, ?_, .inr ⟨rfl, fun hlast => ?_⟩⟩
    · have hslash : "/".toList = ['/'] := rfl
      rw [hjoin, if_neg hc, String.toList_append, String.toList_append, hslash,
        List.append_assoc, List.singleton_append, pieces_append, pieces_of_notMem hname]
    · rcases getLast?_pieces hlast with hnil | hlast
      · exact hne hnil
      · rw [hs, List.getLast?_concat] at hlast
        exact hc (Option.some.inj hlast)

theorem filterMap_ofPiece?_append (hname : IsName name) (parts : List (List Char)) :
    (parts ++ [name.toList]).filterMap Component.ofPiece? =
        parts.filterMap Component.ofPiece? ++ [.name name] ∧
      (parts ++ [[]]).filterMap Component.ofPiece? = parts.filterMap Component.ofPiece? := by
  constructor
  · rw [List.filterMap_append, List.filterMap_cons_some hname.ofPiece?, List.filterMap_nil]
  · rw [List.filterMap_append, List.filterMap_cons_none rfl, List.filterMap_nil,
      List.append_nil]

/-- The path of an entry has one component more than the path of its folder. -/
theorem components_join (hp : p.spelling ≠ "") (hname : IsName name) :
    (p.join name).components = p.components ++ [.name name] := by
  obtain ⟨parts, hne, hjoin, hparts⟩ := exists_pieces_join hp hname.2.2.2
  obtain ⟨hentry, hslash⟩ := filterMap_ofPiece?_append hname parts
  have hhead : ∀ last, (parts ++ [last]).head? = parts.head? := fun last =>
    List.head?_append_of_ne_nil _ hne
  rw [components_eq, components_eq, hjoin, hhead, hentry, List.filter_append, List.append_assoc]
  rcases hparts with hparts | ⟨hparts, hlast⟩
  · rw [hparts, hhead, hslash, rootStep_append hne [] name.toList]
    rfl
  · have hroot : parts ≠ [[]] := by
      rintro rfl
      exact hlast rfl
    rw [hparts, rootStep_append_of_ne hne hroot]
    rfl

/-- To come to an entry one goes to its folder and then to its name. A slash at the end of
the folder's spelling asks to stay there first. -/
theorem exists_steps_join (hp : p.spelling ≠ "") (hname : IsName name) :
    ∃ onward, (p.join name).steps = onward ++ [.name name] ∧
      (p.steps = onward ∨ p.steps = onward ++ [.here]) := by
  obtain ⟨parts, hne, hjoin, hparts⟩ := exists_pieces_join hp hname.2.2.2
  obtain ⟨hentry, hslash⟩ := filterMap_ofPiece?_append hname parts
  have hlength : 1 < (parts ++ [[]]).length := by
    have := List.length_pos_iff.2 hne
    rw [List.length_append, List.length_singleton]
    omega
  have hlast : some name.toList ≠ some [] := fun h =>
    hname.1 (String.toList_inj.1 (Option.some.inj h))
  refine ⟨rootStep (parts ++ [name.toList]) ++ parts.filterMap Component.ofPiece?, ?_, ?_⟩
  · rw [steps, hjoin, hentry, List.getLast?_concat, if_neg fun h => hlast h.2, List.append_nil,
      List.append_assoc]
  · rw [steps]
    rcases hparts with hparts | ⟨hparts, hlast⟩
    · right
      rw [hparts, hslash, rootStep_append hne [] name.toList, List.getLast?_concat,
        if_pos ⟨hlength, rfl⟩]
    · have hroot : parts ≠ [[]] := by
        rintro rfl
        exact hlast rfl
      left
      rw [hparts, rootStep_append_of_ne hne hroot, if_neg fun h => hlast h.2, List.append_nil]

theorem lastName_join (hp : p.spelling ≠ "") (hname : IsName name) :
    (p.join name).lastName = name := by
  rw [lastName, name?, components_join hp hname, List.getLast?_concat]
  rfl

/-- Going down several names adds them to the components one by one. -/
theorem components_foldl_join (hp : p.spelling ≠ "") {names : List String}
    (hnames : ∀ s ∈ names, IsName s) :
    (names.foldl join p).components = p.components ++ names.map .name := by
  induction names generalizing p with
  | nil => rw [List.map_nil, List.append_nil]; rfl
  | cons s names ih =>
      obtain ⟨hs, hnames⟩ := List.forall_mem_cons.1 hnames
      rw [List.foldl_cons, ih (spelling_join_ne_empty p hs.1) hnames, components_join hp hs,
        List.append_assoc]
      rfl

end PromptDoc.Path
