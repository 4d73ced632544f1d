/-!
# Pieces of a text

`pieces` splits a text at a separator. The pieces with the separator between
them are the text again, and no piece holds the separator.
-/

namespace PromptDoc.Text

/-- Splits a text at a separator; there is one piece more than separators. -/
def pieces (separator : Char) : List Char → List (List Char)
  | [] => [[]]
  | c :: rest =>
    if c = separator then [] :: pieces separator rest
    else match pieces separator rest with
      | [] => [[c]]
      | piece :: others => (c :: piece) :: others

theorem pieces_cons_separator (separator : Char) (s : List Char) :
    pieces separator (separator :: s) = [] :: pieces separator s := by
  rw [pieces, if_pos rfl]

theorem pieces_ne_nil (separator : Char) (s : List Char) : pieces separator s ≠ [] := by
  cases s with
  | nil => simp [pieces]
  | cons c s =>
      rw [pieces]
      split
      · simp
      split <;> simp

theorem pieces_cons_of_ne {separator c : Char} (h : c ≠ separator) {s piece : List Char}
    {others : List (List Char)} (hs : pieces separator s = piece :: others) :
    pieces separator (c :: s) = (c :: piece) :: others := by
  rw [pieces, if_neg h, hs]

/-- Puts the separator between pieces. -/
def join (separator : Char) : List (List Char) → List Char
  | [] => []
  | [piece] => piece
  | piece :: next :: others => piece ++ separator :: join separator (next :: others)

theorem join_cons_cons (separator c : Char) (piece : List Char) (others : List (List Char)) :
    join separator ((c :: piece) :: others) = c :: join separator (piece :: others) := by
  cases others <;> rfl

theorem join_cons (separator : Char) (piece : List Char) {others : List (List Char)}
    (h : others ≠ []) :
    join separator (piece :: others) = piece ++ separator :: join separator others := by
  cases others with
  | nil => exact absurd rfl h
  | cons next others => rfl

theorem join_append_separator (separator : Char) (piece next : List Char)
    (others : List (List Char)) :
    join separator ((piece ++ separator :: next) :: others) =
      join separator (piece :: next :: others) := by
  cases others with
  | nil => rfl
  | cons other others => simp [join]

/-- Joined pieces, with the separator in front of all but the first. -/
theorem join_eq_append_flatMap (separator : Char) (piece : List Char)
    (others : List (List Char)) :
    join separator (piece :: others) = piece ++ others.flatMap (separator :: ·) := by
  induction others generalizing piece with
  | nil => rw [join, List.flatMap_nil, List.append_nil]
  | cons next others ih =>
      rw [join_cons separator piece (List.cons_ne_nil next others), ih, List.flatMap_cons]
      rfl

theorem mem_join_of_mem (separator : Char) {ls : List (List Char)} {l : List Char} (hl : l ∈ ls)
    {c : Char} (hc : c ∈ l) : c ∈ join separator ls := by
  induction ls with
  | nil => cases hl
  | cons m ls ih =>
      by_cases hls : ls = []
      · subst hls
        rw [List.mem_singleton.1 hl] at hc
        exact hc
      · rw [join_cons separator m hls]
        rcases List.mem_cons.1 hl with rfl | hl
        · exact List.mem_append_left _ hc
        · exact List.mem_append_right _ (List.mem_cons_of_mem separator (ih hl))

/-- What holds for the separator holds for joined pieces if it holds for each. -/
theorem forall_mem_join {separator : Char} {P : Char → Prop} (h : P separator)
    (ls : List (List Char)) :
    (∀ c ∈ join separator ls, P c) ↔ ∀ l ∈ ls, ∀ c ∈ l, P c := by
  induction ls with
  | nil => exact iff_of_true nofun nofun
  | cons l ls ih =>
      by_cases hls : ls = []
      · subst hls
        rw [List.forall_mem_singleton, join]
      · simp only [join_cons separator l hls, List.forall_mem_append, List.forall_mem_cons, ih, h,
          true_and]

/-- The pieces with the separator between them are the text. -/
theorem join_pieces (separator : Char) (s : List Char) :
    join separator (pieces separator s) = s := by
  induction s with
  | nil => rfl
  | cons c s ih =>
      cases hs : pieces separator s with
      | nil => exact absurd hs (pieces_ne_nil separator s)
      | cons piece others =>
          rw [hs] at ih
          by_cases hc : c = separator
          · subst hc
            rw [pieces_cons_separator, hs, join, ih]
            rfl
          · rw [pieces_cons_of_ne hc hs, join_cons_cons, ih]

/-- A separator between two texts keeps their pieces apart. -/
theorem pieces_append (separator : Char) (s t : List Char) :
    pieces separator (s ++ separator :: t) = pieces separator s ++ pieces separator t := by
  induction s with
  | nil => exact pieces_cons_separator separator t
  | cons c s ih =>
      by_cases hc : c = separator
      · subst hc
        rw [List.cons_append, pieces_cons_separator, pieces_cons_separator, ih]
        rfl
      · cases hs : pieces separator s with
        | nil => exact absurd hs (pieces_ne_nil separator s)
        | cons piece others =>
            rw [hs] at ih
            rw [List.cons_append, pieces_cons_of_ne hc ih, pieces_cons_of_ne hc hs]
            rfl

/-- A separator at the end has an empty piece behind it. -/
theorem pieces_append_separator (separator : Char) (s : List Char) :
    pieces separator (s ++ [separator]) = pieces separator s ++ [[]] :=
  pieces_append separator s []

theorem pieces_of_notMem {separator : Char} {s : List Char} (h : separator ∉ s) :
    pieces separator s = [s] := by
  induction s with
  | nil => rfl
  | cons c s ih =>
      rw [List.mem_cons, not_or] at h
      exact pieces_cons_of_ne (Ne.symm h.1) (ih h.2)

theorem pieces_append_cons {separator : Char} {piece : List Char} (h : separator ∉ piece)
    (s : List Char) : pieces separator (piece ++ separator :: s) = piece :: pieces separator s := by
  rw [pieces_append, pieces_of_notMem h]
  rfl

/-- Joined pieces come apart again where none of them holds the separator. -/
theorem pieces_join {separator : Char} {ls : List (List Char)} (hne : ls ≠ [])
    (h : ∀ l ∈ ls, separator ∉ l) : pieces separator (join separator ls) = ls := by
  induction ls with
  | nil => exact absurd rfl hne
  | cons l ls ih =>
      rw [List.forall_mem_cons] at h
      cases ls with
      | nil => exact pieces_of_notMem h.1
      | cons m ls => rw [join, pieces_append_cons h.1, ih (List.cons_ne_nil m ls) h.2]

/-- The pieces of joined texts are the pieces of each. -/
theorem pieces_join_eq_flatMap (separator : Char) {ls : List (List Char)} (hne : ls ≠ []) :
    pieces separator (join separator ls) = ls.flatMap (pieces separator) := by
  induction ls with
  | nil => exact absurd rfl hne
  | cons l ls ih =>
      by_cases hls : ls = []
      · rw [hls, join, List.flatMap_cons, List.flatMap_nil, List.append_nil]
      · rw [join_cons separator l hls, pieces_append, ih hls, List.flatMap_cons]

/-- The first piece ends at the first separator. -/
theorem exists_pieces_eq (separator : Char) (s : List Char) :
    ∃ others, pieces separator s = s.takeWhile (· ≠ separator) :: others := by
  induction s with
  | nil => exact ⟨[], rfl⟩
  | cons c s ih =>
      obtain ⟨others, hs⟩ := ih
      by_cases hc : c = separator
      · subst hc
        rw [pieces_cons_separator, List.takeWhile_cons_of_neg (by simp)]
        exact ⟨_, rfl⟩
      · rw [pieces_cons_of_ne hc hs, List.takeWhile_cons_of_pos (by simpa using hc)]
        exact ⟨_, rfl⟩

theorem eq_separator_of_mem_join {separator : Char} {ls : List (List Char)}
    (h : ∀ l ∈ ls, l = []) {c : Char} (hc : c ∈ join separator ls) : c = separator := by
  induction ls with
  | nil => cases hc
  | cons l ls ih =>
      obtain rfl := h l (by simp)
      cases ls with
      | nil => cases hc
      | cons m ls =>
          rcases List.mem_cons.1 hc with rfl | hc
          · rfl
          · exact ih (fun k hk => h k (List.mem_cons_of_mem [] hk)) hc

/-- The last piece is empty only behind a separator. -/
theorem getLast?_pieces {separator : Char} {s : List Char}
    (h : (pieces separator s).getLast? = some []) : s = [] ∨ s.getLast? = some separator := by
  induction s with
  | nil => exact .inl rfl
  | cons c s ih =>
      right
      cases hs : pieces separator s with
      | nil => exact absurd hs (pieces_ne_nil separator s)
      | cons piece others =>
          rw [hs] at ih
          by_cases hc : c = separator
          · subst hc
            rw [pieces_cons_separator, hs, List.getLast?_cons_cons] at h
            rcases ih h with rfl | hlast
            · rfl
            · rw [List.getLast?_cons, hlast]
              rfl
          · rw [pieces_cons_of_ne hc hs] at h
            cases others with
            | nil =>
                rw [List.getLast?_singleton] at h
                cases h
            | cons next others =>
                rw [List.getLast?_cons_cons] at h
                rcases ih (by rw [List.getLast?_cons_cons, h]) with rfl | hlast
                · cases hs
                · rw [List.getLast?_cons, hlast]
                  rfl

/-- A piece holds characters of the text and no separator. -/
theorem mem_of_mem_pieces {separator : Char} {s piece : List Char}
    (hp : piece ∈ pieces separator s) {c : Char} (hc : c ∈ piece) : c ∈ s ∧ c ≠ separator := by
  induction s generalizing piece with
  | nil =>
      rw [List.mem_singleton.1 hp] at hc
      cases hc
  | cons d s ih =>
      cases hs : pieces separator s with
      | nil => exact absurd hs (pieces_ne_nil separator s)
      | cons first more =>
          by_cases hd : d = separator
          · subst hd
            rw [pieces_cons_separator, List.mem_cons] at hp
            rcases hp with rfl | hp
            · cases hc
            · exact ⟨List.mem_cons_of_mem d (ih hp hc).1, (ih hp hc).2⟩
          · rw [pieces_cons_of_ne hd hs, List.mem_cons] at hp
            rcases hp with rfl | hp
            · rcases List.mem_cons.1 hc with rfl | hc
              · exact ⟨by simp, hd⟩
              · have := ih (hs ▸ List.mem_cons_self) hc
                exact ⟨List.mem_cons_of_mem d this.1, this.2⟩
            · have := ih (hs ▸ List.mem_cons_of_mem first hp) hc
              exact ⟨List.mem_cons_of_mem d this.1, this.2⟩

end PromptDoc.Text
