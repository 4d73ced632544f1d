import PromptDoc.Proofs.Files.Join
import PromptDoc.Proofs.Files.Tree

/-!
# Trees without links

A plain node has no links at or below it, and its folders name each of their entries
once. In a plain tree it does not matter how links are followed (`entry?_eq_node?`), and
following the path of an entry is following the path of its folder and then going down
one name (`node?_join`).
-/

namespace PromptDoc

namespace FileTree

mutual

/-- A file, or a folder of plain nodes under different names. -/
def Node.IsPlain : Node → Prop
  | .file _ => True
  | .link _ => False
  | .folder es => (es.map Prod.fst).Nodup ∧ ArePlain es

/-- Entries that are plain nodes under names that entries can have. -/
def ArePlain : List (String × Node) → Prop
  | [] => True
  | (name, n) :: es => (Path.IsName name ∧ n.IsPlain) ∧ ArePlain es

end

mutual

instance Node.decidableIsPlain : (n : Node) → Decidable n.IsPlain
  | .file _ => inferInstanceAs (Decidable True)
  | .link _ => inferInstanceAs (Decidable False)
  | .folder es =>
      have := decidableArePlain es
      inferInstanceAs (Decidable (_ ∧ ArePlain es))

instance decidableArePlain : (es : List (String × Node)) → Decidable (ArePlain es)
  | [] => inferInstanceAs (Decidable True)
  | (name, n) :: es =>
      have := Node.decidableIsPlain n
      have := decidableArePlain es
      inferInstanceAs (Decidable ((Path.IsName name ∧ n.IsPlain) ∧ ArePlain es))

end

theorem ArePlain.of_mem {es : List (String × Node)} (h : ArePlain es) {name : String} {n : Node}
    (hn : (name, n) ∈ es) : Path.IsName name ∧ n.IsPlain := by
  induction es with
  | nil => cases hn
  | cons entry es ih =>
      obtain ⟨hentry, hes⟩ := h
      rcases List.mem_cons.1 hn with rfl | hn
      · exact hentry
      · exact ih hes hn

namespace Node.IsPlain

/-- What stands below a plain node is plain, and the names that lead there are names of
entries. -/
theorem of_below? {n m : Node} (h : n.IsPlain) {names : List String}
    (hm : n.below? names = some m) : (∀ s ∈ names, Path.IsName s) ∧ m.IsPlain := by
  induction names generalizing n with
  | nil =>
      rw [below?_nil, Option.some.injEq] at hm
      exact ⟨nofun, hm ▸ h⟩
  | cons s names ih =>
      obtain ⟨es, rfl⟩ := exists_eq_folder hm
      rw [below?_cons, Option.bind_eq_some_iff] at hm
      obtain ⟨entry, hentry, hm⟩ := hm
      obtain ⟨hs, hplain⟩ := ArePlain.of_mem h.2 (Keyed.mem_of_lookup hentry)
      obtain ⟨hnames, hm⟩ := ih hplain hm
      exact ⟨List.forall_mem_cons.2 ⟨hs, hnames⟩, hm⟩

variable {root : Node} (h : root.IsPlain)
include h

theorem below?_ne_link (place : List String) (target : Path) :
    root.below? place ≠ some (.link target) := fun hlink => (h.of_below? hlink).2

/-! ### Following steps -/

/-- Without links, a name is followed if something has it. -/
theorem locate_name (follow : Bool) (links : Nat) (place : List String) (s : String)
    (rest : List Path.Component) :
    locate root follow links place (.name s :: rest) =
      if (root.below? (place ++ [s])).isSome then locate root follow links (place ++ [s]) rest
      else none := by
  rw [locate]
  split
  · next hnone => rw [hnone]; rfl
  · next target hlink => exact absurd hlink (h.below?_ne_link _ target)
  · next n _ hn => rw [hn]; rfl

theorem locate_append (follow : Bool) (links : Nat) (place : List String)
    (steps more : List Path.Component) :
    locate root follow links place (steps ++ more) =
      (locate root follow links place steps).bind (locate root follow links · more) := by
  induction steps generalizing place with
  | nil => rw [List.nil_append, locate, Option.bind_some]
  | cons step steps ih =>
      rw [List.cons_append]
      cases step with
      | root => simp only [locate, ih]
      | here => simp only [locate, ih]; split <;> rfl
      | parent => simp only [locate, ih]; split <;> rfl
      | name s => simp only [h.locate_name, ih]; split <;> rfl

theorem locate_follow (links : Nat) (place : List String) (steps : List Path.Component) :
    locate root false links place steps = locate root true links place steps := by
  induction steps generalizing place with
  | nil => rw [locate, locate]
  | cons step steps ih =>
      cases step with
      | name s => simp only [h.locate_name, ih]
      | _ => simp only [locate, ih]

end Node.IsPlain

theorem Node.below?_append (n : Node) (place names : List String) :
    n.below? (place ++ names) = (n.below? place).bind (Node.below? · names) := by
  induction place generalizing n with
  | nil => rw [List.nil_append, Node.below?_nil, Option.bind_some]
  | cons s place ih =>
      rw [List.cons_append, Node.below?_cons, Node.below?_cons]
      cases n.entries.lookup s with
      | none => rfl
      | some m => exact ih m

variable {t : FileTree} {p : Path} {n m : Node}

theorem spelling_ne_empty_of_node? (hn : t.node? p = some n) : p.spelling ≠ "" := by
  rintro hp
  rw [node?, place?, hp] at hn
  cases hn

theorem node?_eq_bind (hp : p.spelling ≠ "") :
    t.node? p = (locate t.root true linkLimit t.working p.steps).bind t.root.below? := by
  rw [node?, place?, if_neg (by simpa using hp)]

variable (ht : t.root.IsPlain)
include ht

theorem entry?_eq_node? (p : Path) : t.entry? p = t.node? p := by
  unfold entry? node? place?
  rw [ht.locate_follow]

theorem node?_isPlain (hn : t.node? p = some n) : n.IsPlain := by
  rw [node?, Option.bind_eq_some_iff] at hn
  obtain ⟨place, -, hn⟩ := hn
  exact (ht.of_below? hn).2

/-- A slash behind a path asks that a folder stands there, and one has entries only in
folders. -/
theorem exists_locate_of_slash {place : List String} {onward : List Path.Component}
    (h : locate t.root true linkLimit t.working (onward ++ [.here]) = some place) :
    locate t.root true linkLimit t.working onward = some place := by
  rw [ht.locate_append, Option.bind_eq_some_iff] at h
  obtain ⟨reached, hreached, hstay⟩ := h
  simp only [locate] at hstay
  split at hstay
  · rw [hreached, ← hstay]
  · cases hstay

/-- The path of an entry leads to the entry. -/
theorem node?_join (hn : t.node? p = some n) {name : String} (hname : Path.IsName name)
    (hm : n.below? [name] = some m) : t.node? (p.join name) = some m := by
  have hp := spelling_ne_empty_of_node? hn
  obtain ⟨onward, hjoin, hsteps⟩ := Path.exists_steps_join hp hname
  rw [node?_eq_bind hp, Option.bind_eq_some_iff] at hn
  obtain ⟨place, hplace, hn⟩ := hn
  have honward : locate t.root true linkLimit t.working onward = some place := by
    rcases hsteps with hsteps | hsteps
    · rwa [hsteps] at hplace
    · rw [hsteps] at hplace
      exact exists_locate_of_slash ht hplace
  have hm : t.root.below? (place ++ [name]) = some m := by
    rw [Node.below?_append, hn, Option.bind_some, hm]
  rw [node?_eq_bind (Path.spelling_join_ne_empty p hname.1), hjoin, ht.locate_append, honward,
    Option.bind_some, ht.locate_name, hm, Option.isSome_some, if_pos rfl, locate,
    Option.bind_some, hm]

theorem node?_foldl_join (hn : t.node? p = some n) {names : List String}
    (hm : n.below? names = some m) : t.node? (names.foldl Path.join p) = some m := by
  induction names generalizing p n with
  | nil =>
      rw [Node.below?_nil] at hm
      exact hn.trans hm
  | cons s names ih =>
      have hs := ((node?_isPlain ht hn).of_below? hm).1 s List.mem_cons_self
      rw [← List.singleton_append, Node.below?_append, Option.bind_eq_some_iff] at hm
      obtain ⟨entry, hentry, hm⟩ := hm
      exact ih (node?_join ht hn hs hentry) hm

end FileTree

end PromptDoc
