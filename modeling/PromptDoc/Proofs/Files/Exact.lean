import Mathlib.Data.List.Sort
import PromptDoc.Proofs.Files.Collect
import PromptDoc.Proofs.Files.Plain

/-!
# What is collected

In a tree without links, the collected files are exactly the selected files that a target
contributes: the target itself, or what is reached from it through folders none of which
is left out (`collect_exact`). They are listed once and in order, so that the list says
nothing of the order of targets, of repeated ones, and of those that do not exist.
-/

namespace PromptDoc

theorem Selection.accepts_congr (sel : Selection) {p q : Path}
    (h : p.components = q.components) : sel.accepts p = sel.accepts q := by
  simp only [Selection.accepts, Path.extension?, Path.name?, h]

namespace FileTree

/-- Going down the names from a node of some name ends at a file, and no folder on the
way, with the node itself the first, has a name that is left out. -/
def Node.ReachesFile (sel : Selection) (name : String) (n : Node) (names : List String) : Prop :=
  (∃ content, n.below? names = some (.file content)) ∧
    ∀ s ∈ (name :: names).dropLast, sel.skipsFolder s = false

/-- A target contributes a selected file that is the target itself or is reached from it.
The name of the target is the one that its path ends with. -/
def Contributes (t : FileTree) (sel : Selection) (target p : Path) : Prop :=
  sel.accepts p = true ∧
    ∃ n names, t.node? target = some n ∧ n.ReachesFile sel target.lastName names ∧
      p.components = target.components ++ names.map .name

/-- Lists of targets contribute the same if the same of them lead anywhere. -/
theorem exists_contributes_iff {t : FileTree} {sel : Selection} {targets others : List Path}
    {p : Path}
    (h : ∀ target, (t.node? target).isSome → (target ∈ others ↔ target ∈ targets)) :
    (∃ target ∈ others, t.Contributes sel target p) ↔
      ∃ target ∈ targets, t.Contributes sel target p := by
  refine exists_congr fun target => and_congr_left fun hcontributes => h target ?_
  obtain ⟨-, n, -, hn, -⟩ := hcontributes
  rw [hn]
  rfl

section Select

variable {sel : Selection} {name : String} {p q : Path}

theorem Node.reachesFile_nil_iff {n : Node} :
    n.ReachesFile sel name [] ↔ ∃ content, n = .file content := by
  rw [ReachesFile, below?_nil]
  simp

/-- From a folder that is not left out one goes on at the entry of the next name. -/
theorem Node.reachesFile_folder_cons_iff {es : List (String × Node)} {s : String}
    {names : List String} :
    (folder es).ReachesFile sel name (s :: names) ↔
      sel.skipsFolder name = false ∧
        ∃ m, es.lookup s = some m ∧ m.ReachesFile sel s names := by
  simp only [ReachesFile, below?_cons, entries, Option.bind_eq_some_iff,
    List.dropLast_cons_cons, List.forall_mem_cons]
  constructor
  · rintro ⟨⟨content, m, hm, hfile⟩, hname, hnames⟩
    exact ⟨hname, m, hm, ⟨content, hfile⟩, hnames⟩
  · rintro ⟨hname, m, hm, ⟨content, hfile⟩, hnames⟩
    exact ⟨⟨content, m, hm, hfile⟩, hname, hnames⟩

theorem Node.ReachesFile.file_names {content : ByteArray} {names : List String}
    (h : (Node.file content).ReachesFile sel name names) : names = [] := by
  cases names with
  | nil => rfl
  | cons s names =>
      obtain ⟨⟨other, hother⟩, -⟩ := h
      rw [below?_file_cons] at hother
      cases hother

-- A folder selects what its entries select, and each entry has a path of its own: the two
-- statements go down the tree together.
mutual

theorem Node.mem_select : {n : Node} → n.IsPlain → {p : Path} → p.spelling ≠ "" →
    (q ∈ n.select sel p ↔
      ∃ names, n.ReachesFile sel p.lastName names ∧ q = names.foldl Path.join p ∧
        sel.accepts q = true)
  | .file content, _, p, _ => by
      rw [Node.select]
      constructor
      · intro hq
        split at hq
        · next haccepts =>
          obtain rfl := List.mem_singleton.1 hq
          exact ⟨[], Node.reachesFile_nil_iff.2 ⟨content, rfl⟩, rfl, haccepts⟩
        · cases hq
      · rintro ⟨names, hreach, rfl, haccepts⟩
        obtain rfl := hreach.file_names
        rw [List.foldl_nil] at haccepts ⊢
        rw [if_pos haccepts]
        exact List.mem_singleton_self p
  | .link _, h, _, _ => h.elim
  | .folder es, h, p, hp => by
      rw [Node.select]
      constructor
      · intro hq
        split at hq
        · cases hq
        · next hskip =>
          obtain ⟨s, m, names, hm, hreach, hq⟩ := (mem_selectEntries h.2 hp).1 hq
          have hlookup := (Keyed.lookup_eq_some_iff_mem h.1).2 hm
          exact ⟨s :: names, Node.reachesFile_folder_cons_iff.2
            ⟨Bool.not_eq_true _ ▸ hskip, m, hlookup, hreach⟩, hq⟩
      · rintro ⟨names, hreach, hq⟩
        cases names with
        | nil =>
            obtain ⟨content, hfile⟩ := Node.reachesFile_nil_iff.1 hreach
            cases hfile
        | cons s names =>
            obtain ⟨hskip, m, hlookup, hreach⟩ := Node.reachesFile_folder_cons_iff.1 hreach
            rw [hskip, if_neg Bool.false_ne_true]
            exact (mem_selectEntries h.2 hp).2
              ⟨s, m, names, Keyed.mem_of_lookup hlookup, hreach, hq⟩

theorem mem_selectEntries : {es : List (String × Node)} → ArePlain es → {p : Path} →
    p.spelling ≠ "" →
    (q ∈ selectEntries sel p es ↔
      ∃ s m names, (s, m) ∈ es ∧ m.ReachesFile sel s names ∧
        q = (s :: names).foldl Path.join p ∧ sel.accepts q = true)
  | [], _, _, _ => by
      rw [selectEntries]
      exact iff_of_false List.not_mem_nil fun ⟨_, _, _, hm, _⟩ => List.not_mem_nil hm
  | (name, n) :: es, h, p, hp => by
      obtain ⟨⟨hname, hn⟩, hes⟩ := h
      rw [selectEntries, List.mem_append, mem_selectEntries hes hp,
        Node.mem_select hn (Path.spelling_join_ne_empty p hname.1), Path.lastName_join hp hname]
      constructor
      · rintro (⟨names, hreach⟩ | ⟨s, m, names, hm, hreach⟩)
        · exact ⟨name, n, names, List.mem_cons_self, hreach⟩
        · exact ⟨s, m, names, List.mem_cons_of_mem _ hm, hreach⟩
      · rintro ⟨s, m, names, hm, hreach⟩
        rcases List.mem_cons.1 hm with heq | hm
        · cases heq
          exact .inl ⟨names, hreach⟩
        · exact .inr ⟨s, m, names, hm, hreach⟩

end

end Select

section Plain

variable {t : FileTree} (ht : t.root.IsPlain) {sel : Selection} {target p q : Path}
include ht

theorem mem_selectTarget :
    q ∈ t.selectTarget sel target ↔
      ∃ n names, t.node? target = some n ∧ n.ReachesFile sel target.lastName names ∧
        q = names.foldl Path.join target ∧ sel.accepts q = true := by
  rw [selectTarget, entry?_eq_node? ht]
  cases hn : t.node? target with
  | none => simp
  | some n =>
      have hplain := node?_isPlain ht hn
      have hselect : q ∈ n.select sel target ↔ _ :=
        Node.mem_select hplain (spelling_ne_empty_of_node? hn)
      cases n with
      | link _ => exact hplain.elim
      | file content => simpa using hselect
      | folder es => simpa using hselect

/-- The names that lead from a target to a file are those that its path has more than the
path of the target. -/
theorem components_of_reachesFile {n : Node} (hn : t.node? target = some n)
    {names : List String} (h : n.ReachesFile sel target.lastName names) :
    (names.foldl Path.join target).components = target.components ++ names.map .name := by
  obtain ⟨⟨content, hfile⟩, -⟩ := h
  exact Path.components_foldl_join (spelling_ne_empty_of_node? hn)
    ((node?_isPlain ht hn).of_below? hfile).1

theorem exists_mem_selectTarget_iff :
    (∃ q ∈ t.selectTarget sel target, q.components = p.components) ↔
      t.Contributes sel target p := by
  constructor
  · rintro ⟨q, hq, hcomponents⟩
    obtain ⟨n, names, hn, hreach, rfl, haccepts⟩ := (mem_selectTarget ht).1 hq
    rw [components_of_reachesFile ht hn hreach] at hcomponents
    rw [sel.accepts_congr ((components_of_reachesFile ht hn hreach).trans hcomponents)]
      at haccepts
    exact ⟨haccepts, n, names, hn, hreach, hcomponents.symm⟩
  · rintro ⟨haccepts, n, names, hn, hreach, hcomponents⟩
    have hq := (components_of_reachesFile ht hn hreach).trans hcomponents.symm
    rw [← sel.accepts_congr hq] at haccepts
    exact ⟨_, (mem_selectTarget ht).2 ⟨n, names, hn, hreach, rfl, haccepts⟩, hq⟩

theorem isFile_of_mem_selectTarget (hq : q ∈ t.selectTarget sel target) : t.isFile q = true := by
  obtain ⟨n, names, hn, ⟨⟨content, hfile⟩, -⟩, rfl, -⟩ := (mem_selectTarget ht).1 hq
  rw [isFile, read?, node?_foldl_join ht hn hfile]
  rfl

theorem exists_mem_collect_iff {targets : List Path} :
    (∃ q ∈ t.collect sel targets, q.components = p.components) ↔
      ∃ target ∈ targets, t.Contributes sel target p := by
  constructor
  · rintro ⟨q, hq, hcomponents⟩
    obtain ⟨target, htarget, hq⟩ := List.mem_flatMap.1 (mem_of_mem_collect hq)
    exact ⟨target, htarget, (exists_mem_selectTarget_iff ht).1 ⟨q, hq, hcomponents⟩⟩
  · rintro ⟨target, htarget, h⟩
    obtain ⟨q, hq, hcomponents⟩ := (exists_mem_selectTarget_iff ht).2 h
    obtain ⟨kept, hkept, heq⟩ := exists_mem_collect (List.mem_flatMap.2 ⟨target, htarget, hq⟩)
    exact ⟨kept, hkept, heq.trans hcomponents⟩

end Plain

/-- Collecting is exact: the list is strictly increasing by components and holds, in one
spelling each, exactly what the targets contribute, which are files. Only the targets that
lead anywhere count, and neither their order nor their number. -/
theorem collect_exact {t : FileTree} (ht : t.root.IsPlain) (sel : Selection)
    (targets : List Path) :
    ((t.collect sel targets).Pairwise fun p q => p.components < q.components) ∧
      (∀ p, (∃ q ∈ t.collect sel targets, q.components = p.components) ↔
        ∃ target ∈ targets, t.Contributes sel target p) ∧
      (∀ p ∈ t.collect sel targets, t.isFile p = true) ∧
      ∀ others : List Path,
        (∀ target, (t.node? target).isSome → (target ∈ others ↔ target ∈ targets)) →
          (t.collect sel others).map Path.components =
            (t.collect sel targets).map Path.components := by
  refine ⟨pairwise_collect t sel targets, fun p => exists_mem_collect_iff ht, ?_, ?_⟩
  · intro p hp
    obtain ⟨target, -, hp⟩ := List.mem_flatMap.1 (mem_of_mem_collect hp)
    exact isFile_of_mem_selectTarget ht hp
  · intro others hothers
    have hsorted := fun targets => List.pairwise_map.2 (pairwise_collect t sel targets)
    refine (hsorted others).eq_of_mem_iff (hsorted targets) fun components => ?_
    rw [List.mem_map, List.mem_map]
    constructor
    · rintro ⟨p, hp, rfl⟩
      exact (exists_mem_collect_iff ht).2 ((exists_contributes_iff hothers).1
        ((exists_mem_collect_iff ht).1 ⟨p, hp, rfl⟩))
    · rintro ⟨p, hp, rfl⟩
      exact (exists_mem_collect_iff ht).2 ((exists_contributes_iff hothers).2
        ((exists_mem_collect_iff ht).1 ⟨p, hp, rfl⟩))

/-- A folder with a text, a file of another kind and a folder that is left out. -/
def docsFolder : Node :=
  .folder [("build", .folder [("old.md", .file ⟨#[]⟩)]), ("data.json", .file ⟨#[]⟩),
    ("a.MD", .file ⟨#[]⟩)]

def docsTree : FileTree := { root := .folder [("docs", docsFolder)], working := [] }

theorem collect_exact_docsTree :
    docsTree.root.IsPlain ∧
      (∃ q ∈ docsTree.collect {} [⟨"docs/"⟩, ⟨"docs/./a.MD"⟩],
        q.components = [.name "docs", .name "a.MD"]) ∧
      (docsTree.collect {} [⟨"docs/./a.MD"⟩, ⟨"missing"⟩, ⟨"docs/"⟩]).map Path.components =
        (docsTree.collect {} [⟨"docs/"⟩, ⟨"docs/./a.MD"⟩]).map Path.components := by
  have hplain : docsTree.root.IsPlain := by decide
  have hdocs : docsTree.node? ⟨"docs/"⟩ = some docsFolder := by
    have hsteps : Path.steps ⟨"docs/"⟩ = [.name "docs", .here] := by decide
    rw [node?_eq_bind (by decide), hsteps]
    simp only [locate]
    rfl
  have hmissing : docsTree.node? ⟨"missing"⟩ = none := by
    have hsteps : Path.steps ⟨"missing"⟩ = [.name "missing"] := by decide
    rw [node?_eq_bind (by decide), hsteps, hplain.locate_name]
    rfl
  have hreach : docsFolder.ReachesFile {} (Path.lastName ⟨"docs/"⟩) ["a.MD"] :=
    ⟨⟨⟨#[]⟩, rfl⟩, by decide⟩
  obtain ⟨-, hiff, -, hothers⟩ := collect_exact hplain {} [⟨"docs/"⟩, ⟨"docs/./a.MD"⟩]
  refine ⟨hplain, (hiff ⟨"docs/a.MD"⟩).2 ⟨⟨"docs/"⟩, by simp, by decide +kernel,
    docsFolder, ["a.MD"], hdocs, hreach, by decide⟩, hothers _ fun target htarget => ?_⟩
  have hne : target ≠ ⟨"missing"⟩ := by
    rintro rfl
    rw [hmissing] at htarget
    cases htarget
  simp [hne, or_comm]

end FileTree

end PromptDoc
