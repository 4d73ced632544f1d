import Mathlib.Data.Set.Basic
import PromptDoc.Proofs.Text.Lines
import PromptDoc.Proofs.Text.Utf8
import PromptDoc.Template

/-!
# Placeholders

`Template.Mentions` says that a text has a placeholder with a name anywhere. The scan
goes from left to right and resumes behind each placeholder that it takes, yet it
finds every name that is mentioned (`Template.mem_names_iff`): a placeholder begins
with the only two braces in it that open, so no other one begins inside it, and
where none begins, nothing is lost by going on with the next character.
`Consistency.ofTemplate` is then a difference of two sets either way.
-/

namespace PromptDoc

open Text (isSpace trimStart)

/-! ## Ascending lists -/

theorem nodup_eraseDups : ∀ xs : List String, xs.eraseDups.Nodup
  | [] => by simp
  | x :: xs => by
    rw [List.eraseDups_cons, List.nodup_cons, List.mem_eraseDups]
    exact ⟨by simp, nodup_eraseDups _⟩
termination_by xs => xs.length
decreasing_by exact Nat.lt_succ_of_le (List.length_filter_le _ xs)

theorem mem_ascending_iff {xs : List String} {x : String} : x ∈ ascending xs ↔ x ∈ xs := by
  rw [ascending, List.mem_mergeSort, List.mem_eraseDups]

theorem pairwise_ascending (xs : List String) :
    (ascending xs).Pairwise fun a b => Text.bytes a < Text.bytes b := by
  have hnodup : (ascending xs).Pairwise (· ≠ ·) :=
    (List.mergeSort_perm _ _).nodup_iff.2 (nodup_eraseDups xs)
  have hsorted : (ascending xs).Pairwise fun a b => decide (a ≤ b) = true :=
    List.pairwise_mergeSort
      (fun a b c hab hbc => by
        rw [decide_eq_true_eq] at *
        exact String.le_trans hab hbc)
      (fun a b => by simpa using String.le_total a b) _
  refine (hsorted.and hnodup).imp fun {a b} ⟨hle, hne⟩ => Text.bytes_lt_bytes ?_
  exact String.not_le.1 fun hba => hne (String.le_antisymm (of_decide_eq_true hle) hba)

namespace Template

variable {s t name after left right : List Char} {c : Char}

/-! ## What a placeholder is -/

/-- The text of a placeholder for a name. -/
def IsPlaceholder (name p : List Char) : Prop :=
  name ≠ [] ∧ (∀ c ∈ name, isNameChar c = true) ∧
    ∃ left right, (∀ c ∈ left, isSpace c = true) ∧ (∀ c ∈ right, isSpace c = true) ∧
      p = ['\x7b', '\x7b'] ++ left ++ name ++ right ++ ['\x7d', '\x7d']

/-- A placeholder for the name stands somewhere in the text. -/
def Mentions (s name : List Char) : Prop :=
  ∃ p, IsPlaceholder name p ∧ p <:+: s

/-- The names that a template mentions. -/
def mentioned (template : String) : Set String :=
  {x | Mentions template.toList x.toList}

/-! ## Taking a placeholder -/

theorem isNameChar_of_isSpace (h : isSpace c = true) : isNameChar c = false := by
  rw [← Bool.not_eq_true]
  intro hname
  simp only [isNameChar, Bool.or_eq_true, decide_eq_true_eq] at hname
  rcases hname with ((hname | rfl) | rfl) | rfl
  · have hcode : ((65 ≤ c.toNat ∧ c.toNat ≤ 90) ∨ (97 ≤ c.toNat ∧ c.toNat ≤ 122)) ∨
        (48 ≤ c.toNat ∧ c.toNat ≤ 57) := by
      change ((decide ('A'.val ≤ c.val ∧ c.val ≤ 'Z'.val) ||
        (decide ('a'.val ≤ c.val) && decide (c.val ≤ 'z'.val))) ||
          (decide ('0'.val ≤ c.val) && decide (c.val ≤ '9'.val))) = true at hname
      simp only [Bool.or_eq_true, Bool.and_eq_true, decide_eq_true_eq,
        UInt32.le_iff_toNat_le] at hname
      exact hname
    simp only [isSpace, Bool.or_eq_true, Bool.and_eq_true, decide_eq_true_eq] at h
    omega
  all_goals exact absurd h (by decide)

theorem isSpace_of_isNameChar (h : isNameChar c = true) : isSpace c = false := by
  rw [← Bool.not_eq_true]
  intro hspace
  rw [isNameChar_of_isSpace hspace] at h
  cases h

theorem trimStart_append (hleft : ∀ c ∈ left, isSpace c = true)
    (ht : ∀ c ∈ t.head?, isSpace c = false) : trimStart (left ++ t) = t := by
  rw [trimStart, List.dropWhile_append_of_pos hleft]
  exact Text.trimStart_eq_self_iff.2 ht

theorem takeWhile_isNameChar_append (hname : ∀ c ∈ name, isNameChar c = true)
    (ht : ∀ c ∈ t.head?, isNameChar c = false) :
    (name ++ t).takeWhile isNameChar = name ∧ (name ++ t).dropWhile isNameChar = t := by
  rw [List.takeWhile_append_of_pos hname, List.dropWhile_append_of_pos hname]
  cases t with
  | nil => simp
  | cons c t =>
    have hc : ¬isNameChar c = true := by simp [ht c rfl]
    rw [List.takeWhile_cons_of_neg hc, List.dropWhile_cons_of_neg hc, List.append_nil]
    exact ⟨rfl, rfl⟩

/-- What stands in front of the closing braces is white space, if anything. -/
theorem isNameChar_head?_closing (hright : ∀ c ∈ right, isSpace c = true) (after : List Char) :
    ∀ c ∈ (right ++ '\x7d' :: '\x7d' :: after).head?, isNameChar c = false := by
  cases right with
  | nil =>
    rintro c ⟨rfl⟩
    decide
  | cons d right =>
    rintro c ⟨rfl⟩
    exact isNameChar_of_isSpace (hright d List.mem_cons_self)

theorem takePlaceholder?_append {p : List Char} (h : IsPlaceholder name p) (after : List Char) :
    takePlaceholder? (p ++ after) = some (name, after) := by
  obtain ⟨hne, hname, left, right, hleft, hright, rfl⟩ := h
  obtain ⟨htake, hdrop⟩ :=
    takeWhile_isNameChar_append hname (isNameChar_head?_closing hright after)
  have hinner : trimStart (left ++ (name ++ (right ++ '\x7d' :: '\x7d' :: after))) =
      name ++ (right ++ '\x7d' :: '\x7d' :: after) := by
    refine trimStart_append hleft ?_
    cases name with
    | nil => exact absurd rfl hne
    | cons c name =>
      rintro d ⟨rfl⟩
      exact isSpace_of_isNameChar (hname c List.mem_cons_self)
  have hclosing : trimStart (right ++ '\x7d' :: '\x7d' :: after) = '\x7d' :: '\x7d' :: after := by
    refine trimStart_append hright ?_
    rintro d ⟨rfl⟩
    decide
  simp only [List.append_assoc, List.cons_append, List.nil_append]
  rw [takePlaceholder?, hinner, takePlaceholder?.takeName?, hdrop, hclosing]
  simp only [htake]
  rw [if_neg (by simpa using hne)]

theorem exists_of_takePlaceholder? (h : takePlaceholder? s = some (name, after)) :
    ∃ p, IsPlaceholder name p ∧ s = p ++ after := by
  unfold takePlaceholder? takePlaceholder?.takeName? at h
  split at h
  · next rest =>
    split at h
    · next closing hclosing =>
      obtain ⟨hne, heq⟩ := Option.ite_none_left_eq_some.1 h
      obtain ⟨rfl, rfl⟩ := Prod.mk.inj (Option.some.inj heq)
      refine ⟨_, ⟨by simpa using hne, fun c hc => List.mem_takeWhile_imp hc,
        rest.takeWhile isSpace, ((trimStart rest).dropWhile isNameChar).takeWhile isSpace,
        fun c hc => List.mem_takeWhile_imp hc, fun c hc => List.mem_takeWhile_imp hc, rfl⟩, ?_⟩
      have hleft : rest.takeWhile isSpace ++ trimStart rest = rest :=
        List.takeWhile_append_dropWhile
      have hname : (trimStart rest).takeWhile isNameChar ++ (trimStart rest).dropWhile isNameChar =
          trimStart rest :=
        List.takeWhile_append_dropWhile
      have hright : ((trimStart rest).dropWhile isNameChar).takeWhile isSpace ++
          '\x7d' :: '\x7d' :: closing = (trimStart rest).dropWhile isNameChar := by
        rw [← hclosing]
        exact List.takeWhile_append_dropWhile
      conv_lhs => rw [← hleft, ← hname, ← hright]
      simp only [List.append_assoc, List.cons_append, List.nil_append]
    · cases h
  · cases h

theorem takePlaceholder?_eq_some_iff :
    takePlaceholder? s = some (name, after) ↔ ∃ p, IsPlaceholder name p ∧ s = p ++ after := by
  constructor
  · exact exists_of_takePlaceholder?
  · rintro ⟨p, hp, rfl⟩
    exact takePlaceholder?_append hp after

/-! ## The names that are mentioned -/

theorem not_mentions_nil : ¬Mentions [] name := by
  rintro ⟨p, ⟨-, -, left, right, -, -, rfl⟩, hp⟩
  simp at hp

/-- A name is mentioned at the front of a text or behind its first character. -/
theorem mentions_cons_iff :
    Mentions (c :: s) name ↔
      (∃ after, takePlaceholder? (c :: s) = some (name, after)) ∨ Mentions s name := by
  simp only [takePlaceholder?_eq_some_iff, Mentions, List.infix_cons_iff, and_or_left, exists_or]
  refine or_congr_left ⟨?_, ?_⟩
  · rintro ⟨p, hp, after, heq⟩
    exact ⟨after, p, hp, heq.symm⟩
  · rintro ⟨after, p, hp, heq⟩
    exact ⟨p, hp, after, heq.symm⟩

theorem mentions_cons_of_ne (hc : c ≠ '\x7b') : Mentions (c :: s) name ↔ Mentions s name := by
  rw [mentions_cons_iff, takePlaceholder?.eq_def]
  split
  · next heq => exact absurd (List.cons.inj heq).1 hc
  · simp

theorem mentions_append_of_notMem (ht : '\x7b' ∉ t) :
    Mentions (t ++ s) name ↔ Mentions s name := by
  induction t with
  | nil => rfl
  | cons c t ih =>
    rw [List.mem_cons, not_or] at ht
    rw [List.cons_append, mentions_cons_of_ne (Ne.symm ht.1), ih ht.2]

/-- A single brace begins no placeholder, whatever follows it. -/
theorem mentions_brace_append (hne : t ≠ []) (ht : '\x7b' ∉ t) :
    Mentions ('\x7b' :: t ++ s) name ↔ Mentions s name := by
  obtain ⟨c, t, rfl⟩ := List.exists_cons_of_ne_nil hne
  rw [List.cons_append, mentions_cons_iff, mentions_append_of_notMem ht, takePlaceholder?.eq_def]
  split
  · next heq =>
    obtain rfl := (List.cons.inj (List.cons.inj heq).2).1
    exact absurd List.mem_cons_self ht
  · simp

/-- The braces at the front of a placeholder are its only ones that open. -/
theorem exists_eq_of_isPlaceholder {p : List Char} (h : IsPlaceholder name p) :
    ∃ t, t ≠ [] ∧ '\x7b' ∉ t ∧ p = '\x7b' :: '\x7b' :: t := by
  obtain ⟨-, hname, left, right, hleft, hright, rfl⟩ := h
  refine ⟨left ++ name ++ right ++ ['\x7d', '\x7d'], by simp, ?_, by simp⟩
  simp only [List.mem_append, not_or]
  exact ⟨⟨⟨fun hmem => absurd (hleft _ hmem) (by decide),
    fun hmem => absurd (hname _ hmem) (by decide)⟩,
    fun hmem => absurd (hright _ hmem) (by decide)⟩, by decide⟩

/-- A text that begins with a placeholder mentions its name and those behind it: no
other placeholder begins before this one ends. -/
theorem mentions_append_iff {found p : List Char} (hp : IsPlaceholder found p) :
    Mentions (p ++ s) name ↔ name = found ∨ Mentions s name := by
  have htake := takePlaceholder?_append hp s
  obtain ⟨t, hne, ht, rfl⟩ := exists_eq_of_isPlaceholder hp
  rw [List.cons_append] at htake ⊢
  rw [mentions_cons_iff, htake, mentions_brace_append hne ht]
  simp [eq_comm]

/-- Taking placeholders from left to right finds every name that is mentioned. -/
theorem mem_names_iff : name ∈ names s ↔ Mentions s name := by
  fun_induction names s with
  | case1 => simp [not_mentions_nil]
  | case2 c rest found after htake _ ih =>
    obtain ⟨p, hp, heq⟩ := exists_of_takePlaceholder? htake
    rw [heq, mentions_append_iff hp, List.mem_cons, ih]
  | case3 c rest htake ih =>
    rw [mentions_cons_iff, htake, ih]
    simp

theorem mem_placeholders_iff {template x : String} :
    x ∈ placeholders template ↔ Mentions template.toList x.toList := by
  rw [placeholders, mem_ascending_iff, ← mem_names_iff, List.mem_map]
  constructor
  · rintro ⟨name, hname, rfl⟩
    rwa [String.toList_ofList]
  · intro h
    exact ⟨x.toList, h, String.ofList_toList⟩

end Template

/-! ## Two sets compared -/

/-- A list is strictly ascending by the bytes of its texts and has the members of a set. -/
def ListsAscending (xs : List String) (members : Set String) : Prop :=
  xs.Pairwise (fun a b => Text.bytes a < Text.bytes b) ∧ {x | x ∈ xs} = members

namespace Consistency

variable {template x : String} {declared : List String}

theorem ne_empty_of_mentions (h : Template.Mentions template.toList x.toList) : x ≠ "" := by
  rintro rfl
  obtain ⟨p, ⟨hne, -⟩, -⟩ := h
  exact hne rfl

theorem mem_undeclared_iff :
    x ∈ (ofTemplate template declared).undeclared ↔
      Template.Mentions template.toList x.toList ∧ x ∉ declared := by
  simp only [ofTemplate, List.mem_filter, Template.mem_placeholders_iff, Bool.not_eq_true',
    List.contains_eq_mem, decide_eq_false_iff_not, String.isEmpty_eq_false_iff, not_and_or]
  constructor
  · rintro ⟨hmentions, hnot | hempty⟩
    · exact ⟨hmentions, hnot⟩
    · exact absurd (ne_empty_of_mentions hmentions) hempty
  · rintro ⟨hmentions, hnot⟩
    exact ⟨hmentions, .inl hnot⟩

theorem mem_unused_iff :
    x ∈ (ofTemplate template declared).unused ↔
      (x ∈ declared ∧ x ≠ "") ∧ ¬Template.Mentions template.toList x.toList := by
  simp only [ofTemplate, List.mem_filter, mem_ascending_iff, ← Template.mem_placeholders_iff,
    Bool.not_eq_true', List.contains_eq_mem, decide_eq_false_iff_not,
    String.isEmpty_eq_false_iff]

theorem holds_iff :
    (ofTemplate template declared).holds = true ↔
      Template.mentioned template = {x | x ∈ declared ∧ x ≠ ""} := by
  simp only [holds, Bool.and_eq_true, List.isEmpty_iff, List.eq_nil_iff_forall_not_mem,
    mem_undeclared_iff, mem_unused_iff, not_and_not_right, Set.ext_iff, Template.mentioned,
    Set.mem_ofPred_eq]
  constructor
  · rintro ⟨hundeclared, hunused⟩ x
    exact ⟨fun h => ⟨hundeclared x h, ne_empty_of_mentions h⟩, hunused x⟩
  · intro h
    exact ⟨fun x hx => ((h x).1 hx).1, fun x hx => (h x).2 hx⟩

/-- A template is consistent with names where the names that it mentions are the ones
that are declared; what is reported are the two differences. -/
theorem ofTemplate_differences (template : String) (declared : List String) :
    ListsAscending (Template.placeholders template) (Template.mentioned template) ∧
      ListsAscending (ofTemplate template declared).undeclared
        (Template.mentioned template \ {x | x ∈ declared}) ∧
      ListsAscending (ofTemplate template declared).unused
        ({x | x ∈ declared ∧ x ≠ ""} \ Template.mentioned template) ∧
      ((ofTemplate template declared).holds = true ↔
        Template.mentioned template = {x | x ∈ declared ∧ x ≠ ""}) := by
  refine ⟨⟨pairwise_ascending _, ?_⟩, ⟨(pairwise_ascending _).filter _, ?_⟩,
    ⟨(pairwise_ascending _).filter _, ?_⟩, holds_iff⟩
  · ext x
    exact Template.mem_placeholders_iff
  · ext x
    exact mem_undeclared_iff
  · ext x
    exact mem_unused_iff

end Consistency

end PromptDoc
