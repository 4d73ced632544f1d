import Mathlib.Data.List.Basic
import PromptDoc.Json.Pointer
import PromptDoc.Json.Value
import PromptDoc.Proofs.Yaml.Number
import PromptDoc.Text.Pieces

/-!
# Pointers, read back and followed

`Pointer.parse?` reads a JSON pointer by the grammar of RFC 6901. It reads what
`Pointer.render` writes and nothing else (`Pointer.parse?_eq_some_iff`), so a pointer
stands for one place. `Json.at?` follows the tokens of a place into a value: they are
the keys of objects and the indices of arrays.
-/

namespace PromptDoc

namespace Pointer

/-! ## Tokens -/

/-- The characters of a token as a pointer shows them. -/
def escapeChars (token : List Char) : List Char :=
  token.flatMap fun c => if c = '~' then ['~', '0'] else if c = '/' then ['~', '1'] else [c]

/-- The token that characters of a pointer stand for. A tilde only stands before a zero
or a one, and a slash does not belong to a token. -/
def unescape? : List Char → Option (List Char)
  | [] => some []
  | '~' :: '0' :: rest => (unescape? rest).map ('~' :: ·)
  | '~' :: '1' :: rest => (unescape? rest).map ('/' :: ·)
  | c :: rest => if c = '~' ∨ c = '/' then none else (unescape? rest).map (c :: ·)

theorem escape_eq (token : String) : escape token = String.ofList (escapeChars token.toList) :=
  rfl

theorem escapeChars_tilde (token : List Char) :
    escapeChars ('~' :: token) = '~' :: '0' :: escapeChars token := rfl

theorem escapeChars_slash (token : List Char) :
    escapeChars ('/' :: token) = '~' :: '1' :: escapeChars token := rfl

theorem escapeChars_cons {c : Char} (htilde : c ≠ '~') (hslash : c ≠ '/') (token : List Char) :
    escapeChars (c :: token) = c :: escapeChars token := by
  rw [escapeChars, List.flatMap_cons, if_neg htilde, if_neg hslash]
  rfl

theorem unescape?_cons {c : Char} (htilde : c ≠ '~') (hslash : c ≠ '/') (cs : List Char) :
    unescape? (c :: cs) = (unescape? cs).map (c :: ·) := by
  rw [unescape?, if_neg (not_or.2 ⟨htilde, hslash⟩)]
  · exact fun _ h => absurd h htilde
  · exact fun _ h => absurd h htilde

theorem slash_notMem_escapeChars (token : List Char) : '/' ∉ escapeChars token := by
  intro h
  obtain ⟨c, -, hc⟩ := List.mem_flatMap.1 h
  split_ifs at hc with htilde hslash
  · simp at hc
  · simp at hc
  · exact hslash (List.mem_singleton.1 hc).symm

/-- Every character that is escaped makes the text longer. -/
theorem length_escapeChars (token : List Char) :
    (escapeChars token).length = token.length + token.countP fun c => c = '~' ∨ c = '/' := by
  induction token with
  | nil => rfl
  | cons c token ih =>
      rw [List.countP_cons, List.length_cons]
      by_cases htilde : c = '~'
      · simp [htilde, escapeChars_tilde, ih]
        omega
      by_cases hslash : c = '/'
      · simp [hslash, escapeChars_slash, ih]
        omega
      · simp [escapeChars_cons htilde hslash, ih, htilde, hslash]
        omega

theorem escapeChars_eq_self_iff {token : List Char} :
    escapeChars token = token ↔ '~' ∉ token ∧ '/' ∉ token := by
  constructor
  · intro h
    have hcount : token.countP (fun c => c = '~' ∨ c = '/') = 0 := by
      have hlength := length_escapeChars token
      rw [h] at hlength
      omega
    rw [List.countP_eq_zero] at hcount
    exact ⟨fun hmem => hcount _ hmem (by decide), fun hmem => hcount _ hmem (by decide)⟩
  · intro h
    induction token with
    | nil => rfl
    | cons c token ih =>
        simp only [List.mem_cons, not_or] at h
        obtain ⟨⟨htilde, htildes⟩, hslash, hslashes⟩ := h
        rw [escapeChars_cons (Ne.symm htilde) (Ne.symm hslash), ih ⟨htildes, hslashes⟩]

theorem unescape?_escapeChars (token : List Char) : unescape? (escapeChars token) = some token := by
  induction token with
  | nil => rfl
  | cons c token ih =>
      by_cases htilde : c = '~'
      · rw [htilde, escapeChars_tilde, unescape?, ih]
        rfl
      by_cases hslash : c = '/'
      · rw [hslash, escapeChars_slash, unescape?, ih]
        rfl
      · rw [escapeChars_cons htilde hslash, unescape?_cons htilde hslash, ih]
        rfl

theorem escapeChars_of_unescape? {cs token : List Char} (h : unescape? cs = some token) :
    escapeChars token = cs := by
  induction cs using unescape?.induct generalizing token with
  | case1 =>
      obtain rfl := Option.some.inj h
      rfl
  | case2 rest ih =>
      obtain ⟨t, ht, rfl⟩ := Option.map_eq_some_iff.1 h
      rw [escapeChars_tilde, ih ht]
  | case3 rest ih =>
      obtain ⟨t, ht, rfl⟩ := Option.map_eq_some_iff.1 h
      rw [escapeChars_slash, ih ht]
  | case4 c rest hzero hone hc =>
      rw [unescape?, if_pos hc] at h
      · cases h
      · exact hzero
      · exact hone
  | case5 c rest hzero hone hc ih =>
      obtain ⟨htilde, hslash⟩ := not_or.1 hc
      rw [unescape?_cons htilde hslash] at h
      obtain ⟨t, ht, rfl⟩ := Option.map_eq_some_iff.1 h
      rw [escapeChars_cons htilde hslash, ih ht]

/-! ## Pointers -/

theorem foldl_eq_append (tokens : List String) (start : String) :
    tokens.foldl (fun text token => text ++ "/" ++ escape token) start =
      start ++ render tokens := by
  rw [render]
  induction tokens generalizing start with
  | nil => simp
  | cons token tokens ih =>
      rw [List.foldl_cons, List.foldl_cons, ih, ih ("" ++ "/" ++ escape token)]
      simp only [String.append_assoc, String.empty_append]

/-- A pointer goes on where another one ends. -/
theorem render_append (tokens more : List String) :
    render (tokens ++ more) = render tokens ++ render more := by
  rw [render, List.foldl_append, foldl_eq_append more]
  rfl

theorem render_concat (tokens : List String) (token : String) :
    render (tokens ++ [token]) = render tokens ++ "/" ++ escape token := by
  rw [render_append, String.append_assoc]
  rfl

/-- The token that a part of a pointer stands for. -/
def token? (part : List Char) : Option String :=
  (unescape? part).map String.ofList

/-- The tokens of a pointer, each of them behind a slash. -/
def parse? (pointer : String) : Option (List String) :=
  match Text.pieces '/' pointer.toList with
  | [] :: parts => parts.mapM token?
  | _ => none

theorem token?_eq_some_iff {part : List Char} {token : String} :
    token? part = some token ↔ part = escapeChars token.toList := by
  rw [token?, Option.map_eq_some_iff]
  constructor
  · rintro ⟨cs, hcs, rfl⟩
    rw [String.toList_ofList, escapeChars_of_unescape? hcs]
  · rintro rfl
    exact ⟨token.toList, unescape?_escapeChars _, String.ofList_toList⟩

theorem mapM_token?_eq_some_iff {parts : List (List Char)} {tokens : List String} :
    parts.mapM token? = some tokens ↔ parts = tokens.map fun t => escapeChars t.toList := by
  induction parts generalizing tokens with
  | nil => cases tokens <;> simp
  | cons part parts ih =>
      rw [List.mapM_cons]
      cases tokens <;> simp [Option.bind_eq_some_iff, token?_eq_some_iff, ih]

theorem toList_render (tokens : List String) :
    (render tokens).toList = Text.join '/' ([] :: tokens.map fun t => escapeChars t.toList) := by
  induction tokens with
  | nil => rfl
  | cons token tokens ih =>
      rw [render, List.foldl_cons, foldl_eq_append, String.toList_append, ih]
      cases tokens <;> simp [Text.join, escape_eq]

/-- A pointer is read as the place that it was written for, and no other text is read
as that place. -/
theorem parse?_eq_some_iff {pointer : String} {tokens : List String} :
    parse? pointer = some tokens ↔ pointer = render tokens := by
  constructor
  · intro h
    rw [parse?] at h
    split at h
    · next parts hpieces =>
      apply String.toList_injective
      rw [toList_render, ← mapM_token?_eq_some_iff.1 h, ← hpieces, Text.join_pieces]
    · cases h
  · rintro rfl
    have hslash : ∀ part ∈ [] :: tokens.map fun t => escapeChars t.toList, '/' ∉ part := by
      simp [slash_notMem_escapeChars]
    rw [parse?, toList_render, Text.pieces_join (List.cons_ne_nil _ _) hslash]
    exact mapM_token?_eq_some_iff.2 rfl

theorem parse?_render (tokens : List String) : parse? (render tokens) = some tokens :=
  parse?_eq_some_iff.2 rfl

theorem render_injective : Function.Injective render := by
  intro tokens more h
  have hmore := parse?_render more
  rw [← h, parse?_render] at hmore
  exact Option.some.inj hmore

end Pointer

namespace Json

/-- The number that a token writes, without zeros in front. -/
def index? (token : String) : Option Nat :=
  (Digits.read? 10 token.toList).filter fun n => toString n = token

/-- The field of an object or the item of an array that a token leads to. -/
def child? : Json → String → Option Json
  | .obj fields, token => Fields.get? fields token
  | .arr items, token => (index? token).bind (items[·]?)
  | _, _ => none

/-- The value at a place. -/
def at? (v : Json) (place : List String) : Option Json :=
  place.foldlM child? v

theorem index?_toString (n : Nat) : index? (toString n) = some n := by
  have htext : (toString n).toList = Nat.toDigits 10 n := String.toList_ofList
  rw [index?, htext, Digits.read?_toDigits]
  simp

theorem child?_arr_toString (items : List Json) (i : Nat) :
    child? (.arr items) (toString i) = items[i]? := by
  rw [child?, index?_toString]
  rfl

theorem at?_concat (v : Json) (place : List String) (token : String) :
    v.at? (place ++ [token]) = (v.at? place).bind (child? · token) := by
  rw [at?, List.foldlM_append]
  simp [at?]

end Json

end PromptDoc
