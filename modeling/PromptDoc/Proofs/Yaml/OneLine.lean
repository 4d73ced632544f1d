import PromptDoc.Proofs.Yaml.Marker
import PromptDoc.Proofs.Yaml.Nodes
import PromptDoc.Proofs.Yaml.Source

/-!
# Strings on one line as documents

A string on one line is read as that string wherever it stands: on its own, behind the
key of a mapping and behind the dash of a sequence (`read_oneLine`). Nothing is asked of the
string. What looks like a number, a key, a comment or a marker is quoted, and a character
that YAML excludes is escaped.
-/

namespace PromptDoc.Yaml

open Token.Lexer

/-- A string on one line at the end of a text: what is open is closed behind it. -/
theorem Token.Lexer.run?_lastText {is : List Nat} {allowed : Bool} {ts : List Token}
    {p : Position} (hp : parentOf is ≤ p.column + 1)
    (hreq : allowed = true → parentOf is ≠ p.column + 1) (s : List Char) :
    (settled is allowed ts p).run? (Quoted.text s) =
      some (ts ++ [.scalar (staysPlain s) s] ++ is.map fun _ => .blockEnd) := by
  have hrun := run?_text hp hreq
    ⟨.lineStart, [], .stop _, run?_nil is true (ts ++ [.scalar (staysPlain s) s]) .lineStart⟩
  rwa [List.append_nil] at hrun

theorem Token.Lexer.scan?_text (s : List Char) :
    scan? (Quoted.text s) = some [.scalar (staysPlain s) s] := by
  change (settled [] true [] ⟨0, 0⟩).run? _ = _
  exact run?_lastText (Nat.zero_le _) (fun _ => by simp [parentOf]) s

theorem Token.Lexer.scan?_field {k : String} (hk : KeyFits k) (s : List Char) :
    scan? (Layout.key 0 k ++ ' ' :: Quoted.text s) =
      some (.blockMappingStart :: (keyTokens k ++ [.scalar (staysPlain s) s, .blockEnd])) := by
  have hopens : Opens .blockMappingStart [] 0 [.blockMappingStart] [0] := .new (Nat.le_refl 0)
  change (settled [] true [] ⟨0, 0⟩).run? _ = _
  refine run?_key hopens hk rfl fun allowed q hq => run?_space ?_
  refine (run?_lastText ?_ (fun _ => ?_) s).trans (by simp)
  all_goals
    simp only [parentOf, Position.column_next]
    omega

theorem Token.Lexer.scan?_item (s : List Char) :
    scan? ('-' :: ' ' :: Quoted.text s) =
      some [.blockSequenceStart, .blockEntry, .scalar (staysPlain s) s, .blockEnd] := by
  have hopens : Opens .blockSequenceStart [] 0 [.blockSequenceStart] [0] := .new (Nat.le_refl 0)
  change (settled [] true [] ⟨0, 0⟩).run? _ = _
  refine run?_dash hopens (run?_space ?_)
  exact run?_lastText (by simp [parentOf]) (fun _ => by simp [parentOf]) s

/-- A string as it is written on one line. -/
def oneLine (s : String) : String :=
  String.ofList (Quoted.text s.toList)

/-- A string on one line has no line break in it, starts no marker, and is read as that
string: as a document, behind the key of a mapping and behind the dash of a sequence. -/
theorem read_oneLine (s : String) :
    (∀ c ∈ ['\n', '\r', '\u0085', '\u2028', '\u2029'], c ∉ (oneLine s).toList) ∧
      ¬ "---".toList <+: (oneLine s).toList ∧
      read (oneLine s) = .ok (.str s) ∧
      read ("k: " ++ oneLine s) = .ok (.obj [("k", .str s)]) ∧
      read ("- " ++ oneLine s) = .ok (.arr [.str s]) := by
  have hprint : ∀ c ∈ Quoted.text s.toList, isPrintable c = true := fun c =>
    Quoted.isPrintable_of_mem_text
  have hspells : (.scalar .none (staysPlain s.toList) s.toList : Node (List Char)).Spells
      (.str s) := .scalar (Node.ofStyle?_text id) rfl
  have hdepth : 1 ≤ Value.depthLimit := by decide
  have hkept : ∀ c ∈ Quoted.text s.toList, isKept c = true := fun c hc =>
    isKept_of_isPrintable (hprint c hc)
  have hkey : ∀ c ∈ Layout.key 0 "k" ++ [' '], isKept c = true :=
    List.all_eq_true.1 (by decide)
  have hdash : ∀ c ∈ ['-', ' '], isKept c = true := List.all_eq_true.1 (by decide)
  simp only [read, oneLine, String.toList_append, String.toList_ofList]
  refine ⟨?_, ?_, ?_, ?_, ?_⟩
  · intro c hc hmem
    have hbreak := isBreak_of_isPrintable (hprint c hmem)
    simp only [List.mem_cons, List.not_mem_nil, or_false] at hc
    rcases hc with rfl | rfl | rfl | rfl | rfl <;> exact absurd hbreak (by decide)
  · rintro ⟨rest, hrest⟩
    have hnone : ∀ c, ([] : List Char).head? = some c → c ≠ '-' := nofun
    have hstart := startsWithHyphens_text s.toList hnone
    rw [List.append_nil, ← hrest] at hstart
    cases hstart
  · exact readChars_of_spells hkept (scan?_text s.toList) rfl hspells trivial (Nat.zero_le _)
  · exact readChars_of_spells (List.forall_mem_append.2 ⟨hkey, hkept⟩)
      (scan?_field (k := "k") (by decide) s.toList) rfl
      (.mapping (.cons (Node.ofStyle?_text id) hspells .nil))
      ⟨(by decide : ["k"].Nodup), trivial, trivial⟩ hdepth
  · exact readChars_of_spells (List.forall_mem_append.2 ⟨hdash, hkept⟩)
      (scan?_item s.toList) rfl (.sequence (.cons hspells .nil)) ⟨trivial, trivial⟩ hdepth

end PromptDoc.Yaml
