import PromptDoc.Proofs.FrontMatter.Output
import PromptDoc.Proofs.Yaml.Cut
import PromptDoc.Proofs.Yaml.Reading

/-!
# When a stable form is stable

Bringing a text into its stable form twice should change nothing the second
time, and the front matter should hold the same document, its keys in canonical
order. Both are so exactly when the canonical document does not lose a line
feed: the block in the outcome is the written document without the line feed at
its end, and a literal block that comes last notices.
-/

namespace PromptDoc

open Yaml

namespace Envelope

/-! ## Reading a block -/

theorem of_mem_withBreaks {P : Char → Prop} (hreturn : P '\r') (hfeed : P '\n') (e : Envelope)
    {s : List Char} (hs : ∀ c ∈ s, P c) : ∀ c ∈ e.withBreaks s, P c := by
  intro c hc
  obtain ⟨d, hd, hc⟩ := List.mem_flatMap.1 hc
  split at hc
  · rcases lineBreak_eq e with h | h <;> rw [h] at hc
    · rw [List.mem_singleton.1 hc]
      exact hfeed
    · rcases List.mem_cons.1 hc with rfl | hc
      · exact hreturn
      · rw [List.mem_singleton.1 hc]
        exact hfeed
  · rw [List.mem_singleton.1 hc]
    exact hs d hd

theorem unifyBreaks_withBreaks (e : Envelope) {s : List Char} (hs : ∀ c ∈ s, isKept c = true) :
    Source.unifyBreaks (e.withBreaks s) = s := by
  induction s with
  | nil => rfl
  | cons c s ih =>
      have ih := ih fun d hd => hs d (by simp [hd])
      by_cases hc : c = '\n'
      · rw [hc, withBreaks_lineFeed]
        rcases lineBreak_eq e with h | h
        · rw [h, List.singleton_append, Source.unifyBreaks, if_neg (by decide), ih]
          intro more heq
          cases heq
        · rw [h]
          exact congrArg (List.cons '\n') ih
      · have hkept := hs c (by simp)
        simp only [isKept, Bool.and_eq_true, bne_iff_ne] at hkept
        obtain ⟨⟨⟨-, hreturn⟩, hnext⟩, -⟩ := hkept
        rw [withBreaks_cons_of_ne e hc, Source.unifyBreaks, if_neg (by simp [hreturn, hnext]), ih]
        intro more heq
        exact absurd heq hreturn

/-- The kind of line breaks is lost on the reader. -/
theorem prepare?_withBreaks (e : Envelope) {s : List Char} (hs : ∀ c ∈ s, isKept c = true) :
    Source.prepare? (e.withBreaks s) = some s := by
  have hread : ∀ c ∈ e.withBreaks s, isReadable c = true ∧ c ≠ byteOrderMark := by
    refine of_mem_withBreaks (by decide) (by decide) e fun c hc => ?_
    have hkept := hs c hc
    simp only [isKept, Bool.and_eq_true, bne_iff_ne] at hkept
    exact ⟨hkept.1.1.1, hkept.2⟩
  rw [Source.prepare?, Source.dropMark_eq_self fun hmark => (hread _ hmark).2 rfl,
    List.all_eq_true.2 fun c hc => (hread c hc).1, unifyBreaks_withBreaks e hs]
  rfl

theorem withBreaks_injective (e : Envelope) {s t : List Char} (hs : ∀ c ∈ s, isKept c = true)
    (ht : ∀ c ∈ t, isKept c = true) (h : e.withBreaks s = e.withBreaks t) : s = t := by
  have hprepare := prepare?_withBreaks e hs
  rw [h, prepare?_withBreaks e ht] at hprepare
  exact (Option.some.inj hprepare).symm

/-- What a block with a written document is read as. -/
theorem readChars_withBreaks (e : Envelope) {v : Json} (hv : Portable Value.depthLimit v) :
    readChars (e.withBreaks (Layout.stable.body v)) = .ok (Layout.rereadRoot false v) := by
  have hkept : ∀ c ∈ Layout.stable.body v, isKept c = true :=
    fun c hc => isKept_of_mem_body hv.legible hc
  have hread := readChars_body (o := Layout.stable) (by decide) hv.wellFormed hv.withinLimits
    (.inl rfl)
  have hvalue : value? (e.withBreaks (Layout.stable.body v)) = value? (Layout.stable.body v) := by
    rw [value?, value?, prepare?_withBreaks e hkept, Source.prepare?_of_isKept hkept]
  rw [List.append_nil] at hread
  rw [readChars, hvalue]
  exact hread

/-- Blocks with different documents differ. -/
theorem withBreaks_body_injective (e : Envelope) {v w : Json} (hv : Portable Value.depthLimit v)
    (hw : Portable Value.depthLimit w)
    (h : e.withBreaks (Layout.stable.body v) = e.withBreaks (Layout.stable.body w)) : v = w := by
  refine body_injective (o := Layout.stable) (by decide) hv hw ?_
  exact withBreaks_injective e (fun c hc => isKept_of_mem_body hv.legible hc)
    (fun c hc => isKept_of_mem_body hw.legible hc) h

theorem isBlank_withBreaks (e : Envelope) {s : List Char} {c : Char} (hc : c ∈ s)
    (hspace : Text.isSpace c = false) :
    ({ e with block := e.withBreaks s } : Envelope).isBlank = false := by
  refine Bool.eq_false_iff.2 fun hblank => ?_
  have hmem : c ∈ e.withBreaks s := by
    refine List.mem_flatMap.2 ⟨c, hc, ?_⟩
    rw [if_neg]
    · exact List.mem_singleton_self c
    · rintro rfl
      exact absurd hspace (by decide)
  rw [List.all_eq_true.1 hblank c hmem] at hspace
  cases hspace

end Envelope

/-- A document that loses a line feed is a collection, so a dash or a colon is
in its text. -/
theorem Yaml.exists_of_losesLineFeed {v : Json} (h : losesLineFeed v = true) :
    ∃ c ∈ Layout.stable.body v, Text.isSpace c = false := by
  cases v with
  | arr xs =>
      cases xs with
      | nil => cases h
      | cons x xs => exact ⟨'-', by simp [Layout.body], by decide⟩
  | obj fs =>
      cases fs with
      | nil => cases h
      | cons f fs =>
          have hkey : ':' ∈ Layout.key 0 f.1 := by
            unfold Layout.key
            simp only
            split <;> simp
          exact ⟨':', List.mem_append_left _ hkey, by decide⟩
  | _ => cases h

namespace Stabilized

/-- A text has front matter that is not blank, and it holds a document. -/
def Loads (text : List Char) (document : Json) : Prop :=
  ∃ e, Envelope.split? text = some e ∧ e.isBlank = false ∧ readChars e.block = .ok document

theorem Loads.unique {text : List Char} {v w : Json} (hv : Loads text v) (hw : Loads text w) :
    v = w := by
  obtain ⟨e, he, -, hread⟩ := hv
  obtain ⟨f, hf, -, hread'⟩ := hw
  obtain rfl := Option.some.inj (he.symm.trans hf)
  exact Except.ok.inj (hread.symm.trans hread')

/-- A text without front matter to change is its own stable form. -/
theorem eq_unchanged_or_exists {text : List Char} {s : Stabilized} (hs : ofText text = .ok s) :
    (s = unchanged text ∧ ∀ document, ¬ Loads text document) ∨
      ∃ e document, Envelope.split? text = some e ∧ Loads text document ∧
        s = ofDocument text e document := by
  cases hsplit : Envelope.split? text with
  | none =>
      rw [ofText, hsplit] at hs
      refine .inl ⟨(Except.ok.inj hs).symm, ?_⟩
      rintro document ⟨e, he, -⟩
      rw [hsplit] at he
      cases he
  | some e =>
      cases hblank : e.isBlank with
      | true =>
          rw [ofText, hsplit] at hs
          simp only [hblank, if_true] at hs
          refine .inl ⟨(Except.ok.inj hs).symm, ?_⟩
          rintro document ⟨f, hf, hnot, -⟩
          obtain rfl := Option.some.inj (hsplit.symm.trans hf)
          rw [hblank] at hnot
          cases hnot
      | false =>
          obtain ⟨document, hread, rfl⟩ := exists_document hsplit hblank hs
          exact .inr ⟨e, document, rfl, ⟨e, hsplit, hblank, hread⟩, rfl⟩

/-- A stable form counts as changed exactly when it is another text. -/
theorem changed_iff_output_ne {text : List Char} {s : Stabilized} (hs : ofText text = .ok s) :
    s.changed = true ↔ s.output ≠ text := by
  obtain ⟨rfl, -⟩ | ⟨e, document, -, -, rfl⟩ := eq_unchanged_or_exists hs
  · simp [unchanged]
  · unfold ofDocument
    simp only
    split
    case isTrue => simp [unchanged]
    case isFalse h => simp [h]

section Again

variable {text : List Char} {e : Envelope} {document : Json}
  (hsplit : Envelope.split? text = some e)

include hsplit

/-- Different documents give different texts around the same body. -/
theorem rejoin_document_injective {v w : Json} (hv : Portable Value.depthLimit v)
    (hw : Portable Value.depthLimit w)
    (h : e.rejoin (Layout.stable.document v) = e.rejoin (Layout.stable.document w)) : v = w := by
  have hblock : ∀ v, Envelope.split? (e.rejoin (Layout.stable.document v)) =
      some { e with block := e.withBreaks (Layout.stable.body v) } := by
    intro v
    rw [Layout.document_eq_body]
    exact Envelope.split?_rejoin hsplit (markerFree_body .stable v).2
      fun c hc => ne_return_of_mem_body hc
  have hsame := hblock v
  rw [h, hblock w] at hsame
  exact (e.withBreaks_body_injective hw hv (congrArg Envelope.block (Option.some.inj hsame))).symm

variable (hportable : Portable Value.depthLimit document)

include hportable

/-- The document in the outcome is the canonical one if that loses no line
feed. -/
theorem readChars_ofDocument_iff :
    (∃ f, Envelope.split? (ofDocument text e document).output = some f ∧
        readChars f.block = .ok document.canonical) ↔
      losesLineFeed document.canonical = false := by
  have hblock := split?_ofDocument hsplit document
  have hread := Envelope.readChars_withBreaks e (Json.portable_canonical hportable)
  rw [← rereadRoot_false_eq_iff]
  constructor
  · rintro ⟨f, hf, hdocument⟩
    obtain rfl := Option.some.inj (hblock.symm.trans hf)
    exact Except.ok.inj (hread.symm.trans hdocument)
  · intro hsame
    exact ⟨_, hblock, by rw [hread, hsame]⟩

/-- The outcome is its own stable form if no line feed is lost: what is read from
it is canonical already, and different documents are written differently. -/
theorem ofText_ofDocument_iff :
    ofText (ofDocument text e document).output =
        .ok (unchanged (ofDocument text e document).output) ↔
      losesLineFeed document.canonical = false := by
  have hblock := split?_ofDocument hsplit document
  have hcanonical := Json.portable_canonical hportable
  have hread := Envelope.readChars_withBreaks e hcanonical
  have hagain : (Layout.rereadRoot false document.canonical).canonical =
      Layout.rereadRoot false document.canonical :=
    Json.canonical_of_isCanonical (isCanonical_rereadRoot (Json.isCanonical_canonical document))
  constructor
  · intro hunchanged
    refine Bool.eq_false_iff.2 fun hloses => ?_
    obtain ⟨c, hc, hspace⟩ := exists_of_losesLineFeed hloses
    rw [ofText_of_split? hblock (e.isBlank_withBreaks hc hspace), hread] at hunchanged
    have houtput := congrArg Stabilized.output (Except.ok.inj hunchanged)
    rw [output_ofDocument, hagain] at houtput
    have hsame := rejoin_document_injective hsplit (Layout.portable_rereadRoot hcanonical)
      hcanonical (houtput.trans (output_ofDocument text e document))
    rw [(rereadRoot_false_eq_iff _).1 hsame] at hloses
    cases hloses
  · intro hkept
    rw [(rereadRoot_false_eq_iff _).2 hkept] at hread hagain
    rw [ofText, hblock]
    dsimp only
    split
    · rfl
    · rw [hread]
      refine congrArg Except.ok (if_pos ?_)
      rw [hagain]
      exact (output_ofDocument text e document).symm

end Again

/-- A stable form is stable, and its front matter holds the canonical form of
the document that was there, exactly when that form loses no line feed. -/
theorem stable_iff {text : List Char} {s : Stabilized} (hs : ofText text = .ok s)
    (hlimits : ∀ document, Loads text document → WithinLimits document) :
    (ofText s.output = .ok (unchanged s.output) ∧
        ∀ document, Loads text document → ∃ e, Envelope.split? s.output = some e ∧
          readChars e.block = .ok document.canonical) ↔
      ∀ document, Loads text document → losesLineFeed document.canonical = false := by
  rcases eq_unchanged_or_exists hs with ⟨rfl, hnone⟩ | ⟨e, document, hsplit, hloads, rfl⟩
  · exact iff_of_true ⟨hs, fun document h => absurd h (hnone document)⟩
      fun document h => absurd h (hnone document)
  · have hwell : document.WellFormed := by
      obtain ⟨f, -, -, hread⟩ := hloads
      exact wellFormed_of_readChars hread
    have hportable := (hlimits document hloads).portable hwell
    constructor
    · rintro ⟨hagain, -⟩ other hother
      obtain rfl := hloads.unique hother
      exact (ofText_ofDocument_iff hsplit hportable).1 hagain
    · intro hkept
      refine ⟨(ofText_ofDocument_iff hsplit hportable).2 (hkept document hloads), ?_⟩
      intro other hother
      obtain rfl := hloads.unique hother
      exact (readChars_ofDocument_iff hsplit hportable).2 (hkept document hloads)

/-- A string with a line feed that is not its last character. -/
theorem stable_iff_lines :
    let text := "---\nid: \"a\\nb\"\n---\nbody".toList
    let s : Stabilized := ⟨"---\nid: |-\n  a\n  b\n---\nbody".toList, true, [.layout]⟩
    ofText text = .ok s ∧ (∀ document, Loads text document → WithinLimits document) ∧
      ofText s.output = .ok (unchanged s.output) ∧
        ∀ document, Loads text document → ∃ e, Envelope.split? s.output = some e ∧
          readChars e.block = .ok document.canonical := by
  have hs : ofText "---\nid: \"a\\nb\"\n---\nbody".toList =
      .ok ⟨"---\nid: |-\n  a\n  b\n---\nbody".toList, true, [.layout]⟩ := by
    decide +kernel
  have hloads : Loads "---\nid: \"a\\nb\"\n---\nbody".toList (.obj [("id", .str "a\nb")]) :=
    ⟨⟨"id: \"a\\nb\"".toList, ['\n'], "body".toList, false⟩, by decide +kernel⟩
  have hlimits : ∀ document, Loads "---\nid: \"a\\nb\"\n---\nbody".toList document →
      WithinLimits document := by
    intro document h
    rw [h.unique hloads]
    decide +kernel
  refine ⟨hs, hlimits, (stable_iff hs hlimits).2 ?_⟩
  intro document h
  rw [h.unique hloads]
  decide +kernel

/-- A string that ends with a line feed: the outcome is not stable, and its front
matter holds a shorter string. -/
theorem unstable_lineFeed :
    let text := "---\nk: \"a\\n\"\n---\n".toList
    let s : Stabilized := ⟨"---\nk: |\n  a\n---\n".toList, true, [.layout]⟩
    ofText text = .ok s ∧ Loads text (.obj [("k", .str "a\n")]) ∧
      WithinLimits (.obj [("k", .str "a\n")]) ∧ ofText s.output ≠ .ok (unchanged s.output) ∧
      Loads s.output (.obj [("k", .str "a")]) := by
  refine ⟨by decide +kernel, ?_, by decide +kernel, by decide +kernel, ?_⟩
  · exact ⟨⟨"k: \"a\\n\"".toList, ['\n'], [], false⟩, by decide +kernel⟩
  · exact ⟨⟨"k: |\n  a".toList, ['\n'], [], false⟩, by decide +kernel⟩

end Stabilized

end PromptDoc
