import PromptDoc.FrontMatter.Findings
import PromptDoc.Proofs.Prompt.Alike
import PromptDoc.Proofs.Prompt.Kept
import PromptDoc.Proofs.Prompt.RoundTrip
import PromptDoc.Proofs.Template
import PromptDoc.Proofs.Yaml.Reading

/-!
# What is found in a text

The body of a text with front matter is the template of its prompt, so what is
found are the defects of the document with the body for its template
(`Findings.ofText_reports`): a prompt that does not parse is the only finding, and
otherwise there is one for all placeholders that are no inputs and one for all
inputs that are no placeholders. A template that stands in the block is
overwritten; no schema tells documents apart that have the same fields once it is
(`Findings.parse_withTemplate_eq`).
-/

namespace PromptDoc

open Schema

/-! ## The template and the inputs of a parsed prompt -/

/-- An accepted input has a name. -/
theorem Input.name_ne_empty {v : Json} {i : Input} (haccepts : Edition.input.Accepts v)
    (h : ofJson? v = some i) : i.name ≠ "" := by
  obtain ⟨fs, rfl, hname, -⟩ := ofJson?_eq_some.1 h
  have hget := Fields.get?_of_require? Json.asText?_eq_some hname
  obtain ⟨s, heq, hs⟩ :=
    (accepts_record_iff.1 haccepts).2.1 ("name", Edition.nonEmpty) (by simp) _ hget
  obtain rfl := Json.str.inj heq
  simpa [TextRule.accepts] using hs

namespace Prompt

variable {d d' : Json} {p : Prompt}

theorem get?_template_of_parse (h : parse d = .ok p) :
    d.get? "template" = some (.str p.template) := by
  obtain ⟨v, fs, q, htag, -, hdecoded, rfl⟩ := exists_of_parse h
  have hget : fs.get? "template" = some (.str q.template) :=
    Fields.get?_of_require? Json.asText?_eq_some hdecoded.template
  cases d with
  | obj gs =>
    obtain rfl := Json.obj.inj htag
    rwa [Fields.get?_insert, if_neg (by decide)] at hget
  | _ => cases htag

/-- The inputs of a parsed prompt have names. -/
theorem ne_empty_of_mem_inputNames (h : parse d = .ok p) {x : String} (hx : x ∈ p.inputNames) :
    x ≠ "" := by
  obtain ⟨v, fs, q, -, haccepts, hdecoded, rfl⟩ := exists_of_parse h
  obtain ⟨i, hi, rfl⟩ := List.mem_map.1 hx
  obtain ⟨o, hread, ho⟩ := hdecoded.inputs
  change i ∈ q.inputs at hi
  cases o with
  | none => simp [ho] at hi
  | some inputs =>
    obtain ⟨w, hget, hw⟩ := exists_of_rel_some (Fields.rel_of_allow? hread)
    obtain ⟨xs, hxs, hinputs⟩ := Option.bind_eq_some_iff.1 hw
    obtain rfl := (Json.items?_eq_some w xs).1 hxs
    rw [ho] at hi
    obtain ⟨x, hx, hi⟩ := exists_of_mem_mapM hinputs hi
    obtain ⟨ys, heq, hitems⟩ := accepts_arrayOf_iff.1
      ((accepts_record_iff.1 haccepts).2.1 ("inputs", .arrayOf Edition.input)
        (by simp [Edition.properties]) _ hget)
    obtain rfl := Json.arr.inj heq
    exact Input.name_ne_empty (hitems x hx) hi

/-! ## Documents with one body for their template -/

/-- Records with the same look-ups are parsed alike. -/
theorem parse_obj_eq {fs gs : Fields} (hfs : fs.keys.Nodup) (hgs : gs.keys.Nodup)
    (h : ∀ key, fs.get? key = gs.get? key) : parse (.obj fs) = parse (.obj gs) := by
  refine parse_eq_of_alike (fun _ heq => Json.obj.inj heq ▸ hfs)
    (fun _ heq => Json.obj.inj heq ▸ hgs) (h "version") fun v _ => ?_
  refine alike_record (List.cons_ne_nil _ _)
    (show ∀ name ∈ Edition.required, name ∈ rootOrder by decide) (fun p _ => ?_) fun _ => ?_
  · rw [h]
    exact rel_refl (Alike.refl p.2) _
  · exact ((Fields.perm_of_get?_eq hfs hgs h).map Prod.fst).filter _

end Prompt

/-- The same fields but for the template, in any order. -/
def SameApartFromTemplate : Json → Json → Prop :=
  Json.RelatedObjects fun fs gs => ∀ key, key ≠ "template" → fs.get? key = gs.get? key

namespace Envelope

theorem wellFormed_of_load? {text body : List Char} {document : Json}
    (h : load? text = some (document, body)) : document.WellFormed := by
  unfold load? at h
  split at h
  · cases h
  · split at h
    · next hread =>
      obtain ⟨rfl, -⟩ := Prod.mk.inj (Option.some.inj h)
      exact Yaml.wellFormed_of_readChars hread
    · cases h

end Envelope

namespace Findings

variable {body : List Char} {d d' : Json}

theorem parse_withTemplate_eq (hd : d.WellFormed) (hd' : d'.WellFormed)
    (h : SameApartFromTemplate d d') (body : List Char) :
    Prompt.parse (withTemplate body d) = Prompt.parse (withTemplate body d') := by
  obtain rfl | ⟨fs, gs, rfl, rfl, h⟩ := h.eq_or_exists
  · rfl
  · refine Prompt.parse_obj_eq (Fields.nodup_keys_insert hd.1 _ _)
      (Fields.nodup_keys_insert hd'.1 _ _) fun key => ?_
    rw [Fields.get?_insert, Fields.get?_insert]
    split
    · rfl
    · next hkey => exact h key hkey

/-! ## The findings -/

/-- One finding of a kind where there is something to find, and none otherwise. -/
def OneWhere (P : Prop) (code : Finding.Code) (findings : List Finding) : Prop :=
  (P → findings.map Finding.code = [code]) ∧ (¬P → findings = [])

theorem oneWhere_aboutNames {P : Prop} {code : Finding.Code} {path intro : String}
    {names : List String} (h : (∃ x, x ∈ names) ↔ P) :
    OneWhere P code (aboutNames code path intro names) := by
  rw [OneWhere, ← h]
  cases names with
  | nil => simp [aboutNames]
  | cons x names => simp [aboutNames]

variable {document : Json} {p : Prompt}

theorem template_of_parse_withTemplate (h : Prompt.parse (withTemplate body d) = .ok p) :
    p.template = String.ofList body := by
  have hget := Prompt.get?_template_of_parse h
  cases d with
  | obj fs =>
    change Fields.get? (Fields.insert fs "template" (.str (String.ofList body))) "template" = _
      at hget
    rw [Fields.get?_insert, if_pos rfl] at hget
    exact (Json.str.inj (Option.some.inj hget)).symm
  | _ => cases hget

/-- What is found in a prompt that has the body for its template. -/
theorem exists_ofPrompt_eq (h : Prompt.parse (withTemplate body d) = .ok p)
    (unusedAreErrors : Bool) :
    ∃ missing unused,
      OneWhere (∃ x : String, Template.Mentions body x.toList ∧ x ∉ p.inputNames)
        .missingInput missing ∧
      OneWhere (∃ x ∈ p.inputNames, ¬Template.Mentions body x.toList) .unusedInput unused ∧
      ofPrompt unusedAreErrors p =
        if unusedAreErrors then ⟨.checked, missing ++ unused, []⟩
        else ⟨.checked, missing, unused⟩ := by
  have htemplate : p.template.toList = body := by
    rw [template_of_parse_withTemplate h, String.toList_ofList]
  refine ⟨_, _, oneWhere_aboutNames ?_, oneWhere_aboutNames ?_, rfl⟩
  · simp only [Consistency.ofPrompt, Consistency.mem_undeclared_iff, htemplate]
  · simp only [Consistency.ofPrompt, Consistency.mem_unused_iff, htemplate, and_assoc]
    constructor
    · rintro ⟨x, hx, -, hnot⟩
      exact ⟨x, hx, hnot⟩
    · rintro ⟨x, hx, hnot⟩
      exact ⟨x, hx, Prompt.ne_empty_of_mem_inputNames h hx, hnot⟩

theorem ofText_eq {text : List Char} {e : Envelope} (hsplit : Envelope.split? text = some e)
    (hblank : e.isBlank = false) (hload : Envelope.load? text = some (document, body))
    (unusedAreErrors : Bool) :
    ofText unusedAreErrors text = ofDocument unusedAreErrors document body := by
  simp only [ofText, hsplit, hblank, hload, Bool.false_eq_true, if_false]

/-- A text with front matter is inspected to the end. It has one error where its
document, with the body for its template, is no prompt; otherwise what is found is
the difference between the placeholders of the body and the inputs. A template in
the block makes no difference. -/
theorem ofText_reports {text : List Char} {e : Envelope} (hsplit : Envelope.split? text = some e)
    (hblank : e.isBlank = false) (hload : Envelope.load? text = some (document, body))
    (unusedAreErrors : Bool) :
    (∀ err, Prompt.parse (withTemplate body document) = .error err →
      ofText unusedAreErrors text =
        ⟨.checked, [⟨.invalidFrontMatter, "", "Invalid front matter: " ++ err.message⟩], []⟩) ∧
    (∀ p, Prompt.parse (withTemplate body document) = .ok p →
      ∃ missing unused,
        OneWhere (∃ x : String, Template.Mentions body x.toList ∧ x ∉ p.inputNames)
          .missingInput missing ∧
        OneWhere (∃ x ∈ p.inputNames, ¬Template.Mentions body x.toList) .unusedInput unused ∧
        ofText unusedAreErrors text =
          if unusedAreErrors then ⟨.checked, missing ++ unused, []⟩
          else ⟨.checked, missing, unused⟩) ∧
    ∀ text' e' document', Envelope.split? text' = some e' → e'.isBlank = false →
      Envelope.load? text' = some (document', body) → SameApartFromTemplate document document' →
      ofText unusedAreErrors text' = ofText unusedAreErrors text := by
  refine ⟨fun err herr => ?_, fun p hp => ?_, fun text' e' document' hsplit' hblank' hload' h => ?_⟩
  · rw [ofText_eq hsplit hblank hload, ofDocument, herr]
  · rw [ofText_eq hsplit hblank hload, ofDocument, hp]
    exact exists_ofPrompt_eq hp unusedAreErrors
  · rw [ofText_eq hsplit hblank hload, ofText_eq hsplit' hblank' hload', ofDocument, ofDocument,
      parse_withTemplate_eq (Envelope.wellFormed_of_load? hload)
        (Envelope.wellFormed_of_load? hload') h]

/-- A template of another type in the block, and a body that mentions one of two
inputs. -/
theorem ofText_reports_overwritten :
    let opening := "---\n".toList
    let template := "template: 5\n".toList
    let id := "123e4567-e89b-12d3-a456-426614174000"
    let block := "id: ".toList ++ id.toList ++ "\nname: n\ninputs:\n".toList ++
      "- name: a\n  type: string\n".toList ++ "- name: b\n  type: string".toList
    let closing := "\n---\n".toList
    let body := "Hello \x7b\x7b a \x7d\x7d".toList
    let input : String → Json := fun name => .obj [("name", .str name), ("type", .str "string")]
    let fields : Fields := [("id", .str id), ("name", .str "n"),
      ("inputs", .arr [input "a", input "b"])]
    let document : Json := .obj (("template", .int 5) :: fields)
    let text := opening ++ template ++ block ++ closing ++ body
    let text' := opening ++ block ++ closing ++ body
    let e : Envelope := ⟨template ++ block, ['\n'], body, false⟩
    let e' : Envelope := ⟨block, ['\n'], body, false⟩
    Envelope.split? text = some e ∧ e.isBlank = false ∧
      Envelope.load? text = some (document, body) ∧
      Envelope.split? text' = some e' ∧ e'.isBlank = false ∧
      Envelope.load? text' = some (.obj fields, body) ∧
      SameApartFromTemplate document (.obj fields) ∧
      (∃ p, Prompt.parse (withTemplate body document) = .ok p ∧ p.inputNames = ["a", "b"] ∧
        ∃ missing unused,
          OneWhere (∃ x : String, Template.Mentions body x.toList ∧ x ∉ p.inputNames)
            .missingInput missing ∧
          OneWhere (∃ x ∈ p.inputNames, ¬Template.Mentions body x.toList) .unusedInput unused ∧
          ofText true text = ⟨.checked, missing ++ unused, []⟩) ∧
      ofText true text' = ofText true text := by
  intro opening template id block closing body input fields document text text' e e'
  have hread : Envelope.split? text = some e ∧ e.isBlank = false ∧
      Envelope.load? text = some (document, body) ∧
      Envelope.split? text' = some e' ∧ e'.isBlank = false ∧
      Envelope.load? text' = some (.obj fields, body) := by
    decide +kernel
  obtain ⟨hsplit, hblank, hload, hsplit', hblank', hload'⟩ := hread
  have hsame : SameApartFromTemplate document (.obj fields) := by
    intro key hkey
    rw [Fields.get?_cons, if_neg hkey]
  obtain ⟨p, hparse, hnames⟩ : ∃ p, Prompt.parse (withTemplate body document) = .ok p ∧
      p.inputNames = ["a", "b"] :=
    ⟨⟨2, id, "n", .none, String.ofList body,
      [⟨"a", .string, false, .none, .none, .none⟩, ⟨"b", .string, false, .none, .none, .none⟩],
      .none, .none, .none, .none, .none, .none, .none, .none, [], .none, .none⟩,
      by decide +kernel, rfl⟩
  obtain ⟨-, hok, hother⟩ := ofText_reports hsplit hblank hload true
  exact ⟨hsplit, hblank, hload, hsplit', hblank', hload', hsame, ⟨p, hparse, hnames, hok p hparse⟩,
    hother text' e' (.obj fields) hsplit' hblank' hload' hsame⟩

end Findings

end PromptDoc
