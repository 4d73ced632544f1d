import PromptDoc.Proofs.Yaml.Compact.Text
import PromptDoc.Proofs.Yaml.Lexing

/-!
# Compact JSON text as tokens

The lexer cuts a compact JSON text into the tokens of flow collections
(`scan?_compact`). A key may begin almost anywhere in such a text, but none has to,
so what counts of each level is only which tokens it holds (`Pending.Holds`): a
comma, a bracket or the end of the text settles the rest. The lemmas follow the text
from left to right, each with the run of what comes after its part as a hypothesis.
-/

namespace PromptDoc.Yaml

/-! ## Tokens -/

/-- The tokens of a key, up to the one that announces its value. -/
def flowKeyTokens (k : String) : List Token :=
  [.key, .scalar false k.toList, .value]

mutual

/-- The tokens of the compact text of a value. -/
def flowTokens : Json → List Token
  | .str s => [.scalar false s.toList]
  | .arr [] => [.flowSequenceStart, .flowSequenceEnd]
  | .arr (x :: xs) => .flowSequenceStart :: (flowTokens x ++ moreItemTokens xs)
  | .obj [] => [.flowMappingStart, .flowMappingEnd]
  | .obj ((k, x) :: fs) =>
    .flowMappingStart :: (flowKeyTokens k ++ (flowTokens x ++ moreFieldTokens fs))
  | v => [.scalar true v.compactChars]

/-- Those of the items behind the first one, and of the bracket. -/
def moreItemTokens : List Json → List Token
  | [] => [.flowSequenceEnd]
  | x :: xs => .flowEntry :: (flowTokens x ++ moreItemTokens xs)

/-- Those of the fields behind the first one, and of the brace. -/
def moreFieldTokens : List (String × Json) → List Token
  | [] => [.flowMappingEnd]
  | (k, x) :: fs => .flowEntry :: (flowKeyTokens k ++ (flowTokens x ++ moreFieldTokens fs))

end

namespace Token

/-- The two kinds of flow collections. -/
inductive FlowKind where
  | sequence
  | mapping

namespace FlowKind

def opening : FlowKind → Char
  | sequence => '['
  | mapping => '\x7b'

def closing : FlowKind → Char
  | sequence => ']'
  | mapping => '\x7d'

def start : FlowKind → Token
  | sequence => .flowSequenceStart
  | mapping => .flowMappingStart

def stop : FlowKind → Token
  | sequence => .flowSequenceEnd
  | mapping => .flowMappingEnd

end FlowKind

/-! ## Levels -/

namespace Pending

/-- The level with these tokens where no key may have begun. -/
def ofTokens (ts : List Token) : Pending :=
  ⟨ts.reverse, none, []⟩

/-- The tokens of a level are these ones; a key may have begun among them, but does
not have to. -/
def Holds (f : Pending) (ts : List Token) : Prop :=
  f.settle? = some (ofTokens ts)

variable {f : Pending} {ts : List Token}

theorem holds_ofTokens (ts : List Token) : (ofTokens ts).Holds ts :=
  rfl

theorem pushAll_push (f : Pending) (us : List Token) (t : Token) :
    (f.pushAll us).push t = f.pushAll (t :: us) := by
  obtain ⟨settled, start, since⟩ := f
  cases start <;> rfl

theorem Holds.pushAll (h : f.Holds ts) (us : List Token) :
    (f.pushAll us.reverse).Holds (ts ++ us) := by
  obtain ⟨settled, start, since⟩ := f
  cases start with
  | none =>
      simp only [Holds, settle?, ofTokens, Option.some.injEq, Pending.mk.injEq] at h
      simp [Holds, settle?, ofTokens, Pending.pushAll, h]
  | some k =>
      cases hk : k.required with
      | true => simp [Holds, settle?, hk] at h
      | false =>
          simp only [Holds, settle?, ofTokens, all, hk, Bool.false_eq_true, if_false,
            Option.some.injEq, Pending.mk.injEq, and_true] at h
          simp [Holds, settle?, ofTokens, all, Pending.pushAll, hk, h]

theorem Holds.push (h : f.Holds ts) (t : Token) : (f.push t).Holds (ts ++ [t]) := by
  have hpush : f.push t = f.pushAll [t].reverse := by
    obtain ⟨settled, start, since⟩ := f
    cases start <;> rfl
  rw [hpush]
  exact h.pushAll [t]

/-- A level where a key may begin at a position, if any may. -/
def marked (allowed : Bool) (ts : List Token) (p : Position) : Pending :=
  if allowed then ⟨ts.reverse, some ⟨p, false⟩, []⟩ else ofTokens ts

theorem holds_marked (allowed : Bool) (ts : List Token) (p : Position) :
    (marked allowed ts p).Holds ts := by
  cases allowed <;> rfl

end Pending

namespace Lexer

open Pending

/-- The state without open block collections. -/
def level (outer : List Pending) (allowed : Bool) (f : Pending) (p : Position) : Lexer :=
  ⟨[], allowed, f, outer, p⟩

variable {outer : List Pending} {allowed : Bool} {f g : Pending} {ts r : List Token}
  {p q : Position} {rest : List Char}

theorem unindent_level (closes : Nat → Bool) :
    (level outer allowed f p).unindent closes = level outer allowed f p := by
  obtain ⟨settled, start, since⟩ := f
  cases outer <;> cases start <;> rfl

theorem settle?_level (hf : f.Holds ts) :
    (level outer allowed f p).settle? = some (level outer allowed (ofTokens ts) p) := by
  rw [settle?, show (level outer allowed f p).pending = f from rfl, show f.settle? = _ from hf]
  rfl

theorem markKey?_level :
    (level outer allowed (ofTokens ts) p).markKey? =
      some (level outer allowed (marked allowed ts p) p) := by
  cases allowed with
  | false => rfl
  | true => cases outer <;> rfl

theorem run?_level {c : Char} {cs : List Char} {s : Lexer} (hc : opensToken c = true)
    (htoken : (level outer allowed f p).token? c cs = some (s, rest))
    (hlen : rest.length ≤ cs.length) (h : s.run? rest = some r) :
    (level outer allowed f p).run? (c :: cs) = some r :=
  run?_of_token? (unindent_level _) hc htoken hlen h

/-- The end of the text. -/
theorem run?_end (hf : f.Holds ts) : (level [] allowed f p).run? [] = some ts := by
  have hfinish : (level [] allowed f p).finish? = some ts := by
    rw [finish?, unindent_level, settle?_level hf]
    simp [level, ofTokens, all]
  have hstep : (level [] allowed f p).step? [] = some (.inl ts) :=
    congrArg (Option.map Sum.inl) hfinish
  rw [run?, hstep]

/-! ## Punctuation -/

theorem run?_comma (hf : f.Holds ts)
    (h : (level outer true (ofTokens (ts ++ [.flowEntry])) (p.next ',')).run? rest = some r) :
    (level outer allowed f p).run? (',' :: rest) = some r := by
  have htoken : (level outer allowed f p).token? ',' rest =
      Lexer.flowEntry? (level outer allowed f p) ',' rest := by
    simp [token?, startsMarker_of_ne]
  refine run?_level (by decide) (htoken.trans ?_) (Nat.le_refl _) h
  unfold Lexer.flowEntry?
  rw [settle?_level hf]
  simp [level, push, Pending.push, ofTokens, skip, allowKey]

/-- Behind an opening bracket a level of its own begins. -/
theorem run?_opening (kind : FlowKind)
    (h : ∀ g : Pending, g.Holds (ts ++ [kind.start]) →
      (level (g :: outer) true (ofTokens []) (p.next kind.opening)).run? rest = some r) :
    (level outer allowed (ofTokens ts) p).run? (kind.opening :: rest) = some r := by
  have hopens : opensToken kind.opening = true := by cases kind <;> decide
  have htoken : (level outer allowed (ofTokens ts) p).token? kind.opening rest =
      (level outer allowed (ofTokens ts) p).openFlow? kind.start kind.opening rest := by
    cases kind <;> simp [token?, startsMarker_of_ne, FlowKind.opening, FlowKind.start]
  have hlevel := h _ ((holds_marked allowed ts p).push kind.start)
  refine run?_level hopens (htoken.trans ?_) (Nat.le_refl _) hlevel
  rw [openFlow?, markKey?_level]
  rfl

/-- Behind a closing bracket the tokens of its level belong to the one around it. -/
theorem run?_closing (kind : FlowKind) (hf : f.Holds ts)
    (h : ∀ q, (level outer false (g.pushAll (ts ++ [kind.stop]).reverse) q).run? rest = some r) :
    (level (g :: outer) allowed f p).run? (kind.closing :: rest) = some r := by
  have hopens : opensToken kind.closing = true := by cases kind <;> decide
  have htoken : (level (g :: outer) allowed f p).token? kind.closing rest =
      (level (g :: outer) allowed f p).closeFlow? kind.stop kind.closing rest := by
    cases kind <;> simp [token?, startsMarker_of_ne, FlowKind.closing, FlowKind.stop]
  refine run?_level hopens (htoken.trans ?_) (Nat.le_refl _) (h (p.next kind.closing))
  rw [closeFlow?, settle?_level hf]
  simp [level, push, skip, allowKey, ofTokens, all, pushAll_push]

/-! ## Scalars -/

/-- What may follow a value: the end of the text, or inside a flow collection the
collection's punctuation. -/
def EndsValue (flow : Bool) : List Char → Prop
  | [] => True
  | c :: _ => flow = true ∧ isFlowPunctuation c = true

theorem plain?_endsValue {flow : Bool} {tail : List Char} (h : EndsValue flow tail) (p : Position) :
    plain? flow 0 .none p tail = some ⟨⟨[], p, tail⟩, .none⟩ := by
  cases tail with
  | nil => rfl
  | cons c cs =>
      obtain ⟨rfl, hc⟩ := h
      have hchar : isBlank c = false ∧ isBreak c = false ∧ c ≠ ':' := by
        simp only [isFlowPunctuation, List.mem_cons, List.not_mem_nil, or_false,
          decide_eq_true_eq] at hc
        rcases hc with rfl | rfl | rfl | rfl | rfl <;> decide
      simp [plain?, hchar, hc]

theorem EndsValue.head?_ne {flow : Bool} {tail : List Char} (h : EndsValue flow tail) {c : Char}
    (hc : isFlowPunctuation c = false) : tail.head? ≠ some c := by
  cases tail with
  | nil => simp
  | cons d cs =>
      intro hd
      obtain rfl := Option.some.inj hd
      exact absurd h.2 (by simp [hc])

theorem run?_atom {v : Json} (hv : isAtom v = true) {tail : List Char}
    (htail : EndsValue (!outer.isEmpty) tail)
    (h : ∀ q, (level outer false ((marked allowed ts p).push (.scalar true v.compactChars)) q).run?
      tail = some r) :
    (level outer allowed (ofTokens ts) p).run? (v.compactChars ++ tail) = some r := by
  have hplain := isPlain_atom hv
  have hsafe : ∀ c ∈ v.compactChars, c ≠ '?' ∧ c ≠ ':' ∧ isFlowPunctuation c = false := by
    intro c hc
    have hc := isFlowSafe_of_mem_atom hv c hc
    simp only [isFlowSafe, Bool.not_eq_true', Bool.or_eq_false_iff, decide_eq_false_iff_not] at hc
    exact ⟨hc.1.2, hc.1.1, hc.2⟩
  have hread : plain? (!outer.isEmpty) 0 .none p (v.compactChars ++ tail) =
      some ⟨⟨v.compactChars, p.after v.compactChars, tail⟩, .none⟩ := by
    rw [plain?_isPlain hplain (fun c hc _ => (hsafe c hc).2) (Nat.zero_le _),
      plain?_endsValue htail]
    simp [PlainResult.prepend, ScalarResult.prepend]
  have hscalar : (level outer allowed (ofTokens ts) p).plainScalar? (v.compactChars ++ tail) =
      some (level outer false ((marked allowed ts p).push (.scalar true v.compactChars))
        (p.after v.compactChars), tail) := by
    simp only [plainScalar?, markKey?_level]
    rw [show (level outer allowed (marked allowed ts p) p).inFlow = !outer.isEmpty from rfl,
      show (level outer allowed (marked allowed ts p) p).parent = 0 from rfl,
      show (level outer allowed (marked allowed ts p) p).position = p from rfl, hread]
    simp only [afterScalar?, consumed_append, any_isBreak_of_isPrintable hplain.printable]
    rfl
  generalize v.compactChars = s at hplain hsafe hscalar h ⊢
  obtain ⟨c, cs, rfl⟩ := List.exists_cons_of_ne_nil hplain.ne_nil
  obtain ⟨hopens, htoken⟩ := token?_plain (s := level outer allowed (ofTokens ts) p) hplain
    (fun _ => ⟨(hsafe c (by simp)).1, (hsafe c (by simp)).2.1⟩) tail
    ⟨htail.head?_ne (by decide), htail.head?_ne (by decide)⟩
  exact run?_level hopens (htoken.trans hscalar) (by simp) (h _)

theorem run?_jsonString {s : List Char} (hs : s.all isSpelled = true)
    (h : (level outer false ((marked allowed ts p).push (.scalar false s))
      (p.after (Json.quote s))).run? rest = some r) :
    (level outer allowed (ofTokens ts) p).run? (Json.quote s ++ rest) = some r := by
  have htoken : ∀ cs, (level outer allowed (ofTokens ts) p).token? '"' cs =
      (level outer allowed (ofTokens ts) p).quotedScalar? '"' cs := fun cs => by
    simp [token?, startsMarker_of_ne]
  have hread := doubleQuoted?_json hs (p := p.next '"') (Nat.succ_pos _) rest
  have hinner : ∀ c ∈ s.flatMap Json.escapeChar ++ ['"'], isPrintable c = true := by
    rw [List.forall_mem_append, List.forall_mem_singleton]
    exact ⟨isPrintable_of_mem_flatMap hs, by decide⟩
  have hscalar : (level outer allowed (ofTokens ts) p).quotedScalar? '"'
      (s.flatMap Json.escapeChar ++ '"' :: rest) =
      some (level outer false ((marked allowed ts p).push (.scalar false s))
        (p.after (Json.quote s)), rest) := by
    simp only [quotedScalar?, markKey?_level, if_true]
    rw [show (level outer allowed (marked allowed ts p) p).position = p from rfl, hread,
      List.append_cons]
    simp only [afterScalar?, consumed_append, any_isBreak_of_isPrintable hinner]
    simp [level, push, allowKey, Json.quote, Position.after_append]
  have htext : Json.quote s ++ rest = '"' :: (s.flatMap Json.escapeChar ++ '"' :: rest) := by
    simp [Json.quote]
  have hlen : rest.length ≤ (s.flatMap Json.escapeChar ++ '"' :: rest).length := by
    rw [List.length_append, List.length_cons]
    omega
  rw [htext]
  exact run?_level (by decide) ((htoken _).trans hscalar) hlen h

/-- A key with its colon. -/
theorem run?_jsonKey {k : String} (hk : k.toList.all isSpelled = true)
    (hbytes : byteCount (Json.quote k.toList) ≤ keyByteLimit)
    (h : ∀ q, (level (g :: outer) false (ofTokens (ts ++ flowKeyTokens k)) q).run? rest = some r) :
    (level (g :: outer) true (ofTokens ts) p).run? (Json.quote k.toList ++ ':' :: rest) =
      some r := by
  apply run?_jsonString hk
  have htoken : ∀ s : Lexer, s.inFlow = true → s.token? ':' rest = s.valueMark? ':' rest := by
    intro s hs
    simp [token?, startsMarker_of_ne, hs]
  refine run?_level (by decide) ((htoken _ rfl).trans ?_) (Nat.le_refl _)
    (h ((p.after (Json.quote k.toList)).next ':'))
  have hlimit : (p.after (Json.quote k.toList)).bytes ≤ p.bytes + keyByteLimit := by
    rw [Position.bytes_after]
    exact Nat.add_le_add_left hbytes _
  simp [valueMark?, level, marked, Pending.push, hlimit, confirmKey, inFlow, push, skip, allowKey,
    ofTokens, flowKeyTokens]

/-! ## Values -/

theorem endsValue_moreItems (xs : List Json) (tail : List Char) :
    EndsValue (!(g :: outer).isEmpty) (Json.moreItems xs ++ tail) := by
  cases xs <;> exact ⟨rfl, rfl⟩

theorem endsValue_moreFields (fs : List (String × Json)) (tail : List Char) :
    EndsValue (!(g :: outer).isEmpty) (Json.moreFields fs ++ tail) := by
  cases fs <;> exact ⟨rfl, rfl⟩

mutual

/-- The compact text of a value is cut into its tokens, wherever it stands. -/
theorem run?_compact :
    ∀ (v : Json), spellable v = true → ∀ {outer : List Pending} {allowed : Bool}
      {ts r : List Token} {p : Position} {tail : List Char}, EndsValue (!outer.isEmpty) tail →
      (∀ (f : Pending) q, f.Holds (ts ++ flowTokens v) →
        (level outer false f q).run? tail = some r) →
      (level outer allowed (ofTokens ts) p).run? (v.compactChars ++ tail) = some r
  | .null, _, _, _, _, _, _, _, htail, h =>
      run?_atom rfl htail fun q => h _ q ((holds_marked _ _ _).push _)
  | .bool b, _, _, _, _, _, _, _, htail, h =>
      run?_atom rfl htail fun q => h _ q ((holds_marked _ _ _).push _)
  | .int n, _, _, _, _, _, _, _, htail, h =>
      run?_atom rfl htail fun q => h _ q ((holds_marked _ _ _).push _)
  | .float x, _, _, _, _, _, _, _, htail, h =>
      run?_atom rfl htail fun q => h _ q ((holds_marked _ _ _).push _)
  | .str s, hs, _, _, _, _, _, _, _, h =>
      run?_jsonString hs (h _ _ ((holds_marked _ _ _).push _))
  | .arr [], _, _, _, _, _, _, _, _, h => by
      apply run?_opening .sequence
      intro g hg
      apply run?_closing .sequence (holds_ofTokens [])
      intro q
      refine h _ q ?_
      simpa [flowTokens, FlowKind.start, FlowKind.stop] using hg.pushAll [.flowSequenceEnd]
  | .obj [], _, _, _, _, _, _, _, _, h => by
      apply run?_opening .mapping
      intro g hg
      apply run?_closing .mapping (holds_ofTokens [])
      intro q
      refine h _ q ?_
      simpa [flowTokens, FlowKind.start, FlowKind.stop] using hg.pushAll [.flowMappingEnd]
  | .arr (x :: xs), hs, _, _, _, _, _, tail, _, h => by
      obtain ⟨hx, hxs⟩ := Bool.and_eq_true_iff.1 hs
      rw [Json.compactChars_arr_cons, List.cons_append, List.append_assoc]
      apply run?_opening .sequence
      intro g hg
      apply run?_compact x hx (endsValue_moreItems xs tail)
      intro f q hf
      apply run?_moreItems xs hxs hf
      intro q
      refine h _ q ?_
      simpa [flowTokens, FlowKind.start] using hg.pushAll (flowTokens x ++ moreItemTokens xs)
  | .obj ((k, x) :: fs), hs, _, _, _, _, _, tail, _, h => by
      obtain ⟨hk, hx, hfs⟩ := (Bool.and_eq_true_iff.1 hs).imp_right Bool.and_eq_true_iff.1
      obtain ⟨hspelled, hbytes⟩ := Bool.and_eq_true_iff.1 hk
      rw [Json.compactChars_obj_cons, Json.compactField, List.cons_append, List.append_assoc,
        List.append_assoc, List.cons_append]
      apply run?_opening .mapping
      intro g hg
      apply run?_jsonKey hspelled (of_decide_eq_true hbytes)
      intro q
      apply run?_compact x hx (endsValue_moreFields fs tail)
      intro f q hf
      apply run?_moreFields fs hfs hf
      intro q
      refine h _ q ?_
      simpa [flowTokens, FlowKind.start] using
        hg.pushAll (flowKeyTokens k ++ (flowTokens x ++ moreFieldTokens fs))

/-- The other items of a sequence, up to its bracket. -/
theorem run?_moreItems :
    ∀ (xs : List Json), spellableItems xs = true → ∀ {g f : Pending} {outer : List Pending}
      {ts r : List Token} {p : Position} {tail : List Char}, f.Holds ts →
      (∀ q, (level outer false (g.pushAll (ts ++ moreItemTokens xs).reverse) q).run? tail =
        some r) →
      (level (g :: outer) false f p).run? (Json.moreItems xs ++ tail) = some r
  | [], _, _, _, _, _, _, _, _, hf, h => run?_closing .sequence hf h
  | x :: xs, hs, _, _, _, _, _, _, tail, hf, h => by
      obtain ⟨hx, hxs⟩ := Bool.and_eq_true_iff.1 hs
      rw [Json.moreItems, List.cons_append, List.append_assoc]
      apply run?_comma hf
      apply run?_compact x hx (endsValue_moreItems xs tail)
      intro f q hf
      apply run?_moreItems xs hxs hf
      simpa [moreItemTokens] using h

/-- The other fields of a mapping, up to its brace. -/
theorem run?_moreFields :
    ∀ (fs : List (String × Json)), spellableFields fs = true →
      ∀ {g f : Pending} {outer : List Pending} {ts r : List Token} {p : Position}
      {tail : List Char}, f.Holds ts →
      (∀ q, (level outer false (g.pushAll (ts ++ moreFieldTokens fs).reverse) q).run? tail =
        some r) →
      (level (g :: outer) false f p).run? (Json.moreFields fs ++ tail) = some r
  | [], _, _, _, _, _, _, _, _, hf, h => run?_closing .mapping hf h
  | (k, x) :: fs, hs, _, _, _, _, _, _, tail, hf, h => by
      obtain ⟨hk, hx, hfs⟩ := (Bool.and_eq_true_iff.1 hs).imp_right Bool.and_eq_true_iff.1
      obtain ⟨hspelled, hbytes⟩ := Bool.and_eq_true_iff.1 hk
      rw [Json.moreFields, Json.compactField, List.cons_append, List.append_assoc,
        List.append_assoc, List.cons_append]
      apply run?_comma hf
      apply run?_jsonKey hspelled (of_decide_eq_true hbytes)
      intro q
      apply run?_compact x hx (endsValue_moreFields fs tail)
      intro f q hf
      apply run?_moreFields fs hfs hf
      simpa [moreFieldTokens] using h

end

/-- The tokens of a compact text. -/
theorem scan?_compact {v : Json} (hv : spellable v = true) :
    scan? v.compactChars = some (flowTokens v) := by
  have hrun : (level [] true (ofTokens []) .lineStart).run? (v.compactChars ++ []) =
      some (flowTokens v) := run?_compact v hv trivial fun f q hf => run?_end hf
  rw [List.append_nil] at hrun
  exact hrun

end Lexer

end Token

end PromptDoc.Yaml
