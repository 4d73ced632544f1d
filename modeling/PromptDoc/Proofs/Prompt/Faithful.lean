import Mathlib.Data.List.Forall2
import PromptDoc.Proofs.Prompt.Rows
import PromptDoc.Prompt.Decode

/-!
# Decoders and encoders that belong together

`Faithful` says of a decoder and an encoder what a round trip through a document
needs: what was decoded once is decoded again from its encoding, and the
encoding suits the schema like the value it was decoded from. Most
decoders leave nothing out (`Faithful.of_exact`); counts and arrays of faithful
parts are faithful too.
-/

namespace PromptDoc

open Yaml

variable {α : Type}

/-- Encoding what was decoded keeps all that counts. `room` is the nesting that
defaults may need. -/
structure Faithful (schema : Schema) (room : Nat) (decode : Json → Option α)
    (encode : α → Json) : Prop where
  again : ∀ {v a}, decode v = some a → decode (encode a) = some a
  suits : ∀ {v a n}, decode v = some a → room ≤ n → Suits n schema v → Suits n schema (encode a)

/-- A decoder that leaves nothing out is faithful, whatever the schema. -/
theorem Faithful.of_exact {schema : Schema} {decode : Json → Option α} {encode : α → Json}
    (h : ∀ v a, decode v = some a ↔ v = encode a) : Faithful schema 0 decode encode where
  again := by
    intro v a _
    exact (h (encode a) a).2 rfl
  suits := by
    intro v a n hv _ hsuits
    exact (h v a).1 hv ▸ hsuits

namespace Json

/-! ## Exact decoders -/

theorem asText?_eq_some (v : Json) (s : String) : v.asText? = some s ↔ v = .str s := by
  cases v <;> simp [asText?]

theorem asBool?_eq_some (v : Json) (b : Bool) : v.asBool? = some b ↔ v = .bool b := by
  cases v <;> simp [asBool?]

theorem fields?_eq_some (v : Json) (fs : Fields) : v.fields? = some fs ↔ v = .obj fs := by
  cases v <;> simp [fields?]

theorem items?_eq_some (v : Json) (xs : List Json) : v.items? = some xs ↔ v = .arr xs := by
  cases v <;> simp [items?]

/-- Items are decoded one by one. -/
theorem mapM_eq_some_iff {β γ : Type} {f : β → Option γ} {bs : List β} {cs : List γ} :
    bs.mapM f = some cs ↔ List.Forall₂ (fun b c => f b = some c) bs cs := by
  induction bs generalizing cs with
  | nil => simp [eq_comm]
  | cons b bs ih =>
      simp only [List.mapM_cons, Option.pure_def, Option.bind_eq_bind, Option.bind_eq_some_iff,
        Option.some.injEq, List.forall₂_cons_left_iff, ih]
      constructor
      · rintro ⟨c, hc, cs, hcs, rfl⟩
        exact ⟨c, cs, hc, hcs, rfl⟩
      · rintro ⟨c, cs, hc, hcs, rfl⟩
        exact ⟨c, hc, cs, hcs, rfl⟩

theorem mapM_eq_some {β γ : Type} {f : β → Option γ} {g : γ → β}
    (h : ∀ b c, f b = some c ↔ b = g c) (bs : List β) (cs : List γ) :
    bs.mapM f = some cs ↔ bs = cs.map g := by
  simp only [mapM_eq_some_iff, h]
  rw [← List.forall₂_map_right_iff, List.forall₂_eq_eq_eq]

theorem asTexts?_eq_some (v : Json) (ss : List String) :
    v.asTexts? = some ss ↔ v = Fields.ofStrings ss := by
  cases v with
  | arr xs =>
      rw [Fields.ofStrings, Json.arr.injEq, ← mapM_eq_some asText?_eq_some]
      rfl
  | _ => simp [asTexts?, items?, Fields.ofStrings]

theorem asNamed?_eq_some {decode : Json → Option α} {encode : α → Json}
    (h : ∀ v a, decode v = some a ↔ v = encode a) (v : Json) (entries : List (String × α)) :
    v.asNamed? decode = some entries ↔ v = Fields.ofNamed encode entries := by
  have hentry : ∀ (f : String × Json) (e : String × α),
      (decode f.2).map (f.1, ·) = some e ↔ f = (e.1, encode e.2) := by
    rintro ⟨name, v⟩ ⟨name', a⟩
    simp only [Option.map_eq_some_iff, h, Prod.mk.injEq]
    constructor
    · rintro ⟨a', rfl, rfl, rfl⟩
      exact ⟨rfl, rfl⟩
    · rintro ⟨rfl, rfl⟩
      exact ⟨a, rfl, rfl, rfl⟩
  cases v with
  | obj fs =>
      rw [Fields.ofNamed, Json.obj.injEq, ← mapM_eq_some hentry]
      rfl
  | _ => simp [asNamed?, fields?, Fields.ofNamed]

/-! ## Counts -/

theorem toInt?_pos {x : Binary64} {n : Int} (hn : x.toInt? = some n) (hzero : x.isZero = false)
    (hsign : x.negative = false) : 0 < n := by
  have hpos : 0 < x.significand := by
    refine Nat.pos_of_ne_zero fun h => ?_
    simp [Binary64.isZero, h] at hzero
  simp only [Binary64.toInt?] at hn
  obtain ⟨m, hm, heq⟩ := Option.map_eq_some_iff.1 hn
  rw [hsign] at heq
  subst heq
  split at hm
  · obtain rfl := Option.some.inj hm
    exact Int.natCast_pos.2 (Nat.mul_pos hpos (Nat.pow_pos (by decide)))
  · split at hm
    · next hdvd =>
      obtain rfl := Option.some.inj hm
      refine Int.natCast_pos.2 (Nat.div_pos ?_ (Nat.pow_pos (by decide)))
      exact Nat.le_of_dvd hpos (Nat.dvd_of_mod_eq_zero hdvd)
    · cases hm

theorem toNat_eq_some_iff {i : Int} {n : Nat} :
    (if Width.fitsUnsigned i = true then some i.toNat else none) = some n ↔
      Width.fitsUnsigned n = true ∧ i = n := by
  constructor
  · intro h
    split at h
    · next hfits =>
      have hnonneg : 0 ≤ i := by
        simp only [Width.fitsUnsigned, Bool.and_eq_true, decide_eq_true_eq] at hfits
        exact hfits.1
      rw [← Option.some.inj h, Int.toNat_of_nonneg hnonneg]
      exact ⟨hfits, rfl⟩
    · cases h
  · rintro ⟨hfits, rfl⟩
    rw [if_pos hfits, Int.toNat_natCast]

/-- A count is an integer of 64 bits without a sign, or a double that is one. -/
theorem asCount?_eq_some {v : Json} {n : Nat} :
    v.asCount? = some n ↔ Width.fitsUnsigned n = true ∧
      (v = .int n ∨ ∃ x : Binary64, v = .float x ∧ x.toInt? = some (n : Int)) := by
  cases v with
  | int i =>
      simp only [asCount?, toNat_eq_some_iff, Json.int.injEq, reduceCtorEq, false_and, exists_false,
        or_false]
  | float x =>
      simp only [asCount?, Option.bind_eq_some_iff, toNat_eq_some_iff, reduceCtorEq, false_or,
        Json.float.injEq, exists_eq_left']
      constructor
      · rintro ⟨i, hx, hfits, rfl⟩
        exact ⟨hfits, hx⟩
      · rintro ⟨hfits, hx⟩
        exact ⟨n, hx, hfits, rfl⟩
  | _ => simp [asCount?]

/-- A count fits 64 bits, and where a positive number is asked for it is one. -/
theorem asCount?_spec {v : Json} {n : Nat} (h : v.asCount? = some n) :
    Width.fitsUnsigned n = true ∧
      (Schema.Accepts .positiveInteger v → 0 < n) := by
  obtain ⟨hfits, rfl | ⟨x, rfl, hx⟩⟩ := asCount?_eq_some.1 h
  · exact ⟨hfits, fun haccepts => by simpa [isPositiveOrOther] using haccepts.2⟩
  · refine ⟨hfits, fun haccepts => ?_⟩
    have hpositive : x.isZero = false ∧ x.negative = false := by
      simpa [isPositiveOrOther] using haccepts.2
    exact Int.natCast_pos.1 (toInt?_pos hx hpositive.1 hpositive.2)

theorem asCount?_natCast {n : Nat} (h : Width.fitsUnsigned n = true) :
    asCount? (.int n) = some n :=
  asCount?_eq_some.2 ⟨h, .inl rfl⟩

theorem faithful_count :
    Faithful .positiveInteger 0 asCount? (fun n : Nat => .int n) where
  again := fun h => asCount?_natCast (asCount?_spec h).1
  suits := by
    intro v n m h _ hsuits
    obtain ⟨hfits, hpos⟩ := asCount?_spec h
    have hpos := hpos hsuits.accepts
    refine ⟨⟨rfl, by simpa [isPositiveOrOther] using hpos⟩, ?_⟩
    exact portable_int.2 ((Width.fitsWord_iff n).2 (.inr hfits))

end Json

/-! ## Arrays -/

theorem exists_of_mem_of_forall₂ {β γ : Type} {R : β → γ → Prop} {bs : List β} {cs : List γ}
    (h : List.Forall₂ R bs cs) {c : γ} (hc : c ∈ cs) : ∃ b ∈ bs, R b c := by
  induction h with
  | nil => cases hc
  | cons hfirst _ ih =>
      rcases List.mem_cons.1 hc with rfl | hc
      · exact ⟨_, List.mem_cons_self, hfirst⟩
      · obtain ⟨b, hb, hR⟩ := ih hc
        exact ⟨b, List.mem_cons_of_mem _ hb, hR⟩

theorem exists_of_mem_mapM {β γ : Type} {f : β → Option γ} {bs : List β} {cs : List γ}
    (h : bs.mapM f = some cs) {c : γ} (hc : c ∈ cs) : ∃ b ∈ bs, f b = some c :=
  exists_of_mem_of_forall₂ (Json.mapM_eq_some_iff.1 h) hc

theorem exists_of_mapM_of_mem {β γ : Type} {f : β → Option γ} {bs : List β} {cs : List γ}
    (h : bs.mapM f = some cs) {b : β} (hb : b ∈ bs) : ∃ c, f b = some c := by
  obtain ⟨c, -, hc⟩ := exists_of_mem_of_forall₂ (Json.mapM_eq_some_iff.1 h).flip hb
  exact ⟨c, hc⟩

theorem mapM_map_eq_some {β γ : Type} {f : β → Option γ} {g : γ → β} {cs : List γ}
    (h : ∀ c ∈ cs, f (g c) = some c) : (cs.map g).mapM f = some cs :=
  Json.mapM_eq_some_iff.2 (List.forall₂_map_left_iff.2 (List.forall₂_same.2 h))

/-- Arrays of faithful parts. -/
theorem Faithful.array {schema : Schema} {room : Nat} {decode : Json → Option α}
    {encode : α → Json} (h : Faithful schema room decode encode) :
    Faithful (.arrayOf schema) (room + 1) (fun v => v.items?.bind (·.mapM decode))
      fun as => .arr (as.map encode) where
  again := by
    intro v as hv
    obtain ⟨xs, -, hxs⟩ := Option.bind_eq_some_iff.1 hv
    refine mapM_map_eq_some fun a ha => ?_
    obtain ⟨x, -, hx⟩ := exists_of_mem_mapM hxs ha
    exact h.again hx
  suits := by
    intro v as n hv hroom hsuits
    obtain ⟨xs, hitems, hxs⟩ := Option.bind_eq_some_iff.1 hv
    obtain rfl := (Json.items?_eq_some v xs).1 hitems
    obtain ⟨m, rfl⟩ := hsuits.portable.exists_of_arr
    obtain ⟨ys, heq, hys⟩ := Schema.accepts_arrayOf_iff.1 hsuits.accepts
    obtain rfl := Json.arr.inj heq
    have hpart : ∀ y ∈ as.map encode, Suits m schema y := by
      intro y hy
      obtain ⟨a, ha, rfl⟩ := List.mem_map.1 hy
      obtain ⟨x, hmem, hx⟩ := exists_of_mem_mapM hxs ha
      exact h.suits hx (Nat.le_of_succ_le_succ hroom)
        ⟨hys x hmem, portable_arr.1 hsuits.portable x hmem⟩
    constructor
    · exact Schema.accepts_arrayOf_iff.2 ⟨_, rfl, fun y hy => (hpart y hy).accepts⟩
    · exact portable_arr.2 fun y hy => (hpart y hy).portable

/-! ## Fields -/

namespace Faithful

variable {schema : Schema} {room n : Nat} {decode : Json → Option α} {encode : α → Json}
  {fs gs : Fields} {name : String}

/-- What a decoded field that may be absent was. -/
theorem allow?_eq_some {o : Option α} (h : fs.allow? name decode = some o) :
    ∀ a, o = some a → ∃ v, fs.get? name = some v ∧ decode v = some a := by
  rintro a rfl
  unfold Fields.allow? at h
  split at h
  · cases h
  · next v hv =>
    obtain ⟨b, hb, heq⟩ := Option.map_eq_some_iff.1 h
    exact ⟨v, hv, Option.some.inj heq ▸ hb⟩

theorem allow?_of_get? {o : Option α} (hget : gs.get? name = o.map encode)
    (hagain : ∀ a, o = some a → decode (encode a) = some a) :
    gs.allow? name decode = some o := by
  rw [Fields.allow?, hget]
  cases o with
  | none => rfl
  | some a =>
      simp only [Option.map_some, hagain a rfl]

variable (hc : Faithful schema room decode encode)

include hc

/-- A field is decoded again from the row that it was encoded in. -/
theorem allow?_again {o : Option α} (h : fs.allow? name decode = some o)
    (hget : gs.get? (Row.optional name schema encode o).name =
      (Row.optional name schema encode o).value) : gs.allow? name decode = some o := by
  refine allow?_of_get? hget fun a ha => ?_
  obtain ⟨v, -, hv⟩ := allow?_eq_some h a ha
  exact hc.again hv

/-- A field with a default is there when it is read again. -/
theorem default_again {o : Option α} {a : α} (h : fs.allow? name decode = some o)
    (hdefault : decode (encode a) = some a)
    (hget : gs.get? (Row.present name schema encode (o.getD a)).name =
      (Row.present name schema encode (o.getD a)).value) :
    gs.allow? name decode = some (some (o.getD a)) := by
  refine allow?_of_get? hget ?_
  rintro b ⟨⟩
  cases o with
  | none => exact hdefault
  | some c =>
      obtain ⟨v, -, hv⟩ := allow?_eq_some h c rfl
      exact hc.again hv

theorem require?_again {a : α} (h : fs.require? name decode = some a)
    (hget : gs.get? (Row.present name schema encode a).name =
      (Row.present name schema encode a).value) : gs.require? name decode = some a := by
  obtain ⟨v, -, hv⟩ := Option.bind_eq_some_iff.1 h
  exact Option.bind_eq_some_iff.2 ⟨_, hget, hc.again hv⟩

variable (hroom : room ≤ n) (hsource : ∀ v, fs.get? name = some v → Suits n schema v)

include hroom hsource

theorem fits_optional {o : Option α} (h : fs.allow? name decode = some o) :
    (Row.optional name schema encode o).Fits n := by
  intro w hw
  obtain ⟨a, ha, rfl⟩ := Option.map_eq_some_iff.1 hw
  obtain ⟨v, hget, hv⟩ := allow?_eq_some h a ha
  exact hc.suits hv hroom (hsource v hget)

theorem fits_default {o : Option α} {a : α} (h : fs.allow? name decode = some o)
    (hdefault : Suits n schema (encode a)) :
    (Row.present name schema encode (o.getD a)).Fits n := by
  rintro w ⟨⟩
  cases o with
  | none => exact hdefault
  | some b =>
      obtain ⟨v, hget, hv⟩ := allow?_eq_some h b rfl
      exact hc.suits hv hroom (hsource v hget)

theorem fits_present {a : α} (h : fs.require? name decode = some a) :
    (Row.present name schema encode a).Fits n := by
  rintro w ⟨⟩
  obtain ⟨v, hget, hv⟩ := Option.bind_eq_some_iff.1 h
  exact hc.suits hv hroom (hsource v hget)

end Faithful

end PromptDoc
