import PromptDoc.Schema.Basic

/-!
# Reports, path by path

A report is sorted by path and keeps the order of violations with one path. So
it is known from what was found under each path, in the order it was found:
lists that agree path by path have the same sorted report
(`mergeSort_eq_of_agreeByPath`).
-/

namespace PromptDoc.Violation

/-- The same violations in the same order, under every path. -/
def AgreeByPath (vs ws : List Violation) : Prop :=
  ∀ path, vs.filter (fun v => v.path = path) = ws.filter (fun v => v.path = path)

variable {vs ws vs' ws' : List Violation}

theorem AgreeByPath.refl (vs : List Violation) : AgreeByPath vs vs :=
  fun _ => rfl

theorem AgreeByPath.append (h : AgreeByPath vs ws) (h' : AgreeByPath vs' ws') :
    AgreeByPath (vs ++ vs') (ws ++ ws') := by
  intro path
  rw [List.filter_append, List.filter_append, h path, h' path]

/-- Where a path stands for one violation, the order does not count. -/
theorem AgreeByPath.of_perm (h : vs.Perm ws)
    (hunique : ∀ v ∈ vs, ∀ w ∈ vs, v.path = w.path → v = w) : AgreeByPath vs ws := by
  intro path
  have hperm := h.filter fun v => decide (v.path = path)
  cases hfound : vs.filter fun v => v.path = path with
  | nil =>
      rw [hfound] at hperm
      exact hperm.nil_eq
  | cons v rest =>
      -- All that is found under the path is the one violation `v`.
      have hv : v ∈ vs.filter fun v => v.path = path := by simp [hfound]
      have hall : ∀ w ∈ vs.filter (fun v => v.path = path), w = v := by
        intro w hw
        simp only [List.mem_filter, decide_eq_true_eq] at hv hw
        exact hunique w hw.1 v hv.1 (hw.2.trans hv.2.symm)
      rw [List.eq_replicate_of_mem hall] at hperm hfound
      rw [← hfound]
      exact (List.perm_replicate.1 hperm.symm).symm

def precedes (v w : Violation) : Bool :=
  decide (v.path ≤ w.path)

theorem precedes_trans (u v w : Violation) (huv : precedes u v = true)
    (hvw : precedes v w = true) : precedes u w = true := by
  simp only [precedes, decide_eq_true_eq] at *
  exact String.le_trans huv hvw

theorem precedes_total (v w : Violation) : (precedes v w || precedes w v) = true := by
  simp only [precedes, Bool.or_eq_true, decide_eq_true_eq]
  exact String.le_total v.path w.path

/-- Sorting is stable: it keeps the order under each path. -/
theorem agreeByPath_mergeSort (vs : List Violation) :
    AgreeByPath (vs.mergeSort precedes) vs := by
  intro path
  have htied : (vs.filter fun v => v.path = path).Pairwise
      fun v w => precedes v w = true := by
    refine List.pairwise_of_forall_mem_list fun v hv w hw => ?_
    simp only [List.mem_filter, decide_eq_true_eq] at hv hw
    simp [precedes, hv.2, hw.2]
  have hsublist := List.sublist_mergeSort precedes_trans precedes_total htied
    List.filter_sublist
  have hkept := hsublist.filter fun v => decide (v.path = path)
  rw [List.filter_filter] at hkept
  simp only [Bool.and_self] at hkept
  exact (hkept.eq_of_length
    ((List.mergeSort_perm vs precedes).filter _).length_eq.symm).symm

theorem AgreeByPath.mem (h : AgreeByPath vs ws) {v : Violation} (hv : v ∈ vs) : v ∈ ws := by
  have hfound : v ∈ vs.filter fun w => w.path = v.path := by simp [hv]
  rw [h v.path] at hfound
  exact (List.mem_filter.1 hfound).1

theorem AgreeByPath.symm (h : AgreeByPath vs ws) : AgreeByPath ws vs :=
  fun path => (h path).symm

/-- Sorted lists that agree path by path are the same. -/
theorem AgreeByPath.eq_of_pairwise (h : AgreeByPath vs ws)
    (hvs : vs.Pairwise fun v w => precedes v w = true)
    (hws : ws.Pairwise fun v w => precedes v w = true) : vs = ws := by
  induction vs generalizing ws with
  | nil =>
      refine (List.eq_nil_iff_forall_not_mem.2 fun w hw => ?_).symm
      cases h.symm.mem hw
  | cons v vs ih =>
      cases ws with
      | nil => cases h.mem List.mem_cons_self
      | cons w ws =>
          rw [List.pairwise_cons] at hvs hws
          -- Each head stands in the other list, so neither path is above the other.
          have hle : v.path ≤ w.path := by
            rcases List.mem_cons.1 (h.symm.mem List.mem_cons_self) with rfl | hw
            · exact String.le_refl _
            · exact of_decide_eq_true (hvs.1 w hw)
          have hge : w.path ≤ v.path := by
            rcases List.mem_cons.1 (h.mem List.mem_cons_self) with rfl | hv
            · exact String.le_refl _
            · exact of_decide_eq_true (hws.1 v hv)
          have hpath : v.path = w.path := String.le_antisymm hle hge
          have hhead : v = w := by
            have hfirst := h v.path
            simp only [List.filter_cons, hpath, decide_true, if_true] at hfirst
            exact (List.cons.inj hfirst).1
          subst hhead
          have htail : AgreeByPath vs ws := by
            intro path
            have hboth := h path
            rw [List.filter_cons, List.filter_cons] at hboth
            split at hboth
            · exact (List.cons.inj hboth).2
            · exact hboth
          rw [ih htail hvs.2 hws.2]

theorem mergeSort_eq_of_agreeByPath (h : AgreeByPath vs ws) :
    vs.mergeSort precedes = ws.mergeSort precedes := by
  have hsorted := List.pairwise_mergeSort precedes_trans precedes_total
  refine AgreeByPath.eq_of_pairwise (fun path => ?_) (hsorted vs) (hsorted ws)
  rw [agreeByPath_mergeSort vs path, h path, agreeByPath_mergeSort ws path]

end PromptDoc.Violation
