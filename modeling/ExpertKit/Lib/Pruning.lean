import Mathlib

/-!
# Pruning replicas

Items have replicas on hosts, and replicas that may go are taken away one after the other, each from
the first host that has a candidate: a replica that may go and is not the last one.

* `Candidate`, `Chooses`   one choice;
* `Pruned`, `Pruned.step`  what every sequence of choices keeps;
* `Pruned.mem_iff`         the replicas of an item go in the order of the hosts;
* `Exhausted`              no candidate is left.
-/

set_option linter.unusedSectionVars false

namespace Pruning

variable {α ε : Type*} [DecidableEq α] [DecidableEq ε]

/-- the replicas of the item that are gone -/
def taken (gone : List (α × ε)) (e : ε) : Nat := gone.countP fun v => decide (v.2 = e)

theorem taken_cons (a : α) (e e' : ε) (gone : List (α × ε)) :
    taken ((a, e) :: gone) e' = taken gone e' + if e = e' then 1 else 0 := by
  unfold taken
  rw [List.countP_cons]
  simp only [decide_eq_true_eq]

section
variable (order : List α) (may : α → ε → Bool) (count : ε → Nat)

structure Candidate (gone : List (α × ε)) (a : α) (e : ε) : Prop where
  may : may a e = true
  here : (a, e) ∉ gone
  spare : taken gone e + 2 ≤ count e

/-- the first host with a candidate gives one up -/
structure Chooses (gone : List (α × ε)) (a : α) (e : ε) : Prop where
  candidate : Candidate may count gone a e
  first : ∃ front back, order = front ++ a :: back ∧
    ∀ b ∈ front, ∀ e', ¬ Candidate may count gone b e'

def Exhausted (gone : List (α × ε)) : Prop := ∀ a ∈ order, ∀ e, ¬ Candidate may count gone a e

structure Pruned (gone : List (α × ε)) : Prop where
  distinct : gone.Nodup
  legal : ∀ v ∈ gone, v.1 ∈ order ∧ may v.1 v.2 = true
  spare : ∀ e, taken gone e ≠ 0 → taken gone e + 1 ≤ count e
  ordered : ∀ front a back e, order = front ++ a :: back → (a, e) ∈ gone →
    ∀ b ∈ front, may b e = true → (b, e) ∈ gone

/-- the hosts whose replica of the item may go -/
def hosts (e : ε) : List α := order.filter fun a => may a e

theorem Pruned.nil : Pruned order may count [] :=
  ⟨List.nodup_nil, fun _ hv => absurd hv List.not_mem_nil, fun _ h => absurd rfl h,
    fun _ _ _ _ _ h => absurd h List.not_mem_nil⟩

end

section
variable {order : List α} {may : α → ε → Bool} {count : ε → Nat} {gone : List (α × ε)}

theorem Pruned.step (hnd : order.Nodup) (h : Pruned order may count gone) {a : α} {e : ε}
    (hc : Chooses order may count gone a e) : Pruned order may count ((a, e) :: gone) := by
  obtain ⟨hcandidate, front, back, horder, hfirst⟩ := hc
  refine ⟨List.nodup_cons.mpr ⟨hcandidate.here, h.distinct⟩, ?_, ?_, ?_⟩
  · intro v hv
    rcases List.mem_cons.mp hv with rfl | hv
    · refine ⟨?_, hcandidate.may⟩
      rw [horder]
      exact List.mem_append_right _ List.mem_cons_self
    · exact h.legal v hv
  · intro e' htaken
    rw [taken_cons] at htaken ⊢
    have hspare := hcandidate.spare
    split_ifs at htaken ⊢ with heq
    · subst heq
      omega
    · exact h.spare e' htaken
  · intro front' a' back' e' horder' hmem b hb hmay
    rcases List.mem_cons.mp hmem with heq | hold
    · obtain ⟨rfl, rfl⟩ := Prod.mk.inj heq
      have hfront : front' = front := by
        rw [horder] at horder' hnd
        have hback : a' ∉ back := (List.nodup_cons.mp (List.nodup_append.mp hnd).2.1).1
        have hnot : a' ∉ front := fun hin =>
          (List.nodup_append.mp hnd).2.2 a' hin a' List.mem_cons_self rfl
        exact ((List.append_cons_inj_of_notMem hnot hback).mp horder').1.symm
      have hnot := hfirst b (hfront ▸ hb) e'
      by_contra hout
      exact hnot ⟨hmay, fun hin => hout (List.mem_cons_of_mem _ hin), hcandidate.spare⟩
    · exact List.mem_cons_of_mem _ (h.ordered front' a' back' e' horder' hold b hb hmay)

/-! ## the order of the removals does not matter -/

theorem taken_perm {gone' : List (α × ε)} (hperm : gone.Perm gone') (e : ε) :
    taken gone e = taken gone' e :=
  hperm.countP_eq _

theorem Candidate.perm {gone' : List (α × ε)} (hperm : gone.Perm gone') {a : α} {e : ε}
    (h : Candidate may count gone a e) : Candidate may count gone' a e :=
  ⟨h.may, fun hin => h.here (hperm.mem_iff.mpr hin), taken_perm hperm e ▸ h.spare⟩

theorem Pruned.perm {gone' : List (α × ε)} (hperm : gone.Perm gone')
    (h : Pruned order may count gone) : Pruned order may count gone' := by
  refine ⟨hperm.nodup_iff.mp h.distinct, fun v hv => h.legal v (hperm.mem_iff.mpr hv), ?_, ?_⟩
  · intro e
    rw [← taken_perm hperm e]
    exact h.spare e
  · intro front a back e horder hmem b hb hmay
    exact hperm.mem_iff.mp (h.ordered front a back e horder (hperm.mem_iff.mpr hmem) b hb hmay)

theorem Exhausted.perm {gone' : List (α × ε)} (hperm : gone.Perm gone')
    (h : Exhausted order may count gone) : Exhausted order may count gone' :=
  fun a ha e hc => h a ha e (hc.perm hperm.symm)

/-! ## the order of the hosts -/

theorem filter_eq_take {l : List α} {p : α → Bool}
    (h : ∀ front a back, l = front ++ a :: back → p a = true → ∀ b ∈ front, p b = true) :
    l.filter p = l.take (l.countP p) := by
  induction l with
  | nil => rfl
  | cons x l ih =>
    have hrest := ih fun front a back hl ha b hb =>
      h (x :: front) a back (by rw [hl, List.cons_append]) ha b (List.mem_cons_of_mem _ hb)
    cases hx : p x with
    | true =>
      rw [List.filter_cons_of_pos hx, List.countP_cons_of_pos hx, List.take_succ_cons, hrest]
    | false =>
      have hnone : ∀ a ∈ l, ¬ p a = true := by
        intro a ha hp
        obtain ⟨front, back, hl⟩ := List.append_of_mem ha
        have hpx := h (x :: front) a back (by rw [hl, List.cons_append]) hp x List.mem_cons_self
        rw [hx] at hpx
        exact absurd hpx Bool.false_ne_true
      have hzero : l.countP p = 0 := List.countP_eq_zero.mpr hnone
      rw [List.filter_cons_of_neg (by rw [hx]; exact Bool.false_ne_true),
        List.countP_cons_of_neg (by rw [hx]; exact Bool.false_ne_true), hzero, List.take_zero,
        List.filter_eq_nil_iff.mpr hnone]

/-- the replicas of an item that are gone, counted on the hosts -/
theorem countP_gone (hnd : order.Nodup) (hdistinct : gone.Nodup)
    (hlegal : ∀ v ∈ gone, v.1 ∈ order ∧ may v.1 v.2 = true) (e : ε) :
    (hosts order may e).countP (fun a => decide ((a, e) ∈ gone)) = taken gone e := by
  have hleft : ((hosts order may e).filter fun a => decide ((a, e) ∈ gone)).Nodup :=
    hnd.sublist (List.filter_sublist.trans List.filter_sublist)
  have hright : ((gone.filter fun v => decide (v.2 = e)).map Prod.fst).Nodup := by
    refine List.Nodup.map_on ?_ (hdistinct.sublist List.filter_sublist)
    rintro ⟨a, e1⟩ ha ⟨b, e2⟩ hb heq
    have h1 : e1 = e := of_decide_eq_true (List.mem_filter.mp ha).2
    have h2 : e2 = e := of_decide_eq_true (List.mem_filter.mp hb).2
    exact Prod.ext heq (h1.trans h2.symm)
  have hmem : ∀ a, a ∈ (hosts order may e).filter (fun a => decide ((a, e) ∈ gone)) ↔
      a ∈ (gone.filter fun v => decide (v.2 = e)).map Prod.fst := by
    intro a
    rw [List.mem_filter, decide_eq_true_iff, List.mem_map]
    constructor
    · rintro ⟨_, hin⟩
      exact ⟨(a, e), List.mem_filter.mpr ⟨hin, decide_eq_true rfl⟩, rfl⟩
    · rintro ⟨⟨b, e'⟩, hv, rfl⟩
      obtain ⟨hin, heq⟩ := List.mem_filter.mp hv
      have he : e' = e := of_decide_eq_true heq
      subst he
      exact ⟨List.mem_filter.mpr (hlegal _ hin), hin⟩
  have hlength := ((List.perm_ext_iff_of_nodup hleft hright).mpr hmem).length_eq
  rw [List.length_map] at hlength
  rw [List.countP_eq_length_filter, hlength, taken, List.countP_eq_length_filter]

/-- the replicas of an item go in the order of the hosts -/
theorem Pruned.mem_iff (hnd : order.Nodup) (h : Pruned order may count gone) {a : α} {e : ε} :
    (a, e) ∈ gone ↔ a ∈ (hosts order may e).take (taken gone e) := by
  have hclosed : ∀ front a back, hosts order may e = front ++ a :: back →
      decide ((a, e) ∈ gone) = true → ∀ b ∈ front, decide ((b, e) ∈ gone) = true := by
    intro front a back hhosts ha b hb
    obtain ⟨front', back', horder, hfront, hback⟩ := List.filter_eq_append_iff.mp hhosts
    obtain ⟨skip, rest, hrest, _, _, _⟩ := List.filter_eq_cons_iff.mp hback
    have hmay : may b e = true ∧ b ∈ front' := by
      rw [← hfront] at hb
      exact ⟨(List.mem_filter.mp hb).2, (List.mem_filter.mp hb).1⟩
    refine decide_eq_true (h.ordered (front' ++ skip) a rest e ?_ (of_decide_eq_true ha) b
      (List.mem_append_left _ hmay.2) hmay.1)
    rw [horder, hrest, List.append_assoc]
  rw [← countP_gone hnd h.distinct h.legal, ← filter_eq_take hclosed, List.mem_filter, decide_eq_true_iff]
  exact ⟨fun hin => ⟨List.mem_filter.mpr (h.legal _ hin), hin⟩, fun hin => hin.2⟩

/-- an item is down to its last replica, or no replica that may go is left -/
theorem Exhausted.cases
    (hexhausted : Exhausted order may count gone) (e : ε) :
    count e ≤ taken gone e + 1 ∨ ∀ a ∈ hosts order may e, (a, e) ∈ gone := by
  by_cases hle : count e ≤ taken gone e + 1
  · exact .inl hle
  · refine .inr fun a ha => ?_
    obtain ⟨horder, hmay⟩ := List.mem_filter.mp ha
    by_contra hout
    exact hexhausted a horder e ⟨hmay, hout, by omega⟩

end

end Pruning
