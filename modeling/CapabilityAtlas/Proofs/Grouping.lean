import Mathlib.Data.List.Nodup
import Mathlib.Data.List.Perm.Basic

set_option autoImplicit false
set_option relaxedAutoImplicit false

/-!
Groups of a list by a key. One group after the other, they hold the members of the list; and they
are in order if the keys and the list are.
-/

namespace CapabilityAtlas

variable {β γ : Type} [DecidableEq γ]

theorem perm_flatMap_filter (key : β → γ) {keys : List γ}
    (nodup : keys.Nodup) {members : List β} (covered : ∀ m ∈ members, key m ∈ keys) :
    (keys.flatMap (fun k => members.filter (fun m => key m = k))).Perm members := by
  induction keys generalizing members with
  | nil =>
    have empty : members = [] :=
      List.eq_nil_iff_forall_not_mem.mpr fun m hm => by simpa using covered m hm
    rw [empty]
    exact List.Perm.refl _
  | cons k rest ih =>
    obtain ⟨fresh, nodup⟩ := List.nodup_cons.mp nodup
    -- The other groups can be taken from what the first key leaves, as the keys differ.
    have others : rest.flatMap (fun k' => members.filter (fun m => key m = k')) =
        rest.flatMap (fun k' =>
          (members.filter (fun m => !decide (key m = k))).filter (fun m => key m = k')) := by
      refine List.flatMap_congr fun k' member => ?_
      rw [List.filter_filter]
      refine List.filter_congr fun m _ => ?_
      by_cases here : key m = k'
      · have apart : key m ≠ k := by
          rintro rfl
          exact fresh (here ▸ member)
        simp [here, here ▸ apart]
      · simp [here]
    have left : ∀ m ∈ members.filter (fun m => !decide (key m = k)), key m ∈ rest := by
      intro m hm
      obtain ⟨member, apart⟩ := List.mem_filter.mp hm
      rcases List.mem_cons.mp (covered m member) with here | later
      · simp [here] at apart
      · exact later
    rw [List.flatMap_cons, others]
    exact ((ih nodup left).append_left _).trans (List.filter_append_perm _ members)

theorem filter_flatMap_filter (key : β → γ) {keys : List γ} (nodup : keys.Nodup) {k : γ}
    (listed : k ∈ keys) (members : List β) :
    (keys.flatMap (fun k => members.filter (fun m => key m = k))).filter (fun m => key m = k) =
      members.filter (fun m => key m = k) := by
  have group : ∀ k', (members.filter (fun m => key m = k')).filter (fun m => key m = k) =
      if k' = k then members.filter (fun m => key m = k) else [] := by
    intro k'
    rw [List.filter_filter]
    split
    · rename_i same
      rw [same]
      exact List.filter_congr fun m _ => Bool.and_self _
    · rename_i apart
      refine List.filter_eq_nil_iff.mpr fun m _ both => ?_
      simp only [Bool.and_eq_true, decide_eq_true_eq] at both
      exact apart (both.2.symm.trans both.1)
  obtain ⟨before, after, rfl⟩ := List.append_of_mem listed
  rw [List.nodup_middle, List.nodup_cons, List.mem_append, not_or] at nodup
  have absent : ∀ others : List γ, k ∉ others →
      (others.flatMap (fun k => members.filter (fun m => key m = k))).filter
        (fun m => key m = k) = [] := by
    intro others fresh
    rw [List.filter_flatMap, List.flatMap_eq_nil_iff]
    intro k' member
    have apart : k' ≠ k := by
      rintro rfl
      exact fresh member
    rw [group, if_neg apart]
  rw [List.flatMap_append, List.flatMap_cons, List.filter_append, List.filter_append,
    absent before nodup.1.1, absent after nodup.1.2, group, if_pos rfl, List.append_nil,
    List.nil_append]

/-- Groups of a sorted list by sorted keys are sorted by the key first. -/
theorem pairwise_flatMap_filter (key : β → γ) {keys : List γ} {members : List β}
    {earlier : γ → γ → Prop} {le : β → β → Prop} (ordered : keys.Pairwise earlier)
    (sorted : members.Pairwise le) :
    (keys.flatMap (fun k => members.filter (fun m => key m = k))).Pairwise
      (fun a b => earlier (key a) (key b) ∨ key a = key b ∧ le a b) := by
  have keyOf : ∀ {k : γ} {m : β}, m ∈ members.filter (fun m => key m = k) → key m = k :=
    fun member => of_decide_eq_true (List.mem_filter.mp member).2
  rw [List.pairwise_flatMap]
  constructor
  · intro k _
    refine (sorted.filter _).imp_of_mem fun {a b} ha hb le => Or.inr ⟨?_, le⟩
    rw [keyOf ha, keyOf hb]
  · refine ordered.imp fun {k k'} before a ha b hb => Or.inl ?_
    rw [keyOf ha, keyOf hb]
    exact before

end CapabilityAtlas
