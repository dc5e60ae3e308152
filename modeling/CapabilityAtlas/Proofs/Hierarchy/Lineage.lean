import Mathlib.Data.List.Chain
import Mathlib.Data.List.Nodup
import Mathlib.Logic.Relation
import Mathlib.Logic.Relator

set_option autoImplicit false
set_option relaxedAutoImplicit false

/-!
Lineages in a rooted forest, given by what is directly under what. Two lineages that meet have
everything from there on in common, and the only simple path between their ends climbs to that place
and descends from it: a path that descends once cannot climb again without going back.
-/

namespace CapabilityAtlas.Hierarchy

variable {β : Type} {under : β → β → Prop} {a b top top' : β}
  {l l' climb climb' descent descent' rest rest' stops : List β}

/-- All that lies above a place, from the place itself to where nothing does. -/
inductive Lineage (under : β → β → Prop) : β → List β → Prop
  | top {a : β} (last : ∀ b, ¬ under a b) : Lineage under a [a]
  | step {a b : β} {l : List β} (up : under a b) (above : Lineage under b l) :
      Lineage under a (a :: l)

/-- A way from one place to another by steps up or down that comes to no place twice. -/
structure IsSimplePath (under : β → β → Prop) (a b : β) (stops : List β) : Prop where
  first : stops.head? = some a
  last : stops.getLast? = some b
  steps : stops.IsChain (fun x y => under x y ∨ under y x)
  nodup : stops.Nodup

/-- The lowest of the places that are two given ones or lie above them. -/
structure IsLowestCommon (under : β → β → Prop) (a b top : β) : Prop where
  left : Relation.ReflTransGen under a top
  right : Relation.ReflTransGen under b top
  lowest : ∀ other, Relation.ReflTransGen under a other → Relation.ReflTransGen under b other →
    Relation.ReflTransGen under top other

/-- Two lineages, each split where they meet. -/
def MeetAt (under : β → β → Prop) (a b : β) (climb : List β) (top : β) (descent : List β) : Prop :=
  ∃ rest, Lineage under a (climb ++ top :: rest) ∧ Lineage under b (descent ++ top :: rest) ∧
    climb.Disjoint descent

private theorem exists_head?_append_cons (front : List β) (b : β) (rest : List β) :
    ∃ x, (front ++ b :: rest).head? = some x := by
  cases front with
  | nil => exact ⟨b, rfl⟩
  | cons x front => exact ⟨x, rfl⟩

private theorem head?_append_cons (front : List β) (b : β) (rest : List β) :
    (front ++ b :: rest).head? = (front ++ [b]).head? := by
  cases front with
  | nil => rfl
  | cons x front => rfl

namespace Lineage

private theorem exists_cons (lineage : Lineage under a l) : ∃ rest, l = a :: rest := by
  cases lineage with
  | top last => exact ⟨[], rfl⟩
  | step up above => exact ⟨_, rfl⟩

private theorem head?_climb (lineage : Lineage under a (climb ++ top :: rest)) :
    (climb ++ [top]).head? = some a := by
  obtain ⟨_, whole⟩ := lineage.exists_cons
  rw [← head?_append_cons climb top rest, whole]
  rfl

theorem of_append (lineage : Lineage under a (climb ++ b :: rest)) :
    Lineage under b (b :: rest) := by
  induction climb generalizing a with
  | nil =>
    obtain ⟨_, split⟩ := lineage.exists_cons
    obtain ⟨rfl, -⟩ := List.cons.inj split
    exact lineage
  | cons x climb ih =>
    generalize whole : x :: climb ++ b :: rest = l at lineage
    cases lineage with
    | top last => simp at whole
    | step up above =>
      obtain ⟨-, rfl⟩ := List.cons.inj whole
      exact ih above

theorem isChain (lineage : Lineage under a l) : l.IsChain under := by
  induction lineage with
  | top last => exact List.isChain_singleton _
  | step up above ih =>
    obtain ⟨rest, rfl⟩ := above.exists_cons
    exact List.isChain_cons_cons.mpr ⟨up, ih⟩

variable (single : Relator.RightUnique under)

include single

theorem eq (first : Lineage under a l) (second : Lineage under a l') : l = l' := by
  induction first generalizing l' with
  | top last =>
    cases second with
    | top _ => rfl
    | step up _ => exact absurd up (last _)
  | step up _ ih =>
    cases second with
    | top last => exact absurd up (last _)
    | step up' above =>
      obtain rfl := single up up'
      rw [ih above]

private theorem nodup (lineage : Lineage under a l) : l.Nodup := by
  induction lineage with
  | top last => exact List.nodup_singleton _
  | @step a b l up above ih =>
    refine List.nodup_cons.mpr ⟨fun again => ?_, ih⟩
    -- A place above itself would have a lineage that is shorter than itself.
    obtain ⟨front, rest, rfl⟩ := List.append_of_mem again
    have same := Lineage.eq single (Lineage.step up above) above.of_append
    have lengths := congrArg List.length same
    simp only [List.length_cons, List.length_append] at lengths
    omega

private theorem mem_iff (lineage : Lineage under a l) :
    b ∈ l ↔ Relation.ReflTransGen under a b := by
  constructor
  · intro member
    induction lineage with
    | top last =>
      obtain rfl := List.mem_singleton.mp member
      exact .refl
    | step up above ih =>
      rcases List.mem_cons.mp member with rfl | later
      · exact .refl
      · exact .head up (ih later)
  · intro reach
    induction reach using Relation.ReflTransGen.head_induction_on generalizing l with
    | refl =>
      obtain ⟨rest, rfl⟩ := lineage.exists_cons
      exact List.mem_cons_self
    | head up _ ih =>
      cases lineage with
      | top last => exact absurd up (last _)
      | step up' above =>
        obtain rfl := single up up'
        exact List.mem_cons_of_mem _ (ih above)

/-- A climb follows the lineage of the place where it starts. -/
private theorem split_of_isChain (lineage : Lineage under a l)
    (chain : (climb ++ [top]).IsChain under)
    (first : (climb ++ [top]).head? = some a) : ∃ rest, l = climb ++ top :: rest := by
  induction climb generalizing a l with
  | nil =>
    obtain rfl := Option.some.inj first
    exact lineage.exists_cons
  | cons x climb ih =>
    obtain rfl := Option.some.inj first
    obtain ⟨starts, later⟩ := List.isChain_cons.mp chain
    obtain ⟨y, next⟩ := exists_head?_append_cons climb top []
    have up := starts y next
    cases lineage with
    | top last => exact absurd up (last y)
    | step up' above =>
      obtain rfl := single up up'
      obtain ⟨rest, rfl⟩ := ih above later next
      exact ⟨rest, rfl⟩

end Lineage

/-- A simple path climbs first and then descends. -/
theorem exists_climb_descent (single : Relator.RightUnique under)
    (steps : stops.IsChain (fun x y => under x y ∨ under y x)) (nodup : stops.Nodup)
    (nonempty : stops ≠ []) :
    ∃ climb top descent, stops = climb ++ top :: descent.reverse ∧
      (climb ++ [top]).IsChain under ∧ (descent ++ [top]).IsChain under := by
  induction stops with
  | nil => exact absurd rfl nonempty
  | cons x stops ih =>
    obtain ⟨fresh, nodup⟩ := List.nodup_cons.mp nodup
    by_cases last : stops = []
    · subst last
      exact ⟨[], x, [], rfl, List.isChain_singleton x, List.isChain_singleton x⟩
    · obtain ⟨climb, top, descent, rfl, up, down⟩ := ih (List.isChain_cons.mp steps).2 nodup last
      cases climb with
      | nil =>
        rcases (List.isChain_cons_cons.mp steps).1 with rise | fall
        · exact ⟨[x], top, descent, rfl, List.isChain_pair.mpr rise, down⟩
        · refine ⟨[], x, descent ++ [top], by simp, List.isChain_singleton x, ?_⟩
          rw [List.append_assoc]
          exact List.isChain_append_cons_cons.mpr ⟨down, fall, List.isChain_singleton x⟩
      | cons c climb =>
        rcases (List.isChain_cons_cons.mp steps).1 with rise | fall
        · exact ⟨x :: c :: climb, top, descent, rfl, List.isChain_cons_cons.mpr ⟨rise, up⟩, down⟩
        · -- The only way up leads back to where the path came from.
          obtain ⟨starts, -⟩ := List.isChain_cons.mp up
          obtain ⟨z, above⟩ := exists_head?_append_cons climb top []
          obtain rfl := single fall (starts z above)
          rw [← head?_append_cons climb top descent.reverse] at above
          exact absurd (List.mem_cons_of_mem c (List.mem_of_mem_head? above)) fresh

private theorem eq_of_append_cons_eq {p : β → Prop}
    (same : climb ++ top :: rest = climb' ++ top' :: rest')
    (before : ∀ x ∈ climb, ¬ p x) (here : p top) (before' : ∀ x ∈ climb', ¬ p x) (here' : p top') :
    climb = climb' ∧ top = top' := by
  induction climb generalizing climb' with
  | nil =>
    cases climb' with
    | nil => exact ⟨rfl, (List.cons.inj same).1⟩
    | cons y climb' =>
      obtain ⟨rfl, -⟩ := List.cons.inj same
      exact absurd here (before' top List.mem_cons_self)
  | cons x climb ih =>
    cases climb' with
    | nil =>
      obtain ⟨rfl, -⟩ := List.cons.inj same
      exact absurd here' (before x List.mem_cons_self)
    | cons y climb' =>
      obtain ⟨rfl, later⟩ := List.cons.inj same
      rw [List.forall_mem_cons] at before before'
      obtain ⟨rfl, rfl⟩ := ih later before.2 before'.2
      exact ⟨rfl, rfl⟩

namespace MeetAt

theorem symm (meets : MeetAt under a b climb top descent) : MeetAt under b a descent top climb := by
  obtain ⟨rest, first, second, apart⟩ := meets
  exact ⟨rest, second, first, fun _ below inside => apart inside below⟩

variable (single : Relator.RightUnique under)

include single

private theorem not_mem (first : Lineage under a (climb ++ top :: rest))
    (apart : climb.Disjoint descent) :
    ∀ x ∈ climb, x ∉ descent ++ top :: rest := by
  intro x inside member
  rcases List.mem_append.mp member with below | above
  · exact apart inside below
  · exact (List.nodup_append.mp (first.nodup single)).2.2 x inside x above rfl

theorem isSimplePath (meets : MeetAt under a b climb top descent) :
    IsSimplePath under a b (climb ++ top :: descent.reverse) := by
  obtain ⟨rest, first, second, apart⟩ := meets
  have back : top :: descent.reverse = (descent ++ [top]).reverse := by simp
  have up := (List.isChain_split.mp first.isChain).1
  have down := (List.isChain_split.mp second.isChain).1
  have nodup := (List.nodup_append.mp (first.nodup single))
  have nodup' := (List.nodup_append.mp (second.nodup single))
  refine ⟨?_, ?_, List.isChain_split.mpr ⟨up.imp fun _ _ => Or.inl, ?_⟩, ?_⟩
  · rw [head?_append_cons]
    exact first.head?_climb
  · rw [back, List.getLast?_append, List.getLast?_reverse, second.head?_climb]
    rfl
  · rw [back, List.isChain_reverse]
    exact down.imp fun _ _ => Or.inr
  · refine List.nodup_append.mpr ⟨nodup.1, ?_, ?_⟩
    · refine List.nodup_cons.mpr ⟨fun member => ?_, List.nodup_reverse.mpr nodup'.1⟩
      exact nodup'.2.2 top (List.mem_reverse.mp member) top List.mem_cons_self rfl
    · rintro x inside y member rfl
      rcases List.mem_cons.mp member with rfl | below
      · exact nodup.2.2 x inside x List.mem_cons_self rfl
      · exact apart inside (List.mem_reverse.mp below)

theorem eq (meets : MeetAt under a b climb top descent)
    (meets' : MeetAt under a b climb' top' descent') :
    climb = climb' ∧ top = top' ∧ descent = descent' := by
  obtain ⟨rest, first, second, apart⟩ := meets
  obtain ⟨rest', first', second', apart'⟩ := meets'
  have above := first.eq single first'
  have below := second.eq single second'
  obtain ⟨rfl, rfl⟩ := eq_of_append_cons_eq (p := (· ∈ descent ++ top :: rest)) above
    (not_mem single first apart) (by simp) (below ▸ not_mem single first' apart')
    (below ▸ by simp)
  obtain rfl := (List.cons.inj (List.append_cancel_left above)).2
  exact ⟨rfl, rfl, List.append_cancel_right below⟩

private theorem of_isSimplePath (first : Lineage under a l) (second : Lineage under b l')
    (path : IsSimplePath under a b stops) :
    ∃ climb top descent, stops = climb ++ top :: descent.reverse ∧
      MeetAt under a b climb top descent := by
  have nonempty : stops ≠ [] := by
    rintro rfl
    simpa using path.first
  obtain ⟨climb, top, descent, rfl, up, down⟩ :=
    exists_climb_descent single path.steps path.nodup nonempty
  have back : top :: descent.reverse = (descent ++ [top]).reverse := by simp
  obtain ⟨starts, ends, steps, nodup⟩ := path
  rw [head?_append_cons] at starts
  rw [back, List.getLast?_append, List.getLast?_reverse] at ends
  obtain ⟨b', finish⟩ := exists_head?_append_cons descent top []
  rw [finish] at ends
  obtain rfl := Option.some.inj ends
  obtain ⟨rest, rfl⟩ := first.split_of_isChain single up starts
  obtain ⟨rest', rfl⟩ := second.split_of_isChain single down finish
  obtain rfl := (List.cons.inj (first.of_append.eq single second.of_append)).2
  refine ⟨climb, top, descent, rfl, rest, first, second, fun x inside below => ?_⟩
  exact (List.nodup_append.mp nodup).2.2 x inside x (by simp [below]) rfl

/-- The way over the place where two lineages meet is the only simple path. -/
theorem isSimplePath_iff (meets : MeetAt under a b climb top descent) :
    IsSimplePath under a b stops ↔ stops = climb ++ top :: descent.reverse := by
  constructor
  · intro path
    obtain ⟨rest, first, second, -⟩ := id meets
    obtain ⟨climb', top', descent', rfl, meets'⟩ := of_isSimplePath single first second path
    obtain ⟨rfl, rfl, rfl⟩ := meets.eq single meets'
    rfl
  · rintro rfl
    exact meets.isSimplePath single

theorem isLowestCommon (meets : MeetAt under a b climb top descent) :
    IsLowestCommon under a b top := by
  obtain ⟨rest, first, second, apart⟩ := meets
  refine ⟨(first.mem_iff single).mp (by simp), (second.mem_iff single).mp (by simp), ?_⟩
  intro other left right
  rw [← first.mem_iff single] at left
  rw [← second.mem_iff single] at right
  rw [← first.of_append.mem_iff single]
  rcases List.mem_append.mp left with inside | above
  · exact absurd right (not_mem single first apart other inside)
  · exact above

end MeetAt

end CapabilityAtlas.Hierarchy
