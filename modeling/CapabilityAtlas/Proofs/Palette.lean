import CapabilityAtlas.Palette
import CapabilityAtlas.Proofs.Keyed

set_option autoImplicit false
set_option relaxedAutoImplicit false

/-!
Calls to a palette, one after the other. The palette has given out one color to each named server,
in the order in which they first appeared, and a server that has a color keeps it.
-/

namespace CapabilityAtlas.Palette

variable {colors : List String} {past : List (Option String)} {p q : Palette}
  {call : Option String} {server : String}

def named? (call : Option String) : Option String := call.filter isNamed

/-- The named servers of some calls in the order in which they first appear. -/
def seen (calls : List (Option String)) : List String := firstOccurrences (calls.filterMap named?)

/-- The color of a call where servers have appeared in some order: that at the place of its server,
the colors starting over at their end, and the color of unknown servers where there is none. -/
def due? (colors order : List String) (call : Option String) : Option String :=
  match named? call with
  | some server => colors[order.idxOf server % colors.length]?
  | none => some unknownColor

/-- The answers to calls, one after the other, with the palette afterwards. -/
def answers (p : Palette) : List (Option String) → List String × Palette
  | [] => ([], p)
  | call :: rest =>
    let (shade, p) := p.color call
    let (shades, p) := p.answers rest
    (shade :: shades, p)

/-- The state of a palette that has given out colors to some servers in their order. -/
structure GivenOut (colors order : List String) (p : Palette) : Prop where
  source : p.colors = colors
  keys : p.assigned.keys = order
  shade : ∀ server ∈ order,
    p.assigned.get? server = colors[order.idxOf server % colors.length]?

/-- Whether a palette still has every color that another one has given out. -/
def Keeps (p q : Palette) : Prop :=
  ∀ server shade, p.assigned.get? server = some shade → q.assigned.get? server = some shade

private theorem due?_of_named {order : List String} (named : named? call = some server) :
    due? colors order call = colors[order.idxOf server % colors.length]? := by
  rw [due?, named]

private theorem due?_of_unnamed {order : List String} (unnamed : named? call = none) :
    due? colors order call = some unknownColor := by
  rw [due?, unnamed]

private theorem color_of_named (named : named? call = some server) :
    p.color call = p.assign server := by
  obtain ⟨rfl, known⟩ := Option.filter_eq_some_iff.mp named
  rw [color, if_pos known]

private theorem color_of_unnamed (unnamed : named? call = none) :
    p.color call = (unknownColor, p) := by
  cases call with
  | none => rfl
  | some server =>
    have unknown : isNamed server = false := by simpa [named?, Option.filter] using unnamed
    rw [color, unknown, if_neg Bool.false_ne_true]

private theorem assign_of_get? {shade : String} (found : p.assigned.get? server = some shade) :
    p.assign server = (shade, p) := by
  rw [assign, found]

private theorem assign_of_new (new : p.assigned.get? server = none) :
    p.assign server = (p.next, { p with assigned := p.assigned.put server p.next }) := by
  rw [assign, new]

private theorem seen_of_unnamed (unnamed : named? call = none) :
    seen (past ++ [call]) = seen past := by
  rw [seen, List.filterMap_append, List.filterMap_cons_none unnamed, List.filterMap_nil,
    List.append_nil, seen]

private theorem seen_of_named (named : named? call = some server) :
    seen (past ++ [call]) = if server ∈ seen past then seen past else seen past ++ [server] := by
  rw [seen, List.filterMap_append, List.filterMap_cons_some named, List.filterMap_nil,
    firstOccurrences_concat, seen]

private theorem mem_seen (named : named? call = some server) (asked : call ∈ past) :
    server ∈ seen past :=
  mem_firstOccurrences.mpr (List.mem_filterMap.mpr ⟨call, asked, named⟩)

private theorem due?_append (later : List (Option String)) (asked : call ∈ past) :
    due? colors (seen (past ++ later)) call = due? colors (seen past) call := by
  cases named : named? call with
  | none => rw [due?_of_unnamed named, due?_of_unnamed named]
  | some server =>
    obtain ⟨more, split⟩ :=
      exists_firstOccurrences_append (past.filterMap named?) (later.filterMap named?)
    have longer : seen (past ++ later) = seen past ++ more := by
      rw [seen, List.filterMap_append, split, seen]
    rw [due?_of_named named, due?_of_named named, longer,
      List.idxOf_append_of_mem (mem_seen named asked)]

private theorem some_next : some p.next = p.colors[p.assigned.length % p.colors.length]? :=
  (List.getElem?_eq_getElem _).symm

theorem seen_nil : seen [] = [] := rfl

theorem exists_ofColors (nonempty : colors ≠ []) :
    ∃ p, ofColors colors = .ok p ∧ GivenOut colors (seen []) p :=
  ⟨⟨colors, nonempty, []⟩, dif_neg nonempty, rfl, rfl, by simp [seen_nil]⟩

theorem givenOut_standard : GivenOut serverColors (seen []) standard :=
  ⟨rfl, rfl, by simp [seen_nil]⟩

namespace GivenOut

variable {order : List String}

theorem assign_new (given : GivenOut colors order p) (new : server ∉ order) :
    some (p.assign server).1 = colors[(order ++ [server]).idxOf server % colors.length]? ∧
      GivenOut colors (order ++ [server]) (p.assign server).2 := by
  have unknown : server ∉ p.assigned.keys := given.keys ▸ new
  have free : p.assigned.get? server = none := by
    cases found : p.assigned.get? server with
    | none => rfl
    | some shade => exact (unknown (Keyed.mem_keys_iff.mpr ⟨shade, found⟩)).elim
  have place : (order ++ [server]).idxOf server = p.assigned.length := by
    rw [List.idxOf_append_of_notMem new, List.idxOf_cons_self, ← given.keys, Keyed.keys,
      List.length_map, Nat.add_zero]
  have next : some p.next = colors[(order ++ [server]).idxOf server % colors.length]? := by
    rw [place, some_next, given.source]
  rw [assign_of_new free]
  refine ⟨next, given.source, ?_, ?_⟩
  · rw [Keyed.keys_put, if_neg unknown, given.keys]
  · intro other member
    rw [Keyed.get?_put]
    split_ifs with same
    · rw [same, next]
    · have earlier : other ∈ order :=
        (List.mem_append.mp member).resolve_right fun last => same (List.mem_singleton.mp last)
      rw [List.idxOf_append_of_mem earlier]
      exact given.shade other earlier

private theorem color (given : GivenOut colors (seen past) p) (call : Option String) :
    some (p.color call).1 = due? colors (seen (past ++ [call])) call ∧
      GivenOut colors (seen (past ++ [call])) (p.color call).2 := by
  cases named : named? call with
  | none =>
    rw [color_of_unnamed named, due?_of_unnamed named, seen_of_unnamed named]
    exact ⟨rfl, given⟩
  | some server =>
    rw [color_of_named named, due?_of_named named, seen_of_named named]
    split_ifs with known
    · obtain ⟨shade, found⟩ := Keyed.mem_keys_iff.mp (given.keys ▸ known)
      rw [assign_of_get? found, ← found]
      exact ⟨given.shade server known, given⟩
    · exact given.assign_new known

/-- What calls do, one after the other. -/
theorem answers (given : GivenOut colors (seen past) p) (calls : List (Option String)) :
    (p.answers calls).1.map some = calls.map (due? colors (seen (past ++ calls))) ∧
      GivenOut colors (seen (past ++ calls)) (p.answers calls).2 := by
  induction calls generalizing past p with
  | nil =>
    rw [List.append_nil]
    exact ⟨rfl, given⟩
  | cons call rest ih =>
    obtain ⟨first, next⟩ := given.color call
    obtain ⟨others, last⟩ := ih next
    rw [List.append_cons]
    refine ⟨?_, last⟩
    have asked : call ∈ past ++ [call] := List.mem_append_right _ List.mem_cons_self
    rw [List.map_cons, due?_append rest asked, ← first, ← others]
    rfl

end GivenOut

theorem Keeps.refl (p : Palette) : Keeps p p := fun _ _ found => found

theorem Keeps.trans {r : Palette} (first : Keeps p q) (second : Keeps q r) : Keeps p r :=
  fun server shade found => second server shade (first server shade found)

theorem keeps_color (p : Palette) (call : Option String) : Keeps p (p.color call).2 := by
  cases named : named? call with
  | none =>
    rw [color_of_unnamed named]
    exact Keeps.refl p
  | some server =>
    rw [color_of_named named]
    cases known : p.assigned.get? server with
    | some shade =>
      rw [assign_of_get? known]
      exact Keeps.refl p
    | none =>
      rw [assign_of_new known]
      intro other shade found
      have apart : other ≠ server := by
        rintro rfl
        simp [known] at found
      exact (Keyed.get?_put_of_ne _ _ apart).trans found

/-- A call gets the same answer again, and changes nothing, as long as no color is lost. -/
theorem color_again (keeps : Keeps (p.color call).2 q) : q.color call = ((p.color call).1, q) := by
  cases named : named? call with
  | none => rw [color_of_unnamed named, color_of_unnamed named]
  | some server =>
    rw [color_of_named named] at keeps ⊢
    rw [color_of_named named]
    cases known : p.assigned.get? server with
    | some shade =>
      rw [assign_of_get? known] at keeps ⊢
      exact assign_of_get? (keeps server shade known)
    | none =>
      rw [assign_of_new known] at keeps ⊢
      exact assign_of_get? (keeps server p.next (Keyed.get?_put_self _ _ _))

theorem keeps_colorAll (p : Palette) (servers : List String) : Keeps p (p.colorAll servers).2 := by
  induction servers generalizing p with
  | nil => exact Keeps.refl p
  | cons server rest ih => exact (keeps_color p (some server)).trans (ih _)

theorem colorAll_again {servers : List String} (keeps : Keeps (p.colorAll servers).2 q) :
    q.colorAll servers = ((p.colorAll servers).1, q) := by
  induction servers generalizing p with
  | nil => rfl
  | cons server rest ih =>
    have first := color_again ((keeps_colorAll (p.color (some server)).2 rest).trans keeps)
    have others : q.colorAll rest = (((p.color (some server)).2.colorAll rest).1, q) := ih keeps
    simp only [colorAll, first, others]

theorem keys_colorAll (p : Palette) (servers : List String) :
    Keyed.keys (p.colorAll servers).1 = servers := by
  induction servers generalizing p with
  | nil => rfl
  | cons server rest ih => exact congrArg (server :: ·) (ih _)

theorem map_snd_colorAll (p : Palette) (servers : List String) :
    (p.colorAll servers).1.map Prod.snd = (p.answers (servers.map some)).1 := by
  induction servers generalizing p with
  | nil => rfl
  | cons server rest ih => exact congrArg ((p.color (some server)).1 :: ·) (ih _)

private theorem seen_map_some {servers : List String} (nodup : servers.Nodup) :
    seen (servers.map some) = servers.filter isNamed := by
  have named : (servers.map some).filterMap named? = servers.filter isNamed := by
    rw [List.filterMap_map, ← List.filterMap_eq_filter]
    refine List.filterMap_congr fun server _ => ?_
    cases known : isNamed server with
    | true => simp [named?, Option.guard, known]
    | false => simp [named?, Option.guard, known]
  rw [seen, named, firstOccurrences_of_nodup (nodup.filter _)]

/-- Each of several servers gets the color of its place among the named ones. -/
theorem map_shade_colorAll {servers : List String} (nodup : servers.Nodup)
    (given : GivenOut colors (seen []) p) :
    (p.colorAll servers).1.map (fun entry => some entry.2) =
      servers.map (fun server => due? colors (servers.filter isNamed) (some server)) := by
  have due := (given.answers (servers.map some)).1
  rw [List.nil_append, seen_map_some nodup, ← map_snd_colorAll, List.map_map, List.map_map] at due
  exact due

end CapabilityAtlas.Palette
