import CapabilityAtlas.Proofs.Order
import CapabilityAtlas.Proofs.Palette
import CapabilityAtlas.Proofs.Session

set_option autoImplicit false
set_option relaxedAutoImplicit false

/-!
The colors of the servers of an engine. Whatever an engine is used for in between, a color that has
been given out stays, so that every server keeps the color of its first appearance.
-/

namespace CapabilityAtlas

open CapabilityAtlas.Layout CapabilityAtlas.Palette

/-- What an engine can be used for, as far as it changes by that. -/
inductive Use
  | layout (request : Request)
  | serverColors
  | color (server : Option String)

namespace Engine

variable {e : Engine}

def after (e : Engine) : Use → Engine
  | .layout request => (e.serve request).2
  | .serverColors => e.serverColors.2
  | .color server => { e with palette := (e.palette.color server).2 }

/-- Layouts that are asked for leave the hierarchy and the palette as they are. -/
theorem serve_frame (e : Engine) (r : Request) :
    (e.serve r).2.hierarchy = e.hierarchy ∧ (e.serve r).2.palette = e.palette := by
  have answered : ∀ made, (e.answer r.width r.height made).2.hierarchy = e.hierarchy ∧
      (e.answer r.width r.height made).2.palette = e.palette := by
    intro made
    cases made with
    | error fault => exact ⟨rfl, rfl⟩
    | ok layout => exact ⟨rfl, rfl⟩
  cases found : e.kept? r.width r.height with
  | none =>
    rw [serve_of_none found]
    exact answered _
  | some kept =>
    rcases serve_of_some found with ⟨-, served⟩ | ⟨t, -, ⟨-, served⟩ | served⟩
    · rw [served]
      exact ⟨rfl, rfl⟩
    · rw [served]
      exact ⟨rfl, rfl⟩
    · rw [served]
      exact answered _

private theorem after_keeps (e : Engine) (use : Use) :
    (e.after use).hierarchy = e.hierarchy ∧ Keeps e.palette (e.after use).palette := by
  cases use with
  | layout request =>
    obtain ⟨hierarchy, palette⟩ := serve_frame e request
    refine ⟨hierarchy, ?_⟩
    change Keeps e.palette (e.serve request).2.palette
    rw [palette]
    exact Keeps.refl e.palette
  | serverColors => exact ⟨rfl, keeps_colorAll e.palette _⟩
  | color server => exact ⟨rfl, keeps_color e.palette server⟩

theorem foldl_after_keeps (e : Engine) (uses : List Use) :
    (uses.foldl after e).hierarchy = e.hierarchy ∧
      Keeps e.palette (uses.foldl after e).palette := by
  induction uses generalizing e with
  | nil => exact ⟨rfl, Keeps.refl e.palette⟩
  | cons use rest ih =>
    obtain ⟨hierarchy, keeps⟩ := after_keeps e use
    obtain ⟨hierarchy', keeps'⟩ := ih (e.after use)
    exact ⟨hierarchy'.trans hierarchy, keeps.trans keeps'⟩

private theorem serverColors_again {later : Engine} (same : later.hierarchy = e.hierarchy)
    (keeps : Keeps e.serverColors.2.palette later.palette) :
    later.serverColors = (e.serverColors.1, later) := by
  have again : later.palette.colorAll (servers later.hierarchy) =
      (e.serverColors.1, later.palette) := by
    rw [same]
    exact colorAll_again keeps
  rw [serverColors, again]

private theorem nodup_servers (h : Hierarchy) : (servers h).Nodup := by
  refine List.nodup_append.mpr ⟨?_, ?_, ?_⟩
  · exact (Order.perm_sortTexts _).nodup_iff.mpr (nodup_firstOccurrences _)
  · exact (Order.perm_sortTexts _).nodup_iff.mpr ((nodup_firstOccurrences _).filter _)
  · rintro server placed _ orphaned rfl
    obtain ⟨-, other⟩ := List.mem_filter.mp (Order.mem_sortTexts.mp orphaned)
    rw [List.contains_iff_mem.mpr placed] at other
    exact Bool.false_ne_true other

/-- Calls to a palette are answered by the color of the place at which their server first appears,
and the palette lists the servers that have appeared. Hence a new engine gives each server the color
of its place among its named ones, and any engine the same colors whenever it is asked again. -/
theorem colors_by_first_appearance {colors : List String} (nonempty : colors ≠ []) :
    (∃ p, Palette.ofColors colors = .ok p ∧ ∀ calls,
      (p.answers calls).1.map some = calls.map (due? colors (seen calls)) ∧
      (p.answers calls).2.assigned.keys = seen calls ∧
      ∀ server ∈ seen calls, (p.answers calls).2.assigned.get? server =
        colors[(seen calls).idxOf server % colors.length]?) ∧
    (∀ s maxHops limits settings,
      (start s maxHops limits settings).serverColors.1.map (fun entry => some entry.2) =
        (servers (Hierarchy.build s)).map (fun server =>
          due? Palette.serverColors ((servers (Hierarchy.build s)).filter isNamed) (some server))) ∧
    ∀ e : Engine, Keyed.keys e.serverColors.1 = servers e.hierarchy ∧ (servers e.hierarchy).Nodup ∧
      ∀ uses : List Use,
        (uses.foldl after e.serverColors.2).serverColors.1 = e.serverColors.1 := by
  refine ⟨?_, ?_, ?_⟩
  · obtain ⟨p, made, given⟩ := exists_ofColors nonempty
    refine ⟨p, made, fun calls => ?_⟩
    obtain ⟨answers, after⟩ := given.answers calls
    exact ⟨answers, after.keys, after.shade⟩
  · exact fun s _ _ _ => map_shade_colorAll (nodup_servers (Hierarchy.build s)) givenOut_standard
  · refine fun e => ⟨keys_colorAll _ _, nodup_servers e.hierarchy, fun uses => ?_⟩
    obtain ⟨same, keeps⟩ := foldl_after_keeps e.serverColors.2 uses
    have again := serverColors_again (e := e) same keeps
    rw [again]

theorem colors_by_first_appearance_of_two :
    ["red", "blue"] ≠ [] ∧ ∃ p, Palette.ofColors ["red", "blue"] = .ok p ∧
      (p.answers [none, some "files", some "unknown", some "mail", some "web", some "",
        some "files"]).1 =
          [unknownColor, "red", unknownColor, "blue", "red", unknownColor, "red"] ∧
      (p.answers [none, some "files", some "unknown", some "mail", some "web", some "",
        some "files"]).2.assigned.keys = ["files", "mail", "web"] := by
  have nonempty : ["red", "blue"] ≠ [] := by decide
  obtain ⟨⟨p, made, laws⟩, -⟩ := colors_by_first_appearance nonempty
  obtain ⟨answers, keys, -⟩ := laws [none, some "files", some "unknown", some "mail", some "web",
    some "", some "files"]
  refine ⟨nonempty, p, made, ?_, keys.trans (by decide)⟩
  exact List.map_injective_iff.mpr (Option.some_injective String) (answers.trans (by decide))

end Engine

end CapabilityAtlas
