import CapabilityAtlas.Proofs.Neighborhood
import CapabilityAtlas.Proofs.Resolution
import CapabilityAtlas.Proofs.Search.Ranking
import CapabilityAtlas.Proofs.Session
import CapabilityAtlas.Settings.Source

set_option autoImplicit false
set_option relaxedAutoImplicit false

/-!
What is read from a source of settings, and how it shows in the answers of an engine. Every setting
is read under its own name; the last argument of that name wins over all variables, the last
variable over the default. A source is refused exactly if something that is given cannot be read or
an argument names no setting.
-/

namespace CapabilityAtlas

open CapabilityAtlas.Geometry CapabilityAtlas.Layout

namespace Settings

def Value.reads : Value → Payload → Bool
  | .whole _, value => (wholeValue? value).isSome
  | .real _, value => (realValue? value).isSome

namespace Source

variable {source : Source} {settings : Settings Float} {name : String}

def valueOf (source : Source) (name : String) : Value → Value
  | .whole standard => .whole (source.whole name standard)
  | .real standard => .real (source.real name standard)

/-- Every setting is read under its own name, with its own default. -/
theorem entries_settings (source : Source) :
    entries source.settings = (entries standard).map (fun e => (e.1, source.valueOf e.1 e.2)) :=
  rfl

private theorem whole_of_none (free : source.given? name = none) (standard : Int) :
    source.whole name standard = standard := by
  rw [whole, free]
  rfl

private theorem real_of_none (free : source.given? name = none) (standard : Float) :
    source.real name standard = standard := by
  rw [real, free]
  rfl

/-- Where nothing is given for any setting, all have their defaults. -/
theorem settings_eq_standard (free : ∀ e ∈ entries standard, source.given? e.1 = none) :
    source.settings = standard := by
  simp only [entries, List.forall_mem_cons] at free
  simp [settings, whole_of_none, real_of_none, free, standard, RadialStyle.standard,
    TimelineStyle.standard]

/-- The last argument of a name is what is given for it, whatever the variables say. -/
theorem given?_of_argument {written : String} {value : Payload} (before : Fields) {after : Fields}
    (split : source.arguments = before ++ (written, value) :: after)
    (named : isNamed name written) (last : ∀ a ∈ after, ¬ isNamed name a.1) :
    source.given? name = some value := by
  have later : after.reverse.find? (fun a => isNamed name a.1) = none := by
    rw [List.find?_eq_none]
    exact fun a member => last a (List.mem_reverse.mp member)
  have found : source.argument? name = some value := by
    rw [argument?, split, List.reverse_append, List.reverse_cons, List.append_assoc,
      List.find?_append, later]
    simp [named]
  rw [given?, found, Option.some_or]

/-- Without an argument the last variable of a name is what is given for it, as a text. -/
theorem given?_of_variable {written text : String} {before after : List (String × String)}
    (unnamed : ∀ a ∈ source.arguments, ¬ isNamed name a.1)
    (split : source.environment = before ++ (written, text) :: after)
    (named : isNamed (variableStart ++ name) written)
    (last : ∀ v ∈ after, ¬ isNamed (variableStart ++ name) v.1) :
    source.given? name = some (.text text) := by
  have absent : source.argument? name = none := by
    rw [argument?, Option.map_eq_none_iff, List.find?_eq_none]
    exact fun a member => unnamed a (List.mem_reverse.mp member)
  have later : after.reverse.find? (fun v => isNamed (variableStart ++ name) v.1) = none := by
    rw [List.find?_eq_none]
    exact fun v member => last v (List.mem_reverse.mp member)
  have found : source.inherited? name = some text := by
    rw [inherited?, split, List.reverse_append, List.reverse_cons, List.append_assoc,
      List.find?_append, later]
    simp [named]
  rw [given?, absent, found]
  rfl

example : let source : Source := ⟨[("CAPGRAPH_Search_Max_Results", " 3 ")], []⟩
    source.whole "search_max_results" 8 = 3 := by
  decide

private theorem isRefused_iff {standard : Value} : source.isRefused name standard ↔
    ∃ value, source.given? name = some value ∧ ¬ standard.reads value := by
  unfold isRefused
  cases source.given? name with
  | none => simp
  | some value => cases standard <;> simp [Value.reads]

theorem mem_refused_iff : name ∈ source.refused ↔
    (∃ e ∈ entries standard, e.1 = name ∧
      ∃ value, source.given? e.1 = some value ∧ ¬ e.2.reads value) ∨
    (∃ a ∈ source.arguments, a.1 = name) ∧ ∀ e ∈ entries standard, ¬ isNamed e.1 name := by
  rw [refused, Order.mem_sortTexts, List.mem_append]
  refine or_congr ?_ ?_
  · simp only [List.mem_map, List.mem_filter, isRefused_iff]
    exact exists_congr fun e => by rw [and_assoc, and_comm (b := e.1 = name)]
  · simp only [List.mem_filter, List.mem_map, Bool.not_eq_true', List.any_eq_false]

/-- A source with nothing to refuse: all that is given for settings can be read, and every argument
names one of them. -/
structure IsReadable (source : Source) : Prop where
  readable : ∀ e ∈ entries standard, ∀ value, source.given? e.1 = some value → e.2.reads value
  known : ∀ a ∈ source.arguments, ∃ e ∈ entries standard, isNamed e.1 a.1

private theorem refused_eq_nil_iff : source.refused = [] ↔ source.IsReadable := by
  rw [List.eq_nil_iff_forall_not_mem]
  constructor
  · intro clear
    constructor
    · intro e listed value given
      by_contra unread
      exact clear e.1 (mem_refused_iff.mpr (Or.inl ⟨e, listed, rfl, value, given, unread⟩))
    · intro a member
      by_contra unnamed
      push Not at unnamed
      exact clear a.1 (mem_refused_iff.mpr (Or.inr ⟨⟨a, member, rfl⟩, unnamed⟩))
  · rintro ⟨readable, known⟩ name member
    rcases mem_refused_iff.mp member with
      ⟨e, listed, rfl, value, given, unread⟩ | ⟨⟨a, argued, rfl⟩, unnamed⟩
    · exact unread (readable e listed value given)
    · obtain ⟨e, listed, named⟩ := known a argued
      exact unnamed e listed named

/-- A source is read exactly if it has nothing to refuse, and otherwise all that is refused is
reported in ascending order. -/
theorem read_eq_ok_iff :
    (source.read = .ok settings ↔ source.IsReadable ∧ source.settings = settings) ∧
    (¬ source.IsReadable → source.read = .error source.refused) ∧
    source.refused.Pairwise (· ≤ ·) := by
  rw [← refused_eq_nil_iff, read]
  refine ⟨?_, ?_, ?_⟩
  · split
    · rename_i clear
      simp [List.isEmpty_iff.mp clear]
    · rename_i refused
      simp [List.isEmpty_iff.not.mp refused]
  · intro refused
    rw [if_neg (List.isEmpty_iff.not.mpr refused)]
  · exact Order.pairwise_sortTexts _

/-- The settings for tests leave the environment without a say in three of them. -/
theorem settings_testSource (environment : List (String × String)) :
    (testSource environment).settings.maxHops = 10 ∧
      (testSource environment).settings.radial.tension = Scalar.ratio 85 100 ∧
      (testSource environment).settings.search.maxResults = 8 := by
  have hops : (testSource environment).given? "neighborhood_max_hops" = some (.int 10) :=
    given?_of_argument [] rfl (by decide) (by simp; decide)
  have tension : (testSource environment).given? "radial_tension" =
      some (.float (Scalar.ratio 85 100)) :=
    given?_of_argument [_] rfl (by decide) (by simp; decide)
  have results : (testSource environment).given? "search_max_results" = some (.int 8) :=
    given?_of_argument [_, _] rfl (by decide) (by simp)
  simp [settings, whole, real, hops, tension, results, wholeValue?, realValue?]

end Source

end Settings

namespace Engine

private theorem not_le_zero_of_check {c : TimelineConfig Float} {done : Unit}
    (checked : c.check = .ok done) : ¬ c.style.cardWidth ≤ 0 := by
  intro narrow
  rw [TimelineConfig.check, if_pos narrow] at checked
  cases checked

/-- What is read from a source shows in what an engine answers: the layouts have the tension that is
set, neighborhoods do not reach further than the hops that are set, searches list no more hits than
are set, no timeline has cards without width, and outlines keep the padding that is set. -/
theorem configured_of_read {source : Settings.Source} {settings : Settings Float}
    (read : source.read = .ok settings) (s : Snapshot) :
    (∀ width height layout, ((configured settings s).radial width height none).1 = .ok layout →
      layout.tension = clampTension (source.real "radial_tension" (Scalar.ratio 85 100))) ∧
    (∀ id depth n, (configured settings s).highlight id depth = .ok n →
      n.depth ≤ max (source.whole "neighborhood_max_hops" 10) 0) ∧
    (∀ query hits, (configured settings s).search query = .ok hits →
      0 ≤ source.whole "search_max_results" 8 →
      hits.length ≤ source.whole "search_max_results" 8) ∧
    (∀ width now filter topLevelOnly timeline,
      (configured settings s).timeline width now filter topLevelOnly = .ok timeline →
        ¬ source.real "timeline_card_width" ((200 : Nat) : Float) ≤ 0) ∧
    ∀ smooth, (outlineStyle none smooth settings).padding =
      source.real "hull_padding" ((20 : Nat) : Float) := by
  obtain ⟨-, rfl⟩ := Settings.Source.read_eq_ok_iff.1.mp read
  refine ⟨?_, ?_, ?_, ?_, fun _ => rfl⟩
  · intro width height layout answered
    have fresh := ((faithful_start s source.settings.maxHops source.settings.search
      source.settings).serve (.radial width height none)).1
    exact (of_layoutOnCanvas (fresh.symm.trans answered)).2.2.1
  · intro id depth n answered
    obtain ⟨reach, -, rest⟩ := Fault.ok_of_bind answered
    obtain ⟨resolved, -, made⟩ := Fault.ok_of_bind rest
    obtain rfl := Except.ok.inj made
    rw [Neighborhood.depth_ofResolved]
    exact Reach.limit_le reach _
  · intro query hits answered nonneg
    obtain ⟨text, -, ranked⟩ := Fault.ok_of_bind answered
    unfold Search.rank at ranked
    split at ranked
    · obtain rfl := Except.ok.inj ranked
      exact nonneg
    · obtain ⟨found, -, made⟩ := Fault.ok_of_bind ranked
      obtain rfl := Except.ok.inj made
      exact Search.length_firstHits_le nonneg _
  · intro width now filter topLevelOnly timeline answered
    obtain ⟨_, checked, -⟩ := Fault.ok_of_bind answered
    have wide := not_le_zero_of_check checked
    exact wide

end Engine

end CapabilityAtlas
