import CapabilityAtlas.Engine
import CapabilityAtlas.Proofs.Hierarchy.Forest
import CapabilityAtlas.Proofs.Layout.Canvas

set_option autoImplicit false
set_option relaxedAutoImplicit false

/-!
Sessions of an engine. Radial layouts are asked for one after the other, and the layout that is kept
for a size is the one that would be made anew at the tension of the last answer for that size.
-/

namespace CapabilityAtlas

open CapabilityAtlas.Geometry CapabilityAtlas.Layout

inductive Request
  | radial (width height : Float) (tension : Option Float)
  | retension (tension width height : Float)

namespace Request

def width : Request → Float
  | radial w _ _ => w
  | retension _ w _ => w

def height : Request → Float
  | radial _ h _ => h
  | retension _ _ h => h

def tension? : Request → Option Float
  | radial _ _ t => t
  | retension t _ _ => some t

def fits (width height : Float) (r : Request) : Bool := r.width == width && r.height == height

end Request

structure Exchange where
  request : Request
  answer : Except Fault (RadialLayout Float)

/-- The tension of the last successful answer for a size. -/
def lastTension? (log : List Exchange) (width height : Float) : Option Float :=
  log.reverse.findSome? (fun x =>
    if x.request.fits width height then x.answer.toOption.map RadialLayout.tension else none)

/-- The tension that the answer to a request should have: the one that is asked for, brought between
zero and one, or else that of the last answer for the size, or else that of the style. -/
def dueTension (style : RadialStyle Float) (log : List Exchange) (r : Request) : Float :=
  match r.tension? with
  | some t => clampTension t
  | none => (lastTension? log r.width r.height).getD style.tension

namespace Engine

def serve (e : Engine) : Request → Except Fault (RadialLayout Float) × Engine
  | .radial width height tension => e.radial width height tension
  | .retension tension width height => e.retension tension width height

def run (e : Engine) : List Request → List Exchange × Engine
  | [] => ([], e)
  | r :: rest =>
    let (answer, next) := e.serve r
    let (log, last) := next.run rest
    ({ request := r, answer := answer } :: log, last)

private theorem lastTension?_append (log : List Exchange) (x : Exchange) (width height : Float) :
    lastTension? (log ++ [x]) width height =
      (if x.request.fits width height then x.answer.toOption.map RadialLayout.tension
        else none).or (lastTension? log width height) := by
  rw [lastTension?, List.reverse_append, List.reverse_singleton, List.singleton_append,
    List.findSome?_cons]
  cases (if x.request.fits width height then x.answer.toOption.map RadialLayout.tension
    else none) <;> rfl

/-- The state of an engine after a session: every kept layout is the one at its tension, and the
tensions of the kept layouts are those of the last answers. -/
structure Faithful (h : Hierarchy) (style : RadialStyle Float) (log : List Exchange) (e : Engine) :
    Prop where
  hierarchy : e.hierarchy = h
  styled : e.settings.radial = style
  made : ∀ c ∈ e.layouts,
    layoutOnCanvas h c.width c.height (some c.layout.tension) style = .ok c.layout
  last : ∀ width height,
    (e.kept? width height).map RadialLayout.tension = lastTension? log width height

variable {h : Hierarchy} {style : RadialStyle Float} {log : List Exchange} {e : Engine}
  {width height : Float} {layout kept : RadialLayout Float}

theorem faithful_start (s : Snapshot) (maxHops : Int) (limits : Search.Limits)
    (settings : Settings Float) :
    Faithful (Hierarchy.build s) settings.radial [] (start s maxHops limits settings) :=
  ⟨rfl, rfl, by simp [start], fun _ _ => rfl⟩

private theorem eq_of_fits {c : CanvasLayout} {tension : Option Float}
    (made : layoutOnCanvas h c.width c.height tension style = .ok layout)
    (fits : c.fits width height = true) : c.width = width ∧ c.height = height := by
  obtain ⟨wide, high, -⟩ := of_layoutOnCanvas made
  obtain ⟨sameWidth, sameHeight⟩ := Bool.and_eq_true_iff.mp fits
  exact ⟨eq_of_beq_of_not_le sameWidth wide, eq_of_beq_of_not_le sameHeight high⟩

private theorem Faithful.made_kept (faithful : Faithful h style log e)
    (found : e.kept? width height = some kept) :
    layoutOnCanvas h width height (some kept.tension) style = .ok kept := by
  obtain ⟨c, search, rfl⟩ := Option.map_eq_some_iff.mp found
  have made := faithful.made c (List.mem_of_find?_eq_some search)
  obtain ⟨rfl, rfl⟩ := eq_of_fits made (List.find?_some search)
  exact made

theorem serve_of_none {r : Request} (found : e.kept? r.width r.height = none) :
    e.serve r = e.layOut r.width r.height r.tension? := by
  cases r with
  | radial width height tension =>
    change e.radial width height tension = e.layOut width height tension
    change e.kept? width height = none at found
    simp only [radial, found]
  | retension t width height =>
    change e.retension t width height = e.layOut width height (some t)
    change e.kept? width height = none at found
    simp only [retension, radial, found]

/-- A request for a size with a kept layout gets that one if it fits the tension. -/
theorem serve_of_some {r : Request} (found : e.kept? r.width r.height = some kept) :
    (r.tension? = none ∧ e.serve r = (.ok kept, e)) ∨
      ∃ t, r.tension? = some t ∧
        ((clampTension t == kept.tension) = true ∧ e.serve r = (.ok kept, e) ∨
          e.serve r = e.rebundle kept t r.width r.height) := by
  cases r with
  | radial width height tension =>
    change e.kept? width height = some kept at found
    cases tension with
    | none =>
      refine Or.inl ⟨rfl, ?_⟩
      change e.radial width height none = _
      simp only [radial, found]
    | some t =>
      refine Or.inr ⟨t, rfl, ?_⟩
      change _ ∧ e.radial width height (some t) = _ ∨ e.radial width height (some t) = _
      simp only [radial, found]
      by_cases same : (clampTension t == kept.tension) = true
      · exact Or.inl ⟨same, if_pos same⟩
      · exact Or.inr (if_neg same)
  | retension t width height =>
    change e.kept? width height = some kept at found
    refine Or.inr ⟨t, rfl, Or.inr ?_⟩
    change e.retension t width height = _
    simp only [retension, found]
    rfl

private theorem dueTension_of_none {r : Request} (free : r.tension? = none) :
    dueTension style log r = (lastTension? log r.width r.height).getD style.tension := by
  rw [dueTension, free]

private theorem dueTension_of_some {r : Request} {t : Float} (asked : r.tension? = some t) :
    dueTension style log r = clampTension t := by
  rw [dueTension, asked]

/-- A request is answered by the layout at the tension that is due: by the kept one, or by one that
is made now. -/
private theorem Faithful.serve_cases (faithful : Faithful h style log e) (r : Request) :
    e.serve r = e.answer r.width r.height
        (layoutOnCanvas h r.width r.height (some (dueTension style log r)) style) ∨
      ∃ kept, e.kept? r.width r.height = some kept ∧ e.serve r = (.ok kept, e) ∧
        layoutOnCanvas h r.width r.height (some (dueTension style log r)) style = .ok kept := by
  have last := faithful.last r.width r.height
  cases found : e.kept? r.width r.height with
  | none =>
    left
    rw [serve_of_none found, layOut, faithful.hierarchy, faithful.styled]
    refine congrArg (e.answer r.width r.height) ?_
    cases asked : r.tension? with
    | none =>
      rw [dueTension_of_none asked, ← last, found]
      rfl
    | some t => rw [dueTension_of_some asked, layoutOnCanvas_clampTension]
  | some kept =>
    have made := faithful.made_kept found
    have own : kept.tension = clampTension kept.tension := (of_layoutOnCanvas made).2.2.1
    rcases serve_of_some found with ⟨free, served⟩ | ⟨t, asked, ⟨same, served⟩ | served⟩
    · refine Or.inr ⟨kept, rfl, served, ?_⟩
      rw [dueTension_of_none free, ← last, found]
      exact made
    · refine Or.inr ⟨kept, rfl, served, ?_⟩
      rw [own] at same
      rw [dueTension_of_some asked, clampTension_eq_of_beq same, ← own]
      exact made
    · left
      rw [served, rebundle, faithful.hierarchy, retension_eq made, dueTension_of_some asked,
        layoutOnCanvas_clampTension]

private theorem kept?_keep {tension : Option Float}
    (faithful : Faithful h style log e)
    (made : layoutOnCanvas h width height tension style = .ok layout)
    (width' height' : Float) :
    (e.keep width height layout).kept? width' height' =
      if width == width' && height == height' then some layout else e.kept? width' height' := by
  unfold keep kept?
  rw [List.find?_cons]
  by_cases fits : (width == width' && height == height') = true
  · have fits' : CanvasLayout.fits width' height'
        { width := width, height := height, layout := layout } = true := fits
    rw [fits', if_pos fits]
    rfl
  · -- What is dropped fits the size of the new layout, hence no other one.
    have misses : CanvasLayout.fits width' height'
        { width := width, height := height, layout := layout } = false :=
      Bool.eq_false_iff.mpr fits
    rw [misses, if_neg fits, List.find?_filter]
    refine congrArg (Option.map CanvasLayout.layout) (List.find?_congr fun c hc => ?_)
    by_cases other : c.fits width' height' = true
    · have away : c.fits width height = false := by
        refine Bool.eq_false_iff.mpr fun both => fits ?_
        obtain ⟨rfl, rfl⟩ := eq_of_fits (faithful.made c hc) both
        exact other
      simp [other, away]
    · simp [other]

/-- An answer that is made now keeps an engine faithful, whether it succeeds or not. -/
theorem Faithful.answer (faithful : Faithful h style log e) {r : Request} {t : Float}
    {made : Except Fault (RadialLayout Float)}
    (fresh : made = layoutOnCanvas h r.width r.height (some t) style) :
    (e.answer r.width r.height made).1 = made ∧
      Faithful h style (log ++ [{ request := r, answer := made }])
        (e.answer r.width r.height made).2 := by
  cases made with
  | error fault =>
    refine ⟨rfl, faithful.hierarchy, faithful.styled, faithful.made, fun width height => ?_⟩
    rw [lastTension?_append]
    refine (faithful.last width height).trans ?_
    split <;> rfl
  | ok layout =>
    refine ⟨rfl, faithful.hierarchy, faithful.styled, ?_, ?_⟩
    · intro c hc
      rcases List.mem_cons.mp hc with rfl | hc
      · exact layoutOnCanvas_own fresh.symm
      · exact faithful.made c (List.mem_filter.mp hc).1
    · intro width height
      change ((e.keep r.width r.height layout).kept? width height).map _ = _
      rw [kept?_keep faithful fresh.symm, lastTension?_append, ← faithful.last]
      by_cases fits : (r.width == width && r.height == height) = true
      · have fits' : r.fits width height = true := fits
        rw [if_pos fits, if_pos fits']
        rfl
      · have misses : ¬ r.fits width height = true := fits
        rw [if_neg fits, if_neg misses]
        rfl

theorem Faithful.again (faithful : Faithful h style log e) {r : Request} {t : Float}
    (found : e.kept? r.width r.height = some kept)
    (made : layoutOnCanvas h r.width r.height (some t) style = .ok kept) :
    Faithful h style (log ++ [{ request := r, answer := .ok kept }]) e := by
  refine ⟨faithful.hierarchy, faithful.styled, faithful.made, fun width height => ?_⟩
  rw [lastTension?_append]
  by_cases fits : r.fits width height = true
  · obtain ⟨rfl, rfl⟩ := eq_of_fits
      (c := { width := r.width, height := r.height, layout := kept }) made fits
    rw [found, if_pos fits]
    rfl
  · rw [if_neg fits]
    exact faithful.last width height

/-- What one request does. -/
theorem Faithful.serve (faithful : Faithful h style log e) (r : Request) :
    (e.serve r).1 = layoutOnCanvas h r.width r.height (some (dueTension style log r)) style ∧
      Faithful h style (log ++ [{ request := r, answer := (e.serve r).1 }]) (e.serve r).2 := by
  rcases faithful.serve_cases r with served | ⟨kept, found, served, made⟩
  · obtain ⟨same, next⟩ := faithful.answer (r := r) (t := dueTension style log r) rfl
    rw [served, same]
    exact ⟨rfl, next⟩
  · rw [served, made]
    exact ⟨rfl, faithful.again found made⟩

/-- What a session does. -/
theorem Faithful.run (faithful : Faithful h style log e) (requests : List Request) :
    Faithful h style (log ++ (e.run requests).1) (e.run requests).2 ∧
      ∀ before x after, (e.run requests).1 = before ++ x :: after →
        x.answer = layoutOnCanvas h x.request.width x.request.height
          (some (dueTension style (log ++ before) x.request)) style := by
  induction requests generalizing log e with
  | nil =>
    refine ⟨?_, ?_⟩
    · rw [Engine.run, List.append_nil]
      exact faithful
    · intro before x after split
      simp [Engine.run] at split
  | cons r rest ih =>
    obtain ⟨fresh, next⟩ := faithful.serve r
    obtain ⟨last, answers⟩ := ih next
    rw [List.append_assoc] at last
    refine ⟨last, ?_⟩
    intro before x after split
    change { request := r, answer := (e.serve r).1 } :: ((e.serve r).2.run rest).1 = _ at split
    cases before with
    | nil =>
      obtain ⟨rfl, -⟩ := List.cons.inj split
      rw [List.append_nil]
      exact fresh
    | cons y before =>
      obtain ⟨rfl, later⟩ := List.cons.inj split
      rw [List.append_cons]
      exact answers before x after later

private theorem serve_of_error {fault : Fault} {r : Request}
    (failed : (e.serve r).1 = .error fault) :
    (e.serve r).2 = e := by
  have kept : ∀ made, (e.answer r.width r.height made).1 = .error fault →
      (e.answer r.width r.height made).2 = e := by
    intro made failed
    cases made with
    | error other => rfl
    | ok layout => simp [answer] at failed
  cases found : e.kept? r.width r.height with
  | none =>
    rw [serve_of_none found] at failed ⊢
    exact kept _ failed
  | some kept' =>
    rcases serve_of_some found with ⟨-, served⟩ | ⟨t, -, ⟨-, served⟩ | served⟩
    · rw [served]
    · rw [served]
    · rw [served] at failed ⊢
      exact kept _ failed

private theorem run_append (e : Engine) (first second : List Request) :
    e.run (first ++ second) = ((e.run first).1 ++ ((e.run first).2.run second).1,
      ((e.run first).2.run second).2) := by
  induction first generalizing e with
  | nil => rfl
  | cons r rest ih =>
    have step : e.run (r :: (rest ++ second)) =
        ({ request := r, answer := (e.serve r).1 } :: ((e.serve r).2.run (rest ++ second)).1,
          ((e.serve r).2.run (rest ++ second)).2) := rfl
    rw [List.cons_append, step, ih]
    rfl

/-- In every session each answer is the layout that would be made anew at the tension that is due;
a canvas without extent is refused, and a request that fails leaves everything as it was, so that
later answers are the same as without it. -/
theorem answers_as_made_anew (s : Snapshot) (maxHops : Int) (limits : Search.Limits)
    (settings : Settings Float) (requests : List Request) :
    let session := (start s maxHops limits settings).run requests
    (∀ before x after, session.1 = before ++ x :: after →
      x.answer = layoutOnCanvas (Hierarchy.build s) x.request.width x.request.height
        (some (dueTension settings.radial before x.request)) settings.radial) ∧
    (∀ r : Request, r.width ≤ 0 ∨ r.height ≤ 0 →
      (session.2.serve r).1 = .error (.canvasSize r.width r.height)) ∧
    ∀ r fault, (session.2.serve r).1 = .error fault →
      (session.2.serve r).2 = session.2 ∧
      ∀ later, ((start s maxHops limits settings).run (requests ++ later)).1 =
          session.1 ++ (session.2.run later).1 ∧
        ((start s maxHops limits settings).run (requests ++ r :: later)).1 =
          session.1 ++ { request := r, answer := .error fault } :: (session.2.run later).1 := by
  intro session
  obtain ⟨faithful, answers⟩ := (faithful_start s maxHops limits settings).run requests
  refine ⟨answers, ?_, ?_⟩
  · intro r empty
    rw [(faithful.serve r).1]
    exact layoutOnCanvas_of_le empty
  · intro r fault failed
    have unchanged := serve_of_error failed
    refine ⟨unchanged, fun later => ⟨?_, ?_⟩⟩
    · rw [run_append]
    · have next : session.2.run (r :: later) =
          ({ request := r, answer := (session.2.serve r).1 } ::
            ((session.2.serve r).2.run later).1, ((session.2.serve r).2.run later).2) := rfl
      rw [run_append]
      change session.1 ++ (session.2.run (r :: later)).1 = _
      rw [next, failed, unchanged]

theorem answers_as_made_anew_of_circle :
    let engine := start Hierarchy.circleSnapshot 10 {}
    let session := engine.run [.radial 800 600 (some 7), .retension 0.25 800 600]
    (session.2.serve (.radial 800 0 none)).1 = .error (.canvasSize 800 0) ∧
      (session.2.serve (.radial 800 0 none)).2 = session.2 := by
  intro engine session
  obtain ⟨-, refused, unchanged⟩ := answers_as_made_anew Hierarchy.circleSnapshot 10 {}
    Settings.standard [.radial 800 600 (some 7), .retension 0.25 800 600]
  have failed := refused (.radial 800 0 none) (Or.inr (by decide))
  exact ⟨failed, (unchanged _ _ failed).1⟩

end Engine

end CapabilityAtlas
