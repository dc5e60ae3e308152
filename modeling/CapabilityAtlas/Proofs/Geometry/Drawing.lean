import CapabilityAtlas.Geometry.Drawing
import CapabilityAtlas.Proofs.Numeral.Binary
import CapabilityAtlas.Proofs.Numeral.Decimal
import Mathlib.Data.List.Forall2

set_option autoImplicit false
set_option relaxedAutoImplicit false

/-!
The text of a closed polygon. No number has a mark of the text in it, so the text falls into its
numbers at the marks, and it shows of every coordinate the nearest number with three decimals and
nothing else.
-/

namespace CapabilityAtlas.Geometry

open CapabilityAtlas.Numeral

section Coordinates

/-- Whether a numeral is the canonical decimal of a number rounded to three decimals. -/
def IsNumeralOf (x : Float) (numeral : List Char) : Prop :=
  ∃ (s : Spelling) (n : ℤ), numeral = s.chars ∧ s.IsCanonical ∧
    IsNearestEven ((Exact.ofBinary x).value * 1000) n ∧ s.value = n / 1000

def RoundAlike (x y : Float) : Prop :=
  ∃ n, IsNearestEven ((Exact.ofBinary x).value * 1000) n ∧
    IsNearestEven ((Exact.ofBinary y).value * 1000) n

variable {x y : Float}

private theorem exists_coordinateText_eq (finite : x.isFinite) :
    ∃ n, (coordinateText x).toList = compactDigits coordinatePlaces n ∧
      IsNearestEven ((Exact.ofBinary x).value * 1000) n := by
  obtain ⟨n, rounded, nearest⟩ := exists_rounded?_eq finite coordinatePlaces
  refine ⟨n, ?_, ?_⟩
  · simp only [coordinateText, compact, rounded, String.toList_ofList]
  · have unit : (10 : ℚ) ^ coordinatePlaces = 1000 := by norm_num [coordinatePlaces]
    rwa [unit] at nearest

private theorem isNumeralOf_coordinateText (finite : x.isFinite) :
    IsNumeralOf x (coordinateText x).toList := by
  obtain ⟨n, text, nearest⟩ := exists_coordinateText_eq finite
  refine ⟨spelling coordinatePlaces n, n, ?_, isCanonical_spelling _ n, nearest, ?_⟩
  · rw [text, chars_spelling]
  · rw [value_spelling]
    norm_num [coordinatePlaces]

theorem coordinateText_eq_iff (finite : x.isFinite) (finite' : y.isFinite) :
    (coordinateText x).toList = (coordinateText y).toList ↔ RoundAlike x y := by
  obtain ⟨m, text, nearest⟩ := exists_coordinateText_eq finite
  obtain ⟨n, text', nearest'⟩ := exists_coordinateText_eq finite'
  rw [text, text', compactDigits_inj]
  constructor
  · rintro rfl
    exact ⟨m, nearest, nearest'⟩
  · rintro ⟨k, both, both'⟩
    rw [nearest.unique both, nearest'.unique both']

end Coordinates

section Marks

/-- Whether a character starts a command or stands between two numbers. -/
def isMark (c : Char) : Bool := c ∈ ['M', 'L', 'C', 'Z', ',']

/-- What stands between the marks of a text. -/
def numerals (text : String) : List (List Char) :=
  (text.toList.splitOnP isMark).filter (· ≠ [])

private theorem isMark_of_isDigit {c : Char} (digit : c.isDigit) : isMark c = false := by
  rw [isMark, decide_eq_false_iff_not]
  simp only [List.mem_cons, List.not_mem_nil, or_false]
  rintro (rfl | rfl | rfl | rfl | rfl) <;> exact absurd digit (by decide)

private theorem isMark_of_mem_chars {s : Spelling} (canonical : s.IsCanonical) :
    ∀ c ∈ s.chars, isMark c = false := by
  intro c member
  simp only [Spelling.chars, Spelling.pointed, List.mem_append] at member
  rcases member with (sign | whole) | fraction
  · split_ifs at sign
    · rw [List.mem_singleton.mp sign]
      rfl
    · exact absurd sign List.not_mem_nil
  · exact isMark_of_isDigit (canonical.whole c whole)
  · split_ifs at fraction
    · exact absurd fraction List.not_mem_nil
    · rcases List.mem_cons.mp fraction with rfl | digit
      · rfl
      · exact isMark_of_isDigit (canonical.fraction c digit)

private theorem isMark_of_mem_coordinateText {x : Float} (finite : x.isFinite) :
    ∀ c ∈ (coordinateText x).toList, isMark c = false := by
  obtain ⟨s, -, text, canonical, -⟩ := isNumeralOf_coordinateText finite
  rw [text]
  exact isMark_of_mem_chars canonical

private theorem coordinateText_ne_nil {x : Float} (finite : x.isFinite) :
    (coordinateText x).toList ≠ [] := by
  obtain ⟨s, -, text, canonical, -⟩ := isNumeralOf_coordinateText finite
  rw [text]
  exact Spelling.chars_ne_nil canonical

end Marks

def Point.coordinates {α : Type} (p : Point α) : List α := [p.x, p.y]

private theorem forall₂_flatMap_coordinates_iff {α : Type} {r : α → α → Prop}
    {P Q : List (Point α)} :
    List.Forall₂ r (P.flatMap Point.coordinates) (Q.flatMap Point.coordinates) ↔
      List.Forall₂ (fun p q => r p.x q.x ∧ r p.y q.y) P Q := by
  induction P generalizing Q with
  | nil => cases Q <;> simp [Point.coordinates]
  | cons p P ih =>
    cases Q with
    | nil => simp [Point.coordinates]
    | cons q Q => simp [Point.coordinates, ih, and_assoc]

section Polygons

variable {P Q : List (Point Float)}

private theorem toList_drawingText_cons (c : Command Float) (rest : List (Command Float)) :
    (drawingText (c :: rest)).toList = c.text.toList ++ (drawingText rest).toList := by
  simp only [drawingText, List.map_cons, String.toList_join, List.flatMap_cons]

private theorem toList_pointText (p : Point Float) : (pointText p).toList =
    (coordinateText p.x).toList ++ ',' :: (coordinateText p.y).toList := by
  simp [pointText]

private theorem splitOnP_pointText {p : Point Float} (finite : p.x.isFinite) (rest : List Char) :
    ((pointText p).toList ++ rest).splitOnP isMark =
      (coordinateText p.x).toList :: ((coordinateText p.y).toList ++ rest).splitOnP isMark := by
  rw [toList_pointText, List.append_assoc, List.cons_append,
    List.splitOnP_append_cons_of_forall_mem (isMark_of_mem_coordinateText finite) ',' rfl]

/-- From inside a number on, the text falls into that number and those of the points to come. -/
private theorem splitOnP_lines {number : List Char} (plain : ∀ c ∈ number, isMark c = false)
    (finite : ∀ x ∈ P.flatMap Point.coordinates, x.isFinite) :
    (number ++ (drawingText (P.map .line ++ [.close])).toList).splitOnP isMark =
      number :: (P.flatMap Point.coordinates).map (fun x => (coordinateText x).toList) ++
        [[]] := by
  induction P generalizing number with
  | nil =>
    have close : (drawingText [.close]).toList = ['Z'] := rfl
    rw [List.map_nil, List.nil_append, close,
      List.splitOnP_append_cons_of_forall_mem plain 'Z' rfl]
    rfl
  | cons p P ih =>
    rw [List.flatMap_cons, List.forall_mem_append] at finite
    obtain ⟨here, later⟩ := finite
    have line : (Command.line p).text.toList = 'L' :: (pointText p).toList := by
      rw [Command.text, String.toList_append]
      rfl
    rw [List.map_cons, List.cons_append, toList_drawingText_cons, line, List.cons_append,
      List.splitOnP_append_cons_of_forall_mem plain 'L' rfl,
      splitOnP_pointText (here p.x (by simp [Point.coordinates])),
      ih (isMark_of_mem_coordinateText (here p.y (by simp [Point.coordinates]))) later]
    rfl

private theorem splitOnP_polygonText {p : Point Float}
    (finite : ∀ x ∈ (p :: P).flatMap Point.coordinates, x.isFinite) :
    (polygonText (p :: P)).toList.splitOnP isMark =
      [] :: ((p :: P).flatMap Point.coordinates).map (fun x => (coordinateText x).toList) ++
        [[]] := by
  rw [List.flatMap_cons, List.forall_mem_append] at finite
  obtain ⟨here, later⟩ := finite
  have move : (Command.move p).text.toList = [] ++ 'M' :: (pointText p).toList := by
    rw [Command.text, String.toList_append]
    rfl
  rw [polygonText, closedOutline, List.cons_append, toList_drawingText_cons, move,
    List.append_assoc, List.cons_append,
    List.splitOnP_append_cons_of_forall_mem (by simp) 'M' rfl,
    splitOnP_pointText (here p.x (by simp [Point.coordinates])),
    splitOnP_lines (isMark_of_mem_coordinateText (here p.y (by simp [Point.coordinates]))) later]
  rfl

/-- Between its marks the text of a polygon has the coordinates, one after the other. -/
theorem numerals_polygonText (finite : ∀ x ∈ P.flatMap Point.coordinates, x.isFinite) :
    numerals (polygonText P) =
      (P.flatMap Point.coordinates).map (fun x => (coordinateText x).toList) := by
  cases P with
  | nil => rfl
  | cons p P =>
    have written : ∀ number ∈ ((p :: P).flatMap Point.coordinates).map
        (fun x => (coordinateText x).toList), decide (number ≠ []) = true := by
      rw [List.forall_mem_map]
      exact fun x member => decide_eq_true (coordinateText_ne_nil (finite x member))
    rw [numerals, splitOnP_polygonText finite, List.filter_append,
      List.filter_cons_of_neg (by simp), List.filter_eq_self.mpr written]
    simp

private theorem polygonText_cons (p : Point Float) (rest : List (Point Float)) :
    polygonText (p :: rest) =
      String.join (("M" ++ pointText p) :: (rest.map pointText).map ("L" ++ ·) ++ ["Z"]) := by
  simp only [polygonText, drawingText, closedOutline, List.map_append, List.map_cons, List.map_map]
  rfl

private theorem polygonText_eq_of_map (same : P.map pointText = Q.map pointText) :
    polygonText P = polygonText Q := by
  cases P with
  | nil =>
    rw [List.map_eq_nil_iff.mp same.symm]
  | cons p P =>
    obtain ⟨q, rest, rfl, first, others⟩ := List.map_eq_cons_iff.mp same.symm
    rw [polygonText_cons, polygonText_cons, first, others]

private theorem finite_coordinates (finite : ∀ p ∈ P, p.x.isFinite ∧ p.y.isFinite) :
    ∀ x ∈ P.flatMap Point.coordinates, x.isFinite := by
  intro x member
  obtain ⟨p, inside, coordinate⟩ := List.mem_flatMap.mp member
  simp only [Point.coordinates, List.mem_cons, List.not_mem_nil, or_false] at coordinate
  rcases coordinate with rfl | rfl
  · exact (finite p inside).1
  · exact (finite p inside).2

private theorem polygonText_eq_iff_coordinateText (finite : ∀ p ∈ P, p.x.isFinite ∧ p.y.isFinite)
    (finite' : ∀ q ∈ Q, q.x.isFinite ∧ q.y.isFinite) :
    polygonText P = polygonText Q ↔ List.Forall₂ (fun p q =>
      (coordinateText p.x).toList = (coordinateText q.x).toList ∧
        (coordinateText p.y).toList = (coordinateText q.y).toList) P Q := by
  constructor
  · intro same
    have numbers := congrArg numerals same
    rw [numerals_polygonText (finite_coordinates finite),
      numerals_polygonText (finite_coordinates finite'), ← List.forall₂_eq_eq_eq,
      List.forall₂_map_left_iff, List.forall₂_map_right_iff] at numbers
    exact forall₂_flatMap_coordinates_iff.mp numbers
  · intro same
    refine polygonText_eq_of_map ?_
    rw [← List.forall₂_eq_eq_eq, List.forall₂_map_left_iff, List.forall₂_map_right_iff]
    refine same.imp fun p q both => ?_
    rw [pointText, pointText, String.toList_injective both.1, String.toList_injective both.2]

/-- Polygons with finite coordinates have the same text exactly if they have as many vertices and
their coordinates, one by one, are the same when they are rounded to three decimals. A coordinate is
written as it is cut from all its places, and between its marks the text has the canonical decimals
of the rounded coordinates. -/
theorem polygonText_eq_iff (finite : ∀ p ∈ P, p.x.isFinite ∧ p.y.isFinite)
    (finite' : ∀ q ∈ Q, q.x.isFinite ∧ q.y.isFinite) :
    (polygonText P = polygonText Q ↔
      List.Forall₂ (fun p q => RoundAlike p.x q.x ∧ RoundAlike p.y q.y) P Q) ∧
    coordinateText = trimmed 3 ∧
    List.Forall₂ IsNumeralOf (P.flatMap Point.coordinates) (numerals (polygonText P)) := by
  refine ⟨?_, funext fun x => (trimmed_eq_compact 3 x).symm, ?_⟩
  · rw [polygonText_eq_iff_coordinateText finite finite', List.forall₂_iff_zip,
      List.forall₂_iff_zip]
    refine and_congr_right fun _ => forall_congr' fun p => forall_congr' fun q => ?_
    refine imp_congr_right fun pair => ?_
    obtain ⟨member, member'⟩ := List.of_mem_zip pair
    rw [coordinateText_eq_iff (finite p member).1 (finite' q member').1,
      coordinateText_eq_iff (finite p member).2 (finite' q member').2]
  · rw [numerals_polygonText (finite_coordinates finite), List.forall₂_map_right_iff,
      List.forall₂_same]
    exact fun x member => isNumeralOf_coordinateText (finite_coordinates finite x member)

/-- A triangle with a negative zero, a tie, a number that rounds to zero from below and one that is
larger than all fractions. -/
def roughTriangle : List (Point Float) := [⟨-0.0, 0.0625⟩, ⟨-0.0004, 1e22⟩, ⟨100, -2.5⟩]

def evenTriangle : List (Point Float) := [⟨0, 0.062⟩, ⟨0.0004, 1e22⟩, ⟨100, -2.5⟩]

theorem polygonText_eq_iff_of_triangle :
    polygonText roughTriangle = "M0,0.062L0,10000000000000000000000L100,-2.5Z" ∧
      List.Forall₂ (fun p q => RoundAlike p.x q.x ∧ RoundAlike p.y q.y)
        roughTriangle evenTriangle ∧
      List.Forall₂ IsNumeralOf (roughTriangle.flatMap Point.coordinates)
        (numerals (polygonText roughTriangle)) := by
  have finite : ∀ p ∈ roughTriangle, p.x.isFinite ∧ p.y.isFinite := by decide
  have finite' : ∀ q ∈ evenTriangle, q.x.isFinite ∧ q.y.isFinite := by decide
  have text : polygonText roughTriangle = "M0,0.062L0,10000000000000000000000L100,-2.5Z" := by
    decide +kernel
  have text' : polygonText evenTriangle = "M0,0.062L0,10000000000000000000000L100,-2.5Z" := by
    decide +kernel
  obtain ⟨alike, -, numbers⟩ := polygonText_eq_iff finite finite'
  exact ⟨text, alike.mp (text.trans text'.symm), numbers⟩

end Polygons

end CapabilityAtlas.Geometry
