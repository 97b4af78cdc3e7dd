import Mathlib.Tactic
import TokenSheets.Store.Path

/-!
# Paths of ordinary names

A name is ordinary if it stands for itself in a path: it is not empty, neither a point nor two, and
has no slash. `Path.LeadsTo` says that a path means what is at a location, whatever the store; the
path of an ordinary name below a directory does.

* `Path.pieces_join`: the name is the last piece of the joined path, behind those of the directory;
* `Path.leadsTo_join`: the joined path leads one name further than the directory.
-/

namespace TokenSheets.Path

/-- **A name that stands for itself** in a path. -/
structure IsOrdinary (name : String) : Prop where
  ne_empty : name ≠ ""
  ne_point : name ≠ "."
  ne_points : name ≠ ".."
  slash_notMem : '/' ∉ name.toList

/-- **A path that leads to a location**: to the last name behind all others, never up and without
points or slashes at its end. -/
structure LeadsTo (path : Path) (location : List String) : Prop where
  segments : path.segments = location
  ne_nil : location ≠ []
  points_notMem : ".." ∉ location
  meansDirectory : path.meansDirectory = false
  endsInPoint : path.endsInPoint = false

theorem text_ne_empty_of_segments {path : Path} (h : path.segments ≠ []) : path.text ≠ "" := by
  intro htext
  apply h
  simp [segments, pieces, htext, Text.splitAt]

theorem LeadsTo.text_ne_empty {path : Path} {location : List String} (h : path.LeadsTo location) :
    path.text ≠ "" :=
  text_ne_empty_of_segments (h.segments ▸ h.ne_nil)

/-- **The pieces of a joined path**: the name is the last one, and those in front of it mean the
directory. -/
theorem pieces_join (directory : Path) {name : String} (slash_notMem : '/' ∉ name.toList) :
    ∃ front, (directory.join name).pieces = front ++ [name] ∧
      front.filter (fun piece => piece ≠ "" ∧ piece ≠ ".") = directory.segments := by
  have hname : (Path.mk name).pieces = [name] := by
    simp [pieces, Text.splitAt_of_notMem slash_notMem]
  have habs : (Path.mk name).isAbsolute = false := by
    simp only [isAbsolute, decide_eq_false_iff_not]
    exact fun h => slash_notMem (List.mem_of_mem_head? h)
  unfold join
  by_cases htext : directory.text = ""
  · rw [if_pos (.inr htext)]
    exact ⟨[], hname, by simp [segments, pieces, htext, Text.splitAt]⟩
  · rw [if_neg (by simp [habs, htext])]
    by_cases hlast : directory.text.toList.getLast? = some '/'
    · obtain ⟨cs, hcs⟩ := List.getLast?_eq_some_iff.mp hlast
      rw [if_pos hlast]
      refine ⟨(Text.splitAt '/' cs).map String.ofList, ?_, ?_⟩
      · simp [pieces, hcs, Text.splitAt_append, Text.splitAt_of_notMem slash_notMem]
      · simp [segments, pieces, hcs, Text.splitAt_append, Text.splitAt]
    · rw [if_neg hlast]
      refine ⟨directory.pieces, ?_, rfl⟩
      simp [pieces, Text.splitAt_append, Text.splitAt_of_notMem slash_notMem]

theorem segments_join (directory : Path) {name : String} (h : IsOrdinary name) :
    (directory.join name).segments = directory.segments ++ [name] := by
  obtain ⟨front, hpieces, hfront⟩ := pieces_join directory h.slash_notMem
  have hname : [name].filter (fun piece => piece ≠ "" ∧ piece ≠ ".") = [name] := by
    simp [h.ne_empty, h.ne_point]
  rw [segments, hpieces, List.filter_append, hfront, hname]

/-- **The path of an ordinary name** leads one name further than the directory. -/
theorem leadsTo_join {directory : Path} (points_notMem : ".." ∉ directory.segments) {name : String}
    (h : IsOrdinary name) : (directory.join name).LeadsTo (directory.segments ++ [name]) := by
  obtain ⟨front, hpieces, -⟩ := pieces_join directory h.slash_notMem
  refine ⟨segments_join directory h, by simp, ?_, ?_, ?_⟩
  · simp [points_notMem, Ne.symm h.ne_points]
  · simp [meansDirectory, lastPiece, hpieces, h.ne_empty, h.ne_point]
  · simp [endsInPoint, hpieces, h.ne_empty, h.ne_point]

/-! ### How long a joined path is -/

theorem text_join_cases (directory : Path) (name : String) :
    (directory.join name).text = name ∨ (directory.join name).text = directory.text ++ name ∨
      (directory.join name).text = directory.text ++ "/" ++ name := by
  unfold join
  split_ifs
  · exact .inl rfl
  · exact .inr (.inl rfl)
  · exact .inr (.inr rfl)

theorem utf8ByteSize_join_le (directory : Path) (name : String) :
    (directory.join name).text.utf8ByteSize ≤
      directory.text.utf8ByteSize + 1 + name.utf8ByteSize := by
  have hslash : "/".utf8ByteSize = 1 := by decide
  rcases text_join_cases directory name with h | h | h
  · rw [h]
    omega
  · rw [h, String.utf8ByteSize_append]
    omega
  · rw [h, String.utf8ByteSize_append, String.utf8ByteSize_append, hslash]

theorem text_join_ne_empty (directory : Path) {name : String} (h : name ≠ "") :
    (directory.join name).text ≠ "" := by
  rcases text_join_cases directory name with heq | heq | heq <;> rw [heq] <;> simp [h]

theorem notMem_text_join {directory : Path} {name : String} {c : Char} (hc : c ≠ '/')
    (hdirectory : c ∉ directory.text.toList) (hname : c ∉ name.toList) :
    c ∉ (directory.join name).text.toList := by
  rcases text_join_cases directory name with h | h | h <;> rw [h] <;>
    simp [hdirectory, hname, hc]

end TokenSheets.Path
