/-
# `Text` — trimming, and text with its white space erased

A Rust `String` is a sequence of Unicode scalar values, so is Lean's.  `trim`
and `trim_end` go through the characters; `visible` is the text a reader would
compare, white space erased.  The bridge between the two is `isBlank_iff`: a
string trims to nothing exactly when it shows nothing.
-/
import Larmindon.Unicode
import Mathlib.Data.List.DropRight

namespace Larmindon

/-- `str::trim_end`. -/
def trimEnd (s : String) : String := .ofList (s.toList.rdropWhile isWhitespace)

/-- `str::trim`. -/
def trim (s : String) : String := trimEnd (.ofList (s.toList.dropWhile isWhitespace))

/-- `s.trim().is_empty()`. -/
def isBlank (s : String) : Bool := (trim s).isEmpty

/-- The characters of `s` that are not white space. -/
def visible (s : String) : List Char := s.toList.filter fun c => !isWhitespace c

@[simp] theorem visible_empty : visible "" = [] := rfl

@[simp] theorem visible_append (s t : String) : visible (s ++ t) = visible s ++ visible t := by
  simp [visible]

theorem isBlank_iff {s : String} : isBlank s = true ↔ visible s = [] := by
  have hdrop : s.toList.dropWhile isWhitespace = [] ↔ visible s = [] := by
    simp [visible, List.filter_eq_nil_iff]
  rw [← hdrop]
  simp only [isBlank, trim, trimEnd, String.isEmpty_iff, String.toList_ofList]
  constructor
  · intro h
    have hall : (s.toList.dropWhile isWhitespace).rdropWhile isWhitespace = [] := by
      simpa using congrArg String.toList h
    cases hd : s.toList.dropWhile isWhitespace with
    | nil => rfl
    | cons c cs =>
        -- what `dropWhile` stops at is not white space, so nothing trims it away from the right
        rw [hd, List.rdropWhile_eq_nil_iff] at hall
        have hc := hall c List.mem_cons_self
        have hn := List.head_dropWhile_not isWhitespace (l := s.toList) (by simp [hd])
        simp [hd, hc] at hn
  · intro h; rw [h]; rfl

@[simp] theorem isBlank_empty : isBlank "" = true := rfl

/-- A string that is not blank is not empty. -/
theorem ne_empty_of_not_blank {s : String} (h : isBlank s = false) : s ≠ "" := by
  rintro rfl
  exact absurd h (by decide)

end Larmindon
