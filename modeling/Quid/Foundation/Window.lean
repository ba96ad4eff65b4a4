import Mathlib.Tactic

/-!
# Windows of a text

A record of fixed-width fields is written as one text and read back through
windows at fixed offsets.  Adjacent windows join, and a window over some of the
fields holds these fields.
-/

namespace Quid.Foundation.Window

variable {α β : Type}

def window (text : List α) (start count : Nat) : List α := (text.drop start).take count

theorem mem_of_mem_window {text : List α} {start count : Nat} {c : α}
    (h : c ∈ window text start count) : c ∈ text :=
  List.mem_of_mem_drop (List.mem_of_mem_take h)

theorem length_window {text : List α} {start count : Nat} (h : start + count ≤ text.length) :
    (window text start count).length = count := by
  rw [window, List.length_take, List.length_drop]
  omega

theorem window_whole (text : List α) : window text 0 text.length = text := by
  rw [window, List.drop_zero, List.take_length]

theorem map_window (f : α → β) (text : List α) (start count : Nat) :
    window (text.map f) start count = (window text start count).map f := by
  rw [window, window, ← List.map_drop, ← List.map_take]

theorem window_append_window (text : List α) (start first second : Nat) :
    window text start first ++ window text (start + first) second =
      window text start (first + second) := by
  rw [window, window, window, List.take_add, List.drop_drop]

def cut (text : List α) : Nat → List Nat → List (List α)
  | _, [] => []
  | start, width :: widths => window text start width :: cut text (start + width) widths

theorem flatten_cut (text : List α) (start : Nat) (widths : List Nat) :
    (cut text start widths).flatten = window text start widths.sum := by
  induction widths generalizing start with
  | nil => simp [cut, window]
  | cons width widths ih =>
      rw [cut, List.flatten_cons, ih, window_append_window, List.sum_cons]

theorem window_append_left {front back : List α} {start count : Nat}
    (h : start + count ≤ front.length) :
    window (front ++ back) start count = window front start count := by
  rw [window, window, List.drop_append_of_le_length (by omega),
    List.take_append_of_le_length (by rw [List.length_drop]; omega)]

theorem window_flatten (fields : List (List α)) (i k : Nat) :
    window fields.flatten ((fields.map List.length).take i).sum
      (((fields.map List.length).drop i).take k).sum =
        ((fields.drop i).take k).flatten := by
  have hfront : ((fields.map List.length).take i).sum = (fields.take i).flatten.length := by
    rw [List.length_flatten, List.map_take]
  have hrun : (((fields.map List.length).drop i).take k).sum =
      ((fields.drop i).take k).flatten.length := by
    rw [List.length_flatten, List.map_take, List.map_drop]
  have hsplit : fields.flatten = (fields.take i).flatten ++
      (((fields.drop i).take k).flatten ++ ((fields.drop i).drop k).flatten) := by
    rw [← List.flatten_append, ← List.flatten_append, List.take_append_drop,
      List.take_append_drop]
  rw [window, hfront, hrun, hsplit, List.drop_left, List.take_left]

end Quid.Foundation.Window
