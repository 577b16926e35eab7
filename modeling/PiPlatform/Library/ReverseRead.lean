import Mathlib.Algebra.GroupWithZero.Nat
import Mathlib.Data.List.Basic
import Mathlib.Tactic.SplitIfs

/-! Reading a file from its end, a chunk at a time.

What stands in front of the first separator of a chunk may begin in the chunk before, so it is
carried over to it. Whatever the size of the chunks, the pieces come out in reverse
(`readBack_eq`). -/
namespace PiPlatform.Library

variable {α : Type} [DecidableEq α] {c : α}

/-- The pieces found before `position`, with `buffer` carried over from behind it. -/
def readBack (c : α) (size : Nat) [NeZero size] (file : List α) (position : Nat)
    (buffer : List α) : List (List α) :=
  if _h : position = 0 then []
  else
    let readSize := min size position
    let lines := (((file.drop (position - readSize)).take readSize) ++ buffer).splitOn c
    if position - readSize = 0 then lines.reverse
    else lines.tail.reverse ++ readBack c size file (position - readSize) (lines.headD [])
termination_by position
decreasing_by
  have := Nat.pos_of_ne_zero (NeZero.ne size)
  omega

/-- What is put in front goes to the first piece. -/
theorem splitOn_append_first {xs ys first : List α} {rest : List (List α)}
    (h : ys.splitOn c = first :: rest) :
    (xs ++ ys).splitOn c = (xs ++ first).splitOn c ++ rest := by
  by_cases hmem : c ∈ ys
  · obtain ⟨before, behind, rfl, hbefore⟩ := List.eq_append_cons_of_mem hmem
    rw [List.splitOn_append_cons_self_of_not_mem hbefore] at h
    obtain ⟨rfl, rfl⟩ := List.cons.inj h
    rw [← List.append_assoc, List.splitOn_append_cons_self]
  · rw [List.splitOn_eq_singleton hmem] at h
    obtain ⟨rfl, rfl⟩ := List.cons.inj h
    rw [List.append_nil]

theorem readBack_of_ne_zero {size : Nat} [NeZero size] {file : List α} {position : Nat}
    (buffer : List α) (hne : position ≠ 0) (hle : position ≤ file.length) :
    readBack c size file position buffer = ((file.take position ++ buffer).splitOn c).reverse := by
  induction position using Nat.strongRecOn generalizing buffer with
  | _ position ih =>
    rw [readBack, dif_neg hne]
    have hsize := Nat.pos_of_ne_zero (NeZero.ne size)
    have hchunk : file.take position = file.take (position - min size position) ++
        (file.drop (position - min size position)).take (min size position) := by
      rw [← List.take_add]
      congr 1
      omega
    dsimp only
    split_ifs with hstart
    · rw [hchunk, hstart, List.take_zero, List.nil_append]
    · have hrec := ih (position - min size position) (by omega)
        ((((file.drop (position - min size position)).take (min size position) ++
          buffer).splitOn c).headD []) hstart (by omega)
      rw [hrec, hchunk, List.append_assoc]
      obtain ⟨first, rest, hsplit⟩ := List.exists_cons_of_ne_nil (List.splitOn_ne_nil c
        ((file.drop (position - min size position)).take (min size position) ++ buffer))
      rw [splitOn_append_first hsplit, hsplit, List.reverse_append]
      rfl

/-- The whole file. -/
theorem readBack_eq (size : Nat) [NeZero size] {file : List α} (hne : file ≠ []) :
    readBack c size file file.length [] = (file.splitOn c).reverse := by
  have hlength : file.length ≠ 0 := Nat.pos_iff_ne_zero.mp (List.length_pos_iff.mpr hne)
  rw [readBack_of_ne_zero [] hlength (Nat.le_refl _), List.take_length, List.append_nil]

/-- Lines that are each ended. -/
theorem splitOn_ended {lines : List (List α)} (h : ∀ line ∈ lines, c ∉ line) :
    (lines.flatMap fun line => line ++ [c]).splitOn c = lines ++ [[]] := by
  induction lines with
  | nil => exact List.splitOn_nil c
  | cons line lines ih =>
    rw [List.forall_mem_cons] at h
    rw [List.flatMap_cons, List.append_assoc, List.singleton_append,
      List.splitOn_append_cons_self_of_not_mem h.1, ih h.2]
    rfl

end PiPlatform.Library
