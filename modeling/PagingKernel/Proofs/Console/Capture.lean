import Mathlib.Data.List.Induction
import PagingKernel.Console.Capture

/-!
# What the captured console holds

However the pieces are cut that are written to it, the console holds the end of
everything written since it was last taken from.  It holds all of that until the
limit is passed.  From then on half of the text is discarded at a time, and the
next piece is added without regard to the limit, so the limit alone does not bound
the text: twice the longest piece may be more.
-/

namespace PagingKernel.Console

/-- Bytes of the longest of some pieces of text. -/
def longest (pieces : List String) : Nat :=
  pieces.foldl (fun size piece => max size piece.utf8ByteSize) 0

/-- The text is what the console is to hold after the pieces were written to it. -/
structure Retains (pieces : List String) (text : String) : Prop where
  isSuffix : ∃ discarded, discarded ++ text = String.join pieces
  endsWith : ∀ earlier last, pieces = earlier ++ [last] → ∃ kept, kept ++ last = text
  whole : (String.join pieces).utf8ByteSize ≤ captureLimit → text = String.join pieces
  size_le : text.utf8ByteSize ≤ max captureLimit (2 * longest pieces)

theorem longest_append_singleton (pieces : List String) (last : String) :
    longest (pieces ++ [last]) = max (longest pieces) last.utf8ByteSize := by
  simp [longest]

theorem writeAll_append_singleton (console : Console) (pieces : List String) (last : String) :
    console.writeAll (pieces ++ [last]) = (console.writeAll pieces).write last := by
  simp [writeAll]

/-- At most half of a text is in its later half, rounded up. -/
theorem utf8ByteSize_laterHalf_le (text : String) :
    (laterHalf text).utf8ByteSize ≤ text.utf8ByteSize - text.utf8ByteSize / 2 := by
  have behind : (⟨text.utf8ByteSize / 2⟩ : String.Pos.Raw) ≤
      (text.posGE ⟨text.utf8ByteSize / 2⟩ (Nat.div_le_self _ _)).offset :=
    String.le_offset_posGE
  rw [laterHalf, String.Slice.utf8ByteSize_copy, String.utf8ByteSize_sliceFrom]
  exact Nat.sub_le_sub_left behind _

/-- A piece is added to what is kept: all of the text, or its later half if the limit is passed. -/
theorem captured_write (console : Console) (piece : String) :
    (console.write piece).captured =
      (if captureLimit < console.captured.utf8ByteSize + piece.utf8ByteSize then
        laterHalf console.captured
      else console.captured) ++ piece := by
  obtain ⟨captured, held⟩ := console
  rw [write]
  split <;> rfl

/-- What is kept of a text, if anything is discarded at all, is its end. -/
theorem exists_captured_write (console : Console) (piece : String) :
    ∃ discarded kept, discarded ++ kept = console.captured ∧
      (console.write piece).captured = kept ++ piece := by
  rw [captured_write]
  split
  · obtain ⟨discarded, whole⟩ := laterHalf_isSuffix console.captured
    exact ⟨discarded, _, whole, rfl⟩
  · exact ⟨"", _, String.empty_append, rfl⟩

/-- Half of a text of at most `bound` bytes leaves room for a piece of half of `bound` bytes. -/
theorem utf8ByteSize_write_le {console : Console} {piece : String} {bound : Nat}
    (limit : captureLimit ≤ bound) (fits : console.captured.utf8ByteSize ≤ bound)
    (short : 2 * piece.utf8ByteSize ≤ bound) :
    (console.write piece).captured.utf8ByteSize ≤ bound := by
  have half := utf8ByteSize_laterHalf_le console.captured
  rw [captured_write, String.utf8ByteSize_append]
  split <;> omega

theorem Retains.write {console : Console} {pieces : List String}
    (retains : Retains pieces console.captured) (piece : String) :
    Retains (pieces ++ [piece]) (console.write piece).captured where
  isSuffix := by
    obtain ⟨earlier, written⟩ := retains.isSuffix
    obtain ⟨discarded, kept, split, isLast⟩ := exists_captured_write console piece
    refine ⟨earlier ++ discarded, ?_⟩
    rw [isLast, String.join_append, ← written, ← split]
    simp [String.append_assoc]
  endsWith earlier last same := by
    obtain ⟨discarded, kept, -, isLast⟩ := exists_captured_write console piece
    obtain ⟨-, samePiece⟩ := List.append_inj' same rfl
    obtain rfl := List.singleton_inj.mp samePiece
    exact ⟨kept, isLast.symm⟩
  whole fits := by
    rw [String.join_append, String.utf8ByteSize_append] at fits
    have total : String.join [piece] = piece := by simp
    rw [total] at fits
    have before := retains.whole (by omega)
    rw [captured_write, String.join_append, total, before, if_neg (by omega)]
  size_le := by
    have before := retains.size_le
    rw [longest_append_singleton]
    apply utf8ByteSize_write_le <;> omega

/-- From when the console was last taken from, it retains the end of all that is written. -/
theorem captured_is_recent (console : Console) (pieces : List String) :
    Retains pieces (console.take.2.writeAll pieces).captured := by
  induction pieces using List.reverseRecOn with
  | nil =>
      refine ⟨⟨"", rfl⟩, fun earlier last impossible => ?_, fun _ => rfl, Nat.zero_le _⟩
      simp at impossible
  | append_singleton earlier last ih =>
      rw [writeAll_append_singleton]
      exact ih.write last

end PagingKernel.Console
