/-
Streams of frames that announce their own length.

A format says from the beginning of a stream how long its first frame is, and reads
a frame once it is cut off.  Frames whose announced length does not depend on what
follows them are read back, one by one, from their concatenation.
-/

import Mathlib.Data.List.Forall2

namespace Libcdma.Framing

variable {Item Value : Type}

structure Format (Item Value : Type) where
  size : List Item → Nat
  read : List Item → Option Value

namespace Format

/-- Reads a stream frame by frame; the fuel counts frames. -/
def readAll (format : Format Item Value) : Nat → List Item → Option (List Value)
  | _, [] => some []
  | 0, _ :: _ => none
  | fuel + 1, item :: rest =>
      let stream := item :: rest
      if stream.length < format.size stream then none
      else
        (format.read (stream.take (format.size stream))).bind fun value =>
          (format.readAll fuel (stream.drop (format.size stream))).map (value :: ·)

/-- No stream has more frames than items. -/
def decode (format : Format Item Value) (stream : List Item) : Option (List Value) :=
  format.readAll stream.length stream

/-- A frame that is recognised and read in front of any stream. -/
structure Frame (format : Format Item Value) (frame : List Item) (value : Value) : Prop where
  nonempty : frame ≠ []
  delimited : ∀ rest, format.size (frame ++ rest) = frame.length
  reads : format.read frame = some value

variable {format : Format Item Value}

theorem readAll_frame {frame rest : List Item} {value : Value}
    (isFrame : format.Frame frame value) (fuel : Nat) :
    format.readAll (fuel + 1) (frame ++ rest) =
      (format.readAll fuel rest).map (value :: ·) := by
  cases frame with
  | nil => exact absurd rfl isFrame.nonempty
  | cons item more =>
      have size := isFrame.delimited rest
      rw [List.cons_append] at size ⊢
      rw [readAll, size]
      have fits : ¬(item :: (more ++ rest)).length < (item :: more).length := by
        simp only [List.length_cons, List.length_append]
        omega
      rw [if_neg fits, ← List.cons_append, List.take_left, List.drop_left, isFrame.reads]
      rfl

theorem readAll_flatten {frames : List (List Item)} {values : List Value}
    (each : List.Forall₂ format.Frame frames values) {fuel : Nat}
    (enough : frames.length ≤ fuel) : format.readAll fuel frames.flatten = some values := by
  induction each generalizing fuel with
  | nil => cases fuel <;> rfl
  | cons isFrame _ ih =>
      cases fuel with
      | zero => exact absurd enough (Nat.not_succ_le_zero _)
      | succ fuel =>
          have later := ih (Nat.le_of_succ_le_succ enough)
          rw [List.flatten_cons, readAll_frame isFrame, later]
          rfl

theorem length_le_flatten {frames : List (List Item)} {values : List Value}
    (each : List.Forall₂ format.Frame frames values) :
    frames.length ≤ frames.flatten.length := by
  induction each with
  | nil => exact Nat.le_refl 0
  | cons isFrame _ ih =>
      have positive := List.length_pos_of_ne_nil isFrame.nonempty
      rw [List.flatten_cons, List.length_cons, List.length_append]
      omega

theorem decode_flatten {frames : List (List Item)} {values : List Value}
    (each : List.Forall₂ format.Frame frames values) :
    format.decode frames.flatten = some values :=
  readAll_flatten each (length_le_flatten each)

end Format

end Libcdma.Framing
