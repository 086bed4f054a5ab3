import GraphMachine.Sink
import Mathlib

/-!
# What sinks take

A sink only adds bytes to those that it has taken.  It takes a text whole or, where its room is
used up, the first bytes of it; a text that is written in two parts is taken like one that is
written at once.
-/

namespace GraphMachine
namespace Sink

/-- The second sink has taken what the first one has, and perhaps more. -/
def Grows (a b : Sink) : Prop :=
  ∃ bytes, b.taken = a.taken ++ bytes

theorem Grows.refl
    (a : Sink) :
    Grows a a := by
  exact ⟨.empty, ByteArray.append_empty.symm⟩

theorem Grows.trans
    {a b c : Sink}
    (hab : Grows a b)
    (hbc : Grows b c) :
    Grows a c := by
  obtain ⟨bytes, hbytes⟩ := hab
  obtain ⟨more, hmore⟩ := hbc
  exact ⟨bytes ++ more, by rw [hmore, hbytes, ByteArray.append_assoc]⟩

theorem grows_write
    (a : Sink)
    (text : String) :
    Grows a (a.write text).2 := by
  unfold write
  cases a.room with
  | none =>
      exact ⟨_, rfl⟩
  | some k =>
      simp only
      split
      · exact ⟨_, rfl⟩
      · exact ⟨_, rfl⟩

/-- The first bytes, if there are no more than that, are all of them. -/
theorem extract_of_size_le
    {bytes : ByteArray}
    {k : Nat}
    (h : bytes.size ≤ k) :
    bytes.extract 0 k = bytes := by
  rw [← Nat.max_eq_left h]
  exact ByteArray.extract_zero_max_size

theorem write_unlimited
    (taken : ByteArray)
    (text : String) :
    (Sink.mk taken none).write text = (true, ⟨taken ++ text.toUTF8, none⟩) := by
  rfl

/-- A sink without a limit takes everything. -/
theorem write_of_room_none
    {s : Sink}
    (h : s.room = none)
    (text : String) :
    s.write text = (true, ⟨s.taken ++ text.toUTF8, none⟩) := by
  obtain ⟨taken, room⟩ := s
  cases h
  exact write_unlimited taken text

/-- A limited sink takes as many bytes as it has room for, whether or not that is all. -/
theorem write_limited
    (taken : ByteArray)
    (k : Nat)
    (text : String) :
    (Sink.mk taken (some k)).write text =
      (decide (text.toUTF8.size ≤ k),
        ⟨taken ++ text.toUTF8.extract 0 k, some (k - text.toUTF8.size)⟩) := by
  by_cases hfits : text.toUTF8.size ≤ k
  · simp only [write, hfits, extract_of_size_le hfits, if_true, decide_true]
  · have hfull : k - text.toUTF8.size = 0 := by omega
    simp only [write, hfits, hfull, if_false, decide_false]

/-- Nothing to write is always taken. -/
@[simp] theorem write_empty
    (s : Sink) :
    s.write "" = (true, s) := by
  obtain ⟨taken, room⟩ := s
  cases room with
  | none => simp [write]
  | some k => simp [write]

/-- Two texts are written one after the other like one text. -/
theorem write_append
    (s : Sink)
    (a b : String) :
    s.write (a ++ b) =
      if (s.write a).1 then (s.write a).2.write b else (false, (s.write a).2) := by
  obtain ⟨taken, room⟩ := s
  have hbytes : (a ++ b).toUTF8 = a.toUTF8 ++ b.toUTF8 := String.toByteArray_append
  cases room with
  | none =>
      simp only [write_unlimited, hbytes, if_true, ByteArray.append_assoc]
  | some k =>
      simp only [write_limited, hbytes, ByteArray.size_append, ByteArray.extract_append,
        Nat.zero_sub, ByteArray.append_assoc, Nat.sub_sub]
      by_cases ha : a.toUTF8.size ≤ k
      · have hiff : a.toUTF8.size + b.toUTF8.size ≤ k ↔ b.toUTF8.size ≤ k - a.toUTF8.size := by
          omega
        simp only [ha, hiff, decide_true, if_true]
      · have hmore : ¬ a.toUTF8.size + b.toUTF8.size ≤ k := by omega
        have hfull : k - a.toUTF8.size = 0 := by omega
        have hfull' : k - (a.toUTF8.size + b.toUTF8.size) = 0 := by omega
        simp only [ha, hmore, hfull, hfull', decide_false, if_false, Bool.false_eq_true,
          ByteArray.extract_same, ByteArray.append_empty]

/-- A text that is taken whole is added to what was taken before. -/
theorem taken_of_write
    {s s' : Sink}
    {text : String}
    (h : s.write text = (true, s')) :
    s'.taken = s.taken ++ text.toUTF8 := by
  obtain ⟨taken, room⟩ := s
  cases room with
  | none =>
      rw [write_unlimited] at h
      cases h
      rfl
  | some k =>
      rw [write_limited, Prod.mk.injEq, decide_eq_true_eq] at h
      obtain ⟨hfits, rfl⟩ := h
      rw [extract_of_size_le hfits]

end Sink
end GraphMachine
