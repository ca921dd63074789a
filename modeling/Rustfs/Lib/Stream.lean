import Mathlib.Data.List.Basic
import Mathlib.Tactic.Ring

/-! Byte streams that answer a read with some bytes, with nothing, or with an error. -/
namespace Rustfs

open List

abbrev Bytes := List UInt8

/-- One answer of a reader: bytes it hands over, or an error. No answer left is end of stream. -/
inductive ReadStep (ε : Type) where
  | chunk (bytes : Bytes)
  | fail (e : ε)
  deriving Repr, DecidableEq

abbrev Source (ε : Type) := List (ReadStep ε)

/-- How a loop that fills a buffer came to its end. -/
inductive Stop (ε : Type) where
  | full
  | eof
  | failed (e : ε)
  deriving Repr, DecidableEq

namespace Source

variable {ε : Type} {s t : Source ε} {c : Bytes}

/-- Read until `n` bytes are there, an answer is empty, or an answer is an error. -/
def fill : Source ε → ℕ → Bytes × Stop ε × Source ε
  | s, 0 => ([], .full, s)
  | [], _ + 1 => ([], .eof, [])
  | .fail e :: rest, _ + 1 => ([], .failed e, rest)
  | .chunk [] :: rest, _ + 1 => ([], .eof, rest)
  | .chunk (b :: bs) :: rest, n + 1 =>
    if n + 1 < (b :: bs).length then
      ((b :: bs).take (n + 1), .full, .chunk ((b :: bs).drop (n + 1)) :: rest)
    else
      let r := fill rest (n + 1 - (b :: bs).length)
      ((b :: bs) ++ r.1, r.2.1, r.2.2)

/-- A source that never fails and hands over exactly `c`, in some split into pieces. -/
inductive Clean : Source ε → Bytes → Prop
  | nil : Clean [] []
  | chunk {b : Bytes} {s : Source ε} {c : Bytes} (hb : b ≠ []) (hs : Clean s c) :
      Clean (.chunk b :: s) (b ++ c)

/-- Every content is handed over by some source, the one piece split included. -/
theorem clean_singleton (c : Bytes) (hc : c ≠ []) : Clean ([.chunk c] : Source ε) c := by
  simpa using Clean.chunk (ε := ε) hc .nil

theorem fill_zero (s : Source ε) : fill s 0 = ([], .full, s) := by
  cases s <;> rfl

/-- A clean source fills the buffer with the next bytes and stays clean. -/
theorem fill_clean (h : Clean s c) (n : ℕ) :
    (fill s n).1 = c.take n ∧
      (fill s n).2.1 = (if n ≤ c.length then .full else .eof) ∧
      Clean (fill s n).2.2 (c.drop n) := by
  induction h generalizing n with
  | nil =>
    cases n with
    | zero | succ n => simp [fill, Clean.nil]
  | @chunk b s c hb hs ih =>
    cases n with
    | zero => simpa [fill_zero] using Clean.chunk hb hs
    | succ n =>
      obtain ⟨x, xs, rfl⟩ := exists_cons_of_ne_nil hb
      rw [fill]
      split
      · rename_i hlt
        refine ⟨?_, ?_, ?_⟩
        · rw [take_append_of_le_length (by omega)]
        · rw [if_pos (by rw [length_append]; omega)]
        · rw [drop_append_of_le_length (by omega)]
          refine .chunk ?_ hs
          intro he
          have := congrArg List.length he
          simp only [length_drop, length_nil] at this
          omega
      · rename_i hge
        obtain ⟨h1, h2, h3⟩ := ih (n + 1 - (x :: xs).length)
        have htake : (x :: xs ++ c).take (n + 1) =
            (x :: xs) ++ c.take (n + 1 - (x :: xs).length) := by
          rw [take_append, take_of_length_le (by omega)]
        have hdrop : (x :: xs ++ c).drop (n + 1) = c.drop (n + 1 - (x :: xs).length) := by
          rw [drop_append, drop_of_length_le (by omega), nil_append]
        dsimp only
        refine ⟨?_, ?_, ?_⟩
        · rw [htake, h1]
        · rw [h2]
          have hiff : n + 1 - (x :: xs).length ≤ c.length ↔ n + 1 ≤ (x :: xs ++ c).length := by
            rw [length_append]
            omega
          simp only [hiff]
        · rw [hdrop]
          exact h3

end Source

end Rustfs
