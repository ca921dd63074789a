import Rustfs.Lib.Stream

/-! Readers that are polled. A poll hands over some bytes, at most as many as are asked for, or asks
to be repeated, or fails; no bytes means the end. -/
namespace Rustfs

open List Nat

inductive Poll where
  | pending
  | ready (bytes : Bytes)
  | error
  deriving DecidableEq

class AsyncRead (R : Type) where
  pollRead : R → ℕ → Poll × R

/-- The reader hands over exactly these bytes, in any pieces and with any number of polls that have
to be repeated, and then ends. -/
inductive Delivers {R : Type} [AsyncRead R] : R → Bytes → Prop where
  | intro {r : R} {bytes : Bytes}
      (repeated : ∀ {size r'}, 0 < size → AsyncRead.pollRead r size = (.pending, r') →
        Delivers r' bytes)
      (piece : ∀ {size b r'}, 0 < size → AsyncRead.pollRead r size = (.ready b, r') →
        b.length ≤ size ∧ b = bytes.take b.length ∧ (b = [] → bytes = []))
      (rest : ∀ {size b r'}, 0 < size → AsyncRead.pollRead r size = (.ready b, r') → b ≠ [] →
        Delivers r' (bytes.drop b.length))
      (sound : ∀ {size r'}, 0 < size → AsyncRead.pollRead r size ≠ (.error, r')) :
      Delivers r bytes

namespace Delivers

variable {R : Type} [AsyncRead R] {r r' : R} {out rest bs : Bytes}

/-- What a poll for `size` bytes may answer when `bs` are to be delivered. -/
def Serves (bs : Bytes) (size : ℕ) : Poll × R → Prop
  | (.pending, r') => Delivers r' bs
  | (.ready b, r') => (b.length ≤ size ∧ b = bs.take b.length ∧ (b = [] → bs = [])) ∧
      (b ≠ [] → Delivers r' (bs.drop b.length))
  | (.error, _) => False

theorem of_serves (h : ∀ size, 0 < size → Serves bs size (AsyncRead.pollRead r size)) :
    Delivers r bs :=
  .intro (fun hsize hpoll => (hpoll ▸ h _ hsize :)) (fun hsize hpoll => (hpoll ▸ h _ hsize :).1)
    (fun hsize hpoll => (hpoll ▸ h _ hsize :).2) fun hsize hpoll => (hpoll ▸ h _ hsize :)

/-- A reader that has the next bytes at hand, and gives as many of them as are asked for. -/
theorem of_take {n : ℕ → R} (hout : out ≠ [])
    (hpoll : ∀ size, AsyncRead.pollRead r size = (.ready (out.take size), n size))
    (hnext : ∀ size, 0 < size → Delivers (n size) (out.drop size ++ rest)) :
    Delivers r (out ++ rest) := by
  refine of_serves fun size hsize => ?_
  rw [hpoll]
  refine ⟨⟨length_take_le _ _, ?_, ?_⟩, fun _ => ?_⟩
  · rw [length_take, take_append_of_le_length (min_le_right _ _), take_eq_take_iff]
    omega
  · intro hnil
    rcases take_eq_nil_iff.mp hnil with hzero | hnil
    · omega
    · exact absurd hnil hout
  · have hdrop : (out ++ rest).drop (out.take size).length = out.drop size ++ rest := by
      rw [length_take, drop_append_of_le_length (min_le_right _ _)]
      congr 1
      rw [drop_eq_drop_iff]
      omega
    rw [hdrop]
    exact hnext size hsize

theorem of_end (hpoll : ∀ size, AsyncRead.pollRead r size = (.ready [], r')) : Delivers r [] := by
  refine of_serves fun size _ => ?_
  rw [hpoll]
  exact ⟨⟨zero_le _, rfl, fun _ => rfl⟩, fun hne => absurd rfl hne⟩

theorem of_pending (hpoll : ∀ size, AsyncRead.pollRead r size = (.pending, r'))
    (h : Delivers r' bs) : Delivers r bs := by
  refine of_serves fun size _ => ?_
  rw [hpoll]
  exact h

/-- A reader hands over only one sequence of bytes. -/
theorem unique {bs' : Bytes} (h : Delivers r bs) (h' : Delivers r bs') : bs = bs' := by
  induction h generalizing bs' with
  | @intro r bs repeated piece rest sound ihr ihp =>
    obtain ⟨repeated', piece', rest', _⟩ := h'
    rcases hpoll : AsyncRead.pollRead r 1 with ⟨answer, r'⟩
    cases answer with
    | pending => exact ihr one_pos hpoll (repeated' one_pos hpoll)
    | error => exact absurd hpoll (sound one_pos)
    | ready b =>
      obtain ⟨_, htake, hend⟩ := piece one_pos hpoll
      obtain ⟨_, htake', hend'⟩ := piece' one_pos hpoll
      by_cases hb : b = []
      · rw [hend hb, hend' hb]
      · have hdrop := ihp one_pos hpoll hb (rest' one_pos hpoll hb)
        rw [← take_append_drop b.length bs, ← take_append_drop b.length bs',
          hdrop, ← htake, ← htake']

end Delivers

/-- Bytes in memory. -/
structure Cursor where
  bytes : Bytes

instance : AsyncRead Cursor where
  pollRead c size := (.ready (c.bytes.take size), ⟨c.bytes.drop size⟩)

theorem Cursor.delivers (bs : Bytes) : Delivers (Cursor.mk bs) bs := by
  induction hn : bs.length using Nat.strong_induction_on generalizing bs with
  | _ n ih =>
    by_cases hempty : bs = []
    · subst bs
      exact .of_end fun size => by simp [AsyncRead.pollRead]; rfl
    · have hrest : Delivers (Cursor.mk bs) (bs ++ []) := by
        refine .of_take hempty (fun size => rfl) fun size hsize => ?_
        have hpos := length_pos_iff.mpr hempty
        rw [append_nil]
        refine ih (bs.drop size).length ?_ _ rfl
        rw [length_drop]
        omega
      rwa [append_nil] at hrest

/-- A reader that passes another's bytes on in pieces of its own choice, and asks for polls to be
repeated when it likes. -/
structure Split (R : Type) where
  inner : R
  schedule : List (Option ℕ)

namespace Split

variable {R : Type} [AsyncRead R]

instance : AsyncRead (Split R) where
  pollRead s size :=
    match s.schedule with
    | [] =>
      let answer := AsyncRead.pollRead s.inner size
      (answer.1, ⟨answer.2, []⟩)
    | none :: schedule => (.pending, ⟨s.inner, schedule⟩)
    | some k :: schedule =>
      let answer := AsyncRead.pollRead s.inner (min size (k + 1))
      (answer.1, ⟨answer.2, schedule⟩)

/-- The bytes stay the same. -/
theorem delivers {r : R} {bs : Bytes} (h : Delivers r bs) (ss : List (Option ℕ)) :
    Delivers (Split.mk r ss) bs := by
  induction h generalizing ss with
  | @intro r bs repeated piece rest sound ihr ihp =>
    -- a poll of the inner reader for `n` of the bytes asked for
    have hinner : ∀ {size n : ℕ} (ss), 0 < n → n ≤ size → Delivers.Serves bs size
        ((AsyncRead.pollRead r n).1, Split.mk (AsyncRead.pollRead r n).2 ss) := by
      intro size n ss hn hle
      rcases hpoll : AsyncRead.pollRead r n with ⟨answer, r'⟩
      cases answer with
      | pending => exact ihr hn hpoll ss
      | ready b =>
        obtain ⟨hlen, htake⟩ := piece hn hpoll
        exact ⟨⟨hlen.trans hle, htake⟩, fun hb => ihp hn hpoll hb ss⟩
      | error => exact sound hn hpoll
    induction ss with
    | nil => exact .of_serves fun size hsize => hinner [] hsize le_rfl
    | cons decision ss ih =>
      cases decision with
      | none => exact .of_pending (fun _ => rfl) ih
      | some k => exact .of_serves fun size hsize => hinner ss (by omega) (min_le_left _ _)

end Split
end Rustfs
