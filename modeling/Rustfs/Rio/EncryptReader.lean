import Rustfs.Rio.Frame

/-! The reader that encrypts what it reads, block by block, under one nonce. -/
namespace Rustfs.Rio

open AsyncRead

variable {Key R : Type}

/-- `EncryptReader`; `buffer` is what has not been handed over yet. -/
structure EncryptReader (S : Suite Key) (R : Type) where
  inner : R
  key : Key
  nonce : Nonce
  buffer : Bytes
  finished : Bool

namespace EncryptReader

variable {S : Suite Key}

def new (inner : R) (key : Key) (nonce : Nonce) : EncryptReader S R := ⟨inner, key, nonce, [], false⟩

/-- Hand over the first bytes of a new buffer and keep the others. -/
def handOver (e : EncryptReader S R) (out : Bytes) (size : ℕ) : Poll × EncryptReader S R :=
  (.ready (out.take size), { e with buffer := out.drop size })

/-- What becomes of one read of the inner reader. -/
def answered (e : EncryptReader S R) (size : ℕ) : Poll × R → Poll × EncryptReader S R
  | (.pending, inner) => (.pending, { e with inner })
  | (.ready [], inner) => handOver { e with inner, finished := true } endHeader size
  | (.ready (b :: bs), inner) => handOver { e with inner } (S.block e.key e.nonce (b :: bs)) size
  | (.error, inner) => (.error, { e with inner })

variable [AsyncRead R]

/-- `poll_read`: the buffer first, then one read of at most eight kibibytes. -/
instance : AsyncRead (EncryptReader S R) where
  pollRead e size :=
    if e.buffer ≠ [] then e.handOver e.buffer size
    else if e.finished then (.ready [], e)
    else e.answered size (AsyncRead.pollRead e.inner 8192)

variable {key : Key} {nonce : Nonce} {i : R}

/-- A buffer is handed over before anything else happens. -/
theorem delivers_buffer {b r : Bytes} {f : Bool}
    (h : Delivers (⟨i, key, nonce, [], f⟩ : EncryptReader S R) r) :
    Delivers (⟨i, key, nonce, b, f⟩ : EncryptReader S R) (b ++ r) := by
  induction hn : b.length using Nat.strong_induction_on generalizing b with
  | _ n ih =>
    by_cases hempty : b = []
    · subst b
      exact h
    · refine .of_take hempty (fun size => if_pos hempty) fun size hsize => ?_
      have hpos := List.length_pos_iff.mpr hempty
      refine ih (b.drop size).length ?_ rfl
      rw [List.length_drop]
      omega

/-- With nothing to hand over, the reader reads. -/
theorem pollRead_new (s : ℕ) :
    pollRead (new i key nonce : EncryptReader S R) s =
      (new i key nonce).answered s (pollRead i 8192) := rfl

theorem delivers_end : Delivers (⟨i, key, nonce, [], true⟩ : EncryptReader S R) [] :=
  .of_end fun _ => rfl

/-- Reading to the end gives the stream of some division of the bytes into blocks. -/
theorem delivers_stream {bs : Bytes} (h : Delivers i bs) (key : Key) (n : Nonce) :
    ∃ blocks : List Bytes, (∀ b ∈ blocks, IsBlock b) ∧ blocks.flatten = bs ∧
      Delivers (new i key n : EncryptReader S R) (S.stream key n blocks) := by
  induction h with
  | @intro i bs repeated piece rest sound ihr ihp =>
    rcases hanswer : pollRead i 8192 with ⟨answer, inner'⟩
    cases answer with
    | pending =>
      obtain ⟨blocks, hblocks, hflat, hdelivers⟩ := ihr (by decide) hanswer
      refine ⟨blocks, hblocks, hflat, .of_pending (fun size => ?_) hdelivers⟩
      rw [pollRead_new, hanswer]
      rfl
    | error => exact absurd hanswer (sound (by decide))
    | ready b =>
      obtain ⟨hlen, htake, hend⟩ := piece (by decide) hanswer
      cases b with
      | nil =>
        refine ⟨[], by simp, (hend rfl).symm, ?_⟩
        have hpoll : ∀ size, pollRead (new i key n : EncryptReader S R) size =
            (.ready (endHeader.take size), ⟨inner', key, n, endHeader.drop size, true⟩) := by
          intro size
          rw [pollRead_new, hanswer]
          rfl
        have hout : S.stream key n [] = endHeader ++ [] := rfl
        rw [hout]
        exact .of_take (by decide) hpoll fun size _ => delivers_buffer delivers_end
      | cons x xs =>
        obtain ⟨blocks, hblocks, hflat, hdelivers⟩ := ihp (by decide) hanswer (by simp)
        have hpoll : ∀ size, pollRead (new i key n : EncryptReader S R) size =
            (.ready ((S.block key n (x :: xs)).take size),
              ⟨inner', key, n, (S.block key n (x :: xs)).drop size, false⟩) := by
          intro size
          rw [pollRead_new, hanswer]
          rfl
        refine ⟨(x :: xs) :: blocks, ?_, ?_, ?_⟩
        · exact List.forall_mem_cons.mpr ⟨⟨by simp, hlen⟩, hblocks⟩
        · rw [List.flatten_cons, hflat]
          nth_rewrite 1 [htake]
          exact List.take_append_drop _ _
        · rw [Suite.stream_cons]
          exact .of_take Suite.block_ne_nil hpoll fun size _ => delivers_buffer hdelivers

end EncryptReader
end Rustfs.Rio
