import Rustfs.Rio.RoundTrip

/-! Decrypting bytes in memory: whole streams, streams cut short, and streams of another nonce. -/
namespace Rustfs.Rio

open Machine List Nat DecryptReader

variable {Key : Type} {S : Suite Key} {key : Key} {n : Nonce} {ss : ℕ → ℕ} {ps : ℕ}
  {out bs : Bytes}

namespace Reading

theorem steady_of_cursor (c : Reading S Cursor) : c.Steady := by
  rcases c with ⟨position, d, ss, ps, out⟩
  cases position with
  | top =>
    intro _ b r bs hpoll hdelivers hlong
    have hbytes := hdelivers.unique (Cursor.delivers d.inner.bytes)
    cases hpoll
    rw [length_take, ← hbytes]
    omega
  | payload crc =>
    intro size r _ hpoll
    cases hpoll

variable {blocks : List Bytes}

/-- The stream of any blocks is read back from memory. -/
theorem ends_cursor (hblocks : Readable S key n blocks) (ss : ℕ → ℕ) :
    Ends step (start (.new (Cursor.mk (S.stream key n blocks)) key n :
      DecryptReader S Cursor) ss) (.done blocks.flatten) :=
  (ends_of_delivers (Cursor.delivers _)).1 blocks hblocks rfl 0 []
    fun c _ => steady_of_cursor c

variable (S) in
/-- Inside a payload of `total` bytes, of which `got` are read, with these bytes left. -/
def inSegment (key : Key) (nonce : Nonce) (sizes : ℕ → ℕ) (bytes : Bytes) (crc : BitVec 32)
    (got : Bytes) (total polls : ℕ) (out : Bytes) : Reading S Cursor :=
  ⟨.payload crc, { (.new ⟨bytes⟩ key nonce : DecryptReader S Cursor) with
    ciphertextBuf := some (got, total) }, sizes, polls, out⟩

theorem step_empty :
    step (atTop S key n ss (Cursor.mk []) ps out) = .inr (.done out) := rfl

theorem step_cursor :
    step (atTop S key n ss (Cursor.mk bs) ps out) =
      after (atTop S key n ss (Cursor.mk bs) ps out) (headerRead (.new (Cursor.mk bs) key n)
          (.ready (bs.take 8), ⟨bs.drop 8⟩)) :=
  step_header rfl rfl

theorem step_short_header (hne : bs ≠ []) (hlen : bs.length < 8) :
    step (atTop S key n ss (Cursor.mk bs) ps out) = .inr .hung := by
  rw [step_cursor, take_of_length_le (le_of_lt hlen), headerRead,
    if_neg hne, if_pos (by simpa [new] using hlen)]
  rfl

theorem step_whole_header (hlen : 8 ≤ bs.length) :
    step (atTop S key n ss (Cursor.mk bs) ps out) =
      after (atTop S key n ss (Cursor.mk bs) ps out)
        (headerTurn (.new ⟨bs.drop 8⟩ key n) (bs.take 8)) := by
  have htake : (bs.take 8).length = 8 := length_take_of_le hlen
  have hne : bs.take 8 ≠ [] := fun h => by simp [h] at htake
  rw [step_cursor, headerRead, if_neg hne, if_neg (by simp [new, htake])]
  rfl

variable {n' : Nonce} {b : Bytes}

/-- From the header of a block, the reader comes to its payload. -/
theorem step_block (hb : IsBlock b) (hlen : 8 ≤ bs.length)
    (hbytes : bs.take 8 = header 0 ((S.payload key n' b).length + 4) (S.crc32 b)) :
    step (atTop S key n ss (Cursor.mk bs) ps out) =
      .inl (inSegment S key n ss (bs.drop 8) (S.crc32 b) []
        (S.payload key n' b).length ps out) := by
  rw [step_whole_header hlen, hbytes, headerTurn_block hb]
  rfl

variable {crc : BitVec 32}

theorem step_segment {t : ℕ} (htotal : 0 < t) (hne : bs ≠ []) :
    step (inSegment S key n ss bs crc [] t ps out) =
      .inl (inSegment S key n ss (bs.drop t) crc (bs.take t) t ps out) := by
  have htake : bs.take t ≠ [] := by
    intro h
    rcases take_eq_nil_iff.mp h with h | h
    · omega
    · exact hne h
  have hturn : turn (inSegment S key n ss bs crc [] t ps out).reader
      (.payload crc) (ss ps + 1) = _ := if_pos htotal
  rw [step]
  refine (congrArg (after _) (hturn.trans (if_neg htake))).trans ?_
  rfl

/-- A payload that is cut short is waited for without an end. -/
theorem step_segment_short {got : Bytes} {t : ℕ} (hlen : got.length < t) :
    step (inSegment S key n ss [] crc got t ps out) = .inr .hung := by
  have hturn : turn (inSegment S key n ss [] crc got t ps out).reader
      (.payload crc) (ss ps + 1) = _ := if_pos hlen
  rw [step]
  exact congrArg (after _) (hturn.trans (if_pos take_nil))

/-- The first bytes of a block are its header, whatever follows. -/
theorem block_append (key : Key) (n' : Nonce) (b r : Bytes) :
    8 ≤ (S.block key n' b ++ r).length ∧
    (S.block key n' b ++ r).take 8 =
      header 0 ((S.payload key n' b).length + 4) (S.crc32 b) ∧
    (S.block key n' b ++ r).drop 8 = S.payload key n' b ++ r := by
  have hblock : S.block key n' b ++ r = header 0 ((S.payload key n' b).length + 4) (S.crc32 b) ++
        (S.payload key n' b ++ r) := append_assoc _ _ _
  rw [hblock]
  exact ⟨by rw [length_append]; exact le_add_right _ _, take_left' rfl,
    drop_left' rfl⟩

/-- The payload of a block is read in one piece. -/
theorem ends_payload {r : Bytes} (hb : IsBlock b) {result : Outcome}
    (h : Ends step (inSegment S key n ss r (S.crc32 b) (S.payload key n' b)
      (S.payload key n' b).length ps out) result) :
    Ends step (atTop S key n ss (Cursor.mk (S.block key n' b ++ r)) ps out) result := by
  obtain ⟨hlen, htake, hdrop⟩ := block_append (S := S) key n' b r
  have hpos : 0 < (S.payload key n' b).length := by
    have hlong : 16 ≤ (S.payload key n' b).length := Suite.sixteen_le_payload
    omega
  refine .more (step_block hb hlen htake) ?_
  rw [hdrop]
  refine .more (step_segment hpos (by simp [length_pos_iff.mp hpos])) ?_
  rw [take_left, drop_left]
  exact h

/-- What was sealed with another nonce does not open. -/
theorem ends_other_nonce (hb : IsBlock b)
    (hclosed : S.decrypt key n (S.encrypt key n' b) = none) (r : Bytes) (ss : ℕ → ℕ) :
    Ends step (start (.new (Cursor.mk (S.block key n' b ++ r)) key n :
      DecryptReader S Cursor) ss) (.failed .decryptError) := by
  refine ends_payload hb (.stop ?_)
  have hturn := openTurn_payload (d := (inSegment S key n ss r (S.crc32 b)
    (S.payload key n' b) (S.payload key n' b).length 0 []).reader) hb hclosed (S.crc32 b)
    (ss 0 + 1)
  exact congrArg (after _) ((if_neg (lt_irrefl _)).trans hturn)

variable {r : Bytes → Outcome}

/-- A whole block is read, and the rest after it. -/
theorem ends_whole_block {rest : Bytes} (hb : IsBlock b) (hopens : S.Opens key n b)
    (h : ∀ ps out, Ends step (atTop S key n ss (Cursor.mk rest) ps out) (r out))
    (ps : ℕ) (out : Bytes) :
    Ends step (atTop S key n ss (Cursor.mk (S.block key n b ++ rest)) ps out) (r (out ++ b)) := by
  have hserve := ends_serve (d := .new ⟨rest⟩ key n) (fun ps out _ => h ps out)
    (b.drop (ss ps + 1)) (ps + 1) (out ++ b.take (ss ps + 1))
    fun c _ => steady_of_cursor c
  rw [append_assoc, take_append_drop] at hserve
  exact ends_payload hb (.more (step_open ss ps out _ hb hopens) hserve)

/-- The end marker may be missing. -/
theorem ends_without_marker (hblocks : Readable S key n blocks)
    (ss : ℕ → ℕ) (ps : ℕ) (out : Bytes) :
    Ends step (atTop S key n ss (Cursor.mk (blocks.map (S.block key n)).flatten) ps
      out) (.done (out ++ blocks.flatten)) := by
  induction blocks generalizing ps out with
  | nil =>
    rw [flatten_nil, append_nil]
    exact .stop step_empty
  | cons b blocks ih =>
    obtain ⟨hb, hopens⟩ := hblocks b (by simp)
    have hends := ends_whole_block hb hopens (ih fun p hp => hblocks p (by simp [hp])) ps out
    rwa [append_assoc] at hends

/-- What reading the first `m` bytes of a stream ends with: it waits for more, or `m` is where a block
ends. -/
def CutShort (S : Suite Key) (key : Key) (nonce : Nonce) (blocks : List Bytes) (m : ℕ)
    (result : Bytes → Outcome) : Prop :=
  (∀ out, result out = .hung) ∨
    ∃ j ≤ blocks.length, m = ((blocks.take j).map (S.block key nonce)).flatten.length ∧
      ∀ out, result out = .done (out ++ (blocks.take j).flatten)

variable {m : ℕ}

theorem CutShort.cons (h : CutShort S key n blocks m r) :
    CutShort S key n (b :: blocks) ((S.block key n b).length + m) fun out => r (out ++ b) := by
  rcases h with h | ⟨j, hj, rfl, hdone⟩
  · exact .inl fun out => h _
  · refine .inr ⟨j + 1, by simpa using hj, by simp, fun out => ?_⟩
    dsimp only
    rw [hdone, take_succ_cons, flatten_cons, append_assoc]

theorem cutShort_first (bs : List Bytes) (m : ℕ) :
    CutShort S key n bs m fun out => if m = 0 then .done out else .hung := by
  by_cases hzero : m = 0
  · exact .inr ⟨0, zero_le _, by simpa using hzero, fun out => by simp [hzero]⟩
  · exact .inl fun out => if_neg hzero

/-- Before the first block is complete, the reader waits for more, or there is nothing at all. -/
theorem ends_first_block {r : Bytes} (hb : IsBlock b)
    (hm : m < (S.block key n' b).length) (ss : ℕ → ℕ) (ps : ℕ) (out : Bytes) :
    Ends step (atTop S key n ss (Cursor.mk ((S.block key n' b ++ r).take m)) ps out)
      (if m = 0 then .done out else .hung) := by
  rw [take_append_of_le_length (le_of_lt hm)]
  have hlength : ((S.block key n' b).take m).length = m := length_take_of_le (le_of_lt hm)
  by_cases hzero : m = 0
  · subst hzero
    exact .stop step_empty
  rw [if_neg hzero]
  by_cases hheader : m < 8
  · refine .stop (step_short_header ?_ (by omega))
    intro hnil
    rw [hnil] at hlength
    exact hzero hlength.symm
  · have hblock : S.block key n' b =
        header 0 ((S.payload key n' b).length + 4) (S.crc32 b) ++ S.payload key n' b := rfl
    have htake : ((S.block key n' b).take m).take 8 =
        header 0 ((S.payload key n' b).length + 4) (S.crc32 b) := by
      rw [take_take, min_eq_left (by omega), hblock]
      exact take_left' rfl
    have hdrop : ((S.block key n' b).take m).drop 8 = (S.payload key n' b).take (m - 8) := by
      rw [drop_take, hblock]
      exact congrArg _ (drop_left' rfl)
    have hshort : m - 8 < (S.payload key n' b).length := by
      rw [hblock, length_append, length_header] at hm
      omega
    refine .more (step_block hb (by omega) htake) ?_
    rw [hdrop]
    by_cases hnone : m - 8 = 0
    · rw [hnone, take_zero]
      exact .stop (step_segment_short (by simpa [hnone] using hshort))
    · have hsome : (S.payload key n' b).take (m - 8) ≠ [] := by
        intro hnil
        rcases take_eq_nil_iff.mp hnil with h | h
        · exact hnone h
        · rw [h] at hshort
          exact absurd hshort (not_lt_zero _)
      refine .more (step_segment (by omega) hsome) ?_
      rw [take_take, min_eq_right (by omega), drop_eq_nil_of_le (by
        rw [length_take]
        omega)]
      refine .stop (step_segment_short ?_)
      rw [length_take]
      omega

/-- A stream that is cut short is read up to the end of a block, or waited for. -/
theorem ends_truncated (hblocks : Readable S key n blocks)
    (ss : ℕ → ℕ) (hm : m < (S.stream key n blocks).length) :
    ∃ r : Bytes → Outcome, CutShort S key n blocks m r ∧ ∀ ps out, Ends step
      (atTop S key n ss (Cursor.mk ((S.stream key n blocks).take m)) ps out) (r out) := by
  induction blocks generalizing m with
  | nil =>
    refine ⟨_, cutShort_first [] m, fun ps out => ?_⟩
    have hlength : ((S.stream key n []).take m).length = m :=
      length_take_of_le (le_of_lt hm)
    by_cases hzero : m = 0
    · subst hzero
      exact .stop step_empty
    · rw [if_neg hzero]
      refine .stop (step_short_header ?_ (by rw [hlength]; exact hm))
      intro hnil
      rw [hnil] at hlength
      exact hzero hlength.symm
  | cons b blocks ih =>
    obtain ⟨hb, hopens⟩ := hblocks b (by simp)
    rw [Suite.stream_cons] at hm ⊢
    by_cases hfirst : m < (S.block key n b).length
    · exact ⟨_, cutShort_first _ m, ends_first_block hb hfirst ss⟩
    · have hrest : m - (S.block key n b).length < (S.stream key n blocks).length := by
        rw [length_append] at hm
        omega
      obtain ⟨r, hcut, hends⟩ := ih (fun p hp => hblocks p (by simp [hp])) hrest
      refine ⟨fun out => r (out ++ b), ?_, ?_⟩
      · have hsum : m = (S.block key n b).length + (m - (S.block key n b).length) := by
          omega
        rw [hsum]
        exact hcut.cons
      · rw [take_append, take_of_length_le (by omega)]
        exact ends_whole_block hb hopens hends

end Reading
end Rustfs.Rio
