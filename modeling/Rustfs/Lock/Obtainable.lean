import Rustfs.Lock.Exclusion

/-! Whether a lock that nobody holds can be had by those who wait for it. A waiter takes itself off
the count before its next attempt; the others stay counted. -/
namespace Rustfs.FastLock

variable {Key Owner Task : Type} [DecidableEq Key] [DecidableEq Owner] [DecidableEq Task]
variable {s : LockShard Key Owner Task} {w : ℕ}

/-- A waiting writer's next attempt succeeds, and a waiting reader's does if no writer waits. -/
def Obtainable (w : ℕ) : Prop :=
  (0 < writersWaiting w → (tryAcquireExclusive (decWritersWaiting w)).isSome) ∧
  (writersWaiting w = 0 → 0 < readersWaiting w →
    (tryAcquireShared (decReadersWaiting w)).isSome)

theorem tryAcquireExclusive_isSome_iff : (tryAcquireExclusive w).isSome ↔ w = 0 := by
  unfold tryAcquireExclusive
  split <;> simp_all

section

variable (hok : WordOk w) (h : currentMode w = none)
include hok h

theorem currentMode_eq_none : w % 65536 = 0 := by
  unfold currentMode at h
  split at h
  · exact nomatch h
  · rename_i hflag
    split_ifs at h with hreaders
    have hbyte := hok.flags
    unfold writerFlag at hflag
    unfold readersCount at hreaders
    omega

/-- Only the waiting counters are left in the word of a lock that nobody holds. -/
theorem eq_waiting : w = readersWaiting w * 65536 + writersWaiting w * 4294967296 := by
  have hlow := currentMode_eq_none hok h
  have htop := hok.top
  unfold readersWaiting writersWaiting
  omega

/-- A waiting writer gets the lock exactly when it is the only one who waits. -/
theorem waiting_writer_iff (hwriter : 0 < writersWaiting w) :
    (tryAcquireExclusive (decWritersWaiting w)).isSome ↔
      writersWaiting w = 1 ∧ readersWaiting w = 0 := by
  have hword := eq_waiting hok h
  rw [tryAcquireExclusive_isSome_iff]
  unfold decWritersWaiting
  rw [if_neg (by omega)]
  constructor
  · intro hzero
    omega
  · rintro ⟨hone, hnone⟩
    rw [hone, hnone] at hword
    omega

theorem waiting_reader (hwriter : writersWaiting w = 0) (hreader : 0 < readersWaiting w) :
    (tryAcquireShared (decReadersWaiting w)).isSome := by
  have hfree := currentMode_eq_none hok h
  have hlow : decReadersWaiting w % 65536 = 0 := by
    unfold decReadersWaiting
    rw [if_neg (by omega)]
    omega
  have hsmall : w < 4294967296 := by
    have hword := eq_waiting hok h
    have hcount : readersWaiting w < 65536 := Nat.mod_lt _ (by decide)
    omega
  have hnone : writersWaiting (decReadersWaiting w) = 0 := by
    unfold decReadersWaiting
    rw [if_neg (by omega)]
    unfold writersWaiting
    omega
  unfold tryAcquireShared
  rw [if_neg, if_neg]
  · rfl
  · unfold readersCount
    omega
  · rw [hnone]
    unfold writerFlag
    omega

end

/-- In every run, a lock that nobody holds is obtainable exactly when no writer waits or one
writer waits alone. -/
theorem obtainable_iff (h : Reachable s) (sid : ℕ)
    (hfree : currentMode (s.states sid).state = none) :
    Obtainable (s.states sid).state ↔
      writersWaiting (s.states sid).state = 0 ∨
      writersWaiting (s.states sid).state = 1 ∧ readersWaiting (s.states sid).state = 0 := by
  have hok := wordsOk_reachable h sid
  constructor
  · intro hobtainable
    rcases Nat.eq_zero_or_pos (writersWaiting (s.states sid).state) with hzero | hpos
    · exact .inl hzero
    · exact .inr ((waiting_writer_iff hok hfree hpos).mp (hobtainable.1 hpos))
  · intro hwaiting
    refine ⟨fun hpos => ?_, fun hzero hreader => waiting_reader hok hfree hzero hreader⟩
    rcases hwaiting with hzero | halone
    · omega
    · exact (waiting_writer_iff hok hfree hpos).mpr halone

/-- A reader comes to wait while task 0 holds the lock, and then task 0 lets go. -/
theorem exists_reader_waits : ∃ s u : LockShard Unit ℕ ℕ, Reachable s ∧ Reachable u ∧
    (writerFlag (s.states 0).state = 1 ∧ readersWaiting (s.states 0).state = 1) ∧
    currentMode (u.states 0).state = none ∧ writersWaiting (u.states 0).state = 0 ∧
    readersWaiting (u.states 0).state = 1 := by
  have hrun : Reachable _ :=
    move 0 (.call (writerRequest 0) rfl) <|
    move 0 (.missed rfl rfl rfl) <|
    move 0 (.created 0 rfl rfl rfl rfl) <|
    move 1 (.call ⟨(), .shared, 1⟩ rfl) <|
    move 1 (.looked rfl rfl rfl) <|
    move 1 (.touched 0 rfl) <|
    move 1 (.lost rfl rfl) <|
    move 1 (.queued rfl rfl rfl) <|
    move 1 (.touched 0 rfl) <|
    move 1 (.lost rfl rfl) <|
    move 1 (.registered rfl) .refl
  have hfree := hrun.trans <|
    move 0 (.released rfl nofun rfl rfl rfl) <|
    move 0 (.unlocked rfl rfl) .refl
  exact ⟨_, _, hrun, hfree, ⟨rfl, rfl⟩, by decide, rfl, rfl⟩

theorem one_reader_obtainable : ∃ s : LockShard Unit ℕ ℕ, Reachable s ∧
    currentMode (s.states 0).state = none ∧ readersWaiting (s.states 0).state = 1 ∧
    Obtainable (s.states 0).state := by
  obtain ⟨-, s, -, hrun, -, hfree, hnone, hreader⟩ := exists_reader_waits
  exact ⟨s, hrun, hfree, hreader, (obtainable_iff hrun 0 hfree).mpr (.inl hnone)⟩

/-- Two writers come to wait while task 0 holds the lock. When it lets go, neither can have it: the
one that tries finds the other still counted. -/
theorem two_waiting_writers_not_obtainable : ∃ s : LockShard Unit ℕ ℕ, Reachable s ∧
    currentMode (s.states 0).state = none ∧ ¬ Obtainable (s.states 0).state := by
  have hrun : Reachable _ :=
    move 0 (.call (writerRequest 0) rfl) <|
    move 0 (.missed rfl rfl rfl) <|
    move 0 (.created 0 rfl rfl rfl rfl) <|
    move 1 (.call (writerRequest 1) rfl) <|
    move 1 (.looked rfl rfl rfl) <|
    move 1 (.touched 0 rfl) <|
    move 1 (.lost rfl rfl) <|
    move 1 (.lookedAgain rfl rfl rfl) <|
    move 1 (.touched 0 rfl) <|
    move 1 (.lost rfl rfl) <|
    move 1 (.queued rfl rfl rfl) <|
    move 1 (.touched 0 rfl) <|
    move 1 (.lost rfl rfl) <|
    move 1 (.registered rfl) <|
    move 2 (.call (writerRequest 2) rfl) <|
    move 2 (.looked rfl rfl rfl) <|
    move 2 (.touched 0 rfl) <|
    move 2 (.lost rfl rfl) <|
    move 2 (.lookedAgain rfl rfl rfl) <|
    move 2 (.touched 0 rfl) <|
    move 2 (.lost rfl rfl) <|
    move 2 (.queued rfl rfl rfl) <|
    move 2 (.touched 0 rfl) <|
    move 2 (.lost rfl rfl) <|
    move 2 (.registered rfl) <|
    move 0 (.released rfl nofun rfl rfl rfl) <|
    move 0 (.unlocked rfl rfl) <|
    move 0 (.cleared 1 rfl) .refl
  refine ⟨_, hrun, by decide, fun hobtainable => ?_⟩
  exact absurd (hobtainable.1 (by decide)) (by decide)

/-- In every run, whatever the cleanup does, the four fields are all of a word, and no reader is
counted beside a writer. -/
theorem words_reachable (h : Reachable s) (sid : ℕ) :
    let w := (s.states sid).state
    w = writerFlag w + readersCount w * 256 + readersWaiting w * 65536 + writersWaiting w * 4294967296 ∧
      (writerFlag w = 1 → readersCount w = 0) := by
  obtain ⟨hflags, htop, hapart⟩ := wordsOk_reachable h sid
  unfold writerFlag readersCount readersWaiting writersWaiting at *
  dsimp only
  omega

theorem one_writer_word : ∃ s : LockShard Unit ℕ ℕ, writerFlag (s.states 0).state = 1 ∧
    readersWaiting (s.states 0).state = 1 ∧ readersCount (s.states 0).state = 0 := by
  obtain ⟨s, -, hrun, -, ⟨hwriter, hreader⟩, -⟩ := exists_reader_waits
  exact ⟨s, hwriter, hreader, (words_reachable hrun 0).2 hwriter⟩

end Rustfs.FastLock
