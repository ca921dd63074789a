import Mathlib.Data.List.Basic

/-! The state of one lock: a packed word, and the owners beside it. -/
namespace Rustfs.FastLock

open Option

inductive LockMode where
  | shared | exclusive
  deriving DecidableEq

/-! The word has the writer in bit 0, the readers in bits 8 to 15, the waiting readers in bits 16
to 31 and the waiting writers in bits 32 to 47. -/

def writerFlag (state : ℕ) : ℕ := state % 2

def readersCount (state : ℕ) : ℕ := state / 256 % 256

def readersWaiting (state : ℕ) : ℕ := state / 65536 % 65536

def writersWaiting (state : ℕ) : ℕ := state / 4294967296 % 65536

def isFastPathAvailable : LockMode → ℕ → Bool
  | .shared, state => writerFlag state = 0 ∧ writersWaiting state = 0
  | .exclusive, state => state = 0

/-! An exchange is tried until the word has not changed in between, so each operation acts on the
word at one moment. -/

def tryAcquireShared (state : ℕ) : Option ℕ :=
  if writerFlag state ≠ 0 ∨ writersWaiting state ≠ 0 then none
  else if readersCount state = 255 then none
  else some (state + 256)

/-- Nobody may hold the lock, and nobody may wait for it. -/
def tryAcquireExclusive (state : ℕ) : Option ℕ := if state = 0 then some 1 else none

def tryAcquire : LockMode → ℕ → Option ℕ
  | .shared => tryAcquireShared
  | .exclusive => tryAcquireExclusive

def releaseShared (state : ℕ) : Option ℕ :=
  if readersCount state = 0 then none else some (state - 256)

def releaseExclusive (state : ℕ) : Option ℕ :=
  if writerFlag state = 0 then none else some (state - 1)

def releaseWord : LockMode → ℕ → Option ℕ
  | .shared => releaseShared
  | .exclusive => releaseExclusive

/-- At the largest count a reader waits without being counted. -/
def incReadersWaiting (state : ℕ) : ℕ :=
  if readersWaiting state = 65535 then state else state + 65536

def decReadersWaiting (state : ℕ) : ℕ :=
  if readersWaiting state = 0 then state else state - 65536

def incWritersWaiting (state : ℕ) : ℕ :=
  if writersWaiting state = 65535 then state else state + 4294967296

def decWritersWaiting (state : ℕ) : ℕ :=
  if writersWaiting state = 0 then state else state - 4294967296

def incWaiting : LockMode → ℕ → ℕ
  | .shared => incReadersWaiting
  | .exclusive => incWritersWaiting

def decWaiting : LockMode → ℕ → ℕ
  | .shared => decReadersWaiting
  | .exclusive => decWritersWaiting

/-- `current_mode` -/
def currentMode (state : ℕ) : Option LockMode :=
  if writerFlag state ≠ 0 then some .exclusive
  else if 0 < readersCount state then some .shared
  else none

/-! What the operations do to the parts of a word. -/

/-- The word is one that the operations can make. -/
structure WordOk (w : ℕ) : Prop where
  flags : w % 256 ≤ 1
  top : w < 281474976710656
  apart : w % 256 = 1 → readersCount w = 0

/-- Two words say the same about who holds the lock. -/
def SameHold (w w' : ℕ) : Prop := w' % 256 = w % 256 ∧ readersCount w' = readersCount w

variable {w w' : ℕ}

theorem wordOk_zero : WordOk 0 := by
  constructor <;> simp [readersCount]

theorem wordOk_one : WordOk 1 := by
  constructor <;> simp [readersCount]

theorem tryAcquireShared_eq_some (h : tryAcquireShared w = some w') :
    w' = w + 256 ∧ writerFlag w = 0 ∧ writersWaiting w = 0 ∧ readersCount w ≠ 255 := by
  unfold tryAcquireShared at h
  split at h
  · exact nomatch h
  · rename_i hfree
    split_ifs at h with hmax
    simp only [ne_eq, not_or, not_not] at hfree
    exact ⟨(some.inj h).symm, hfree.1, hfree.2, hmax⟩

theorem tryAcquireExclusive_eq_some (h : tryAcquireExclusive w = some w') : w = 0 ∧ w' = 1 := by
  unfold tryAcquireExclusive at h
  split_ifs at h with hzero
  exact ⟨hzero, (some.inj h).symm⟩

section

variable (hok : WordOk w)
include hok

theorem readersCount_acquireShared (h : tryAcquireShared w = some w') :
    WordOk w' ∧ w' % 256 = 0 ∧ readersCount w' = readersCount w + 1 := by
  obtain ⟨rfl, hflag, _, hmax⟩ := tryAcquireShared_eq_some h
  obtain ⟨hflags, htop, _⟩ := hok
  unfold writerFlag at hflag
  unfold readersCount at hmax ⊢
  have hbyte : (w + 256) % 256 = 0 := by omega
  exact ⟨⟨by omega, by omega, by omega⟩, hbyte, by omega⟩

theorem releaseShared_eq_some (h : releaseShared w = some w') :
    WordOk w' ∧ w' % 256 = w % 256 ∧ readersCount w = readersCount w' + 1 := by
  unfold releaseShared at h
  split_ifs at h with hpos
  obtain rfl := some.inj h
  obtain ⟨hflags, htop, hapart⟩ := hok
  unfold readersCount at hpos hapart
  have hbyte : (w - 256) % 256 = w % 256 := by omega
  have hcount : readersCount w = readersCount (w - 256) + 1 := by
    unfold readersCount
    omega
  exact ⟨⟨by omega, by omega, by omega⟩, hbyte, hcount⟩

theorem releaseExclusive_eq_some (h : releaseExclusive w = some w') :
    WordOk w' ∧ w % 256 = 1 ∧ w' % 256 = 0 ∧ readersCount w' = readersCount w := by
  unfold releaseExclusive at h
  split_ifs at h with hflag
  cases h
  obtain ⟨hflags, htop, _⟩ := hok
  unfold writerFlag at hflag
  have hbyte : (w - 1) % 256 = 0 := by omega
  have hcount : readersCount (w - 1) = readersCount w := by
    unfold readersCount
    omega
  exact ⟨⟨by omega, by omega, by omega⟩, by omega, hbyte, hcount⟩

/-- Who holds the lock is said by the lowest sixteen bits. -/
theorem WordOk.of_low (htop : w' < 281474976710656)
    (hlow : w' % 65536 = w % 65536) : WordOk w' ∧ SameHold w w' := by
  obtain ⟨hflags, _, hapart⟩ := hok
  have hbyte : w' % 256 = w % 256 := by omega
  have hreaders : readersCount w' = readersCount w := by
    unfold readersCount
    omega
  refine ⟨⟨by omega, htop, ?_⟩, hbyte, hreaders⟩
  intro hone
  rw [hreaders]
  exact hapart (by omega)

theorem WordOk.ite {p : Prop} [Decidable p]
    (h : ¬p → w' < 281474976710656 ∧ w' % 65536 = w % 65536) :
    WordOk (if p then w else w') ∧ SameHold w (if p then w else w') := by
  split_ifs with hp
  · exact ⟨hok, rfl, rfl⟩
  · exact hok.of_low (h hp).1 (h hp).2

end

/-- Waiting changes neither the holders nor the shape of the word. -/
theorem incWaiting_same (m : LockMode) (hok : WordOk w) :
    WordOk (incWaiting m w) ∧ SameHold w (incWaiting m w) := by
  have htop := hok.top
  cases m with
  | shared | exclusive =>
    refine hok.ite fun hmax => ?_
    simp only [readersWaiting, writersWaiting] at hmax
    omega

theorem decWaiting_same (m : LockMode) (hok : WordOk w) :
    WordOk (decWaiting m w) ∧ SameHold w (decWaiting m w) := by
  have htop := hok.top
  cases m with
  | shared | exclusive =>
    refine hok.ite fun hpos => ?_
    simp only [readersWaiting, writersWaiting] at hpos
    omega

theorem tryAcquire_wordOk {m : LockMode} (hok : WordOk w) (h : tryAcquire m w = some w') :
    WordOk w' := by
  cases m with
  | shared => exact (readersCount_acquireShared hok h).1
  | exclusive =>
    obtain ⟨_, rfl⟩ := tryAcquireExclusive_eq_some h
    exact wordOk_one

theorem releaseWord_wordOk {m : LockMode} (hok : WordOk w) (h : releaseWord m w = some w') :
    WordOk w' := by
  cases m with
  | shared => exact (releaseShared_eq_some hok h).1
  | exclusive => exact (releaseExclusive_eq_some hok h).1

/-! The owners are kept beside the word, under locks of their own. -/

/-- `ObjectLockState`: the word, the second it was last used in, and the owners with their counts. -/
structure ObjectLockState (Owner : Type) where
  state : ℕ
  lastAccessed : ℕ
  currentOwner : Option Owner
  sharedOwners : List (Owner × ℕ)

namespace ObjectLockState

variable {Owner : Type} [DecidableEq Owner]

def new (now : ℕ) : ObjectLockState Owner := ⟨0, now, none, []⟩

def updateAccessTime (now : ℕ) (s : ObjectLockState Owner) : ObjectLockState Owner :=
  { s with lastAccessed := now }

def addShared (owner : Owner) : List (Owner × ℕ) → List (Owner × ℕ)
  | [] => [(owner, 1)]
  | (o, count) :: rest =>
    if o = owner then (o, min (count + 1) 4294967295) :: rest
    else (o, count) :: addShared owner rest

def dropShared (owner : Owner) : List (Owner × ℕ) → Option (List (Owner × ℕ))
  | [] => none
  | (o, count) :: rest =>
    if o = owner then some (if 1 < count then (o, count - 1) :: rest else rest)
    else (dropShared owner rest).map ((o, count) :: ·)

/-- The owner is written down after the word has been won. -/
def record (mode : LockMode) (owner : Owner) (now : ℕ) (s : ObjectLockState Owner) :
    ObjectLockState Owner :=
  match mode with
  | .shared => { s with lastAccessed := now, sharedOwners := addShared owner s.sharedOwners }
  | .exclusive => { s with lastAccessed := now, currentOwner := some owner }

/-- The part of a release before the word: the owner must be known, and a reader is taken out. -/
def checkOwner (mode : LockMode) (owner : Owner) (s : ObjectLockState Owner) :
    Option (ObjectLockState Owner) :=
  match mode with
  | .shared => (dropShared owner s.sharedOwners).map fun owners => { s with sharedOwners := owners }
  | .exclusive => if s.currentOwner = some owner then some s else none

/-- The part of a release after the word. -/
def forget (mode : LockMode) (now : ℕ) (s : ObjectLockState Owner) : ObjectLockState Owner :=
  match mode with
  | .shared => { s with lastAccessed := now }
  | .exclusive => { s with lastAccessed := now, currentOwner := none }

/-- The word had nothing to release: a reader's entry is put back. -/
def restore (mode : LockMode) (owner : Owner) (s : ObjectLockState Owner) : ObjectLockState Owner :=
  match mode with
  | .shared => { s with sharedOwners := addShared owner s.sharedOwners }
  | .exclusive => s

variable {s t : ObjectLockState Owner} {m : LockMode} {owner : Owner} {now : ℕ}

@[simp] theorem state_record : (s.record m owner now).state = s.state := by
  cases m <;> rfl

omit [DecidableEq Owner] in
@[simp] theorem state_forget : (s.forget m now).state = s.state := by
  cases m <;> rfl

@[simp] theorem state_restore : (s.restore m owner).state = s.state := by
  cases m <;> rfl

theorem state_of_checkOwner (h : s.checkOwner m owner = some t) : t.state = s.state := by
  cases m with
  | shared =>
    obtain ⟨owners, _, rfl⟩ := map_eq_some_iff.mp h
    rfl
  | exclusive =>
    unfold checkOwner at h
    dsimp only at h
    split at h
    · cases h
      rfl
    · exact nomatch h

end ObjectLockState
end Rustfs.FastLock
