import Mathlib.Data.Finset.Card
import Rustfs.Lock.Shard

/-! Mutual exclusion on a shard. It is lost when the cleanup removes an entry that a task has
looked up and not tried yet, and only then. -/
namespace Rustfs.FastLock

open Function ObjectLockState Phase Finset

variable {Key Owner Task : Type} [DecidableEq Key] [DecidableEq Owner] [DecidableEq Task]
variable {s u : LockShard Key Owner Task} {a : Action Key Task} {t : Task} {sid : ℕ}
variable {st : ObjectLockState Owner} {p : Phase Key Owner}

/-! Every word is well formed in every run. -/

def WordsOk (s : LockShard Key Owner Task) : Prop := ∀ sid, WordOk (s.states sid).state

omit [DecidableEq Key] [DecidableEq Owner] [DecidableEq Task] in
theorem wordsOk_update (hs : WordsOk s) (h : WordOk st.state) (i : ℕ) :
    WordOk (update s.states sid st i).state := by
  by_cases hi : i = sid
  · subst i
    rw [update_self]
    exact h
  · rw [update_of_ne hi]
    exact hs i

theorem wordsOk_step (h : Step s a u) (hs : WordsOk s) : WordsOk u := by
  cases h with
  | created now => exact wordsOk_update hs wordOk_one
  | entered now => exact wordsOk_update hs wordOk_zero
  | @touched t req sid stage now => exact wordsOk_update hs (hs sid)
  | @won t req sid stage word _ hwon => exact wordsOk_update hs (tryAcquire_wordOk (hs sid) hwon)
  | @recorded t req sid now =>
    refine wordsOk_update hs ?_
    rw [state_record]
    exact hs sid
  | @registered t req sid => exact wordsOk_update hs (incWaiting_same req.mode (hs sid)).1
  | @woken t req sid | @expired t req sid =>
    exact wordsOk_update hs (decWaiting_same req.mode (hs sid)).1
  | @guarded t req sid => exact hs
  | @released t req sid mapped guard st _ _ _ _ hst =>
    have hok : WordOk st.state := by
      rw [state_of_checkOwner hst]
      exact hs mapped
    cases guard <;> exact wordsOk_update hs hok
  | @disowned t req sid mapped guard | @vanished t req sid guard => cases guard <;> exact hs
  | @unlocked t req sid mapped guard word _ hword =>
    exact wordsOk_update hs (releaseWord_wordOk (hs mapped) hword)
  | @stillLocked t req sid mapped guard =>
    refine wordsOk_update hs ?_
    rw [state_restore]
    exact hs mapped
  | @cleared t req mapped now =>
    refine wordsOk_update hs ?_
    rw [state_forget]
    exact hs mapped
  | _ => exact hs

theorem wordsOk_reachable {C : LockShard Key Owner Task → Action Key Task → Prop}
    (h : ReachableWith C s) : WordsOk s := by
  induction h with
  | refl => exact fun _ => wordOk_zero
  | tail _ hstep ih =>
    obtain ⟨a, hstep, _⟩ := hstep
    exact wordsOk_step hstep ih

/-! What the tasks refer to. -/

/-- No entry is condemned while a task has looked its state up and not tried it yet. -/
def NoneLooking (s : LockShard Key Owner Task) : Action Key Task → Prop
  | .condemn key => ∀ t req sid, s.objects key = some sid → (s.phase t).sought ≠ some (req, sid)
  | _ => True

/-- The task's state is the one the table has under its key, and no cleanup is after it. -/
def Entered (s : LockShard Key Owner Task) (key : Key) (sid : ℕ) : Prop :=
  s.objects key = some sid ∧ s.cleaning ≠ some key

/-- Whatever a task has looked up or holds is entered in the table. -/
structure Linked (s : LockShard Key Owner Task) : Prop where
  lt : ∀ {key sid}, s.objects key = some sid → sid < s.next
  inj : ∀ {key key' sid}, s.objects key = some sid → s.objects key' = some sid → key = key'
  sought : ∀ {t req sid}, (s.phase t).sought = some (req, sid) → Entered s req.key sid
  held : ∀ {t req sid}, (s.phase t).held = some (req, sid) → Entered s req.key sid
  mapped : ∀ {t req sid m g}, s.phase t = .releasing req sid m g → m = sid

section
omit [DecidableEq Key] [DecidableEq Owner]

theorem phase_setPhase (i : Task) :
    (s.setPhase t p).phase i = p ∨ (s.setPhase t p).phase i = s.phase i := by
  by_cases hi : i = t
  · subst i
    exact .inl (update_self _ _ _)
  · exact .inr (update_of_ne hi _ _)

theorem Linked.setPhase (hs : Linked s)
    (hsought : ∀ req sid, p.sought = some (req, sid) → Entered s req.key sid)
    (hheld : ∀ req sid, p.held = some (req, sid) → Entered s req.key sid)
    (hmapped : ∀ req sid m g, p = .releasing req sid m g → m = sid) : Linked (s.setPhase t p) where
  lt := hs.lt
  inj := hs.inj
  sought {i req sid} h := by
    rcases phase_setPhase i with heq | heq <;> rw [heq] at h
    · exact hsought req sid h
    · exact hs.sought h
  held {i req sid} h := by
    rcases phase_setPhase i with heq | heq <;> rw [heq] at h
    · exact hheld req sid h
    · exact hs.held h
  mapped {i req sid m g} h := by
    rcases phase_setPhase i with heq | heq <;> rw [heq] at h
    · exact hmapped req sid m g h
    · exact hs.mapped h

/-- A task that lets go of what it had stays linked. -/
theorem Linked.rest (hs : Linked s) (hsought : p.sought = none) (hheld : p.held = none) :
    Linked (s.setPhase t p) := by
  refine hs.setPhase ?_ ?_ ?_
  · intro req sid h
    rw [hsought] at h
    exact nomatch h
  · intro req sid h
    rw [hheld] at h
    exact nomatch h
  · rintro req sid m g rfl
    exact nomatch hheld

variable {req : ObjectLockRequest Key Owner}

/-- A task comes to look at an entered state. -/
theorem Linked.look (hs : Linked s)
    (hp : p.sought = some (req, sid)) (hentered : Entered s req.key sid) :
    Linked (s.setPhase t p) := by
  refine hs.setPhase ?_ ?_ ?_
  · intro req' sid' h
    rw [hp] at h
    cases h
    exact hentered
  · intro req' sid' h
    rw [held_of_sought hp] at h
    exact nomatch h
  · rintro req' sid' m g rfl
    exact nomatch hp

/-- A task comes to hold, or goes on holding, an entered state. -/
theorem Linked.hold (hs : Linked s)
    (hp : p.held = some (req, sid)) (hentered : Entered s req.key sid)
    (hmapped : ∀ req sid m g, p = .releasing req sid m g → m = sid) : Linked (s.setPhase t p) := by
  refine hs.setPhase ?_ ?_ hmapped
  · intro req' sid' h
    rw [sought_of_held hp] at h
    exact nomatch h
  · intro req' sid' h
    rw [hp] at h
    cases h
    exact hentered

omit [DecidableEq Task] in
theorem Linked.setState (hs : Linked s) : Linked (s.setState sid st) :=
  ⟨hs.lt, hs.inj, hs.sought, hs.held, hs.mapped⟩

omit [DecidableEq Task] in
theorem Linked.unregisterGuard (hs : Linked s) (g : Option ℕ) : Linked (s.unregisterGuard g) := by
  cases g <;> exact ⟨hs.lt, hs.inj, hs.sought, hs.held, hs.mapped⟩

end

variable {key : Key}

omit [DecidableEq Owner] [DecidableEq Task] in
/-- A key without an entry gets a new one. -/
theorem Linked.insert (hs : Linked s) (hkey : s.objects key = none) : Linked (s.insert key st) := by
  have hold : ∀ {k i}, s.objects k = some i → (s.insert key st).objects k = some i := by
    intro k i hk
    have hne : k ≠ key := by
      rintro rfl
      rw [hkey] at hk
      exact nomatch hk
    exact (update_of_ne hne _ _).trans hk
  have hnew : ∀ {k i}, (s.insert key st).objects k = some i →
      k = key ∧ i = s.next ∨ s.objects k = some i := by
    intro k i hk
    by_cases hne : k = key
    · subst k
      simp only [LockShard.insert, update_self, Option.some.injEq] at hk
      exact .inl ⟨rfl, hk.symm⟩
    · simp only [LockShard.insert, update_of_ne hne] at hk
      exact .inr hk
  constructor
  case lt =>
    intro k i hk
    rcases hnew hk with ⟨_, rfl⟩ | hk
    · exact Nat.lt_succ_self _
    · exact Nat.lt_succ_of_lt (hs.lt hk)
  case inj =>
    intro k k' i hk hk'
    rcases hnew hk with ⟨hkk, hi⟩ | hlt <;> rcases hnew hk' with ⟨hkk', hi'⟩ | hlt'
    · rw [hkk, hkk']
    · rw [hi] at hlt'
      exact absurd (hs.lt hlt') (lt_irrefl _)
    · rw [hi'] at hlt
      exact absurd (hs.lt hlt) (lt_irrefl _)
    · exact hs.inj hlt hlt'
  case sought =>
    intro t req i h
    exact ⟨hold (hs.sought h).1, (hs.sought h).2⟩
  case held =>
    intro t req i h
    exact ⟨hold (hs.held h).1, (hs.held h).2⟩
  case mapped => exact hs.mapped

omit [DecidableEq Owner] [DecidableEq Task] in
/-- The entry that the cleanup is after goes, and no task refers to it. -/
theorem Linked.remove (hs : Linked s) (hkey : s.cleaning = some key) : Linked (s.remove key) := by
  have hold : ∀ {k i}, (s.remove key).objects k = some i → s.objects k = some i := by
    intro k i hk
    by_cases hne : k = key
    · subst k
      simp [LockShard.remove] at hk
    · simpa only [LockShard.remove, update_of_ne hne] using hk
  have hkept : ∀ {k i}, Entered s k i → Entered (s.remove key) k i := by
    rintro k i ⟨hk, hclean⟩
    have hne : k ≠ key := by
      rintro rfl
      exact hclean hkey
    exact ⟨(update_of_ne hne _ _).trans hk, by simp [LockShard.remove]⟩
  exact ⟨fun hk => hs.lt (hold hk), fun hk hk' => hs.inj (hold hk) (hold hk'),
    fun h => hkept (hs.sought h), fun h => hkept (hs.held h), hs.mapped⟩

/-! The holders of a state, and what its word says of them. -/

/-- A writer is alone with the writer's bit set; the readers are at most as many as are counted. -/
structure Counted (H : LockMode → Task → Prop) (w : ℕ) : Prop where
  writer : ∀ t, H .exclusive t → w % 256 = 1 ∧ ∀ mode t', H mode t' → t' = t
  readers : ∃ F : Finset Task, (∀ t, H .shared t → t ∈ F) ∧ F.card ≤ readersCount w

variable {mode : LockMode}

namespace Counted

variable {H H' : LockMode → Task → Prop} {w w' : ℕ}

omit [DecidableEq Task] in
theorem of_none (h : ∀ mode t, ¬ H mode t) : Counted H w :=
  ⟨fun t ht => absurd ht (h _ t), ∅, fun t ht => absurd ht (h _ t), Nat.zero_le _⟩

omit [DecidableEq Task] in
theorem mono (hs : Counted H w) (hsame : SameHold w w') (hold : ∀ mode t, H' mode t → H mode t) :
    Counted H' w' := by
  obtain ⟨hwriter, F, hF, hcard⟩ := hs
  refine ⟨?_, F, fun t ht => hF t (hold _ t ht), hsame.2 ▸ hcard⟩
  intro t ht
  obtain ⟨hflag, honly⟩ := hwriter t (hold _ t ht)
  exact ⟨hsame.1.trans hflag, fun mode t' ht' => honly mode t' (hold mode t' ht')⟩

omit [DecidableEq Task] in
/-- A word that is all zero has no holder. -/
theorem not_holder_of_zero (hs : Counted H 0) (m : LockMode) (t : Task) : ¬ H m t := by
  intro ht
  cases m with
  | exclusive => exact (nomatch (hs.writer t ht).1)
  | shared =>
    obtain ⟨F, hF, hcard⟩ := hs.readers
    have hpos := card_pos.mpr ⟨t, hF t ht⟩
    simp only [readersCount] at hcard
    omega

/-- An attempt that wins the word makes the task a holder. -/
theorem join (t : Task) (hs : Counted H w) (hok : WordOk w) (hwon : tryAcquire mode w = some w')
    (hold : ∀ m t', H' m t' → t' = t ∧ m = mode ∨ H m t') : Counted H' w' := by
  cases mode with
  | exclusive =>
    obtain ⟨rfl, rfl⟩ := tryAcquireExclusive_eq_some hwon
    have honly : ∀ m t', H' m t' → t' = t ∧ m = .exclusive := fun m t' h =>
      (hold m t' h).resolve_right (hs.not_holder_of_zero m t')
    refine ⟨?_, ∅, fun t' h => (nomatch (honly _ t' h).2), Nat.zero_le _⟩
    intro t' h
    exact ⟨rfl, fun m t'' h' => (honly m t'' h').1.trans (honly _ t' h).1.symm⟩
  | shared =>
    obtain ⟨_, hflag, _⟩ := tryAcquireShared_eq_some hwon
    obtain ⟨_, _, hcount⟩ := readersCount_acquireShared hok hwon
    obtain ⟨F, hF, hcard⟩ := hs.readers
    refine ⟨?_, insert t F, ?_, ?_⟩
    · intro t' h
      rcases hold _ t' h with ⟨_, hmode⟩ | h
      · exact nomatch hmode
      · have hone := (hs.writer t' h).1
        unfold writerFlag at hflag
        omega
    · intro t' h
      rcases hold _ t' h with ⟨rfl, _⟩ | h
      · exact mem_insert_self _ _
      · exact mem_insert_of_mem (hF t' h)
    · rw [hcount]
      exact (card_insert_le t F).trans (Nat.succ_le_succ hcard)

/-- A holder that releases the word is none any more. -/
theorem leave (hs : Counted H w) (hok : WordOk w)
    (hreleased : releaseWord mode w = some w') (ht : H mode t)
    (hold : ∀ m t', H' m t' → t' ≠ t ∧ H m t') : Counted H' w' := by
  cases mode with
  | exclusive =>
    refine of_none fun m t' h => ?_
    obtain ⟨hne, h⟩ := hold m t' h
    exact hne ((hs.writer t ht).2 m t' h)
  | shared =>
    obtain ⟨_, hbyte, hcount⟩ := releaseShared_eq_some hok hreleased
    obtain ⟨F, hF, hcard⟩ := hs.readers
    refine ⟨?_, F.erase t, ?_, ?_⟩
    · intro t' h
      obtain ⟨hflag, honly⟩ := hs.writer t' (hold _ t' h).2
      exact ⟨hbyte.trans hflag, fun m t'' h' => honly m t'' (hold m t'' h').2⟩
    · intro t' h
      exact mem_erase.mpr ⟨(hold _ t' h).1, hF t' (hold _ t' h).2⟩
    · rw [card_erase_of_mem (hF t ht)]
      omega

end Counted

def Holder (s : LockShard Key Owner Task) (sid : ℕ) (mode : LockMode) (t : Task) : Prop :=
  ∃ req, (s.phase t).held = some (req, sid) ∧ req.mode = mode

def AllCounted (s : LockShard Key Owner Task) : Prop :=
  ∀ sid, Counted (Holder s sid) (s.states sid).state

section
omit [DecidableEq Key] [DecidableEq Owner]

theorem holder_setPhase {i : ℕ} {t' : Task} (h : Holder (s.setPhase t p) i mode t') :
    t' = t ∧ (∃ req, p.held = some (req, i) ∧ req.mode = mode) ∨ t' ≠ t ∧ Holder s i mode t' := by
  obtain ⟨req, hreq, hmode⟩ := h
  by_cases ht : t' = t
  · subst t'
    simp only [LockShard.setPhase, update_self] at hreq
    exact .inl ⟨rfl, req, hreq, hmode⟩
  · simp only [LockShard.setPhase, update_of_ne ht] at hreq
    exact .inr ⟨ht, req, hreq, hmode⟩

/-- A task goes on, holding nothing that it did not hold. -/
theorem AllCounted.setPhase (hs : AllCounted s)
    (hheld : ∀ x, p.held = some x → (s.phase t).held = some x) : AllCounted (s.setPhase t p) := by
  intro i
  refine (hs i).mono ⟨rfl, rfl⟩ ?_
  intro mode t' h
  rcases holder_setPhase h with ⟨rfl, req, hreq, hmode⟩ | ⟨_, h⟩
  · exact ⟨req, hheld _ hreq, hmode⟩
  · exact h

theorem AllCounted.rest (hs : AllCounted s) (hheld : p.held = none) :
    AllCounted (s.setPhase t p) := by
  refine hs.setPhase ?_
  intro x hx
  rw [hheld] at hx
  exact nomatch hx

omit [DecidableEq Task] in
theorem AllCounted.setState (hs : AllCounted s) (hsame : SameHold (s.states sid).state st.state) :
    AllCounted (s.setState sid st) := by
  intro i
  refine (hs i).mono ?_ fun _ _ h => h
  by_cases hi : i = sid
  · subst i
    simpa only [LockShard.setState, update_self] using hsame
  · simp only [LockShard.setState, update_of_ne hi]
    exact ⟨rfl, rfl⟩

omit [DecidableEq Task] in
theorem AllCounted.unregisterGuard (hs : AllCounted s) (g : Option ℕ) :
    AllCounted (s.unregisterGuard g) := by
  cases g <;> exact hs

/-- Only the holders of one state, and its word, have changed. -/
theorem AllCounted.change (hs : AllCounted s) (hphase : u.phase = s.phase)
    (hstates : u.states = update s.states sid st)
    (hat : Counted (Holder (u.setPhase t p) sid) st.state)
    (hheld : ∀ req i, p.held = some (req, i) → i = sid) : AllCounted (u.setPhase t p) := by
  intro i
  by_cases hi : i = sid
  · subst i
    simpa only [LockShard.setPhase, hstates, update_self] using hat
  · refine (hs i).mono ?_ ?_
    · simp only [LockShard.setPhase, hstates, update_of_ne hi]
      exact ⟨rfl, rfl⟩
    · intro mode t' h
      rcases holder_setPhase h with ⟨_, req, hreq, _⟩ | ⟨_, h⟩
      · exact absurd (hheld req i hreq) hi
      · simpa only [Holder, hphase] using h

omit [DecidableEq Task] in
/-- A number that has not been given out names no held state. -/
theorem Linked.not_holder_next (hl : Linked s) (m : LockMode) (t : Task) :
    ¬ Holder s s.next m t := by
  rintro ⟨req, hreq, _⟩
  exact lt_irrefl _ (hl.lt (hl.held hreq).1)

end

theorem allCounted_step (h : Step s a u) (hl : Linked s) (hw : WordsOk s) (hs : AllCounted s) :
    AllCounted u := by
  cases h with
  | @created t req now _ hmode =>
    have hnone : Counted (Holder s s.next) 0 := .of_none hl.not_holder_next
    have hwon : tryAcquire .exclusive 0 = some 1 := rfl
    refine hs.change rfl rfl (hnone.join t wordOk_zero hwon ?_) ?_
    · intro m t' h
      rcases holder_setPhase h with ⟨ht, req', hreq, hm⟩ | ⟨_, h⟩
      · cases hreq
        exact .inl ⟨ht, hm.symm.trans hmode⟩
      · exact .inr h
    · intro req' i hreq
      cases hreq
      rfl
  | @entered t req now =>
    refine hs.change rfl rfl (.of_none fun m t' h => ?_) nofun
    rcases holder_setPhase h with ⟨_, _, hreq, _⟩ | ⟨_, h⟩
    · exact nomatch hreq
    · exact hl.not_holder_next m t' h
  | @touched t req sid stage now =>
    refine (hs.setState ?_).rest rfl
    exact ⟨rfl, rfl⟩
  | @won t req sid stage word hphase hwon =>
    refine hs.change rfl rfl ((hs sid).join t (hw sid) hwon ?_) ?_
    · intro m t' h
      rcases holder_setPhase h with ⟨ht, req', hreq, hm⟩ | ⟨_, h⟩
      · cases hreq
        exact .inl ⟨ht, hm.symm⟩
      · exact .inr h
    · intro req' i hreq
      cases hreq
      rfl
  | @recorded t req sid now hphase =>
    refine (hs.setState ?_).setPhase fun x hx => ?_
    · rw [state_record]
      exact ⟨rfl, rfl⟩
    · exact (congrArg held hphase).trans hx
  | @registered t req sid => exact (hs.setState (incWaiting_same req.mode (hw sid)).2).rest rfl
  | @woken t req sid | @expired t req sid =>
    exact (hs.setState (decWaiting_same req.mode (hw sid)).2).rest rfl
  | @guarded t req sid hphase =>
    refine AllCounted.setPhase (s := s.registerGuard) hs fun x hx => ?_
    exact (congrArg held hphase).trans hx
  | @released t req sid mapped guard st hphase _ _ _ hst =>
    refine ((hs.unregisterGuard guard).setState ?_).setPhase fun x hx => ?_
    · rw [state_of_checkOwner hst]
      cases guard <;> exact ⟨rfl, rfl⟩
    · cases guard <;> exact (congrArg held hphase).trans hx
  | @disowned t req sid mapped guard hphase | @vanished t req sid guard hphase =>
    refine (hs.unregisterGuard guard).setPhase fun x hx => ?_
    cases guard <;> exact (congrArg held hphase).trans hx
  | @unlocked t req sid mapped guard word hphase hword =>
    obtain rfl := hl.mapped hphase
    have hholds : Holder s mapped req.mode t := ⟨req, congrArg held hphase, rfl⟩
    refine hs.change rfl rfl ((hs mapped).leave (hw mapped) hword hholds ?_) nofun
    intro m t' h
    rcases holder_setPhase h with ⟨_, _, hreq, _⟩ | h
    · exact nomatch hreq
    · exact h
  | @stillLocked t req sid mapped guard hphase =>
    refine (hs.setState ?_).setPhase fun x hx => ?_
    · rw [state_restore]
      exact ⟨rfl, rfl⟩
    · exact (congrArg held hphase).trans hx
  | @cleared t req mapped now =>
    refine (hs.setState ?_).rest rfl
    rw [state_forget]
    exact ⟨rfl, rfl⟩
  | @missed t req => exact hs.rest (held_afterFast req).1
  | @lost t req sid stage => exact hs.rest (held_afterRefusal req sid stage).1
  | condemned => exact hs
  | evicted => exact hs
  | _ => exact hs.rest rfl

theorem linked_step (h : Step s a u) (hlooking : NoneLooking s a) (hs : AllCounted s)
    (hl : Linked s) : Linked u := by
  cases h with
  | @looked t req sid _ hclean hobj | @lookedAgain t req sid _ hclean hobj
  | @queued t req sid _ hclean hobj =>
    exact hl.look rfl ⟨hobj, by simp [hclean]⟩
  | @created t req now _ _ hclean hobj =>
    refine (hl.insert hobj).hold rfl ⟨update_self _ _ _, ?_⟩ nofun
    simp [LockShard.insert, hclean]
  | @entered t req now _ hclean hobj =>
    refine (hl.insert hobj).look rfl ⟨update_self _ _ _, ?_⟩
    simp [LockShard.insert, hclean]
  | @touched t req sid stage now hphase =>
    exact hl.setState.look rfl (hl.sought (congrArg sought hphase))
  | @won t req sid stage word hphase =>
    exact hl.setState.hold rfl (hl.sought (congrArg sought hphase)) fun _ _ _ _ h =>
      (nomatch h)
  | @recorded t req sid now hphase | @stillLocked t req sid mapped guard hphase =>
    exact hl.setState.hold rfl (hl.held (congrArg held hphase)) nofun
  | @guarded t req sid hphase =>
    have hl' : Linked s.registerGuard := ⟨hl.lt, hl.inj, hl.sought, hl.held, hl.mapped⟩
    exact hl'.hold rfl (hl.held (congrArg held hphase)) nofun
  | @released t req sid mapped guard st hphase _ _ hobj =>
    have hentered := hl.held (congrArg held hphase)
    refine (hl.unregisterGuard guard).setState.hold rfl ?_ ?_
    · cases guard <;> exact hentered
    · rintro req' sid' m g heq
      cases heq
      exact Option.some.inj (hobj.symm.trans hentered.1)
  | @disowned t req sid mapped guard hphase | @vanished t req sid guard hphase =>
    refine (hl.unregisterGuard guard).hold rfl ?_ nofun
    cases guard <;> exact hl.held (congrArg held hphase)
  | @missed t req => exact hl.rest (held_afterFast req).2 (held_afterFast req).1
  | @lost t req sid stage =>
    exact hl.rest (held_afterRefusal req sid stage).2 (held_afterRefusal req sid stage).1
  | registered | woken | expired | unlocked | cleared => exact hl.setState.rest rfl rfl
  | @condemned key sid now maxIdle hclean hobj hzero =>
    -- nobody looks at the condemned state, and nobody can hold it with its word at zero
    have hunheld := (hzero ▸ hs sid).not_holder_of_zero
    refine ⟨hl.lt, hl.inj, ?_, ?_, hl.mapped⟩
    · intro t req i h
      refine ⟨(hl.sought h).1, ?_⟩
      rintro heq
      cases heq
      exact hlooking t req i (hl.sought h).1 h
    · intro t req i h
      refine ⟨(hl.held h).1, ?_⟩
      rintro heq
      cases heq
      obtain rfl := Option.some.inj (hobj.symm.trans (hl.held h).1)
      exact hunheld req.mode t ⟨req, h, rfl⟩
  | evicted hclean => exact hl.remove hclean
  | _ => exact hl.rest rfl rfl

/-- Every run in which the cleanup leaves entries that are being looked at alone. -/
theorem invariant_reachable (h : ReachableWith NoneLooking s) : Linked s ∧ AllCounted s := by
  induction h with
  | refl =>
    refine ⟨⟨nofun, nofun, nofun, nofun, nofun⟩, fun sid => .of_none ?_⟩
    rintro mode t ⟨req, h, _⟩
    exact nomatch h
  | tail hrun hstep ih =>
    obtain ⟨a, hstep, hlooking⟩ := hstep
    obtain ⟨hl, hs⟩ := ih
    exact ⟨linked_step hstep hlooking hs hl, allCounted_step hstep hl (wordsOk_reachable hrun) hs⟩

/-- Nobody holds a key beside one who holds it exclusively. -/
def MutuallyExclusive (s : LockShard Key Owner Task) : Prop :=
  ∀ key t t' mode, Holds s t key .exclusive → Holds s t' key mode → t' = t

theorem mutuallyExclusive_reachable (h : ReachableWith NoneLooking s) : MutuallyExclusive s := by
  obtain ⟨hl, hs⟩ := invariant_reachable h
  rintro key t t' mode ⟨req, sid, hheld, hkey, hmode⟩ ⟨req', sid', hheld', hkey', hmode'⟩
  -- both refer to the state the table has under the key
  have hsid : s.objects key = some sid := hkey ▸ (hl.held hheld).1
  have hsid' : s.objects key = some sid' := hkey' ▸ (hl.held hheld').1
  obtain rfl := Option.some.inj (hsid.symm.trans hsid')
  exact ((hs sid).writer t ⟨req, hheld, hmode⟩).2 mode t' ⟨req', hheld', hmode'⟩

/-- A writer's request for the only key. -/
def writerRequest (owner : ℕ) : ObjectLockRequest Unit ℕ := ⟨(), .exclusive, owner⟩

/-- Task 0 has left its entry, the cleanup removes it before task 1 looks for it, task 1 makes a new
one, and task 0 comes back and is refused. -/
theorem writer_mutuallyExclusive : ∃ s : LockShard Unit ℕ ℕ, ReachableWith NoneLooking s ∧
    Holds s 1 () .exclusive ∧ s.phase 0 ≠ .idle ∧ MutuallyExclusive s := by
  have hrun : ReachableWith NoneLooking _ :=
    .head ⟨.move (0 : ℕ), .call (writerRequest 0) rfl, trivial⟩ <|
    .head ⟨.move 0, .missed rfl rfl rfl, trivial⟩ <|
    .head ⟨.move 0, .created 0 rfl rfl rfl rfl, trivial⟩ <|
    .head ⟨.move 0, .released rfl nofun rfl rfl rfl, trivial⟩ <|
    .head ⟨.move 0, .unlocked rfl rfl, trivial⟩ <|
    .head ⟨.move 0, .cleared 0 rfl, trivial⟩ <|
    .head ⟨.move 1, .call (writerRequest 1) rfl, trivial⟩ <|
    .head ⟨.condemn (), .condemned 200000 120000 rfl rfl rfl (by decide), fun
      | 0, _, _, _ => nofun
      | 1, _, _, _ => nofun
      | _ + 2, _, _, _ => nofun⟩ <|
    .head ⟨.evict (), .evicted rfl, trivial⟩ <|
    .head ⟨.move 1, .missed rfl rfl rfl, trivial⟩ <|
    .head ⟨.move 1, .created 200 rfl rfl rfl rfl, trivial⟩ <|
    .head ⟨.move 0, .call (writerRequest 0) rfl, trivial⟩ <|
    .head ⟨.move 0, .looked rfl rfl rfl, trivial⟩ <|
    .head ⟨.move 0, .touched 200 rfl, trivial⟩ <|
    .head ⟨.move 0, .lost rfl rfl, trivial⟩ .refl
  exact ⟨_, hrun, ⟨writerRequest 1, 1, rfl, rfl, rfl⟩, nofun, mutuallyExclusive_reachable hrun⟩

/-- A run that begins with a step of a task. -/
theorem move {s u v : LockShard Unit ℕ ℕ} (t : ℕ) (h : Step s (.move t) u)
    (hrest : Relation.ReflTransGen (fun s u => ∃ a, Step s a u ∧ True) u v) :
    Relation.ReflTransGen (fun s u => ∃ a, Step s a u ∧ True) s v :=
  .head ⟨.move t, h, trivial⟩ hrest

/-- Task 1 finds the entry that task 0 has left, the cleanup removes it before the attempt, and
task 2 makes a new one: both hold the key exclusively. -/
theorem two_writers_after_cleanup :
    ∃ s : LockShard Unit ℕ ℕ, Reachable s ∧ ¬ MutuallyExclusive s := by
  have hrun : Reachable _ :=
    move 0 (.call (writerRequest 0) rfl) <|
    move 0 (.missed rfl rfl rfl) <|
    move 0 (.created 0 rfl rfl rfl rfl) <|
    move 0 (.guarded rfl) <|
    move 0 (.released rfl (fun g h => by cases h; decide) rfl rfl rfl) <|
    move 0 (.unlocked rfl rfl) <|
    move 0 (.cleared 0 rfl) <|
    move 1 (.call (writerRequest 1) rfl) <|
    move 1 (.looked rfl rfl rfl) <|
    .head ⟨.condemn (), .condemned 200000 120000 rfl rfl rfl (by decide), trivial⟩ <|
    .head ⟨.evict (), .evicted rfl, trivial⟩ <|
    move 1 (.touched 200 rfl) <|
    move 1 (.won rfl rfl) <|
    move 1 (.recorded 200 rfl) <|
    move 2 (.call (writerRequest 2) rfl) <|
    move 2 (.missed rfl rfl rfl) <|
    move 2 (.created 200 rfl rfl rfl rfl) .refl
  refine ⟨_, hrun, fun hexclusive => ?_⟩
  have hsame : 2 = 1 := hexclusive () 1 2 .exclusive ⟨writerRequest 1, 0, rfl, rfl, rfl⟩
    ⟨writerRequest 2, 1, rfl, rfl, rfl⟩
  exact nomatch hsame

end Rustfs.FastLock
