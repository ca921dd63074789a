import Mathlib.Data.Finset.Card
import Rustfs.Heal.ResumeInvariant

/-! The heal of one bucket, from any index on, handles every object that stays in it. -/
namespace Rustfs.Heal

open Crash List Option

/-- The program, answered well, ends as said or is stopped with its files in order. -/
abbrev Yields (buckets : List String) (setDiskId : String) (stays guarded : String → String → Prop)
    {α : Type} (m : Healer α) (s : Machine) (Q : Except HealError α → Machine → Prop) : Prop :=
  Meets (Answer.Good buckets stays guarded) (Sound buckets setDiskId stays) m s Q

abbrev Setting.Yields (c : Setting) {α : Type} (m : Healer α) (s : Machine)
    (Q : Except HealError α → Machine → Prop) : Prop :=
  Heal.Yields c.buckets c.setDiskId c.stays c.guarded m s Q

section

variable {c : Setting} {ti : String} {s : Machine} {α ρ : Type}

/-- What a call gets to see when it waits for a reply. -/
theorem yields_await {k : Reply → Option ρ} {f : Machine → ρ → Except HealError α × Machine}
    {Q : Except HealError α → Machine → Prop} (h : c.Base s)
    (hq : ∀ s' reply r, c.Base s' → Quiet s s' → reply.Answered →
      k reply = some r → Q (f s' r).1 (f s' r).2) : c.Yields (await k f) s Q := by
  refine meets_ask (h.sound) ?_
  intro a ha r s' hr
  have hbase := base_changes h ha.2
  obtain ⟨x, hx, hf⟩ := map_eq_some_iff.mp hr
  have := hq _ _ x hbase (changes_quiet a.before) ha.1 hx
  rwa [hf] at this

variable {Q : Except HealError Unit → Machine → Prop}

/-- A write that is not refused. -/
theorem write_yields {f : Machine → Option DiskFault → Except HealError Unit × Machine}
    (h : c.Base s) (hq : ∀ s', c.Base s' → Quiet s s' → Q (f s' none).1 (f s' none).2) :
    c.Yields (await Reply.asWriteAll f) s Q := by
  refine yields_await h ?_
  intro s' reply r hbase hquiet hanswered hkind
  cases reply <;> simp only [Reply.asWriteAll, reduceCtorEq, some.injEq] at hkind
  rw [← hkind, show _ = none from hanswered]
  exact hq s' hbase hquiet

/-- The index and the counts are in memory only. -/
theorem onMemory_yields {f : Memory → Memory} {Q : Except HealError Unit → Machine → Prop}
    (h : c.Inv ti s) (hstate : (f s.memory).state = s.memory.state)
    (hcheckpoint : (f s.memory).checkpoint = s.memory.checkpoint)
    (hq : ∀ s', c.Inv ti s' → Grows s s' →
      s'.memory = f s.memory → Q (.ok ()) s') : c.Yields (onMemory f) s Q :=
  meets_update (hq _ (h.setMemory hstate hcheckpoint) (Grows.setMemory s _) rfl)

variable {f : ResumeState → ResumeState}

/-- An operation of the resume manager: the state changes in memory and is saved. -/
theorem onState_yields (h : c.Base s)
    (htask : TaskOk c.buckets c.setDiskId c.stays s.deeds s.files ti)
    (hf : StateOk c.setDiskId c.stays s.deeds ti (f s.memory.state))
    (hq : ∀ s', c.Held ti s' → Grows s s' →
      s'.memory = { s.memory with state := f s.memory.state } → s'.deeds = s.deeds →
      Q (.ok ()) s') : c.Yields (do onState f; saveState) s Q := by
  refine meets_bind (meets_update (write_yields (h.mono rfl h.files) ?_))
  intro s' hbase hquiet
  have hstate : StateOk c.setDiskId c.stays s'.deeds ti s'.memory.state :=
    hquiet.deeds ▸ hquiet.memory ▸ hf
  have hold : TaskOk c.buckets c.setDiskId c.stays s'.deeds s'.files ti :=
    hquiet.deeds ▸ hquiet.files ▸ htask
  have hwritten := hold.writeState hstate
  refine hq _ ⟨hbase.mono rfl (hbase.files.of_task hwritten ?_), hwritten, hstate⟩
    ⟨hquiet.grows.deeds, hquiet.cancelled⟩ hquiet.memory hquiet.deeds
  intro t ht
  simp [ResumeFiles.writeState, hstate.taskId_eq, ht]

/-- An operation of the resume manager that leaves the task and its completed buckets as they are,
or adds a bucket that is done. -/
theorem onState_yields_inv (h : c.Inv ti s)
    (hf : StateOk c.setDiskId c.stays s.deeds ti (f s.memory.state))
    (hq : ∀ s', c.Inv ti s' → Grows s s' →
      s'.memory = { s.memory with state := f s.memory.state } → Q (.ok ()) s') :
    c.Yields (do onState f; saveState) s Q := by
  refine onState_yields h.toBase h.task hf ?_
  intro s' hheld hgrows hmemory hdeeds
  exact hq s' ⟨hheld, by rw [hdeeds, hmemory]; exact h.checkpoint⟩ hgrows hmemory

/-- An operation of the checkpoint manager. The names that are saved need to be handled only once
they are recorded. -/
theorem onCheckpoint_yields {f : ResumeCheckpoint → ResumeCheckpoint} {rs : List Deed}
    (h : c.Held ti s)
    (hf : CheckpointOk c.buckets c.stays (rs ++ s.deeds) ti (f s.memory.checkpoint))
    (hq : ∀ s', c.Inv ti s' → Grows s s' → rs ⊆ s'.deeds →
      s'.memory = { s.memory with checkpoint := f s.memory.checkpoint } → Q (.ok ()) s') :
    c.Yields (do onCheckpoint f; saveCheckpoint rs) s Q := by
  refine meets_bind (meets_update (write_yields (h.toBase.mono rfl h.files) ?_))
  intro s' hbase hquiet
  have hsub := subset_append_right rs s'.deeds
  have hstate : StateOk c.setDiskId c.stays s'.deeds ti s'.memory.state :=
    hquiet.deeds ▸ hquiet.memory ▸ h.state
  have hcheckpoint :
      CheckpointOk c.buckets c.stays (rs ++ s'.deeds) ti s'.memory.checkpoint :=
    hquiet.deeds ▸ hquiet.memory ▸ hf
  have htask : TaskOk c.buckets c.setDiskId c.stays s'.deeds s'.files ti :=
    hquiet.deeds ▸ hquiet.files ▸ h.task
  have hwritten := (htask.mono hsub).writeCheckpoint hcheckpoint
  refine hq _ ⟨⟨hbase.mono rfl ((hbase.files.mono hsub).of_task hwritten ?_), hwritten,
      hstate.mono hsub⟩, hcheckpoint⟩
    ⟨List.Subset.trans hquiet.grows.deeds hsub, hquiet.cancelled⟩
    (subset_append_left rs s'.deeds) hquiet.memory
  intro t ht
  simp [ResumeFiles.writeCheckpoint, hcheckpoint.taskId_eq, ht]

variable (h : c.Inv ti s)
include h

theorem setCurrentItem_yields {b o : Option String}
    (hq : ∀ s', c.Inv ti s' → Grows s s' →
      s'.memory = { s.memory with state := s.memory.state.setCurrentItem b o } →
      Q (.ok ()) s') : c.Yields (setCurrentItem b o) s Q :=
  onState_yields_inv h ⟨h.state.taskId_eq, h.state.setDiskId_eq, h.state.completed⟩ hq

theorem objectExists_yields {b o : String} {Q : Except HealError Bool → Machine → Prop}
    (hq : ∀ r s', c.Inv ti s' → Grows s s' →
      s'.memory = s.memory → (r = .ok false → ¬c.guarded b o) → Q r s') :
    c.Yields (objectExists b o) s Q := by
  refine yields_await h.toBase ?_
  intro s' reply r hbase hquiet hanswered hkind
  have hinv := h.of_quiet hbase hquiet
  cases r with
  | none =>
    refine hq _ s' hinv hquiet.grows hquiet.memory ?_
    intro hfalse hguarded
    have hmem := hbase.guarded b o hguarded
    simp [hmem] at hfalse
  | some text => exact hq _ s' hinv hquiet.grows hquiet.memory nofun

theorem healObject_yields {b o : String} {Q : Except HealError (Option String) → Machine → Prop}
    (hq : ∀ r s', c.Inv ti s' → Grows s s' →
      s'.memory = s.memory → Handled s'.deeds b o → Q r s') : c.Yields (healObject b o) s Q := by
  refine yields_await h.toBase ?_
  intro s' reply r hbase hquiet hanswered hkind
  have hinv := (h.of_quiet hbase hquiet).addDeed (.passed b o)
  have hgrows : Grows s { s' with deeds := .passed b o :: s'.deeds } :=
    ⟨List.Subset.trans hquiet.grows.deeds (subset_cons_self _ _), hquiet.cancelled⟩
  have hhandled : Handled (.passed b o :: s'.deeds) b o := .inl (by simp)
  cases r with
  | ok err | error text => exact hq _ _ hinv hgrows hquiet.memory hhandled

end

/-- The outcome of the turn for one object: it is handled, or the heal was cancelled. -/
structure Turned (buckets : List String) (setDiskId : String) (stays guarded : String → String → Prop)
    (taskId bucket object : String) (index : ℕ) (s : Machine) (r : Except HealError Unit)
    (s' : Machine) : Prop where
  inv : Inv buckets setDiskId stays guarded taskId s'
  grows : Grows s s'
  handled : r = .ok () → stays bucket object → Handled s'.deeds bucket object
  index : r = .ok () → s'.memory.currentObjectIndex = index
  cancelled : ∀ e, r = .error e → s'.cancelled = true

abbrev Setting.Turned (c : Setting) := Heal.Turned c.buckets c.setDiskId c.stays c.guarded

section

variable {c : Setting}
  {ti : String} {s : Machine} {bucket o : String} {bi i : ℕ}

/-- A listed name is saved for the bucket it was listed in. -/
theorem handled_of_listed {ds : List Deed} (hlisted : ∀ b ∈ c.buckets, b ≠ bucket → ¬c.stays b o)
    (hhandled : c.stays bucket o → Handled ds bucket o) :
    ∀ b ∈ c.buckets, c.stays b o → Handled ds b o := by
  intro b hb hs
  by_cases hne : b = bucket
  · exact hne ▸ hhandled (hne ▸ hs)
  · exact absurd hs (hlisted b hb hne)

variable (hlisted : ∀ b ∈ c.buckets, b ≠ bucket → ¬c.stays b o)
include hlisted

section

variable {Q : Except HealError Unit → Machine → Prop} (h : c.Inv ti s)
include h

theorem addProcessedObject_yields (hhandled : c.stays bucket o → Handled s.deeds bucket o)
    (hq : ∀ s', c.Inv ti s' → Grows s s' → Q (.ok ()) s') :
    c.Yields (addProcessedObject o) s Q := by
  refine onCheckpoint_yields h.toHeld ?_ fun s' hinv hgrows _ _ => hq s' hinv hgrows
  exact h.checkpoint.addProcessedObject (handled_of_listed hlisted hhandled)

variable (hq : ∀ s', c.Inv ti s' → Grows s s' → Handled s'.deeds bucket o →
  Q (.ok ()) s')
include hq

theorem addFailedObject_yields : c.Yields (addFailedObject bucket o) s Q := by
  refine onCheckpoint_yields h.toHeld ?_ ?_
  · have hsub := subset_append_right [.failed bucket o] s.deeds
    refine (h.checkpoint.mono hsub).addFailedObject (handled_of_listed hlisted ?_)
    exact fun _ => .inr (by simp)
  · intro s' hinv hgrows hrecorded _
    exact hq s' hinv hgrows (.inr (hrecorded (by simp)))

theorem healAndRecord_yields : c.Yields (healAndRecord bucket o) s Q := by
  refine meets_bind (meets_attempt (healObject_yields h ?_))
  intro r s₁ h₁ hgrows₁ _ hhandled
  have hfailed : c.Yields (do countFailed; addFailedObject bucket o) s₁ Q := by
    refine meets_bind (onMemory_yields h₁ rfl rfl ?_)
    intro s₂ h₂ hgrows₂ _
    refine addFailedObject_yields hlisted h₂ ?_
    intro s₃ h₃ hgrows₃ hhandled₃
    exact hq s₃ h₃ ((hgrows₁.trans hgrows₂).trans hgrows₃) hhandled₃
  match r with
  | .ok none =>
    refine meets_bind (onMemory_yields h₁ rfl rfl ?_)
    intro s₂ h₂ hgrows₂ _
    have hhandled₂ := hhandled.mono hgrows₂.deeds
    refine addProcessedObject_yields hlisted h₂ (fun _ => hhandled₂) ?_
    intro s₃ h₃ hgrows₃
    exact hq s₃ h₃ ((hgrows₁.trans hgrows₂).trans hgrows₃) (hhandled₂.mono hgrows₃.deeds)
  | .ok (some _) | .error _ => exact hfailed

end

omit hlisted in
theorem passObject_yields {Q : Except HealError Unit → Machine → Prop} (h : c.Inv ti s)
    (hbefore : DoneBefore c.buckets c.stays s.deeds bi)
    (hq : ∀ s', c.Inv ti s' → Grows s s' → s'.memory.currentObjectIndex = i → Q (.ok ()) s')
    (hcancelled : ∀ s', c.Inv ti s' → Grows s s' →
      s'.cancelled = true → Q (.error .taskCancelled) s') : c.Yields (passObject bi i) s Q := by
  refine meets_bind (onMemory_yields h rfl rfl ?_)
  intro s₁ h₁ hgrows₁ _
  refine meets_bind (onMemory_yields h₁ rfl rfl ?_)
  intro s₂ h₂ hgrows₂ hmemory₂
  have hgrows := hgrows₁.trans hgrows₂
  refine meets_bind (meets_bind (meets_read (meets_pure ?_)))
  have hindex : s₂.memory.currentObjectIndex = i := by rw [hmemory₂]
  change Meets _ _ (if s₂.cancelled = true then _ else _) s₂ Q
  split
  · rename_i hc
    exact meets_fail (hcancelled s₂ h₂ hgrows hc)
  · split
    · refine onCheckpoint_yields h₂.toHeld ?_ ?_
      · exact h₂.checkpoint.position (hbefore.mono hgrows.deeds)
      · intro s₃ h₃ hgrows₃ _ hmemory₃
        exact hq s₃ h₃ (hgrows.trans hgrows₃) (by rw [hmemory₃]; exact hindex)
    · exact meets_pure (hq s₂ h₂ hgrows hindex)

/-- The turn for one object either handles it or ends with the heal cancelled. -/
theorem healListedObject_yields (h : c.Inv ti s)
    (hbefore : DoneBefore c.buckets c.stays s.deeds bi) :
    c.Yields (healListedObject bucket bi o i) s (c.Turned ti bucket o i s) := by
  refine meets_bind (setCurrentItem_yields h ?_)
  intro s₁ h₁ hgrows₁ _
  refine meets_bind (meets_attempt (objectExists_yields h₁ ?_))
  intro r s₂ h₂ hgrows₂ _ habsent
  have hgrows := hgrows₁.trans hgrows₂
  -- What an object that was not passed to the heal ends with.
  have hend : ∀ s₃, c.Inv ti s₃ → Grows s₂ s₃ → (c.stays bucket o → Handled s₃.deeds bucket o) →
      c.Yields (setObjectIndex i) s₃ (c.Turned ti bucket o i s) := by
    intro s₃ h₃ hgrows₃ hhandled
    refine onMemory_yields h₃ rfl rfl ?_
    intro s₄ h₄ hgrows₄ hmemory
    exact ⟨h₄, (hgrows.trans hgrows₃).trans hgrows₄,
      fun _ hs => (hhandled hs).mono hgrows₄.deeds, fun _ => by rw [hmemory],
      nofun⟩
  match r with
  | .error _ =>
    refine meets_bind (onMemory_yields h₂ rfl rfl ?_)
    intro s₃ h₃ hgrows₃ _
    refine meets_bind (addFailedObject_yields hlisted h₃ ?_)
    intro s₄ h₄ hgrows₄ hhandled
    exact hend s₄ h₄ (hgrows₃.trans hgrows₄) fun _ => hhandled
  | .ok false =>
    -- An object that stays is never found to be gone.
    have hgone : ¬c.stays bucket o := fun hs => habsent rfl (c.guards _ _ hs)
    refine meets_bind (addProcessedObject_yields hlisted h₂ (fun hs => absurd hs hgone) ?_)
    intro s₃ h₃ hgrows₃
    refine meets_bind (onMemory_yields h₃ rfl rfl ?_)
    intro s₄ h₄ hgrows₄ _
    exact hend s₄ h₄ (hgrows₃.trans hgrows₄) fun hs => absurd hs hgone
  | .ok true =>
    refine meets_bind (healAndRecord_yields hlisted h₂ ?_)
    intro s₃ h₃ hgrows₃ hhandled
    have hto := hgrows.trans hgrows₃
    refine passObject_yields h₃ (hbefore.mono hto.deeds) ?_ ?_
    · intro s₄ h₄ hgrows₄ hindex
      exact ⟨h₄, hto.trans hgrows₄, fun _ _ => hhandled.mono hgrows₄.deeds, fun _ => hindex,
        nofun⟩
    · intro s₄ h₄ hgrows₄ hc
      exact ⟨h₄, hto.trans hgrows₄, nofun, nofun, fun _ _ => hc⟩

end

/-- Whoever starts at the index goes past no object that stays and is not handled yet: so many
guarded names come before it. -/
def Ahead (stays guarded : String → String → Prop) (deeds : List Deed) (bucket : String)
    (start : ℕ) : Prop :=
  ∀ o, stays bucket o → Handled deeds bucket o ∨
    ∃ names : Finset String, start ≤ names.card ∧ ∀ x ∈ names, guarded bucket x ∧ x < o

theorem Ahead.mono {ss g : String → String → Prop} {ds ds' : List Deed}
    {b : String} {s : ℕ} (h : Ahead ss g ds b s) (hsub : ds ⊆ ds') : Ahead ss g ds' b s :=
  fun o hs => (h o hs).imp_left (·.mono hsub)

theorem ahead_zero (ss g : String → String → Prop) (ds : List Deed) (b : String) :
    Ahead ss g ds b 0 :=
  fun _ _ => .inr ⟨∅, by simp, by simp⟩

/-- How far the heal of a bucket has come: the names seen, and those yet to be listed. -/
structure Reached (buckets : List String) (setDiskId : String)
    (stays guarded : String → String → Prop) (taskId bucket : String) (bucketIndex start : ℕ)
    (seen : List String) (upcoming : String → Prop) (s : Machine) : Prop where
  inv : Inv buckets setDiskId stays guarded taskId s
  before : DoneBefore buckets stays s.deeds bucketIndex
  ahead : Ahead stays guarded s.deeds bucket start
  index : s.memory.currentObjectIndex = start ∨ s.memory.currentObjectIndex ≤ seen.length
  handled : ∀ o ∈ seen, stays bucket o → Handled s.deeds bucket o
  covers : ∀ o, guarded bucket o → o ∈ seen ∨ upcoming o

abbrev Setting.Reached (c : Setting) := Heal.Reached c.buckets c.setDiskId c.stays c.guarded

section

variable {c : Setting}
  {ti : String} {s s' : Machine} {bucket object : String} {bi start : ℕ}
  {seen os : List String} {beyond upcoming upcoming' : String → Prop}

section

variable (h : c.Reached ti bucket bi start seen
  (fun o => o ∈ object :: os ∨ beyond o) s)
include h

theorem Reached.turn (hinv : c.Inv ti s') (hgrows : Grows s s')
    (hobject : c.stays bucket object → Handled s'.deeds bucket object)
    (hindex : s'.memory.currentObjectIndex = start ∨
      s'.memory.currentObjectIndex ≤ seen.length + 1) :
    c.Reached ti bucket bi start (object :: seen) (fun o => o ∈ os ∨ beyond o) s' := by
  refine ⟨hinv, h.before.mono hgrows.deeds, h.ahead.mono hgrows.deeds, by simpa using hindex, ?_, ?_⟩
  · intro o ho hs
    rcases mem_cons.mp ho with rfl | ho
    · exact hobject hs
    · exact (h.handled o ho hs).mono hgrows.deeds
  · intro o hg
    rcases h.covers o hg with hseen | (ho | hbeyond)
    · exact .inl (by simp [hseen])
    · rcases mem_cons.mp ho with rfl | ho
      · exact .inl (by simp)
      · exact .inr (.inl ho)
    · exact .inr (.inr hbeyond)

/-- An object that is passed over by its index has been handled before. -/
theorem Reached.skipped (hsorted : (object :: os).Pairwise (· < ·))
    (hbeyond : ∀ o, beyond o → object < o)
    (hlt : seen.length < s.memory.currentObjectIndex) (hs : c.stays bucket object) :
    Handled s.deeds bucket object := by
  have hstart : seen.length < start := by
    rcases h.index with heq | hle
    · exact heq ▸ hlt
    · omega
  rcases h.ahead object hs with hhandled | ⟨names, hcard, hnames⟩
  · exact hhandled
  · -- The guarded names before the object have all been seen, so the index has been reached.
    have hsub : names ⊆ seen.toFinset := by
      intro x hx
      obtain ⟨hg, hltx⟩ := hnames x hx
      rcases h.covers x hg with hseen | (hmem | hb)
      · exact mem_toFinset.mpr hseen
      · rcases mem_cons.mp hmem with rfl | hmem
        · exact absurd hltx (lt_irrefl x)
        · exact absurd (rel_of_pairwise_cons hsorted hmem) hltx.not_gt
      · exact absurd (hbeyond x hb) hltx.not_gt
    have hle := (Finset.card_le_card hsub).trans seen.toFinset_card_le
    omega

end

/-- The outcome of a page. -/
def Paged (buckets : List String) (setDiskId : String) (stays guarded : String → String → Prop)
    (taskId bucket : String) (bucketIndex start : ℕ) (beyond : String → Prop) (s : Machine) :
    Except HealError ℕ → Machine → Prop
  | .ok n, s' => Grows s s' ∧ ∃ seen, n = seen.length ∧
      Reached buckets setDiskId stays guarded taskId bucket bucketIndex start seen beyond s'
  | .error _, s' => Grows s s' ∧ Inv buckets setDiskId stays guarded taskId s' ∧
      s'.cancelled = true

abbrev Setting.Paged (c : Setting) := Heal.Paged c.buckets c.setDiskId c.stays c.guarded

theorem Paged.mono {r : Except HealError ℕ} {s'' : Machine} (hgrows : Grows s s')
    (h : c.Paged ti bucket bi start beyond s' r s'') :
    c.Paged ti bucket bi start beyond s r s'' := by
  cases r with
  | ok n | error e => exact ⟨hgrows.trans h.1, h.2⟩

variable (hbucket : bucket ∈ c.buckets)
include hbucket

theorem healListedObjects_yields (h : c.Reached ti bucket bi start seen
      (fun o => o ∈ os ∨ beyond o) s)
    (hsorted : os.Pairwise (· < ·)) (hbeyond : ∀ o, beyond o → ∀ x ∈ os, x < o)
    (hlisted : ∀ x ∈ os, ∀ b ∈ c.buckets, b ≠ bucket → ¬c.stays b x) : c.Yields
      (healListedObjects bucket bi os seen.length) s (c.Paged ti bucket bi start beyond s) := by
  induction os generalizing seen s with
  | nil =>
    refine meets_pure ⟨Grows.refl s, seen, rfl, ?_⟩
    exact ⟨h.inv, h.before, h.ahead, h.index, h.handled, fun o hg => by simpa using h.covers o hg⟩
  | cons object os ih =>
    -- The rest of the page, once this object is behind.
    have hrest : ∀ s', c.Inv ti s' → Grows s s' →
        (c.stays bucket object → Handled s'.deeds bucket object) →
        (s'.memory.currentObjectIndex = start ∨ s'.memory.currentObjectIndex ≤ seen.length + 1) →
        c.Yields (healListedObjects bucket bi os (seen.length + 1)) s'
          (c.Paged ti bucket bi start beyond s) := by
      intro s' hinv hgrows hobject hindex
      refine Meets.mono (ih (h.turn hinv hgrows hobject hindex) hsorted.of_cons ?_ ?_) ?_
      · exact fun o ho x hx => hbeyond o ho x (by simp [hx])
      · exact fun x hx => hlisted x (by simp [hx])
      · exact fun r s'' hr => hr.mono hgrows
    have hsame : s.memory.currentObjectIndex = start ∨
        s.memory.currentObjectIndex ≤ seen.length + 1 := h.index.imp_right (·.trans (by omega))
    refine meets_bind (meets_read ?_)
    change Meets _ _ (if _ then _ else _) s _
    split
    · rename_i hlt
      exact hrest s h.inv (Grows.refl s)
        (h.skipped hsorted (fun o ho => hbeyond o ho object (by simp)) hlt) hsame
    · split_ifs with hprocessed
      · exact hrest s h.inv (Grows.refl s)
          (h.inv.checkpoint.names bucket hbucket object (.inl hprocessed)) hsame
      · refine meets_bind (Meets.mono (healListedObject_yields (hlisted object (by simp))
          h.inv h.before) ?_)
        intro r s' hturned
        cases r with
        | ok _ =>
          exact hrest s' hturned.inv hturned.grows (hturned.handled rfl)
            (.inr (hturned.index rfl).le)
        | error e => exact ⟨hturned.grows, hturned.inv, hturned.cancelled e rfl⟩

theorem healPage_yields {token : Option String} (h : c.Reached ti bucket bi start seen
      (fun o => ∀ t ∈ token, t < o) s)
    {Q : Except HealError ((Option String × ℕ) ⊕ Unit) → Machine → Prop}
    (hnext : ∀ t seen' s', Grows s s' → c.Reached ti bucket bi start seen'
        (fun o => t < o) s' → Q (.ok (.inl (some t, seen'.length))) s')
    (hdone : ∀ s', Grows s s' → c.Inv ti s' →
      Done c.stays s'.deeds bucket → Q (.ok (.inr ())) s')
    (hcancelled : ∀ e s', Grows s s' → c.Inv ti s' → s'.cancelled = true → Q (.error e) s') :
    c.Yields (healPage bucket bi (token, seen.length)) s Q := by
  refine meets_bind (yields_await h.inv.toBase ?_)
  intro s₁ reply r hbase hquiet hanswered hkind
  cases reply <;> simp only [Reply.asPage, reduceCtorEq, some.injEq] at hkind
  rw [← hkind, show _ = none from hanswered]
  have hinv := h.inv.of_quiet hbase hquiet
  have hpage : c.Reached ti bucket bi start seen
      (fun o => o ∈ ((s₁.contents bucket).page token maxKeys).1 ∨
        Listing.Beyond ((s₁.contents bucket).page token maxKeys).2 o) s₁ := by
    refine ⟨hinv, hquiet.deeds ▸ h.before, hquiet.deeds ▸ h.ahead, hquiet.memory ▸ h.index,
      hquiet.deeds ▸ h.handled, ?_⟩
    intro o hg
    rcases h.covers o hg with hseen | htoken
    · exact .inl hseen
    · exact .inr (Listing.page_complete (by decide) (hbase.guarded bucket o hg) htoken)
  have hlisted : ∀ x ∈ ((s₁.contents bucket).page token maxKeys).1, ∀ b ∈ c.buckets, b ≠ bucket →
      ¬c.stays b x := by
    intro x hx b hb hne hs
    exact hbase.apart bucket hbucket b hb hne x hs (Listing.mem_of_mem_page hx)
  have hbeyond : ∀ o, Listing.Beyond ((s₁.contents bucket).page token maxKeys).2 o →
      ∀ x ∈ ((s₁.contents bucket).page token maxKeys).1, x < o :=
    fun o ho x hx => Listing.lt_of_beyond ho hx
  have hsorted := Listing.page_sorted (s₁.contents bucket) token maxKeys
  generalize (s₁.contents bucket).page token maxKeys = page at hpage hlisted hbeyond hsorted ⊢
  obtain ⟨os, nextToken, isTruncated⟩ := page
  refine meets_bind (Meets.mono (healListedObjects_yields hbucket hpage hsorted hbeyond hlisted) ?_)
  intro r s₂ hpaged
  cases r with
  | error e =>
    obtain ⟨hgrows, hinv₂, hc⟩ := hpaged
    exact hcancelled e s₂ (hquiet.grows.trans hgrows) hinv₂ hc
  | ok n =>
    obtain ⟨hgrows, seen', rfl, hreached⟩ := hpaged
    have hto := hquiet.grows.trans hgrows
    -- Without a next page, all that is guarded has been seen.
    have hend : (∀ o, ¬Listing.Beyond (nextToken, isTruncated) o) → Done c.stays s₂.deeds bucket := by
      intro hnone o hs
      rcases hreached.covers o (c.guards bucket o hs) with hseen | hb
      · exact hreached.handled o hseen hs
      · exact absurd hb (hnone o)
    cases isTruncated with
    | false =>
      refine meets_pure (hdone s₂ hto hreached.inv (hend ?_))
      rintro o ⟨htruncated, -⟩
      exact Bool.noConfusion htruncated
    | true =>
      cases nextToken with
      | none =>
        refine meets_pure (hdone s₂ hto hreached.inv (hend ?_))
        rintro o ⟨-, t, ht, -⟩
        exact nomatch ht
      | some t =>
        refine meets_pure (hnext t seen' s₂ hto ⟨hreached.inv, hreached.before, hreached.ahead,
          hreached.index, hreached.handled, ?_⟩)
        intro o hg
        rcases hreached.covers o hg with hseen | ⟨-, t', ht, hlt⟩
        · exact .inl hseen
        · exact .inr (some.inj ht ▸ hlt)

end

/-- The outcome of the heal of a bucket: all that stays in it is handled, or it was cancelled. -/
def BucketHealed (buckets : List String) (setDiskId : String)
    (stays guarded : String → String → Prop) (taskId bucket : String) (s : Machine) :
    Except HealError Unit → Machine → Prop
  | .ok _, s' => Grows s s' ∧ Inv buckets setDiskId stays guarded taskId s' ∧
      Done stays s'.deeds bucket
  | .error _, s' => Grows s s' ∧ Inv buckets setDiskId stays guarded taskId s' ∧
      s'.cancelled = true

theorem healBucketWithResume_yields {c : Setting} {ti b : String} {bi : ℕ}
    {s : Machine} (hbucket : b ∈ c.buckets) (h : c.Inv ti s)
    (hbefore : DoneBefore c.buckets c.stays s.deeds bi)
    (hahead : Ahead c.stays c.guarded s.deeds b s.memory.currentObjectIndex) :
    c.Yields (healBucketWithResume b bi) s
      (BucketHealed c.buckets c.setDiskId c.stays c.guarded ti b s) := by
  refine meets_bind (yields_await h.toBase ?_)
  intro s₁ reply r hbase hquiet hanswered hkind
  cases reply <;> simp only [Reply.asBucketInfo, reduceCtorEq, some.injEq] at hkind
  rw [← hkind, show _ = none from hanswered]
  refine meets_loop (fun at_ s' => Grows s s' ∧ ∃ seen, at_.2 = seen.length ∧
    c.Reached ti b bi s.memory.currentObjectIndex seen (fun o => ∀ t ∈ at_.1, t < o) s') ?_ ?_ ?_
  · rintro at_ s' ⟨-, seen, -, hreached⟩
    exact hreached.inv.sound
  · rintro ⟨token, n⟩ s' ⟨hgrows, seen, rfl, hreached⟩
    refine healPage_yields hbucket hreached ?_ ?_ ?_
    · intro t seen' s'' hgrows' hreached'
      refine ⟨hgrows.trans hgrows', seen', rfl, hreached'.inv, hreached'.before, hreached'.ahead,
        hreached'.index, hreached'.handled, ?_⟩
      simpa using hreached'.covers
    · exact fun s'' hgrows' hinv hdone => ⟨hgrows.trans hgrows', hinv, hdone⟩
    · exact fun e s'' hgrows' hinv hc => ⟨hgrows.trans hgrows', hinv, hc⟩
  · exact ⟨hquiet.grows, [], rfl, h.of_quiet hbase hquiet, hquiet.deeds ▸ hbefore,
      hquiet.deeds ▸ hahead, .inl (hquiet.memory ▸ rfl), by simp, by simp⟩

end Rustfs.Heal
