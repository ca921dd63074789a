import Rustfs.Lib.Run
import Rustfs.Heal.BucketHeal

/-! Which objects a heal has reached when it returns, over any number of stops and resumes. -/
namespace Rustfs.Heal

open Crash List ResumeFiles

/-- The bucket in which a resumed heal starts: the first one from the position on that does not
count as completed. -/
def resumeBucket (buckets : List String) (st : ResumeState) (ck : ResumeCheckpoint) :
    Option String :=
  (buckets.drop ck.currentBucketIndex).find? (· ∉ st.completedBuckets)

variable {Q : Except HealError Unit → Machine → Prop}

section

variable {c : Setting} {ti bucket : String} {bi : ℕ} {s : Machine}

theorem settleBucket_yields {r : Except HealError Unit} {s₀ : Machine}
    (h : BucketHealed c.buckets c.setDiskId c.stays c.guarded ti bucket s₀ r s)
    (hbefore : DoneBefore c.buckets c.stays s.deeds bi)
    (hq : ∀ s', c.Inv ti s' → Grows s s' →
      Done c.stays s'.deeds bucket → s'.memory.currentObjectIndex = 0 → Q (.ok ()) s')
    (hcancelled : ∀ s', c.Inv ti s' →
      Q (.error .taskCancelled) s') : c.Yields (settleBucket bucket bi r) s Q := by
  have hinv : c.Inv ti s := by
    cases r with
    | ok _ | error _ => exact h.2.1
  refine meets_bind (meets_read ?_)
  refine meets_bind (onCheckpoint_yields hinv.toHeld (hinv.checkpoint.position hbefore) ?_)
  intro s₁ h₁ hgrows₁ _ _
  refine meets_bind (onState_yields_inv h₁
    ⟨h₁.state.taskId_eq, h₁.state.setDiskId_eq, h₁.state.completed⟩ ?_)
  intro s₂ h₂ hgrows₂ _
  have hgrows := hgrows₁.trans hgrows₂
  refine meets_bind (meets_bind (meets_read (meets_pure ?_)))
  change Meets _ _ (if s₂.cancelled = true then _ else _) s₂ Q
  split_ifs with hnot
  · exact meets_fail (hcancelled s₂ h₂)
  · cases r with
    | error e => exact absurd (hgrows.cancelled h.2.2) hnot
    | ok _ =>
      have h₃ := h₂.addDeed (.healed bucket)
      have hdone : Done c.stays (.healed bucket :: s₂.deeds) bucket :=
        (h.2.2.mono hgrows.deeds).mono (subset_cons_self _ _)
      refine meets_bind (meets_bind (meets_update (onState_yields_inv h₃ ?_ ?_)))
      · refine ⟨h₃.state.taskId_eq, h₃.state.setDiskId_eq, ?_⟩
        intro b hb
        rcases mem_pushNew.mp hb with rfl | hb
        · exact hdone
        · exact h₃.state.completed b hb
      · intro s₄ h₄ hgrows₄ _
        refine onMemory_yields h₄ rfl rfl ?_
        intro s₅ h₅ hgrows₅ hmemory₅
        have hto : Grows s s₅ :=
          ⟨List.Subset.trans hgrows.deeds (List.Subset.trans (subset_cons_self _ _)
            (hgrows₄.trans hgrows₅).deeds), (hgrows₄.trans hgrows₅).cancelled ∘ hgrows.cancelled⟩
        refine hq s₅ h₅ hto (hdone.mono (hgrows₄.trans hgrows₅).deeds) ?_
        rw [hmemory₅]

section

variable (hq : ∀ s', c.Inv ti s' → (∀ b ∈ c.buckets, Done c.stays s'.deeds b) → Q (.ok ()) s')
  (hcancelled : ∀ s', c.Inv ti s' → Q (.error .taskCancelled) s')
include hq hcancelled

/-- From the position on, every bucket that does not count as completed is healed, unless the heal
is cancelled. -/
theorem healBuckets_yields {cs : List String} {rs : List (String × ℕ)} {n : ℕ}
    (hrest : rs = c.buckets.zipIdx.drop n) (h : c.Inv ti s)
    (hbefore : DoneBefore c.buckets c.stays s.deeds n)
    (hcompleted : ∀ b ∈ cs, Done c.stays s.deeds b)
    (hahead : ∀ b, (rs.map Prod.fst).find? (· ∉ cs) = some b →
      Ahead c.stays c.guarded s.deeds b s.memory.currentObjectIndex) :
    c.Yields (healBuckets cs rs) s Q := by
  induction rs generalizing n s with
  | nil =>
    refine meets_pure (hq s h ?_)
    intro b hb
    obtain ⟨i, hi⟩ := mem_iff_getElem?.mp hb
    have hlen : c.buckets.length ≤ n := by simpa using hrest
    have hlt : i < n := (List.getElem?_eq_some_iff.mp hi).1.trans_le hlen
    exact hbefore (b, i) (mk_mem_zipIdx_iff_getElem?.mpr hi) hlt
  | cons p rs ih =>
    obtain ⟨bucket, i⟩ := p
    have hrest' : rs = c.buckets.zipIdx.drop (n + 1) := by
      simpa using congrArg List.tail hrest
    obtain ⟨hbucket, rfl⟩ : c.buckets[n]? = some bucket ∧ n = i := by
      have hhead := congrArg List.head? hrest
      rw [head?_cons, head?_drop, getElem?_zipIdx] at hhead
      simpa using hhead.symm
    have hmem : bucket ∈ c.buckets := mem_of_getElem? hbucket
    have hnext : ∀ s', Grows s s' → Done c.stays s'.deeds bucket →
        DoneBefore c.buckets c.stays s'.deeds (n + 1) := by
      intro s' hgrows hdone p hp hlt
      rcases Nat.lt_succ_iff_lt_or_eq.mp hlt with hlt | heq
      · exact (hbefore p hp hlt).mono hgrows.deeds
      · have := mk_mem_zipIdx_iff_getElem?.mp (show (p.1, p.2) ∈ _ from hp)
        rw [heq, hbucket] at this
        exact Option.some.inj this ▸ hdone
    unfold healBuckets
    split
    · rename_i hin
      refine ih hrest' h (hnext s (Grows.refl s) (hcompleted bucket hin)) hcompleted ?_
      intro b hb
      exact hahead b (by simpa [hin] using hb)
    · rename_i hnotin
      have hstart := hahead bucket (by simp [hnotin])
      refine meets_bind (setCurrentItem_yields h ?_)
      intro s₁ h₁ hgrows₁ hmemory₁
      have hindex : s₁.memory.currentObjectIndex = s.memory.currentObjectIndex := by rw [hmemory₁]
      refine meets_bind (meets_attempt (Meets.mono (healBucketWithResume_yields hmem h₁
        (hbefore.mono hgrows₁.deeds) (hindex ▸ hstart.mono hgrows₁.deeds)) ?_))
      intro r s₂ hhealed
      have hgrows₂ : Grows s₁ s₂ := by
        cases r with
        | ok _ | error _ => exact hhealed.1
      have hgrows := hgrows₁.trans hgrows₂
      refine meets_bind (settleBucket_yields hhealed (hbefore.mono hgrows.deeds) ?_ ?_)
      · intro s₃ h₃ hgrows₃ hdone hzero
        have hto := hgrows.trans hgrows₃
        refine ih hrest' h₃ (hnext s₃ hto hdone) ?_ ?_
        · exact fun b hb => (hcompleted b hb).mono hto.deeds
        · exact fun b _ => hzero ▸ ahead_zero c.stays c.guarded s₃.deeds b
      · exact fun s₃ h₃ => hcancelled s₃ h₃

theorem executeHealWithResume_yields (h : c.Inv ti s)
    (hahead : ∀ b, resumeBucket c.buckets s.memory.state s.memory.checkpoint = some b →
      Ahead c.stays c.guarded s.deeds b s.memory.checkpoint.currentObjectIndex) :
    c.Yields (executeHealWithResume c.buckets) s Q := by
  refine meets_bind (onMemory_yields h rfl rfl ?_)
  intro s₁ h₁ hgrows₁ hmemory₁
  refine meets_bind (meets_read (meets_bind (healBuckets_yields ?_ ?_ rfl h₁ h₁.checkpoint.before
    h₁.state.completed ?_)))
  · intro s₂ h₂ hdone
    refine onState_yields_inv h₂ ⟨h₂.state.taskId_eq, h₂.state.setDiskId_eq, h₂.state.completed⟩ ?_
    intro s₃ h₃ hgrows₃ _
    exact hq s₃ h₃ fun b hb => (hdone b hb).mono hgrows₃.deeds
  · exact hcancelled
  · intro b hb
    rw [map_drop, zipIdx_map_fst, hmemory₁] at hb
    have hstart := (hahead b hb).mono hgrows₁.deeds
    rw [hmemory₁]
    exact hstart

end

variable (h : c.Inv ti s)
include h

/-- A deletion that takes files of this task away. -/
theorem deleteFile_yields {d : Machine → ResumeFiles}
    (hdelete : ∀ s', c.Inv ti s' → s'.memory = s.memory →
      TaskOk c.buckets c.setDiskId c.stays s'.deeds (d s') ti ∧
      ∀ t, t ≠ ti → (d s').states t = s'.files.states t ∧
        (d s').checkpoints t = s'.files.checkpoints t)
    (hq : ∀ s', c.Inv ti s' → Grows s s' →
      s'.memory = s.memory → Q (.ok ()) s') : c.Yields (deleteFile d) s Q := by
  refine yields_await h.toBase ?_
  intro s' reply r hbase hquiet _ _
  have hinv := h.of_quiet hbase hquiet
  cases r with
  | none =>
    obtain ⟨htask, hother⟩ := hdelete s' hinv hquiet.memory
    exact hq _ ⟨⟨hbase.mono rfl (hbase.files.of_task htask hother), htask, hinv.state⟩,
      hinv.checkpoint⟩ ⟨hquiet.grows.deeds, hquiet.cancelled⟩ hquiet.memory
  | some _ => exact hq _ hinv hquiet.grows hquiet.memory

variable (hq : ∀ s', c.Inv ti s' → Grows s s' → Q (.ok ()) s')
include hq

theorem deleteState_yields : c.Yields
      (deleteFile fun s => s.files.deleteState s.memory.state.taskId) s Q := by
  refine deleteFile_yields h ?_ fun s' hinv hgrows _ => hq s' hinv hgrows
  intro s' hinv _
  refine ⟨hinv.task.delete (.inr ?_) (.inl rfl), ?_⟩
  · simp [deleteState, hinv.state.taskId_eq]
  · intro t ht
    simp [deleteState, hinv.state.taskId_eq, ht]

theorem deleteCheckpoint_yields {w : Machine → String} (hwhich : ∀ s', c.Inv ti s' → w s' = ti) :
    c.Yields (deleteFile fun s => s.files.deleteCheckpoint (w s)) s Q := by
  refine deleteFile_yields h ?_ fun s' hinv hgrows _ => hq s' hinv hgrows
  intro s' hinv _
  refine ⟨hinv.task.delete (.inl rfl) (.inr ?_), ?_⟩
  · simp [deleteCheckpoint, hwhich s' hinv]
  · intro t ht
    simp [deleteCheckpoint, hwhich s' hinv, ht]

theorem cleanup_yields : c.Yields (do cleanupState; cleanupCheckpoint) s Q := by
  refine meets_bind (meets_bind (deleteState_yields h ?_))
  intro s₁ h₁ hgrows₁
  refine meets_bind (deleteFile_yields h₁ (fun s' hinv _ => ⟨hinv.task, fun _ _ => ⟨rfl, rfl⟩⟩) ?_)
  intro s₂ h₂ hgrows₂ _
  refine deleteCheckpoint_yields h₂ ?_ fun s' hinv => hinv.state.taskId_eq
  intro s₃ h₃ hgrows₃
  refine deleteCheckpoint_yields h₃ ?_ fun s' hinv => hinv.checkpoint.taskId_eq
  intro s₄ h₄ hgrows₄
  exact hq s₄ h₄ (((hgrows₁.trans hgrows₂).trans hgrows₃).trans hgrows₄)

end

section

variable {c : Setting}

/-- A heal resumed from the files of the task goes past no object by its index that it has not
handled. -/
def ReadyFrom (buckets : List String) (stays guarded : String → String → Prop) (deeds : List Deed)
    (st : ResumeState) (ck : ResumeCheckpoint) : Prop :=
  ∀ b, resumeBucket buckets st ck = some b → Ahead stays guarded deeds b ck.currentObjectIndex

variable {ti uuid : String} {s : Machine}

variable {what : String}

section

variable (h : c.Base s)
include h

theorem readFile_yields {α : Type} {f : ResumeFiles → Option α}
    {Q : Except HealError α → Machine → Prop} (hq : ∀ r s', c.Base s' → Quiet s s' →
      (∀ x, r = .ok x → f s.files = some x) → Q r s') : c.Yields (readFile f what) s Q := by
  refine yields_await h ?_
  intro s' reply r hbase hquiet _ _
  rw [← hquiet.files] at hq
  cases r with
  | some fault => exact hq _ s' hbase hquiet nofun
  | none =>
    cases hfile : f s'.files with
    | none =>
      exact hq _ s' hbase hquiet nofun
    | some content =>
      simp only [hfile] at hq ⊢
      exact hq _ s' hbase hquiet fun x hx => by cases hx; rfl

theorem isReadable_yields {α : Type} {f : ResumeFiles → Option α}
    {Q : Except HealError Bool → Machine → Prop}
    (hq : ∀ b s', c.Base s' → Quiet s s' → Q (.ok b) s') :
    c.Yields (isReadable (readFile f what)) s Q := by
  refine meets_bind (meets_attempt (readFile_yields h ?_))
  intro r s' hbase hquiet _
  cases r with
  | ok _ => exact meets_pure (hq true s' hbase hquiet)
  | error _ => exact meets_pure (hq false s' hbase hquiet)

/-- A task that is found is one of this set. -/
theorem findTask_yields {ts : List String} {Q : Except HealError (Option String) → Machine → Prop}
    (hnone : ∀ s', c.Base s' → Quiet s s' → Q (.ok none) s')
    (hsome : ∀ t st s', c.Base s' → Quiet s s' →
      s.files.states t = some st → st.setDiskId = c.setDiskId → Q (.ok (some t)) s') :
    c.Yields (findTask c.setDiskId ts) s Q := by
  induction ts generalizing s with
  | nil => exact meets_pure (hnone s h (Quiet.refl s))
  | cons ti ts ih =>
    -- The search goes on after some reads.
    have hrest : ∀ s', c.Base s' → Quiet s s' → c.Yields (findTask c.setDiskId ts) s' Q := by
      intro s' hbase hquiet
      refine ih hbase (fun s'' hb hq => hnone s'' hb (hquiet.trans hq)) ?_
      intro t st s'' hb hq hst
      exact hsome t st s'' hb (hquiet.trans hq) (hquiet.files ▸ hst)
    refine meets_bind (meets_attempt (readFile_yields h ?_))
    intro r s₁ h₁ hquiet₁ hread
    cases r with
    | error _ => exact hrest s₁ h₁ hquiet₁
    | ok state =>
      change Meets _ _ (if _ then _ else _) s₁ Q
      split_ifs with hset
      · refine meets_bind (isReadable_yields h₁ ?_)
        intro b s₂ h₂ hquiet₂
        cases b with
        | true =>
          exact meets_pure (hsome ti state s₂ h₂ (hquiet₁.trans hquiet₂) (hread state rfl) hset)
        | false => exact hrest s₂ h₂ (hquiet₁.trans hquiet₂)
      · exact hrest s₁ h₁ hquiet₁

theorem getOrCreateTaskId_yields {Q : Except HealError String → Machine → Prop}
    (hnew : ∀ s', c.Base s' → Quiet s s' →
      Q (.ok (newTaskId c.setDiskId uuid)) s') (hfound : ∀ t st s', c.Base s' → Quiet s s' →
      s.files.states t = some st → st.setDiskId = c.setDiskId → Q (.ok t) s') :
    c.Yields (getOrCreateTaskId c.setDiskId uuid) s Q := by
  refine meets_bind (yields_await h ?_)
  intro s₁ reply entries h₁ hquiet₁ _ _
  refine meets_bind (findTask_yields h₁ ?_ ?_)
  · intro s₂ h₂ hquiet₂
    exact meets_pure (hnew s₂ h₂ (hquiet₁.trans hquiet₂))
  · intro t st s₂ h₂ hquiet₂ hst hset
    exact meets_pure (hfound t st s₂ h₂ (hquiet₁.trans hquiet₂) (hquiet₁.files ▸ hst) hset)

end

theorem checkpointOk_new (ds : List Deed) : CheckpointOk c.buckets c.stays ds ti (.new ti) :=
  ⟨rfl, fun _ _ hlt => absurd hlt (Nat.not_lt_zero _), fun _ _ _ ho => by
    simp [ResumeCheckpoint.Names, ResumeCheckpoint.new] at ho⟩

/-- A new checkpoint starts at the first object. -/
theorem newCheckpointManager_yields (h : c.Held ti s) (hq : ∀ s', c.Inv ti s' → Grows s s' →
      ReadyFrom c.buckets c.stays c.guarded s'.deeds s'.memory.state s'.memory.checkpoint →
      Q (.ok ()) s') : c.Yields (newCheckpointManager ti) s Q := by
  refine meets_bind (meets_attempt (onCheckpoint_yields h (checkpointOk_new _) ?_))
  intro s' hinv hgrows _ hmemory
  refine meets_pure (hq s' hinv hgrows ?_)
  intro b _
  rw [hmemory]
  exact ahead_zero c.stays c.guarded s'.deeds b

variable (h : c.Base s)
include h

section

variable (htask : TaskOk c.buckets c.setDiskId c.stays s.deeds s.files ti)
include htask

theorem newResumeManager_yields (hq : ∀ s', c.Held ti s' → Grows s s' → Q (.ok ()) s') :
    c.Yields (newResumeManager ti c.setDiskId c.buckets) s Q := by
  refine meets_bind (meets_attempt (onState_yields h htask ⟨rfl, rfl, ?_⟩ ?_))
  · exact fun b hb => absurd hb (not_mem_nil)
  · exact fun s' hheld hgrows _ _ => meets_pure (hq s' hheld hgrows)

/-- Whatever of the task's files can be read, the heal starts with its task in order. -/
theorem initializeResumeState_yields
    (hready : ∀ st ck, s.files.states ti = some st → s.files.checkpoints ti = some ck →
      ReadyFrom c.buckets c.stays c.guarded s.deeds st ck) (hq : ∀ s', c.Inv ti s' →
      ReadyFrom c.buckets c.stays c.guarded s'.deeds s'.memory.state s'.memory.checkpoint →
      Q (.ok ()) s') (hfail : ∀ e s', c.Base s' → Q (.error e) s') :
    c.Yields (initializeResumeState ti c.setDiskId c.buckets) s Q := by
  refine meets_bind (isReadable_yields h ?_)
  intro there s₁ h₁ hquiet₁
  have htask₁ : TaskOk c.buckets c.setDiskId c.stays s₁.deeds s₁.files ti :=
    hquiet₁.deeds ▸ hquiet₁.files ▸ htask
  cases there with
  | false =>
    refine meets_bind (newResumeManager_yields h₁ htask₁ ?_)
    intro s₂ h₂ _
    exact newCheckpointManager_yields h₂ fun s₃ h₃ _ hready₃ => hq s₃ h₃ hready₃
  | true =>
    refine meets_bind (readFile_yields h₁ ?_)
    intro r s₂ h₂ hquiet₂ hread
    cases r with
    | error e => exact hfail e s₂ h₂
    | ok state =>
      have hstate : s₁.files.states ti = some state := hread state rfl
      have hquiet := hquiet₁.trans hquiet₂
      refine meets_bind (meets_update ?_)
      have hheld : c.Held ti { s₂ with memory := { s₂.memory with state := state } } := by
        refine ⟨h₂.mono rfl h₂.files, hquiet.deeds ▸ hquiet.files ▸ htask, ?_⟩
        exact hquiet₂.deeds ▸ htask₁.state state hstate
      refine meets_bind (isReadable_yields hheld.toBase ?_)
      intro there s₃ h₃ hquiet₃
      have hheld₃ := hheld.of_quiet h₃ hquiet₃
      cases there with
      | false => exact newCheckpointManager_yields hheld₃ fun s₄ h₄ _ hready₄ => hq s₄ h₄ hready₄
      | true =>
        refine meets_bind (readFile_yields h₃ ?_)
        intro r s₄ h₄ hquiet₄ hread₄
        cases r with
        | error e => exact hfail e s₄ h₄
        | ok checkpoint =>
          have hheld₄ := hheld₃.of_quiet h₄ hquiet₄
          have hfiles : s₃.files = s.files := hquiet₃.files.trans hquiet.files
          have hdeeds : s₄.deeds = s.deeds :=
            hquiet₄.deeds.trans (hquiet₃.deeds.trans hquiet.deeds)
          have hck : s.files.checkpoints ti = some checkpoint := hfiles ▸ hread₄ checkpoint rfl
          have hmemory : s₄.memory.state = state := by rw [hquiet₄.memory, hquiet₃.memory]
          change Meets _ _ (onCheckpoint fun _ => checkpoint) s₄ Q
          refine meets_update ?_
          refine hq _ ⟨⟨h₄.mono rfl h₄.files, hheld₄.task, hheld₄.state⟩, ?_⟩ ?_
          · exact hdeeds ▸ htask.checkpoint checkpoint hck
          · have := hready state checkpoint (hquiet₁.files ▸ hstate) hck
            rw [← hdeeds, ← hmemory] at this
            exact this

end

theorem healTask_yields {t : String} (htask : TaskOk c.buckets c.setDiskId c.stays s.deeds s.files t)
    (hready : ∀ st ck, s.files.states t = some st → s.files.checkpoints t = some ck →
      ReadyFrom c.buckets c.stays c.guarded s.deeds st ck) :
    c.Yields (healTask c.buckets c.setDiskId t) s fun r s' =>
      Sound c.buckets c.setDiskId c.stays s' ∧
        (r = .ok () → ∀ b ∈ c.buckets, Done c.stays s'.deeds b) := by
  refine meets_bind (initializeResumeState_yields h htask hready ?_ ?_)
  · intro s₁ h₁ hready₁
    refine meets_bind (meets_attempt (executeHealWithResume_yields ?_ ?_ h₁ hready₁))
    · intro s₂ h₂ hdone
      refine cleanup_yields h₂ ?_
      intro s₃ h₃ hgrows₃
      exact ⟨h₃.sound, fun _ b hb => (hdone b hb).mono hgrows₃.deeds⟩
    · exact fun s₂ h₂ => meets_fail ⟨h₂.sound, nofun⟩
  · exact fun e s₁ h₁ => ⟨h₁.sound, nofun⟩

theorem healErasureSet_yields (hfresh : s.files.states (newTaskId c.setDiskId uuid) = none ∧
      s.files.checkpoints (newTaskId c.setDiskId uuid) = none)
    (hready : ∀ t st ck, s.files.states t = some st → st.setDiskId = c.setDiskId →
      s.files.checkpoints t = some ck → ReadyFrom c.buckets c.stays c.guarded s.deeds st ck) :
    c.Yields (healErasureSet c.buckets c.setDiskId uuid) s fun r s' =>
      Sound c.buckets c.setDiskId c.stays s' ∧
        (r = .ok () → ∀ b ∈ c.buckets, Done c.stays s'.deeds b) := by
  rw [healErasureSet]
  refine meets_bind (getOrCreateTaskId_yields h ?_ ?_)
  · intro s₁ h₁ hquiet₁
    refine healTask_yields h₁ ⟨?_, ?_⟩ ?_
    · exact fun st hst => absurd hst (by simp [hquiet₁.files, hfresh.1])
    · exact fun ck hck => absurd hck (by simp [hquiet₁.files, hfresh.2])
    · exact fun st ck hst => absurd hst (by simp [hquiet₁.files, hfresh.1])
  · intro t st s₁ h₁ hquiet₁ hst hset
    have htask := h.files t st hst hset
    refine healTask_yields h₁ (hquiet₁.deeds ▸ hquiet₁.files ▸ htask) ?_
    intro st' ck hst' hck
    rw [hquiet₁.files] at hst' hck
    exact hquiet₁.deeds ▸ hready t st' ck hst' (htask.state st' hst').setDiskId_eq hck

end
end Rustfs.Heal
