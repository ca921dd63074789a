import Rustfs.Heal.ErasureHealer

/-! What the files of a heal say about the objects it has reached, and that each of the healer's
operations keeps it. -/
namespace Rustfs.Heal

open Crash Heal.Machine

/-- The object was passed to `heal_object`, or was recorded as failed. -/
def Handled (deeds : List Deed) (bucket object : String) : Prop :=
  .passed bucket object ∈ deeds ∨ .failed bucket object ∈ deeds

theorem Handled.mono {ds ds' : List Deed} {b o : String}
    (h : Handled ds b o) (hsub : ds ⊆ ds') : Handled ds' b o :=
  h.imp (hsub ·) (hsub ·)

section

variable (buckets : List String) (setDiskId : String) (stays : String → String → Prop)

/-- Every object that stays in the bucket has been handled. -/
def Done (deeds : List Deed) (bucket : String) : Prop :=
  ∀ object, stays bucket object → Handled deeds bucket object

/-- The buckets before the position are done. -/
def DoneBefore (deeds : List Deed) (position : ℕ) : Prop :=
  ∀ p ∈ buckets.zipIdx, p.2 < position → Done stays deeds p.1

/-- What a state of this set's task tells is so. -/
structure StateOk (deeds : List Deed) (taskId : String) (st : ResumeState) : Prop where
  taskId_eq : st.taskId = taskId
  setDiskId_eq : st.setDiskId = setDiskId
  completed : ∀ b ∈ st.completedBuckets, Done stays deeds b

/-- What a checkpoint tells is so, its object index apart. -/
structure CheckpointOk (deeds : List Deed) (taskId : String) (ck : ResumeCheckpoint) : Prop where
  taskId_eq : ck.taskId = taskId
  before : DoneBefore buckets stays deeds ck.currentBucketIndex
  names : ∀ b ∈ buckets, ∀ o, ck.Names o → stays b o → Handled deeds b o

structure TaskOk (deeds : List Deed) (files : ResumeFiles) (taskId : String) : Prop where
  state : ∀ st, files.states taskId = some st → StateOk setDiskId stays deeds taskId st
  checkpoint : ∀ ck, files.checkpoints taskId = some ck →
    CheckpointOk buckets stays deeds taskId ck

def FilesOk (deeds : List Deed) (files : ResumeFiles) : Prop :=
  ∀ t st, files.states t = some st → st.setDiskId = setDiskId →
    TaskOk buckets setDiskId stays deeds files t

end

variable {buckets : List String} {setDiskId : String} {stays guarded : String → String → Prop}
  {deeds ds' : List Deed} {ti : String} {fs : ResumeFiles}

section

variable (hsub : deeds ⊆ ds')
include hsub

theorem Done.mono {b : String} (h : Done stays deeds b) : Done stays ds' b :=
  fun o ho => (h o ho).mono hsub

theorem DoneBefore.mono {n : ℕ} (h : DoneBefore buckets stays deeds n) :
    DoneBefore buckets stays ds' n :=
  fun p hp hlt => (h p hp hlt).mono hsub

theorem StateOk.mono {st : ResumeState} (h : StateOk setDiskId stays deeds ti st) :
    StateOk setDiskId stays ds' ti st :=
  ⟨h.taskId_eq, h.setDiskId_eq, fun b hb => (h.completed b hb).mono hsub⟩

theorem CheckpointOk.mono {ck : ResumeCheckpoint} (h : CheckpointOk buckets stays deeds ti ck) :
    CheckpointOk buckets stays ds' ti ck :=
  ⟨h.taskId_eq, h.before.mono hsub, fun b hb o ho hs => (h.names b hb o ho hs).mono hsub⟩

theorem TaskOk.mono (h : TaskOk buckets setDiskId stays deeds fs ti) :
    TaskOk buckets setDiskId stays ds' fs ti :=
  ⟨fun st hst => (h.state st hst).mono hsub, fun ck hck => (h.checkpoint ck hck).mono hsub⟩

theorem FilesOk.mono (h : FilesOk buckets setDiskId stays deeds fs) :
    FilesOk buckets setDiskId stays ds' fs :=
  fun t st hst hset => (h t st hst hset).mono hsub

end

section

variable (htask : TaskOk buckets setDiskId stays deeds fs ti)
include htask

theorem TaskOk.writeState {st : ResumeState} (hst : StateOk setDiskId stays deeds ti st) :
    TaskOk buckets setDiskId stays deeds (fs.writeState st) ti := by
  refine ⟨?_, htask.checkpoint⟩
  intro st' hst'
  simp only [ResumeFiles.writeState, hst.taskId_eq, if_true, Option.some.injEq] at hst'
  exact hst' ▸ hst

theorem TaskOk.writeCheckpoint {ck : ResumeCheckpoint}
    (hck : CheckpointOk buckets stays deeds ti ck) :
    TaskOk buckets setDiskId stays deeds (fs.writeCheckpoint ck) ti := by
  refine ⟨htask.state, ?_⟩
  intro ck' hck'
  simp only [ResumeFiles.writeCheckpoint, hck.taskId_eq, if_true, Option.some.injEq] at hck'
  exact hck' ▸ hck

end

/-- Files that differ in one task only are in order if this task is. -/
theorem FilesOk.of_task {fs' : ResumeFiles} (h : FilesOk buckets setDiskId stays deeds fs)
    (htask : TaskOk buckets setDiskId stays deeds fs' ti)
    (hother : ∀ t, t ≠ ti →
      fs'.states t = fs.states t ∧ fs'.checkpoints t = fs.checkpoints t) :
    FilesOk buckets setDiskId stays deeds fs' := by
  intro t st hst hset
  by_cases ht : t = ti
  · exact ht ▸ htask
  · obtain ⟨hstates, hcheckpoints⟩ := hother t ht
    have hold := h t st (hstates ▸ hst) hset
    exact ⟨hstates ▸ hold.state, hcheckpoints ▸ hold.checkpoint⟩

theorem TaskOk.delete {fs' : ResumeFiles} (htask : TaskOk buckets setDiskId stays deeds fs ti)
    (hstates : fs'.states ti = fs.states ti ∨ fs'.states ti = none)
    (hcheckpoints : fs'.checkpoints ti = fs.checkpoints ti ∨
      fs'.checkpoints ti = none) : TaskOk buckets setDiskId stays deeds fs' ti := by
  constructor
  · intro st hst
    rcases hstates with heq | hnone
    · exact htask.state st (heq ▸ hst)
    · exact absurd hst (by simp [hnone])
  · intro ck hck
    rcases hcheckpoints with heq | hnone
    · exact htask.checkpoint ck (heq ▸ hck)
    · exact absurd hck (by simp [hnone])

section

variable (buckets setDiskId stays guarded)

/-- A change by others that leaves the guarded objects where they are, and puts no object that
stays in one bucket into another one. -/
def Change.Allowed : Change → Prop
  | .put b o => b ∈ buckets → ∀ b' ∈ buckets, b' ≠ b → ¬stays b' o
  | .delete b o => ¬guarded b o
  | .cancel => True

/-- No fault of the kind that makes the healer give a bucket up. -/
def Reply.Answered : Reply → Prop
  | .writeAll fault => fault = none
  | .bucketInfo fault => fault = none
  | .page fault => fault = none
  | _ => True

instance (reply : Reply) : Decidable reply.Answered :=
  match reply with
  | .writeAll fault => inferInstanceAs (Decidable (fault = none))
  | .bucketInfo fault => inferInstanceAs (Decidable (fault = none))
  | .page fault => inferInstanceAs (Decidable (fault = none))
  | .listDir _ | .readAll _ | .deleted _ | .objectExists _ | .healObject _ => .isTrue trivial

def Answer.Good (a : Answer) : Prop :=
  a.reply.Answered ∧ ∀ c ∈ a.before, c.Allowed buckets stays guarded

/-- What holds between two calls, and wherever a call may stop. -/
structure Sound (s : Machine) : Prop where
  kept : ∀ b o, stays b o → o ∈ s.contents b
  files : FilesOk buckets setDiskId stays s.deeds s.files

/-- What holds throughout a call. -/
structure Base (s : Machine) : Prop where
  guarded : ∀ b o, guarded b o → o ∈ s.contents b
  apart : ∀ b ∈ buckets, ∀ b' ∈ buckets, b' ≠ b → ∀ o, stays b' o → o ∉ s.contents b
  files : FilesOk buckets setDiskId stays s.deeds s.files

/-- What holds once the task's state is in memory. -/
structure Held (taskId : String) (s : Machine) : Prop extends
    Base buckets setDiskId stays guarded s where
  task : TaskOk buckets setDiskId stays s.deeds s.files taskId
  state : StateOk setDiskId stays s.deeds taskId s.memory.state

/-- What holds once the task's checkpoint is in memory too. -/
structure Inv (taskId : String) (s : Machine) : Prop extends
    Held buckets setDiskId stays guarded taskId s where
  checkpoint : CheckpointOk buckets stays s.deeds taskId s.memory.checkpoint

end

/-- A set that is healed, the objects that stay in its buckets, and the names that stay listed. -/
structure Setting where
  buckets : List String
  setDiskId : String
  stays : String → String → Prop
  guarded : String → String → Prop
  guards : ∀ b o, stays b o → guarded b o

namespace Setting

variable (c : Setting)

abbrev Base := Heal.Base c.buckets c.setDiskId c.stays c.guarded

abbrev Held := Heal.Held c.buckets c.setDiskId c.stays c.guarded

abbrev Inv := Heal.Inv c.buckets c.setDiskId c.stays c.guarded

end Setting

/-- Only others have acted. -/
structure Quiet (s s' : Machine) : Prop where
  files : s'.files = s.files
  memory : s'.memory = s.memory
  deeds : s'.deeds = s.deeds
  cancelled : s.cancelled = true → s'.cancelled = true

/-- The record only grows, and a cancelled heal stays so. -/
structure Grows (s s' : Machine) : Prop where
  deeds : s.deeds ⊆ s'.deeds
  cancelled : s.cancelled = true → s'.cancelled = true

variable {C : Setting} {s s' s'' : Machine}

theorem Quiet.refl (s : Machine) : Quiet s s := ⟨rfl, rfl, rfl, id⟩

theorem Quiet.trans (h : Quiet s s') (h' : Quiet s' s'') : Quiet s s'' :=
  ⟨h'.files.trans h.files, h'.memory.trans h.memory, h'.deeds.trans h.deeds,
    h'.cancelled ∘ h.cancelled⟩

theorem Quiet.grows (h : Quiet s s') : Grows s s' := ⟨h.deeds ▸ List.Subset.refl _, h.cancelled⟩

theorem Grows.refl (s : Machine) : Grows s s := (Quiet.refl s).grows

theorem Grows.trans (h : Grows s s') (h' : Grows s' s'') : Grows s s'' :=
  ⟨List.Subset.trans h.deeds h'.deeds, h'.cancelled ∘ h.cancelled⟩

theorem change_quiet (s : Machine) (c : Change) : Quiet s (s.change c) := by
  cases c with
  | put b o | delete b o => exact ⟨rfl, rfl, rfl, id⟩
  | cancel => exact ⟨rfl, rfl, rfl, fun _ => rfl⟩

theorem changes_quiet (bs : List Change) : Quiet s (s.changes bs) := by
  unfold changes
  induction bs generalizing s with
  | nil => exact Quiet.refl s
  | cons c bs ih => exact (change_quiet s c).trans ih

theorem outlast_quiet (rs : List Answer) : Quiet s (s.outlast rs) := by
  unfold outlast
  induction rs generalizing s with
  | nil => exact Quiet.refl s
  | cons a rs ih => exact (changes_quiet a.before).trans ih

/-- What a change leaves in a bucket: what was there, and what it puts there. -/
theorem mem_of_mem_change {c : Change} {b o : String} (h : o ∈ (s.change c).contents b) :
    o ∈ s.contents b ∨ c = .put b o := by
  cases c with
  | put b' o' =>
    simp only [change] at h
    split_ifs at h with hb
    · subst hb
      rcases Listing.mem_put.mp h with rfl | h
      · exact .inr rfl
      · exact .inl h
    · exact .inl h
  | delete b' o' =>
    simp only [change] at h
    split at h
    · exact .inl (Listing.mem_delete.mp h).2
    · exact .inl h
  | cancel => exact .inl h

/-- What was in a bucket is there after a change that does not delete it. -/
theorem mem_change {c : Change} {b o : String} (h : o ∈ s.contents b) (hc : c ≠ .delete b o) :
    o ∈ (s.change c).contents b := by
  cases c with
  | put b' o' =>
    simp only [change]
    split
    · exact Listing.mem_put.mpr (.inr h)
    · exact h
  | delete b' o' =>
    simp only [change]
    split_ifs with hb
    · subst hb
      exact Listing.mem_delete.mpr ⟨fun ho => hc (ho ▸ rfl), h⟩
    · exact h
  | cancel => exact h

theorem base_change {c : Change} (h : C.Base s)
    (hc : c.Allowed C.buckets C.stays C.guarded) : C.Base (s.change c) := by
  have hquiet := change_quiet s c
  refine ⟨?_, ?_, hquiet.deeds ▸ hquiet.files ▸ h.files⟩
  · intro b o hg
    refine mem_change (h.guarded b o hg) ?_
    rintro rfl
    exact hc hg
  · intro b hb b' hb' hne o hs hmem
    rcases mem_of_mem_change hmem with hold | rfl
    · exact h.apart b hb b' hb' hne o hs hold
    · exact hc hb b' hb' hne hs

theorem base_changes {bs : List Change} (h : C.Base s)
    (hbefore : ∀ c ∈ bs, c.Allowed C.buckets C.stays C.guarded) : C.Base (s.changes bs) := by
  unfold changes
  exact List.foldlRecOn bs _ h fun _ hs c hc => base_change hs (hbefore c hc)

theorem Held.of_quiet (h : C.Held ti s) (hbase : C.Base s') (hquiet : Quiet s s') : C.Held ti s' :=
  ⟨hbase, hquiet.deeds ▸ hquiet.files ▸ h.task, hquiet.deeds ▸ hquiet.memory ▸ h.state⟩

theorem Inv.of_quiet (h : C.Inv ti s) (hbase : C.Base s') (hquiet : Quiet s s') : C.Inv ti s' :=
  ⟨h.toHeld.of_quiet hbase hquiet, hquiet.deeds ▸ hquiet.memory ▸ h.checkpoint⟩

theorem Base.mono (h : C.Base s) (hcontents : s'.contents = s.contents)
    (hfiles : FilesOk C.buckets C.setDiskId C.stays s'.deeds s'.files) : C.Base s' :=
  ⟨hcontents ▸ h.guarded, hcontents ▸ h.apart, hfiles⟩

/-- What the invariant says does not depend on the index and the counts in memory. -/
theorem Inv.setMemory {memory : Memory} (h : C.Inv ti s)
    (hstate : memory.state = s.memory.state) (hcheckpoint : memory.checkpoint = s.memory.checkpoint) :
    C.Inv ti { s with memory := memory } :=
  ⟨⟨h.toBase.mono rfl h.files, h.task, hstate ▸ h.state⟩, hcheckpoint ▸ h.checkpoint⟩

theorem Grows.setMemory (s : Machine) (memory : Memory) : Grows s { s with memory := memory } :=
  ⟨List.Subset.refl _, id⟩

theorem Inv.addDeed (h : C.Inv ti s) (d : Deed) :
    C.Inv ti { s with deeds := d :: s.deeds } :=
  have hsub := List.subset_cons_self d s.deeds
  ⟨⟨h.toBase.mono rfl (h.files.mono hsub), h.task.mono hsub, h.state.mono hsub⟩,
    h.checkpoint.mono hsub⟩

theorem CheckpointOk.position {ck : ResumeCheckpoint} {n k : ℕ}
    (h : CheckpointOk buckets stays deeds ti ck) (hbefore : DoneBefore buckets stays deeds n) :
    CheckpointOk buckets stays deeds ti (ck.updatePosition n k) :=
  ⟨h.taskId_eq, hbefore, h.names⟩

section

variable {ck : ResumeCheckpoint} {object : String}
  (h : CheckpointOk buckets stays deeds ti ck)
  (hobject : ∀ b ∈ buckets, stays b object → Handled deeds b object)
include h hobject

theorem CheckpointOk.addProcessedObject :
    CheckpointOk buckets stays deeds ti (ck.addProcessedObject object) := by
  refine ⟨h.taskId_eq, h.before, ?_⟩
  rintro b hb o (ho | ho) hs
  · rcases mem_pushNew.mp ho with rfl | ho
    · exact hobject b hb hs
    · exact h.names b hb o (.inl ho) hs
  · exact h.names b hb o (.inr ho) hs

theorem CheckpointOk.addFailedObject :
    CheckpointOk buckets stays deeds ti (ck.addFailedObject object) := by
  refine ⟨h.taskId_eq, h.before, ?_⟩
  rintro b hb o (ho | ho) hs
  · exact h.names b hb o (.inl ho) hs
  · rcases mem_pushNew.mp ho with rfl | ho
    · exact hobject b hb hs
    · exact h.names b hb o (.inr ho) hs

end

theorem Base.sound (h : C.Base s) : Sound C.buckets C.setDiskId C.stays s :=
  ⟨fun b o hs => h.guarded b o (C.guards b o hs), h.files⟩

end Rustfs.Heal
