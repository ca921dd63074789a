import Rustfs.Heal.ResumeInvariant

/-! Only a bucket whose heal returned without an error counts as completed, whatever happens. -/
namespace Rustfs.Heal

open Crash

/-- Every bucket that a state of this set counts as completed was healed. -/
def CountsHealed (setDiskId : String) (deeds : List Deed) (st : ResumeState) : Prop :=
  st.setDiskId = setDiskId → ∀ b ∈ st.completedBuckets, .healed b ∈ deeds

/-- So it is for the states on disk and the one in memory. -/
structure Counted (setDiskId : String) (s : Machine) : Prop where
  files : ∀ t st, s.files.states t = some st → CountsHealed setDiskId s.deeds st
  memory : CountsHealed setDiskId s.deeds s.memory.state

section

variable {sdi : String} {s s' : Machine} {α ρ : Type}

theorem Counted.of_quiet (h : Counted sdi s) (hquiet : Quiet s s') : Counted sdi s' :=
  ⟨hquiet.deeds ▸ hquiet.files ▸ h.files, hquiet.deeds ▸ hquiet.memory ▸ h.memory⟩

variable {kind : Reply → Option ρ} {f : Machine → ρ → Except HealError α × Machine}

theorem keeps_await (h : ∀ s r, Counted sdi s → Counted sdi (f s r).2) :
    Keeps (Counted sdi) (await kind f) := by
  refine keeps_ask ?_
  intro s a r s' hs hr
  obtain ⟨x, -, hf⟩ := Option.map_eq_some_iff.mp hr
  have := h _ x (hs.of_quiet (changes_quiet a.before))
  rwa [hf] at this

/-- A reply that is only looked at. -/
theorem keeps_await_same (h : ∀ s r, (f s r).2 = s) : Keeps (Counted sdi) (await kind f) :=
  keeps_await fun s r hs => (h s r).symm ▸ hs

theorem keeps_onMemory {f : Memory → Memory}
    (h : ∀ m deeds, CountsHealed sdi deeds m.state →
      CountsHealed sdi deeds (f m).state) : Keeps (Counted sdi) (onMemory f) :=
  keeps_update fun s hs => ⟨hs.files, h s.memory s.deeds hs.memory⟩

theorem keeps_saveState : Keeps (Counted sdi) saveState := by
  refine keeps_await ?_
  intro s fault hs
  cases fault with
  | none =>
    refine ⟨?_, hs.memory⟩
    intro t st hst
    simp only [ResumeFiles.writeState] at hst
    split at hst
    · exact Option.some.inj hst ▸ hs.memory
    · exact hs.files t st hst
  | some fault =>
    dsimp only
    split
    · exact hs
    · exact hs

theorem Counted.mono (h : Counted sdi s) (hsub : s.deeds ⊆ s'.deeds)
    (hfiles : ∀ t st, s'.files.states t = some st → s.files.states t = some st)
    (hmemory : s'.memory.state = s.memory.state) : Counted sdi s' :=
  ⟨fun t st hst hset b hb => hsub (h.files t st (hfiles t st hst) hset b hb),
    fun hset b hb => hsub (h.memory (hmemory ▸ hset) b (hmemory ▸ hb))⟩

theorem keeps_saveCheckpoint (rs : List Deed) : Keeps (Counted sdi) (saveCheckpoint rs) := by
  refine keeps_await ?_
  intro s fault hs
  cases fault with
  | none => exact hs.mono (List.subset_append_right rs s.deeds) (fun _ _ hst => hst) rfl
  | some fault => exact hs

theorem keeps_onCheckpoint (f : ResumeCheckpoint → ResumeCheckpoint) (rs : List Deed) :
    Keeps (Counted sdi) (do onCheckpoint f; saveCheckpoint rs) :=
  keeps_bind (keeps_onMemory fun _ _ h => h) fun _ => keeps_saveCheckpoint rs

theorem keeps_onState {f : ResumeState → ResumeState}
    (h : ∀ st deeds, CountsHealed sdi deeds st → CountsHealed sdi deeds (f st)) :
    Keeps (Counted sdi) (do onState f; saveState) :=
  keeps_bind (keeps_onMemory fun m deeds hm => h m.state deeds hm) fun _ => keeps_saveState

theorem keeps_healObject (b o : String) : Keeps (Counted sdi) (healObject b o) := by
  refine keeps_await ?_
  intro s outcome hs
  have hmore : Counted sdi { s with deeds := .passed b o :: s.deeds } :=
    hs.mono (List.subset_cons_self _ _) (fun _ _ hst => hst) rfl
  cases outcome with
  | ok _ | error _ => exact hmore

theorem keeps_healAndRecord (b o : String) : Keeps (Counted sdi) (healAndRecord b o) := by
  refine keeps_bind (keeps_attempt (keeps_healObject b o)) ?_
  intro r
  match r with
  | .ok none | .ok (some _) | .error _ =>
    exact keeps_bind (keeps_onMemory fun _ _ h => h) fun _ => keeps_onCheckpoint _ _

theorem keeps_isCancelled {k : Bool → Healer α} (hk : ∀ b, Keeps (Counted sdi) (k b)) :
    Keeps (Counted sdi) (isCancelled >>= k) :=
  keeps_bind (keeps_bind keeps_read fun _ => keeps_pure _) hk

theorem keeps_passObject (bi i : ℕ) : Keeps (Counted sdi) (passObject bi i) := by
  refine keeps_bind (keeps_onMemory fun _ _ h => h) fun _ =>
    keeps_bind (keeps_onMemory fun _ _ h => h) fun _ => keeps_isCancelled fun c => ?_
  split
  · exact keeps_fail _
  · split
    · exact keeps_onCheckpoint _ _
    · exact keeps_pure _

variable (bucket : String) (bi : ℕ)

theorem keeps_healListedObject (o : String) (i : ℕ) :
    Keeps (Counted sdi) (healListedObject bucket bi o i) := by
  refine keeps_bind (keeps_onState fun _ _ h => h) fun _ => ?_
  refine keeps_bind (keeps_attempt (keeps_await_same ?_)) ?_
  · intro s fault
    cases fault <;> rfl
  · intro r
    match r with
    | .error _ =>
      exact keeps_bind (keeps_onMemory fun _ _ h => h) fun _ =>
        keeps_bind (keeps_onCheckpoint _ _) fun _ => keeps_onMemory fun _ _ h => h
    | .ok false =>
      exact keeps_bind (keeps_onCheckpoint _ _) fun _ =>
        keeps_bind (keeps_onMemory fun _ _ h => h) fun _ => keeps_onMemory fun _ _ h => h
    | .ok true =>
      exact keeps_bind (keeps_healAndRecord bucket o) fun _ => keeps_passObject _ _

theorem keeps_healListedObjects (os : List String) (i : ℕ) :
    Keeps (Counted sdi) (healListedObjects bucket bi os i) := by
  induction os generalizing i with
  | nil => exact keeps_pure _
  | cons object os ih =>
    refine keeps_bind keeps_read fun s => ?_
    split
    · exact ih _
    · split
      · exact ih _
      · exact keeps_bind (keeps_healListedObject _ _ _ _) fun _ => ih _

theorem keeps_healBucketWithResume : Keeps (Counted sdi) (healBucketWithResume bucket bi) := by
  refine keeps_bind (keeps_await_same ?_) ?_
  · intro s fault
    cases fault <;> rfl
  · intro info
    cases info with
    | none => exact keeps_pure _
    | some _ =>
      refine keeps_loop ?_ _
      intro at_
      refine keeps_bind (keeps_await_same ?_) ?_
      · intro s fault
        cases fault <;> rfl
      · rintro ⟨objects, nextToken, isTruncated⟩
        refine keeps_bind (keeps_healListedObjects _ _ _ _) fun n => ?_
        cases isTruncated <;> cases nextToken <;> exact keeps_pure _

/-- The bucket is in the record before it is counted. -/
theorem keeps_countBucket (r : Except HealError Unit) :
    Keeps (Counted sdi) (countBucket bucket r) := by
  cases r with
  | error _ => exact keeps_pure _
  | ok _ =>
    intro s hs
    refine meets_bind (meets_update ?_)
    refine meets_bind (meets_update ?_)
    refine keeps_saveState _ ?_
    refine ⟨fun t st hst hset b hb => by simp [hs.files t st hst hset b hb], ?_⟩
    intro hset b hb
    rcases mem_pushNew.mp hb with rfl | hb
    · simp
    · simp [hs.memory hset b hb]

theorem keeps_healBuckets (cs : List String) (rs : List (String × ℕ)) :
    Keeps (Counted sdi) (healBuckets cs rs) := by
  induction rs with
  | nil => exact keeps_pure _
  | cons p rs ih =>
    obtain ⟨bucket, bi⟩ := p
    unfold healBuckets
    split
    · exact ih
    · refine keeps_bind (keeps_onState fun _ _ h => h) fun _ =>
        keeps_bind (keeps_attempt (keeps_healBucketWithResume _ _)) fun r =>
        keeps_bind ?_ fun _ => ih
      refine keeps_bind keeps_read fun s => keeps_bind (keeps_onCheckpoint _ _) fun _ =>
        keeps_bind (keeps_onState fun _ _ h => h) fun _ => keeps_isCancelled fun c => ?_
      split
      · exact keeps_fail _
      · exact keeps_bind (keeps_countBucket bucket r) fun _ => keeps_onMemory fun _ _ h => h

theorem keeps_executeHealWithResume (bs : List String) :
    Keeps (Counted sdi) (executeHealWithResume bs) :=
  keeps_bind (keeps_onMemory fun _ _ h => h) fun _ => keeps_bind keeps_read fun _ =>
    keeps_bind (keeps_healBuckets _ _) fun _ => keeps_onState fun _ _ h => h

/-- What is read is what the file holds. -/
theorem readFile_counted {f : ResumeFiles → Option α} {w : String} (h : Counted sdi s) :
    Meets (fun _ => True) (Counted sdi) (readFile f w) s fun r s' =>
      Counted sdi s' ∧ ∀ x, r = .ok x → f s'.files = some x := by
  refine meets_ask h ?_
  intro a _ r s' hr
  obtain ⟨fault, -, hf⟩ := Option.map_eq_some_iff.mp hr
  have hs := h.of_quiet (changes_quiet a.before)
  generalize s.changes a.before = s₁ at hs hf
  cases fault with
  | some fault =>
    cases hf
    exact ⟨hs, nofun⟩
  | none =>
    cases hfile : f s₁.files with
    | none =>
      simp only [hfile] at hf
      cases hf
      exact ⟨hs, nofun⟩
    | some content =>
      simp only [hfile] at hf
      cases hf
      exact ⟨hs, fun x hx => by cases hx; exact hfile⟩

variable (file : ResumeFiles → Option α)

theorem keeps_readFile (w : String) : Keeps (Counted sdi) (readFile file w) :=
  fun _ hs => (readFile_counted hs).mono fun _ _ h => h.1

theorem keeps_isReadable (w : String) : Keeps (Counted sdi) (isReadable (readFile file w)) := by
  refine keeps_bind (keeps_attempt (keeps_readFile file w)) fun r => ?_
  cases r with
  | ok _ | error _ => exact keeps_pure _

theorem keeps_findTask (set : String) (ts : List String) :
    Keeps (Counted sdi) (findTask set ts) := by
  induction ts with
  | nil => exact keeps_pure _
  | cons taskId ts ih =>
    refine keeps_bind (keeps_attempt (keeps_readFile _ _)) fun r => ?_
    cases r with
    | error _ => exact ih
    | ok state =>
      dsimp only
      split
      · refine keeps_bind (keeps_isReadable _ _) fun there => ?_
        cases there with
        | true => exact keeps_pure _
        | false => exact ih
      · exact ih

theorem keeps_getOrCreateTaskId (set u : String) :
    Keeps (Counted sdi) (getOrCreateTaskId set u) := by
  refine keeps_bind (keeps_await_same fun _ _ => rfl) fun tasks =>
    keeps_bind (keeps_findTask set tasks) fun found => ?_
  cases found with
  | none | some taskId => exact keeps_pure _

theorem keeps_newCheckpointManager (t : String) : Keeps (Counted sdi) (newCheckpointManager t) :=
  keeps_bind (keeps_attempt (keeps_onCheckpoint _ _)) fun _ => keeps_pure _

theorem keeps_initializeResumeState (t set : String) (bs : List String) :
    Keeps (Counted sdi) (initializeResumeState t set bs) := by
  refine keeps_bind (keeps_isReadable _ _) fun there => ?_
  cases there with
  | false =>
    refine keeps_bind (keeps_bind (keeps_attempt (keeps_onState ?_)) fun _ => keeps_pure _) fun _ =>
      keeps_newCheckpointManager t
    exact fun _ _ _ _ b hb => absurd hb List.not_mem_nil
  | true =>
    intro s hs
    refine meets_bind ((readFile_counted hs).mono ?_)
    rintro r s' ⟨hs', hread⟩
    cases r with
    | error e => exact hs'
    | ok state =>
      refine meets_bind (meets_update ?_)
      refine keeps_bind (keeps_isReadable _ _) (fun there => ?_) _
        ⟨hs'.files, hs'.files t state (hread state rfl)⟩
      cases there with
      | false => exact keeps_newCheckpointManager t
      | true =>
        exact keeps_bind (keeps_readFile _ _) fun ck => keeps_onMemory fun _ _ h => h

theorem keeps_deleteFile {d : Machine → ResumeFiles}
    (h : ∀ s t st, (d s).states t = some st → s.files.states t = some st) :
    Keeps (Counted sdi) (deleteFile d) := by
  refine keeps_await ?_
  intro s fault hs
  cases fault with
  | none => exact hs.mono (List.Subset.refl _) (h s) rfl
  | some _ => exact hs

theorem keeps_cleanup : Keeps (Counted sdi) (do cleanupState; cleanupCheckpoint) := by
  refine keeps_bind (keeps_bind (keeps_deleteFile ?_) fun _ =>
    keeps_bind (keeps_deleteFile fun _ _ _ h => h) fun _ => keeps_deleteFile fun _ _ _ h => h)
    fun _ => keeps_deleteFile fun _ _ _ h => h
  intro s t st hst
  simp only [ResumeFiles.deleteState] at hst
  split at hst
  · exact nomatch hst
  · exact hst

theorem keeps_healErasureSet (bs : List String) (u : String) :
    Keeps (Counted sdi) (healErasureSet bs sdi u) := by
  refine keeps_bind (keeps_getOrCreateTaskId sdi u) fun taskId =>
    keeps_bind (keeps_initializeResumeState taskId sdi bs) fun _ =>
    keeps_bind (keeps_attempt (keeps_executeHealWithResume bs)) fun r => ?_
  cases r with
  | ok _ => exact keeps_cleanup
  | error e => exact keeps_fail e

end

section

variable {sdi : String} {s : Machine}

/-- Every step of every run counts only healed buckets. -/
theorem step_counted (bs : List String) (h : Counted sdi s) (e : Step) :
    Counted sdi (s.step bs sdi e) := by
  cases e with
  | change c => exact h.of_quiet (change_quiet s c)
  | call uuid script =>
    have hmeets := keeps_healErasureSet bs uuid { s with cancelled := false }
      ⟨h.files, h.memory⟩ script fun _ _ => trivial
    change Counted sdi (Machine.ended _)
    generalize healErasureSet bs sdi uuid { s with cancelled := false } script = out
      at hmeets ⊢
    cases out with
    | returned r s' rest | stopped s' rest =>
      have := hmeets.1.of_quiet (outlast_quiet rest)
      exact ⟨this.files, this.memory⟩

end
end Rustfs.Heal
