import Rustfs.Heal.BucketCounts
import Rustfs.Heal.ResumeComplete

/-! Runs of calls of the healer that are stopped, cancelled and made again, while others put and
delete objects. -/
namespace Rustfs.Heal

open Crash List

/-- The object is deleted in the step. -/
def Step.Deletes (bucket object : String) : Step → Prop
  | .change c => c = .delete bucket object
  | .call _ script => ∃ a ∈ script, .delete bucket object ∈ a.before

/-- The object is put in the step. -/
def Step.Puts (bucket object : String) : Step → Prop
  | .change c => c = .put bucket object
  | .call _ script => ∃ a ∈ script, .put bucket object ∈ a.before

/-- The names that a heal resumed from these files goes past by their index. -/
def skippedNames (buckets : List String) (contents : String → Listing String) (st : ResumeState)
    (ck : ResumeCheckpoint) (bucket : String) : List String :=
  if resumeBucket buckets st ck = some bucket then
    (contents bucket).names.take ck.currentObjectIndex
  else []

/-- A call under which no object is lost sight of. -/
structure RegularCall (buckets : List String) (setDiskId : String) (s : Machine) (uuid : String)
    (script : List Answer) : Prop where
  /-- No task has the new id. -/
  fresh : s.files.states (newTaskId setDiskId uuid) = none ∧
    s.files.checkpoints (newTaskId setDiskId uuid) = none
  /-- Buckets can be found and listed, and progress can be saved. -/
  answered : ∀ a ∈ script, a.reply.Answered
  /-- No object of one bucket is in, or is put into, another one. -/
  apart : ∀ b ∈ buckets, ∀ b' ∈ buckets, b' ≠ b → ∀ o ∈ s.contents b',
    o ∉ s.contents b ∧ ¬(Step.call uuid script).Puts b o
  /-- What is gone past by its index is in the checkpoint, and is not deleted meanwhile. -/
  recorded : ∀ t st ck b, s.files.states t = some st → st.setDiskId = setDiskId →
    s.files.checkpoints t = some ck → ∀ o ∈ skippedNames buckets s.contents st ck b,
      ck.Names o ∧ ¬(Step.call uuid script).Deletes b o

def Regular (buckets : List String) (setDiskId : String) (s : Machine) : Step → Prop
  | .change _ => True
  | .call uuid script => RegularCall buckets setDiskId s uuid script

/-- The object was there at first and no step deletes it. -/
def StaysThrough (s : Machine) (steps : List Step) (bucket object : String) : Prop :=
  object ∈ s.contents bucket ∧ ∀ e ∈ steps, ¬e.Deletes bucket object

section

variable {bs : List String} {sdi uuid : String} {script : List Answer}
  {ss : String → String → Prop} {s : Machine}

/-- What may not be deleted in a call: what stays, and what the call goes past by its index. -/
def GuardedIn (buckets : List String) (setDiskId : String) (stays : String → String → Prop)
    (s : Machine) (bucket object : String) : Prop :=
  stays bucket object ∨ ∃ t st ck, s.files.states t = some st ∧ st.setDiskId = setDiskId ∧
    s.files.checkpoints t = some ck ∧ object ∈ skippedNames buckets s.contents st ck bucket

theorem mem_of_mem_skippedNames {st : ResumeState} {ck : ResumeCheckpoint} {b o : String}
    (h : o ∈ skippedNames bs s.contents st ck b) : o ∈ s.contents b := by
  unfold skippedNames at h
  split at h
  · exact mem_of_mem_take h
  · exact absurd h not_mem_nil

variable (h : RegularCall bs sdi s uuid script)
  (hsound : Sound bs sdi ss s)
include h hsound

theorem base_of_regular :
    Base bs sdi ss (GuardedIn bs sdi ss s)
      { s with cancelled := false } := by
  refine ⟨?_, ?_, hsound.files⟩
  · rintro b o (hs | ⟨t, st, ck, -, -, -, ho⟩)
    · exact hsound.kept b o hs
    · exact mem_of_mem_skippedNames ho
  · intro b hb b' hb' hne o hs
    exact (h.apart b hb b' hb' hne o (hsound.kept b' o hs)).1

theorem good_of_regular (hdeletes : ∀ b o, ss b o → ¬(Step.call uuid script).Deletes b o) :
    ∀ a ∈ script, a.Good bs ss (GuardedIn bs sdi ss s) := by
  intro a ha
  refine ⟨h.answered a ha, ?_⟩
  intro c hc
  cases c with
  | cancel => trivial
  | put b o =>
    intro hb b' hb' hne hs
    exact (h.apart b hb b' hb' hne o (hsound.kept b' o hs)).2 ⟨a, ha, hc⟩
  | delete b o =>
    rintro (hs | ⟨t, st, ck, hst, hset, hck, ho⟩)
    · exact hdeletes b o hs ⟨a, ha, hc⟩
    · exact (h.recorded t st ck b hst hset hck o ho).2 ⟨a, ha, hc⟩

/-- The names before the index are recorded, so what is not handled comes after all of them. -/
theorem ready_of_regular {t : String} {st : ResumeState} {ck : ResumeCheckpoint}
    (hst : s.files.states t = some st) (hset : st.setDiskId = sdi)
    (hck : s.files.checkpoints t = some ck) :
    ReadyFrom bs ss (GuardedIn bs sdi ss s) s.deeds st ck := by
  intro b hb o hs
  have hnames : skippedNames bs s.contents st ck b =
      (s.contents b).names.take ck.currentObjectIndex := if_pos hb
  have hbucket : b ∈ bs := mem_of_mem_drop (mem_of_find?_eq_some hb)
  have hsorted := (s.contents b).sorted
  have hmem : o ∈ (s.contents b).names := hsound.kept b o hs
  rw [← take_append_drop ck.currentObjectIndex (s.contents b).names] at hmem hsorted
  rcases mem_append.mp hmem with htake | hdrop
  · have hrecorded := (h.recorded t st ck b hst hset hck o (hnames ▸ htake)).1
    exact .inl (((hsound.files t st hst hset).checkpoint ck hck).names b hbucket o hrecorded hs)
  · refine .inr ⟨((s.contents b).names.take ck.currentObjectIndex).toFinset, ?_, ?_⟩
    · have hlt := length_pos_of_mem hdrop
      rw [length_drop] at hlt
      have hnodup : ((s.contents b).names.take ck.currentObjectIndex).Nodup :=
        (pairwise_append.mp hsorted).1.imp ne_of_lt
      rw [toFinset_card_of_nodup hnodup, length_take]
      omega
    · intro x hx
      have hx := mem_toFinset.mp hx
      exact ⟨.inr ⟨t, st, ck, hst, hset, hck, hnames ▸ hx⟩,
        (pairwise_append.mp hsorted).2.2 x hx o hdrop⟩

end

section

variable {bs : List String} {sdi : String} {ss : String → String → Prop}
  {s : Machine}

/-- What holds between the steps of a run. -/
structure RunInv (buckets : List String) (setDiskId : String) (stays : String → String → Prop)
    (s : Machine) : Prop extends Sound buckets setDiskId stays s where
  complete : s.result = some (.ok ()) → ∀ b ∈ buckets, Done stays s.deeds b

section

variable (h : Sound bs sdi ss s)
include h

theorem sound_change {c : Change}
    (hc : ∀ b o, ss b o → c ≠ .delete b o) : Sound bs sdi ss (s.change c) := by
  have hquiet := change_quiet s c
  refine ⟨?_, hquiet.deeds ▸ hquiet.files ▸ h.files⟩
  intro b o hs
  exact mem_change (h.kept b o hs) (hc b o hs)

theorem sound_changes {before : List Change}
    (hbefore : ∀ c ∈ before, ∀ b o, ss b o → c ≠ .delete b o) :
    Sound bs sdi ss (s.changes before) := by
  unfold Machine.changes
  exact List.foldlRecOn before _ h fun _ hs c hc => sound_change hs (hbefore c hc)

/-- What others do after the call has ended. -/
theorem sound_outlast {rs : List Answer}
    (hrest : ∀ a ∈ rs, ∀ c ∈ a.before, ∀ b o, ss b o → c ≠ .delete b o) :
    Sound bs sdi ss (s.outlast rs) := by
  unfold Machine.outlast
  exact List.foldlRecOn rs _ h fun _ hs a ha => sound_changes hs (hrest a ha)

end

theorem step_runInv {e : Step} (h : RunInv bs sdi ss s)
    (hregular : Regular bs sdi s e) (hdeletes : ∀ b o, ss b o → ¬e.Deletes b o) :
    RunInv bs sdi ss (s.step bs sdi e) := by
  cases e with
  | change c =>
    have hquiet := change_quiet s c
    refine ⟨sound_change h.toSound fun b o hs hc => hdeletes b o hs hc, ?_⟩
    intro hok b hb
    have hold : s.result = some (.ok ()) := by
      cases c <;> exact hok
    change Done ss (s.change c).deeds b
    rw [hquiet.deeds]
    exact h.complete hold b hb
  | call uuid script =>
    have hmeets := healErasureSet_yields
      (c := ⟨bs, sdi, ss, GuardedIn bs sdi ss s, fun _ _ => .inl⟩)
      (base_of_regular hregular h.toSound) hregular.fresh
      (fun t st ck hst hset hck => ready_of_regular hregular h.toSound hst hset hck) script
      (good_of_regular hregular h.toSound hdeletes)
    have hrest : ∀ rest : List Answer, (∀ a ∈ rest, a.Good bs ss (GuardedIn bs sdi ss s)) →
        ∀ a ∈ rest, ∀ c ∈ a.before, ∀ b o, ss b o → c ≠ .delete b o := by
      intro rest hgood a ha c hc b o hs hdelete
      have hallowed := (hgood a ha).2 c hc
      rw [hdelete] at hallowed
      exact hallowed (.inl hs)
    change RunInv bs sdi ss (Machine.ended _)
    generalize healErasureSet bs sdi uuid { s with cancelled := false } script = out
      at hmeets ⊢
    cases out with
    | returned r s' rest =>
      obtain ⟨⟨hsound, hdone⟩, hgood⟩ := hmeets
      have hsound' := sound_outlast hsound (hrest rest hgood)
      refine ⟨⟨hsound'.kept, hsound'.files⟩, ?_⟩
      intro hok b hb
      change Done ss (s'.outlast rest).deeds b
      rw [(outlast_quiet rest).deeds]
      exact hdone (Option.some.inj hok) b hb
    | stopped s' rest =>
      have hsound' := sound_outlast hmeets.1 (hrest rest hmeets.2)
      exact ⟨⟨hsound'.kept, hsound'.files⟩, nofun⟩

end

/-- A machine on which no heal has run yet. -/
def Machine.initial (files : ResumeFiles) (contents : String → Listing String) : Machine where
  files := files
  contents := contents
  cancelled := false
  memory := ⟨.new "" "" [], .new "", 0, 0, 0, 0, 0⟩
  deeds := []
  result := none

/-- Every object that stayed was handled, and only healed buckets count as completed. -/
def Complete (buckets : List String) (setDiskId : String) (s : Machine) (steps : List Step)
    (s' : Machine) : Prop :=
  (∀ b ∈ buckets, ∀ o, StaysThrough s steps b o → Handled s'.deeds b o) ∧ Counted setDiskId s'

/-- A run of regular calls, however often it is stopped and resumed, is complete once a call
returns without an error. -/
theorem healErasureSet_complete {buckets : List String} {setDiskId : String} {files : ResumeFiles}
    {contents : String → Listing String} {steps : List Step}
    (hfiles : ∀ t st, files.states t = some st → st.setDiskId ≠ setDiskId)
    (h : Run.Along (Machine.step buckets setDiskId) (Regular buckets setDiskId)
      (.initial files contents) steps)
    (hok : (steps.foldl (Machine.step buckets setDiskId) (.initial files contents)).result =
      some (.ok ())) :
    Complete buckets setDiskId (.initial files contents) steps
      (steps.foldl (Machine.step buckets setDiskId) (.initial files contents)) := by
  have hstart : RunInv buckets setDiskId (StaysThrough (.initial files contents) steps)
      (.initial files contents) :=
    ⟨⟨fun _ _ hs => hs.1, fun t st hst hset => absurd hset (hfiles t st hst)⟩, nofun⟩
  have hinv := Run.invariant (I := RunInv buckets setDiskId _)
    (fun s e hs hc => step_runInv hs hc.1 hc.2) (h.and fun e he b o hs => hs.2 e he) hstart
  refine ⟨fun b hb o hs => hinv.complete hok b hb o hs, ?_⟩
  refine Run.invariant_of_step (fun s e hs => step_counted buckets hs e) ⟨?_, ?_⟩
  · exact fun t st hst hset => absurd hset (hfiles t st hst)
  · exact fun _ b hb => absurd hb not_mem_nil

/-- Whatever fails or is stopped in a run, only healed buckets count as completed. -/
theorem run_counted {buckets : List String} {setDiskId : String} {s : Machine} (steps : List Step)
    (h : Counted setDiskId s) :
    Counted setDiskId (steps.foldl (Machine.step buckets setDiskId) s) :=
  Run.invariant_of_step (fun _ e hs => step_counted buckets hs e) h

instance (bucket object : String) (e : Step) : Decidable (e.Deletes bucket object) :=
  match e with
  | .change c => inferInstanceAs (Decidable (c = .delete bucket object))
  | .call _ script => inferInstanceAs (Decidable (∃ a ∈ script, .delete bucket object ∈ a.before))

instance (s : Machine) (steps : List Step) (bucket object : String) :
    Decidable (StaysThrough s steps bucket object) :=
  inferInstanceAs (Decidable (_ ∧ _))

instance (deeds : List Deed) (bucket object : String) : Decidable (Handled deeds bucket object) :=
  inferInstanceAs (Decidable (_ ∨ _))

/-- A machine without tasks, with the one object in each bucket that it is given for. -/
def holding (object : String → Option String) : Machine :=
  .initial ⟨fun _ => none, fun _ => none⟩ fun b => ((object b).map (Listing.empty.put ·)).getD .empty

/-- Replies in a time in which nobody else does anything. -/
def quietly (replies : List Reply) : List Answer := replies.map fun reply => ⟨[], reply⟩

/-- The replies to a call that finds no task and starts one. -/
def started : List Reply := [.listDir none, .readAll none, .writeAll none, .writeAll none]

/-- The replies about an object that is healed. -/
def oneHealed : List Reply :=
  [.writeAll none, .objectExists none, .healObject (.ok none), .writeAll none]

/-- The replies about a bucket and its objects, up to the saved position and counts. -/
def inBucket (objects : List Reply) : List Reply :=
  [.writeAll none, .bucketInfo none, .page none] ++ objects ++ [.writeAll none, .writeAll none]

/-- The replies to a call that has come to its end. -/
def finished : List Reply :=
  [.writeAll none, .deleted none, .deleted none, .deleted none, .deleted none]

/-- The replies to a call that finds the task of the first call and loads it. -/
def loaded : List Reply := .listDir (some ["pool_0_set_0_1"]) :: List.replicate 6 (.readAll none)

def twoPhotos : Machine :=
  .initial ⟨fun _ => none, fun _ => none⟩ fun _ => ⟨["cat", "dog"], by decide⟩

/-- A call that is stopped after it has recorded the first object. -/
def stoppedStep : Step :=
  .call "1" (quietly (started ++ [.writeAll none, .bucketInfo none, .page none] ++ oneHealed))

/-- Then another puts an object, and the next call fails to look up the second object, heals the new
one, and is not stopped. -/
def resumedSteps : List Step :=
  [stoppedStep, .change (.put "photos" "emu"),
    .call "2" (quietly (loaded ++ inBucket ([.writeAll none, .objectExists (some "timeout"),
      .writeAll none] ++ oneHealed) ++ [.writeAll none] ++ finished))]

theorem healErasureSet_complete_resumed :
    Complete ["photos"] "pool_0_set_0" twoPhotos resumedSteps
      (resumedSteps.foldl (Machine.step ["photos"] "pool_0_set_0") twoPhotos) := by
  refine healErasureSet_complete nofun ⟨?_, trivial, ?_, trivial⟩ (by decide +kernel)
  · exact ⟨⟨rfl, rfl⟩, by decide +kernel, by simp, nofun⟩
  · refine ⟨by decide +kernel, by decide +kernel, by simp, fun t st ck b hst hset hck => ?_⟩
    -- The first call has saved its checkpoint twice, both times without a position.
    have hsaved : (if t = "pool_0_set_0_1" then some ⟨"pool_0_set_0_1", 0, 0, ["cat"], []⟩
        else if t = "pool_0_set_0_1" then some ⟨"pool_0_set_0_1", 0, 0, [], []⟩
        else none) = some ck := hck
    have hindex : ck.currentObjectIndex = 0 := by
      split_ifs at hsaved
      cases hsaved
      rfl
    simp [skippedNames, hindex]

theorem run_counted_resumed : Counted "pool_0_set_0"
    (resumedSteps.foldl (Machine.step ["photos"] "pool_0_set_0") twoPhotos) :=
  run_counted _ ⟨nofun, fun _ _ hb => absurd hb not_mem_nil⟩

/-- One call for two buckets that is answered well all the way. -/
def sharedNameSteps : List Step :=
  [.call "1" (quietly (started ++ inBucket oneHealed ++ [.writeAll none] ++ inBucket [] ++
    [.writeAll none] ++ finished))]

/-- Two buckets with an object of the same name: the one in the second bucket is taken for the one
in the first, and the call returns without having looked at it. -/
theorem healErasureSet_incomplete :
    (sharedNameSteps.foldl (Machine.step ["photos", "backups"] "pool_0_set_0")
      (holding fun _ => some "cat")).result = some (.ok ()) ∧
    ¬Complete ["photos", "backups"] "pool_0_set_0" (holding fun _ => some "cat") sharedNameSteps
      (sharedNameSteps.foldl (Machine.step ["photos", "backups"] "pool_0_set_0")
        (holding fun _ => some "cat")) := by
  refine ⟨by decide +kernel, fun h => ?_⟩
  have hstays := h.1 "backups" (by decide) "cat" (by decide +kernel)
  exact absurd hstays (by decide +kernel)

-- A call stopped after the first bucket counts as completed: the next one starts in the second
-- bucket at the index it had reached in the first, and goes past its only object.
example :
    let s := List.foldl (Machine.step ["photos", "backups"] "pool_0_set_0")
      (holding fun b => some (if b = "photos" then "cat" else "dog"))
      [.call "1" (quietly (started ++ inBucket oneHealed ++ [.writeAll none])),
        .call "2" (quietly (loaded ++ inBucket [] ++ [.writeAll none] ++ finished))]
    s.result = some (.ok ()) ∧ ¬Handled s.deeds "backups" "dog" := by
  decide +kernel

-- A bucket that cannot be listed is left out, and the call returns without an error all the same.
example :
    let s := List.foldl (Machine.step ["photos"] "pool_0_set_0") (holding fun _ => some "cat")
      [.call "1" (quietly (started ++ [.writeAll none, .bucketInfo none, .page (some "timeout"),
        .writeAll none, .writeAll none] ++ finished))]
    s.result = some (.ok ()) ∧ ¬Handled s.deeds "photos" "cat" := by
  decide +kernel

end Rustfs.Heal
