import Rustfs.Filemeta.SharedDataDir
import Rustfs.Lib.Run
import Rustfs.SetDisk.Precondition

/-! Writes to one key that run at the same time: `put_object` and `complete_multipart_upload`, with
the namespace lock they take and the conditions they check. -/
namespace Rustfs

open List FileMetaShallowVersion FileMetaVersion Option Run

/-- The metadata of a version that a write commits, which is no delete marker. -/
structure ObjectVersion where
  fi : FileInfo
  live : fi.deleted = false

namespace FileMeta

variable {B : Type} (codec : MetaCodec B) (fm : FileMeta B)

/-- The version `into_fileinfo` takes: the one with the id, or the latest that is no free version. -/
def selected (versionId : Option Uuid) : Option (FileMetaShallowVersion B) :=
  let vid := some (versionId.getD Uuid.nil)
  fm.versions.find? fun v =>
    !(v.header.flags &&& 1 != 0 && v.header.versionId != vid) &&
      (versionId.isNone || v.header.versionId == vid)

def etagOf (v : FileMetaShallowVersion B) : Option String :=
  ((codec.unmarshal v.metaBuf).toOption.bind FileMetaVersion.object).bind
    (·.metaUser.lookup "etag")

/-- The latest version is an object. -/
def Live : Prop := ∃ v, fm.selected none = some v ∧ v.header.versionType ≠ .delete

/-- The latest version is an object with an etag that meets the condition. -/
def LiveMatch (condition : String) : Prop :=
  ∃ v etag, fm.selected none = some v ∧ v.header.versionType ≠ .delete ∧
    etagOf codec v = some etag ∧ eTagMatches etag condition = true

section

variable {codec fm} {rt : Runtime} {ver : FileMetaVersion}

theorem header_flags_object (h : ver.versionType = .object) : (ver.header rt).flags &&& 1 = 0 := by
  have hfree : ver.freeVersion = false := by simp [FileMetaVersion.freeVersion, h]
  have hbits : ∀ uses inline : Bool,
      ((0 : BitVec 8) ||| (if uses then 2 else 0) ||| if inline then 4 else 0) &&& 1 = 0 := by decide
  rw [FileMetaVersion.header, hfree]
  exact hbits _ _

theorem live_of_head (hobject : ver.versionType = .object)
    (h : fm.versions.head? = some (.ofVersion rt codec ver)) : fm.Live := by
  obtain ⟨rest, hrest⟩ := head?_eq_some_iff.1 h
  have hfree : (ofVersion rt codec ver).header.flags &&& 1#8 = 0#8 :=
    header_flags_object hobject
  refine ⟨.ofVersion rt codec ver, ?_, ?_⟩
  · simp [selected, hrest, hfree]
  · simp [ofVersion, hobject]

/-- An entry that stands before all others is the first after sorting. -/
theorem head?_insertionSort {α : Type} {r : α → α → Prop} [DecidableRel r] {l : List α} {x : α}
    (hx : x ∈ l) (hfirst : ∀ y ∈ l, y ≠ x → r x y ∧ ¬r y x) :
    (l.insertionSort r).head? = some x := by
  obtain ⟨bs, as, rfl, hbs⟩ := eq_append_cons_of_mem hx
  have hb : ∀ y ∈ bs, ¬r y x := fun y hy => (hfirst y (by simp [hy]) fun h => hbs (h ▸ hy)).2
  have ha : ∀ y ∈ as, y = x ∨ r x y := fun y hy =>
    or_iff_not_imp_left.2 fun hne => (hfirst y (by simp [hy]) hne).1
  obtain ⟨rest, hrest⟩ := insertionSort_first hb ha
  rw [hrest, head?_cons]

variable (codec) in
/-- A newer version is sorted before an older one. -/
theorem sortCompare_of_lt {v w : FileMetaShallowVersion B} {old new : Time}
    (hw : w.header.modTime = some old) (hv : v.header.modTime = some new) (hlt : old < new) :
    sortCompare codec v w = .lt ∧ sortCompare codec w v = .gt := by
  have hne : new ≠ old := hlt.ne'
  simp only [sortCompare, hw, hv, ne_eq, some.injEq, hne, hne.symm, not_false_iff, if_true]
  exact ⟨compare_lt_iff_lt.2 hlt, compare_gt_iff_gt.2 hlt⟩

variable {fm' : FileMeta B} (hnew : ∀ w ∈ fm.versions, ∃ old new, w.header.modTime = some old ∧
  ver.getModTime = some new ∧ old < new)
include hnew

theorem head?_setIdx {i : ℕ} (h : fm.setIdx rt codec i ver = .ok fm') :
    fm'.versions.head? = some (.ofVersion rt codec ver) := by
  rw [setIdx] at h
  cases hold : fm.versions[i]? with
  | none =>
    rw [hold] at h
    cases h
  | some v =>
    obtain ⟨hi, rfl⟩ := List.getElem?_eq_some_iff.1 hold
    obtain ⟨old, new, hw, hv, hlt⟩ := hnew _ (getElem_mem hi)
    have hv' : (ofVersion rt codec ver).header.modTime = some new := hv
    rw [hold] at h
    dsimp only at h
    rw [if_pos (by rw [hw, hv']; simpa using hlt.ne)] at h
    cases h
    rw [sortByModTime]
    split_ifs with hlen
    · rw [length_set] at hlen
      obtain ⟨w, hsingle⟩ := length_eq_one_iff.1 (by omega : fm.versions.length = 1)
      obtain rfl : i = 0 := by omega
      simp [hsingle]
    · refine head?_insertionSort (mem_set hi _) fun y hy hne => ?_
      have hy' : y ∈ fm.versions := (mem_or_eq_of_mem_set hy).resolve_right hne
      obtain ⟨old', new', hw', hnew', hlt'⟩ := hnew y hy'
      obtain rfl : new = new' := some.inj (hv.symm.trans hnew')
      obtain ⟨hfirst, hsecond⟩ := sortCompare_of_lt codec hw' hv' hlt'
      simp [hfirst, hsecond]

/-- An object that is newer than all versions is the latest after it is added. -/
theorem live_addVersionFilemata (hobject : ver.versionType = .object)
    (h : fm.addVersionFilemata rt codec ver = .ok fm') : fm'.Live := by
  suffices hhead : fm'.versions.head? = some (.ofVersion rt codec ver) from
    live_of_head hobject hhead
  unfold addVersionFilemata at h
  split at h
  · cases h
  · split_ifs at h with hne
    · cases h
      rfl
    · split at h
      · exact head?_setIdx hnew h
      · obtain ⟨w, rest, hrest⟩ := exists_cons_of_ne_nil (by simpa using hne : fm.versions ≠ [])
        obtain ⟨old, new, hw, hv, hlt⟩ := hnew w (hrest ▸ mem_cons_self)
        have hfirst : fm.versions.findIdx? (standsBefore ver.getModTime) = some 0 := by
          simp [hrest, findIdx?_cons, standsBefore, hw, hv, hlt.le]
        rw [hfirst] at h
        cases h
        rfl

end

end FileMeta

namespace ConditionalWrite

inductive WriteKind where
  | putObject
  | completeMultipartUpload

/-- A call, by the options of it that decide about locks and conditions. -/
structure WriteCall where
  kind : WriteKind := .putObject
  preconditions : Option HttpPreconditions := none
  noLock : Bool := false
  versionId : Option Uuid := none
  versioned : Bool := false

/-- How far a call has come. -/
inductive Phase where
  | start
  | checking
  | preparing
  | prepared (v : ObjectVersion)
  | cleaning (v : ObjectVersion)
  | moving (v : ObjectVersion)
  | renamed
  | done (err : Option StorageError)

/-- What a call meets on its next step: nothing, an answer to its request for the write lock, the
answer of `get_object_fileinfo`, the end of its preparations, that of `rename_data`, which leaves what
it has done when it fails, or that of `commit_rename_data_dir`. -/
inductive Event (B : Type) where
  | go
  | lock (failure : Option String)
  | read (answer : Except StorageError FileInfo)
  | prepare (result : Except StorageError ObjectVersion)
  | rename (failure : Option (StorageError × FileMeta B))
  | commit (failure : Option StorageError)

variable {B : Type}

/-- The call after a step, whether it holds the lock then, and the metadata of the key. -/
structure Outcome (B : Type) where
  phase : Phase
  holds : Bool
  versions : FileMeta B

/-- The phase after the lock for the commit is held. -/
def WriteKind.afterLock : WriteKind → ObjectVersion → Phase
  | .putObject, v => .moving v
  | .completeMultipartUpload, v => .cleaning v

/-- The end of a call, at which its guard of the lock is dropped. -/
def finish (fm : FileMeta B) (err : Option StorageError) : Option (Outcome B) :=
  some ⟨.done err, false, fm⟩

/-- A request for the write lock, which is granted only while nobody holds it. -/
def acquire (free : Bool) (fm : FileMeta B) (next : Phase) : Option String → Option (Outcome B)
  | some text => finish fm (some (.other ("Failed to acquire write lock: " ++ text)))
  | none => if free then some ⟨next, true, fm⟩ else none

variable (rt : Runtime) (codec : MetaCodec B) (bucket object : String) (call : WriteCall)

/-- One step of a call; `none` if the event is not one it waits for. -/
def taskStep (free held : Bool) (fm : FileMeta B) : Phase → Event B → Option (Outcome B)
  | .start, .go =>
    if call.preconditions.isNone then some ⟨.preparing, held, fm⟩
    else if call.noLock then some ⟨.checking, held, fm⟩
    else none
  | .start, .lock failure =>
    if call.preconditions.isSome && !call.noLock then acquire free fm .checking failure else none
  | .checking, .read answer =>
    match call.preconditions with
    | none => none
    | some pre =>
      match checkWritePrecondition bucket object call.versioned pre answer with
      | some err => finish fm (some err)
      | none => some ⟨.preparing, held, fm⟩
  | .preparing, .prepare (.error err) => finish fm (some err)
  | .preparing, .prepare (.ok v) => some ⟨.prepared v, held, fm⟩
  | .prepared v, .go =>
    if !call.noLock && !held then none else some ⟨call.kind.afterLock v, held, fm⟩
  | .prepared v, .lock failure =>
    if !call.noLock && !held then acquire free fm (call.kind.afterLock v) failure else none
  | .cleaning v, .go => some ⟨.moving v, held, fm⟩
  | .moving v, .rename none =>
    match fm.addVersion rt codec v.fi with
    | .ok fm' => some ⟨.renamed, held, fm'⟩
    | .error _ => finish fm (some .erasureWriteQuorum)
  | .moving _, .rename (some (err, left)) => finish left (some err)
  | .renamed, .commit failure => finish fm failure
  | _, _ => none

/-- The metadata of the key, the holder of its lock, and the calls. -/
structure System (B : Type) where
  versions : FileMeta B
  holder : Option ℕ
  phase : ℕ → Phase

variable (calls : ℕ → WriteCall)

/-- The step of call `t`, which leaves the system as it is where the call waits. -/
def step (s : System B) (e : ℕ × Event B) : System B :=
  match taskStep rt codec bucket object (calls e.1) s.holder.isNone (s.holder == some e.1)
      s.versions (s.phase e.1) e.2 with
  | none => s
  | some out =>
    { versions := out.versions
      holder := if out.holds then some e.1 else if s.holder = some e.1 then none else s.holder
      phase := Function.update s.phase e.1 out.phase }

variable (fm : FileMeta B)

/-- No call has begun, and the lock is free. -/
def initial : System B := { versions := fm, holder := none, phase := fun _ => .start }

section

/-- The step with which the call's version becomes part of the key's metadata. -/
def Commits (s : System B) (e : ℕ × Event B) : Prop :=
  ∃ v fm', s.phase e.1 = .moving v ∧ e.2 = .rename none ∧
    s.versions.addVersion rt codec v.fi = .ok fm'

/-- The write asks that there be no object, with `If-None-Match: *`. -/
def WriteCall.CreateOnly : Prop :=
  ∃ pre condition, call.preconditions = some pre ∧ pre.ifNoneMatch = some condition ∧
    isAnyEtag condition = true

/-- The conditions of the call hold of the metadata of the key. -/
def Met : Prop :=
  ∀ pre, call.preconditions = some pre →
    (∀ condition, pre.ifNoneMatch = some condition → isAnyEtag condition = true → ¬fm.Live) ∧
      ∀ condition, pre.ifMatch = some condition → fm.LiveMatch codec condition

/-- The answers that say that the object, or the version of it, is not there. -/
def saysAbsent : StorageError → Bool
  | .versionNotFound _ _ _ => true
  | .objectNotFound _ _ => true
  | _ => false

/-- What is asked of a run: a call commits only where its conditions are met, of the calls that ask
that there be no object only one commits, and none commits whose read of the metadata failed. -/
structure Obeys (s : System B) (steps : List (ℕ × Event B)) : Prop where
  met : ∀ pre e post, steps = pre ++ e :: post →
    Commits rt codec (pre.foldl (step rt codec bucket object calls) s) e →
    Met codec (calls e.1) (pre.foldl (step rt codec bucket object calls) s).versions
  once : ∀ pre e mid e' post, steps = (pre ++ e :: mid) ++ e' :: post →
    Commits rt codec (pre.foldl (step rt codec bucket object calls) s) e →
    Commits rt codec ((pre ++ e :: mid).foldl (step rt codec bucket object calls) s) e' →
    (calls e.1).CreateOnly → ¬(calls e'.1).CreateOnly
  failed : ∀ pre t err mid ev post,
    steps = (pre ++ (t, Event.read (.error err)) :: mid) ++ (t, ev) :: post →
    (pre.foldl (step rt codec bucket object calls) s).phase t = .checking →
    saysAbsent (err.toObjectErr [bucket, object]) = false →
    ¬Commits rt codec ((pre ++ (t, Event.read (.error err)) :: mid).foldl
      (step rt codec bucket object calls) s) (t, ev)

/-- The answer to a read of the metadata is true of it, unless the read has failed. -/
def Honest (versionId : Option Uuid) : Except StorageError FileInfo → Prop
  | .ok fi => ∃ v, fm.selected versionId = some v ∧
      (fi.deleted = true ↔ v.header.versionType = .delete) ∧
      (fi.deleted = false → fi.metadata.lookup "etag" = FileMeta.etagOf codec v)
  | .error err => saysAbsent (err.toObjectErr [bucket, object]) = true → fm.selected versionId = none

/-- The version is newer than all that the key has. -/
def Newer (v : ObjectVersion) : Prop :=
  ∀ w ∈ fm.versions, ∃ old new, w.header.modTime = some old ∧ v.fi.modTime = some new ∧ old < new

/-- A step of a call that takes the lock, whose check reads the latest version as it is, which for
`If-Match` is no delete marker, and whose version is the newest when it is committed. -/
structure Sound (s : System B) (e : ℕ × Event B) : Prop where
  locks : (calls e.1).noLock = false
  latest : (calls e.1).preconditions.isSome → (calls e.1).versionId = none
  honest : ∀ answer, s.phase e.1 = .checking → e.2 = .read answer →
    Honest codec bucket object s.versions (calls e.1).versionId answer
  unmarked : ∀ answer pre v, s.phase e.1 = .checking → e.2 = .read answer →
    (calls e.1).preconditions = some pre → pre.ifMatch.isSome → s.versions.selected none = some v →
    v.header.versionType ≠ .delete
  newer : ∀ v, s.phase e.1 = .moving v → e.2 = .rename none → Newer s.versions v
  kept : ∀ v err left, s.phase e.1 = .moving v → e.2 = .rename (some (err, left)) →
    s.versions.Live → left.Live

end

section

variable {codec bucket object fm call} {pre : HttpPreconditions}
  {a : Except StorageError FileInfo}

/-- A read quorum error has become another one when the check looks at it. -/
theorem takenAsAbsent_toObjectErr (err : StorageError) (ps : List String) :
    takenAsAbsent (err.toObjectErr ps) = saysAbsent (err.toObjectErr ps) := by
  cases err <;> rfl

/-- A write whose read of the metadata failed does not go on. -/
theorem checkWritePrecondition_failed {err : StorageError} {v : Bool}
    (h : saysAbsent (err.toObjectErr [bucket, object]) = false) :
    checkWritePrecondition bucket object v pre (.error err) =
      some (err.toObjectErr [bucket, object]) := by
  simp [checkWritePrecondition, getObjectInfo, takenAsAbsent_toObjectErr, h]

theorem not_live_of_selected_none (h : fm.selected none = none) : ¬fm.Live := by
  rintro ⟨v, hv, -⟩
  rw [h] at hv
  cases hv

theorem not_live_of_marker {v : FileMetaShallowVersion B} (h : fm.selected none = some v)
    (hv : v.header.versionType = .delete) : ¬fm.Live := by
  rintro ⟨w, hw, hlive⟩
  obtain rfl : v = w := some.inj (h.symm.trans hw)
  exact hlive hv

/-- A check that lets the write go on has seen the conditions met. -/
theorem met_of_check (hpre : call.preconditions = some pre)
    (hhonest : Honest codec bucket object fm none a)
    (hunmarked : pre.ifMatch.isSome → ∀ v, fm.selected none = some v →
      v.header.versionType ≠ .delete)
    (h : checkWritePrecondition bucket object call.versioned pre a = none) : Met codec call fm := by
  intro pre' hpre'
  obtain rfl : pre = pre' := some.inj (hpre.symm.trans hpre')
  cases a with
  | error err =>
    simp only [checkWritePrecondition, getObjectInfo, takenAsAbsent_toObjectErr] at h
    split at h
    · rename_i habsent
      have hnone := hhonest habsent
      split_ifs at h with hmatch
      refine ⟨fun _ _ _ => not_live_of_selected_none hnone, fun condition hc => ?_⟩
      simp [hc] at hmatch
    · cases h
  | ok fi =>
    obtain ⟨v, hv, hdeleted, hetag⟩ := hhonest
    simp only [checkWritePrecondition, getObjectInfo, ObjectInfo.fromFileInfo] at h
    split at h
    · -- the latest version is a delete marker, so the write has no condition on an etag
      rename_i hmarker
      have hdelete := hdeleted.1 hmarker
      refine ⟨fun _ _ _ => not_live_of_marker hv hdelete, fun condition hc => ?_⟩
      exact absurd hdelete (hunmarked (by simp [hc]) v hv)
    · rename_i hmarker
      have hlive : v.header.versionType ≠ .delete := fun hd => hmarker (hdeleted.2 hd)
      rw [shouldPreventWrite, hetag (by simpa using hmarker)] at h
      cases he : FileMeta.etagOf codec v with
      | none =>
        simp only [he] at h
        constructor
        all_goals
          intro condition hc
          simp [hc] at h
      | some etag =>
        simp only [he] at h
        refine ⟨fun condition hc hany => ?_, fun condition hc => ⟨v, etag, hv, hlive, he, ?_⟩⟩
        · simp [hc, eTagMatches, hany] at h
        · by_contra hne
          simp [hc, hne] at h

end

/-- Everything a call that takes the lock can do in a step. -/
inductive Moves (call : WriteCall) (free held : Bool) (fm : FileMeta B) :
    Phase → Event B → Outcome B → Prop where
  | ends {phase : Phase} {ev : Event B} {err : Option StorageError} :
    Moves call free held fm phase ev ⟨.done err, false, fm⟩
  | leaves {v : ObjectVersion} {err : StorageError} {left : FileMeta B} :
    Moves call free held fm (.moving v) (.rename (some (err, left))) ⟨.done (some err), false, left⟩
  | begins {ev : Event B} (hnone : call.preconditions = none) :
    Moves call free held fm .start ev ⟨.preparing, held, fm⟩
  | locks {ev : Event B} (hpre : call.preconditions.isSome) (hfree : free = true) :
    Moves call free held fm .start ev ⟨.checking, true, fm⟩
  | passes {pre : HttpPreconditions} {answer : Except StorageError FileInfo}
    (hpre : call.preconditions = some pre)
    (hcheck : checkWritePrecondition bucket object call.versioned pre answer = none) :
    Moves call free held fm .checking (.read answer) ⟨.preparing, held, fm⟩
  | prepares {ev : Event B} {v : ObjectVersion} :
    Moves call free held fm .preparing ev ⟨.prepared v, held, fm⟩
  | owns {ev : Event B} {v : ObjectVersion} (hlock : held = true ∨ free = true) :
    Moves call free held fm (.prepared v) ev ⟨call.kind.afterLock v, true, fm⟩
  | cleans {ev : Event B} {v : ObjectVersion} :
    Moves call free held fm (.cleaning v) ev ⟨.moving v, held, fm⟩
  | commits {v : ObjectVersion} {fm' : FileMeta B} (hadd : fm.addVersion rt codec v.fi = .ok fm') :
    Moves call free held fm (.moving v) (.rename none) ⟨.renamed, held, fm'⟩

section

variable {rt codec bucket object call fm} {free held : Bool} {p : Phase} {ev : Event B}
  {out : Outcome B}

/-- The phases in which a call that takes the lock holds it. -/
def Owns (call : WriteCall) : Phase → Prop
  | .checking => True
  | .preparing => call.preconditions.isSome
  | .prepared _ => call.preconditions.isSome
  | .cleaning _ => True
  | .moving _ => True
  | .renamed => True
  | _ => False

/-- The phases after the check and before the commit. -/
def Passed : Phase → Prop
  | .preparing => True
  | .prepared _ => True
  | .cleaning _ => True
  | .moving _ => True
  | _ => False

theorem owns_of_passed (hpre : call.preconditions.isSome) (h : Passed p) : Owns call p := by
  cases p with
  | preparing | prepared => exact hpre
  | cleaning | moving => trivial
  | start | checking | renamed | done => cases h

theorem acquire_some {n : Phase} {f : Option String} (h : acquire free fm n f = some out) :
    (∃ err, out = ⟨.done err, false, fm⟩) ∨ free = true ∧ out = ⟨n, true, fm⟩ := by
  cases f with
  | some text =>
    cases h
    exact .inl ⟨_, rfl⟩
  | none =>
    rw [acquire] at h
    split at h
    · cases h
      exact .inr ⟨‹_›, rfl⟩
    · cases h

theorem moves_of_taskStep (hlock : call.noLock = false)
    (h : taskStep rt codec bucket object call free held fm p ev = some out) :
    Moves rt codec bucket object call free held fm p ev out := by
  unfold taskStep at h
  split at h
  · rw [hlock] at h
    split at h
    · rename_i hnone
      cases h
      exact .begins (by simpa using hnone)
    · cases h
  · split_ifs at h with hpre
    rcases acquire_some h with ⟨err, rfl⟩ | ⟨hfree, rfl⟩
    · exact .ends
    · exact .locks (Bool.and_eq_true_iff.1 hpre).1 hfree
  · split at h
    · cases h
    · split at h
      · cases h
        exact .ends
      · cases h
        exact .passes ‹_› ‹_›
  · cases h
    exact .ends
  · cases h
    exact .prepares
  · rw [hlock] at h
    split_ifs at h with hheld
    obtain rfl : held = true := by simpa using hheld
    cases h
    exact .owns (.inl rfl)
  · split at h
    · rcases acquire_some h with ⟨err, rfl⟩ | ⟨hfree, rfl⟩
      · exact .ends
      · exact .owns (.inr hfree)
    · cases h
  · cases h
    exact .cleans
  · split at h
    · cases h
      exact .commits ‹_›
    · cases h
      exact .ends
  · cases h
    exact .leaves
  · cases h
    exact .ends
  · cases h

section

variable (h : Moves rt codec bucket object call free held fm p ev out)
include h

/-- The lock is held after a step only by a call that held it or found it free. -/
theorem Moves.holds (hout : out.holds = true) : held = true ∨ free = true := by
  cases h with
  | ends => cases hout
  | leaves => cases hout
  | locks _ hfree => exact .inr hfree
  | owns hlock => exact hlock
  | begins | passes | prepares | cleans | commits => exact .inl hout

/-- Only a call that commits changes the metadata. -/
theorem Moves.versions : out.versions = fm ∨ ∃ v, p = .moving v := by
  cases h with
  | leaves | commits => exact .inr ⟨_, rfl⟩
  | _ => exact .inl rfl

theorem Moves.owns_holds
    (howns : Owns call p → held = true) (hout : Owns call out.phase) : out.holds = true := by
  cases h with
  | ends => cases hout
  | leaves => cases hout
  | begins hnone => simp [Owns, hnone] at hout
  | locks | owns => rfl
  | prepares => exact howns hout
  | passes | cleans | commits => exact howns trivial

theorem Moves.checking (hout : out.phase = .checking) : call.preconditions.isSome := by
  cases h with
  | locks hpre => exact hpre
  | owns => cases hkind : call.kind <;> simp [hkind, WriteKind.afterLock] at hout
  | _ => cases hout

/-- A call that has passed its check in this step or before has its conditions met. -/
theorem Moves.met (hmet : Passed p → Met codec call fm)
    (hcheck : ∀ pre answer, p = .checking → ev = .read answer → call.preconditions = some pre →
      checkWritePrecondition bucket object call.versioned pre answer = none → Met codec call fm)
    (hout : Passed out.phase) : Met codec call out.versions := by
  cases h with
  | ends => cases hout
  | leaves => cases hout
  | begins hnone =>
    intro pre hpre
    rw [hnone] at hpre
    cases hpre
  | locks => cases hout
  | passes hpre hpass => exact hcheck _ _ rfl rfl hpre hpass
  | prepares | owns | cleans => exact hmet trivial
  | commits => cases hout

end

end

section

variable {rt codec bucket object calls} {s : System B} {e : ℕ × Event B}

/-- A step does nothing, or it is a move of its call. -/
theorem step_cases (hlock : (calls e.1).noLock = false) :
    step rt codec bucket object calls s e = s ∨
      ∃ out, Moves rt codec bucket object (calls e.1) s.holder.isNone (s.holder == some e.1)
          s.versions (s.phase e.1) e.2 out ∧
        step rt codec bucket object calls s e =
          { versions := out.versions
            holder := if out.holds then some e.1 else if s.holder = some e.1 then none else s.holder
            phase := Function.update s.phase e.1 out.phase } := by
  unfold step
  split
  · exact .inl rfl
  · rename_i out hout
    exact .inr ⟨out, moves_of_taskStep hlock hout, rfl⟩

variable (codec calls) in
/-- A call between its check and its commit holds the lock, and its conditions are met. -/
structure Inv (s : System B) : Prop where
  owns : ∀ t, Owns (calls t) (s.phase t) → s.holder = some t
  met : ∀ t, Passed (s.phase t) → Met codec (calls t) s.versions
  conditional : ∀ t, s.phase t = .checking → (calls t).preconditions.isSome

theorem inv_initial (fm : FileMeta B) : Inv codec calls (initial fm) where
  owns _ h := h.elim
  met _ h := h.elim
  conditional _ h := nomatch h

/-- The check of a step that is sound sees the conditions met. -/
theorem Sound.met_of_check (h : Sound codec bucket object calls s e) {pre : HttpPreconditions}
    {a : Except StorageError FileInfo} (hphase : s.phase e.1 = .checking)
    (hev : e.2 = .read a) (hpre : (calls e.1).preconditions = some pre)
    (hcheck : checkWritePrecondition bucket object (calls e.1).versioned pre a = none) :
    Met codec (calls e.1) s.versions := by
  have hhonest := h.honest a hphase hev
  rw [h.latest (by simp [hpre])] at hhonest
  exact ConditionalWrite.met_of_check hpre hhonest
    (fun hmatch v hv => h.unmarked a pre v hphase hev hpre hmatch hv) hcheck

/-- While another call holds the lock, a step of call `e.1` leaves it the lock and the metadata. -/
theorem Moves.other {out : Outcome B} {t : ℕ} (hinv : Inv codec calls s) (ht : t ≠ e.1)
    (hholder : s.holder = some t)
    (h : Moves rt codec bucket object (calls e.1) s.holder.isNone (s.holder == some e.1)
      s.versions (s.phase e.1) e.2 out) : out.holds = false ∧ out.versions = s.versions := by
  have hother : (s.holder == some e.1) = false := by
    rw [hholder]
    simpa using ht
  constructor
  · cases hout : out.holds with
    | false => rfl
    | true =>
      rcases h.holds hout with hheld | hfree
      · rw [hother] at hheld
        cases hheld
      · simp [hholder] at hfree
  · rcases h.versions with heq | ⟨v, hv⟩
    · exact heq
    · have := hinv.owns e.1 (by rw [hv]; trivial)
      simp [this] at hother

theorem step_inv (hinv : Inv codec calls s) (hsound : Sound codec bucket object calls s e) :
    Inv codec calls (step rt codec bucket object calls s e) := by
  rcases step_cases hsound.locks with heq | ⟨out, hmove, heq⟩
  · rw [heq]
    exact hinv
  rw [heq]
  constructor
  · intro t howns
    by_cases ht : t = e.1
    · subst ht
      have hout := hmove.owns_holds (fun ho => by simp [hinv.owns _ ho]) (by simpa using howns)
      simp [hout]
    · have hholder := hinv.owns t (by simpa [ht] using howns)
      obtain ⟨hholds, -⟩ := hmove.other hinv ht hholder
      simp [hholds, hholder, ht]
  · intro t hpassed
    by_cases ht : t = e.1
    · subst ht
      exact hmove.met (hinv.met _)
        (fun pre answer hphase hev hpre hcheck => hsound.met_of_check hphase hev hpre hcheck)
        (by simpa using hpassed)
    · have hpassed' : Passed (s.phase t) := by simpa [ht] using hpassed
      intro pre hpre
      have howns := owns_of_passed (by simp [hpre] : (calls t).preconditions.isSome) hpassed'
      obtain ⟨-, hversions⟩ := hmove.other hinv ht (hinv.owns t howns)
      rw [hversions]
      exact hinv.met t hpassed' pre hpre
  · intro t hchecking
    by_cases ht : t = e.1
    · subst ht
      exact hmove.checking (by simpa using hchecking)
    · exact hinv.conditional t (by simpa [ht] using hchecking)

/-- A commit of the newest version leaves the key with an object. -/
theorem live_of_commit {v : ObjectVersion} {fm fm' : FileMeta B} (hnew : Newer fm v)
    (h : fm.addVersion rt codec v.fi = .ok fm') : fm'.Live := by
  have hobject : (ofFileInfo
      { v.fi with versionId := some (v.fi.versionId.getD Uuid.nil) }).versionType = .object := by
    simp [ofFileInfo, v.live]
  have htime : (ofFileInfo
      { v.fi with versionId := some (v.fi.versionId.getD Uuid.nil) }).getModTime = v.fi.modTime := by
    simp [ofFileInfo, v.live, getModTime, MetaObject.ofFileInfo]
  refine FileMeta.live_addVersionFilemata ?_ hobject h
  intro w hw
  rw [htime]
  refine hnew w ?_
  split at hw <;> exact hw

theorem step_live (hsound : Sound codec bucket object calls s e) (hlive : s.versions.Live) :
    (step rt codec bucket object calls s e).versions.Live := by
  rcases step_cases hsound.locks with heq | ⟨out, hmove, heq⟩
  · rw [heq]
    exact hlive
  rw [heq]
  obtain ⟨t, ev⟩ := e
  generalize hphase : s.phase t = phase at hmove
  cases hmove with
  | leaves => exact hsound.kept _ _ _ hphase rfl hlive
  | commits hadd => exact live_of_commit (hsound.newer _ hphase rfl) hadd
  | _ => exact hlive

theorem live_of_commits (hsound : Sound codec bucket object calls s e)
    (h : Commits rt codec s e) : (step rt codec bucket object calls s e).versions.Live := by
  obtain ⟨v, fm', hphase, hev, hadd⟩ := h
  have hstep : (step rt codec bucket object calls s e).versions = fm' := by
    simp [step, taskStep, hphase, hev, hadd]
  rw [hstep]
  exact live_of_commit (hsound.newer v hphase hev) hadd

theorem done_step {t : ℕ} (h : ∃ err, s.phase t = .done err) :
    ∃ err, (step rt codec bucket object calls s e).phase t = .done err := by
  obtain ⟨err, herr⟩ := h
  refine ⟨err, ?_⟩
  by_cases ht : t = e.1
  · subst ht
    simp [step, taskStep, herr]
  · unfold step
    split
    · exact herr
    · simpa [ht] using herr

/-- A call whose read of the metadata failed is at its end. -/
theorem done_of_failed {t : ℕ} {err : StorageError} (hphase : s.phase t = .checking)
    (hpre : (calls t).preconditions.isSome)
    (herr : saysAbsent (err.toObjectErr [bucket, object]) = false) :
    ∃ err', (step rt codec bucket object calls s (t, .read (.error err))).phase t = .done err' := by
  obtain ⟨pre, hpre⟩ := isSome_iff_exists.1 hpre
  refine ⟨some (err.toObjectErr [bucket, object]), ?_⟩
  simp [step, taskStep, hphase, hpre, checkWritePrecondition_failed herr, finish]

variable {fm} {steps : List (ℕ × Event B)}

theorem inv_run
    (h : Run.Along (step rt codec bucket object calls) (Sound codec bucket object calls)
      (initial fm) steps) :
    Inv codec calls (steps.foldl (step rt codec bucket object calls) (initial fm)) :=
  invariant (fun _ _ => step_inv) h (inv_initial fm)

/-- Along every run whose steps are sound, calls commit only where their conditions are met. -/
theorem conditionalWrites_obey
    (h : Run.Along (step rt codec bucket object calls) (Sound codec bucket object calls)
      (initial fm) steps) :
    Obeys rt codec bucket object calls (initial fm) steps := by
  have hmet : ∀ pre e post, steps = pre ++ e :: post →
      Commits rt codec (pre.foldl (step rt codec bucket object calls) (initial fm)) e →
      Met codec (calls e.1)
        (pre.foldl (step rt codec bucket object calls) (initial fm)).versions := by
    rintro pre e post rfl ⟨v, fm', hphase, -⟩
    refine (inv_run (along_append.1 h).1).met e.1 ?_
    rw [hphase]
    trivial
  refine ⟨hmet, ?_, ?_⟩
  · rintro pre e mid e' post rfl hcommit hcommit' - ⟨cond, condition, hpre, hnone, hany⟩
    obtain ⟨-, hsound, hmid⟩ := along_append.1 (along_append.1 h).1
    have hlive : ((pre ++ e :: mid).foldl (step rt codec bucket object calls)
        (initial fm)).versions.Live := by
      rw [foldl_append, foldl_cons]
      exact invariant (I := fun s : System B => s.versions.Live)
        (fun _ _ hlive hsound => step_live hsound hlive) hmid (live_of_commits hsound hcommit)
    exact ((hmet _ e' post rfl hcommit') cond hpre).1 condition hnone hany hlive
  · rintro pre t err mid ev post rfl hphase herr ⟨v, fm', hmoving, -⟩
    have hinv := inv_run (along_append.1 (along_append.1 h).1).1
    have hdone : ∃ err', ((pre ++ (t, Event.read (.error err)) :: mid).foldl
        (step rt codec bucket object calls) (initial fm)).phase t = .done err' := by
      rw [foldl_append, foldl_cons]
      exact invariant_of_step (I := fun s : System B => ∃ err', s.phase t = .done err')
        (fun _ _ => done_step) (done_of_failed hphase (hinv.conditional t hphase) herr)
    obtain ⟨err', hdone⟩ := hdone
    rw [hdone] at hmoving
    cases hmoving

end

section

open FileMeta (restingRuntime plainCodec)

def newObject : ObjectVersion where
  fi := { versionId := some 2, modTime := some 20 }
  live := rfl

/-- A call with a condition that takes the lock, is answered by the read, and commits. -/
def commitAfter (answer : Except StorageError FileInfo) : List (ℕ × Event FileMetaVersion) :=
  [(0, .lock none), (0, .read answer), (0, .prepare (.ok newObject)), (0, .go), (0, .rename none)]

def createOnly : WriteCall := { preconditions := some { ifNoneMatch := some "*" } }

/-- Two calls that race to create a key: the second asks for the lock while the first holds it, has to
wait, and is answered with the version of the first when its turn comes. -/
def race : List (ℕ × Event FileMetaVersion) :=
  [(0, .lock none), (1, .lock none), (0, .read (.error .fileNotFound)),
    (0, .prepare (.ok newObject)), (1, .go), (0, .go), (0, .rename none), (0, .commit none),
    (1, .lock none), (1, .read (.ok newObject.fi))]

/-- Two writes with `If-None-Match: *` that race on a key without versions. -/
theorem conditionalWrites_obey_create :
    Obeys restingRuntime plainCodec "bucket" "key" (fun _ => createOnly) (initial {}) race := by
  have hquiet : ∀ (s : System FileMetaVersion) (e : ℕ × Event FileMetaVersion),
      (∀ answer, e.2 ≠ .read answer) → (∀ failure, e.2 ≠ .rename failure) →
      Sound plainCodec "bucket" "key" (fun _ => createOnly) s e := fun s e hread hrename =>
    ⟨rfl, fun _ => rfl, fun _ _ hev => absurd hev (hread _), fun _ _ _ _ hev => absurd hev (hread _),
      fun _ _ hev => absurd hev (hrename _), fun _ _ _ _ hev => absurd hev (hrename _)⟩
  have hread : ∀ (s : System FileMetaVersion) (t : ℕ) (answer : Except StorageError FileInfo),
      Honest plainCodec "bucket" "key" s.versions none answer →
      Sound plainCodec "bucket" "key" (fun _ => createOnly) s (t, .read answer) := by
    intro s t answer hhonest
    refine ⟨rfl, fun _ => rfl, fun _ _ hev => ?_, fun _ pre v _ hev hpre hmatch _ => ?_,
      fun v _ hev => (nomatch hev), fun v err left _ hev => (nomatch hev)⟩
    · cases hev
      exact hhonest
    · cases hpre
      cases hmatch
  refine conditionalWrites_obey ⟨hquiet _ _ ?_ ?_, hquiet _ _ ?_ ?_, hread _ _ _ fun _ => rfl,
    hquiet _ _ ?_ ?_, hquiet _ _ ?_ ?_, hquiet _ _ ?_ ?_, ?_, hquiet _ _ ?_ ?_, hquiet _ _ ?_ ?_,
    hread _ _ _ ⟨.ofVersion restingRuntime plainCodec (.ofFileInfo newObject.fi), rfl, by decide,
      fun _ => by decide⟩, trivial⟩
  all_goals try (intro _ h; cases h)
  refine ⟨rfl, fun _ => rfl, fun answer _ hev => (nomatch hev),
    fun answer pre v _ hev => (nomatch hev), fun v _ _ w hw => (nomatch hw),
    fun v err left _ hev => (nomatch hev)⟩

def marker : FileMetaVersion where
  versionType := .delete
  deleteMarker := some { versionId := some 1, modTime := some 10 }

/-- The metadata of a key whose latest version is a delete marker. -/
def deletedKey : FileMeta FileMetaVersion :=
  { versions := [.ofVersion restingRuntime plainCodec marker] }

def ifMatch : WriteCall := { preconditions := some { ifMatch := some "etag" } }

/-- A write with `If-Match` to a key that is deleted goes on and commits; and a write without the lock
commits between the check and the commit of one with `If-None-Match: *`. -/
theorem conditionalWrites_disobey :
    ¬Obeys restingRuntime plainCodec "bucket" "key" (fun _ => ifMatch) (initial deletedKey)
      (commitAfter (.ok { deleted := true, versionId := some 1, modTime := some 10 })) ∧
    ¬Obeys restingRuntime plainCodec "bucket" "key"
      (fun t => if t = 0 then createOnly else { noLock := true }) (initial {})
      [(0, .lock none), (0, .read (.error .fileNotFound)), (0, .prepare (.ok newObject)), (1, .go),
        (1, .prepare (.ok newObject)), (1, .go), (1, .rename none), (0, .go), (0, .rename none)] := by
  constructor
  · intro h
    have hmet := h.met
      [(0, .lock none), (0, .read (.ok { deleted := true, versionId := some 1, modTime := some 10 })),
        (0, .prepare (.ok newObject)), (0, .go)] (0, .rename none) [] rfl
      ⟨newObject, _, rfl, rfl, rfl⟩
    obtain ⟨v, etag, hv, hlive, -⟩ := (hmet _ rfl).2 "etag" rfl
    cases hv
    exact hlive rfl
  · intro h
    have hmet := h.met
      [(0, .lock none), (0, .read (.error .fileNotFound)), (0, .prepare (.ok newObject)), (1, .go),
        (1, .prepare (.ok newObject)), (1, .go), (1, .rename none), (0, .go)] (0, .rename none) [] rfl
      ⟨newObject, _, rfl, rfl, rfl⟩
    exact (hmet _ rfl).1 "*" rfl rfl ⟨.ofVersion restingRuntime plainCodec (.ofFileInfo newObject.fi),
      rfl, by decide⟩

end

end ConditionalWrite

end Rustfs
