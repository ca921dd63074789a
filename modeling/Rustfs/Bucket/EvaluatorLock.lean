import Rustfs.Bucket.Lifecycle
import Rustfs.Bucket.LifecycleRules

/-! The lifecycle events of all versions of an object, and whether they remove versions that a lock
keeps from being deleted. -/
namespace Rustfs.Lifecycle

open ObjectLock

structure ObjectLockConfiguration where
  objectLockEnabled : Option String := none
  /-- The default retention of the rule, if there is a rule and it has one. -/
  defaultRetention : Option DefaultRetention := none

structure Evaluator where
  policy : BucketLifecycleConfiguration
  lockRetention : Option ObjectLockConfiguration := none
  /-- Whether the replication of the bucket has an active rule for an object. -/
  hasActiveRules : String → Bool := fun _ => false

/-- Every version of the object is removed. -/
def IlmAction.deleteAll : IlmAction → Bool
  | .deleteAllVersionsAction | .delMarkerDeleteAllVersionsAction => true
  | _ => false

/-- The error of `eval`, with the numbers its text has. -/
structure VersionsMismatch where
  expected : ℕ
  got : ℕ

namespace Evaluator

variable (cal : Calendar) (ntp : Time) (self : Evaluator) (obj : ObjectOpts)

def isPendingReplication : Bool :=
  self.hasActiveRules obj.name && obj.versionPurgeStatus != .empty

def lockEnabled : Bool := self.lockRetention.any fun v => v.objectLockEnabled == some "Enabled"

def isObjectLocked : Bool :=
  self.lockEnabled && isObjectLockedByMetadata cal ntp obj.userDefined obj.deleteMarker

/-- What is left of an event that does not end the loop. -/
def guardEvent (event : Event) : Event :=
  match event.action with
  | .deleteAllVersionsAction | .delMarkerDeleteAllVersionsAction => {}
  | .deleteVersionAction | .deleteRestoredVersionAction =>
    if self.isObjectLocked cal ntp obj || self.isPendingReplication obj then {}
    else if obj.isNull then { event with action := .noneAction }
    else event
  | _ => event

/-- The versions that are spared are counted. -/
def spared (event : Event) (newer : ℕ) : ℕ :=
  if obj.isLatest || event.action == .deleteVersionAction then newer else newer + 1

/-- Each version has a sort of its own, since what it leaves is not said. -/
def evalLoop (clock now : Time) : (ℕ → SortBy) → ℕ → List ObjectOpts → Option (List Event)
  | _, _, [] => some []
  | sorts, newer, obj :: objs =>
    match evalInner (sorts 0) clock self.policy obj now newer with
    | none => none
    | some event =>
      if event.action.deleteAll && !self.lockEnabled then
        some (event :: objs.map fun _ => {})
      else
        let event := self.guardEvent cal ntp obj event
        (event :: ·) <$> evalLoop clock now (fun i => sorts (i + 1)) (spared obj event newer) objs

/-- None if an evaluation panics. -/
def eval (sorts : ℕ → SortBy) (clock now : Time) (objs : List ObjectOpts) :
    Option (Except VersionsMismatch (List Event)) :=
  match objs with
  | [] => some (.ok [])
  | first :: rest =>
    if (first :: rest).length ≠ first.numVersions then
      some (.error ⟨first.numVersions, (first :: rest).length⟩)
    else .ok <$> self.evalLoop cal ntp clock now sorts 0 (first :: rest)

end Evaluator

end Rustfs.Lifecycle

namespace Rustfs.Lifecycle

open ObjectLock IlmAction List

def ObjectOpts.stored (obj : ObjectOpts) : StoredVersion where
  id := obj.versionId.getD Uuid.nil
  deleteMarker := obj.deleteMarker
  userDefined := obj.userDefined
  modTime := obj.modTime

namespace Evaluator

variable (cal : Calendar) (ntp : Time) (self : Evaluator)

/-- A request to delete the version would be refused. -/
def Refused (obj : ObjectOpts) : Prop :=
  checkObjectLockForDeletion cal ntp (self.lockRetention.bind (·.defaultRetention)) obj.stored
    false ≠ none

/-- In a bucket without enabled versioning, a deletion that names no version takes the null version. -/
def NullLost (versioned : Bool) (all : List ObjectOpts) (action : IlmAction) : Prop :=
  action = .deleteAction ∧ versioned = false ∧ ∃ v ∈ all, v.isNull = true ∧ self.Refused cal ntp v

/-- The event of a version removes a version that may not be deleted. -/
def Harms (versioned : Bool) (all : List ObjectOpts) (p : ObjectOpts × Event) : Prop :=
  p.2.action = .deleteVersionAction ∧ self.Refused cal ntp p.1 ∨
    self.NullLost cal ntp versioned all p.2.action ∨
    p.2.action.deleteAll = true ∧ ∃ v ∈ all, self.Refused cal ntp v

variable (versioned : Bool) (clock now : Time)

/-- Whatever the sorts leave, no event removes a version that may not be deleted. -/
def KeepsLocks (objs : List ObjectOpts) : Prop :=
  ∀ sorts events, self.eval cal ntp sorts clock now objs = some (.ok events) →
    ∀ p ∈ objs.zip events, ¬self.Harms cal ntp versioned objs p

/-- A delete marker goes with all versions, and the loop ends. -/
def Wipes (obj : ObjectOpts) : Prop :=
  self.lockEnabled = false ∧
    ∃ event, Yields clock self.policy obj now event ∧ event.action.deleteAll = true

def GoesOn (obj : ObjectOpts) : Prop :=
  ∃ event, Yields clock self.policy obj now event ∧
    (event.action.deleteAll = true → self.lockEnabled = true)

/-- An event of the version removes it, and is not held back. -/
def TakenAway (obj : ObjectOpts) (event : Event) : Prop :=
  event.action = .deleteVersionAction ∧ obj.isNull = false ∧
    self.isObjectLocked cal ntp obj = false ∧ self.isPendingReplication obj = false

/-- The versions can be evaluated to the end. -/
def Finishes : List ObjectOpts → Prop
  | [] => True
  | obj :: objs => self.Wipes clock now obj ∨ self.GoesOn clock now obj ∧ Finishes objs

/-- One of the versions loses a version that may not be deleted. -/
def Endangers (all : List ObjectOpts) : List ObjectOpts → Prop
  | [] => False
  | obj :: objs =>
    self.Wipes clock now obj ∧ (∃ v ∈ all, self.Refused cal ntp v) ∨
    (∃ event, Yields clock self.policy obj now event ∧
      (self.TakenAway cal ntp obj event ∧ self.Refused cal ntp obj ∨
        self.NullLost cal ntp versioned all event.action)) ∧ self.Finishes clock now objs ∨
    self.GoesOn clock now obj ∧ Endangers all objs

variable {cal ntp self versioned clock now} {obj : ObjectOpts} {objs : List ObjectOpts}
  {e : Event} {n : ℕ}

/-! The two guards. -/

theorem deleteAll_guardEvent : (self.guardEvent cal ntp obj e).action.deleteAll = false := by
  unfold guardEvent
  cases haction : e.action with
  | deleteVersionAction | deleteRestoredVersionAction =>
    dsimp only
    split
    · rfl
    · split
      · rfl
      · rw [haction]
        rfl
  | deleteAllVersionsAction => rfl
  | delMarkerDeleteAllVersionsAction => rfl
  | noneAction | deleteAction | transitionAction | transitionVersionAction
  | deleteRestoredAction => simp [haction, deleteAll]

/-- What removes the version after the guards is what removes it and is not held back; a plain
deletion is not guarded. -/
theorem action_guardEvent :
    ((self.guardEvent cal ntp obj e).action = .deleteVersionAction ↔ self.TakenAway cal ntp obj e) ∧
      ((self.guardEvent cal ntp obj e).action = .deleteAction ↔ e.action = .deleteAction) := by
  unfold guardEvent TakenAway
  cases haction : e.action with
  | deleteVersionAction | deleteRestoredVersionAction =>
    cases self.isObjectLocked cal ntp obj <;> cases self.isPendingReplication obj <;>
      cases obj.isNull <;> simp [haction]
  | deleteAllVersionsAction => simp
  | delMarkerDeleteAllVersionsAction => simp
  | noneAction | deleteAction | transitionAction | transitionVersionAction
  | deleteRestoredAction => simp [haction]

/-! The loop over the versions. -/

variable {sorts : ℕ → SortBy}

theorem evalLoop_cons {es : List Event} :
    self.evalLoop cal ntp clock now sorts n (obj :: objs) = some es ↔
      ∃ e, evalInner (sorts 0) clock self.policy obj now n = some e ∧
        ((e.action.deleteAll = true ∧ self.lockEnabled = false) ∧
            es = e :: objs.map (fun _ => {}) ∨
          (e.action.deleteAll = true → self.lockEnabled = true) ∧
            ∃ rest, self.evalLoop cal ntp clock now (fun i => sorts (i + 1))
                (spared obj (self.guardEvent cal ntp obj e) n) objs = some rest ∧
              es = self.guardEvent cal ntp obj e :: rest) := by
  rw [evalLoop]
  cases evalInner (sorts 0) clock self.policy obj now n with
  | none => simp
  | some e =>
    dsimp only
    constructor
    · intro h
      refine ⟨e, rfl, ?_⟩
      split_ifs at h with hif
      · cases h
        exact .inl ⟨by simpa using hif, rfl⟩
      · obtain ⟨rest, hrest, rfl⟩ := Option.map_eq_some_iff.1 h
        exact .inr ⟨fun hall => by simpa [hall] using hif, rest, hrest, rfl⟩
    · rintro ⟨_, ⟨⟩, ⟨⟨hall, hlock⟩, rfl⟩ | ⟨hgo, rest, hrest, rfl⟩⟩
      · rw [if_pos (by simp [hall, hlock])]
      · rw [if_neg (by simpa using hgo)]
        exact Option.map_eq_some_iff.2 ⟨rest, hrest, rfl⟩

theorem evalLoop_wipe (hyields : Yields clock self.policy obj now e)
    (hall : e.action.deleteAll = true) (hlock : self.lockEnabled = false) :
    ∃ sorts, self.evalLoop cal ntp clock now sorts n (obj :: objs) =
      some (e :: objs.map fun _ => {}) :=
  ⟨fun _ => .bring e,
    evalLoop_cons.2 ⟨e, evalInner_of_yields hyields, .inl ⟨⟨hall, hlock⟩, rfl⟩⟩⟩

/-- The first version has a sort of its own, the others have those of the rest. -/
theorem evalLoop_goOn {rs : List Event} (hyields : Yields clock self.policy obj now e)
    (hgo : e.action.deleteAll = true → self.lockEnabled = true)
    (hrest : self.evalLoop cal ntp clock now sorts
      (spared obj (self.guardEvent cal ntp obj e) n) objs = some rs) :
    ∃ sorts, self.evalLoop cal ntp clock now sorts n (obj :: objs) =
      some (self.guardEvent cal ntp obj e :: rs) :=
  ⟨fun i => i.casesOn (.bring e) sorts,
    evalLoop_cons.2 ⟨e, evalInner_of_yields hyields, .inr ⟨hgo, rs, hrest, rfl⟩⟩⟩

theorem finishes_iff :
    (∃ sorts events, self.evalLoop cal ntp clock now sorts n objs = some events) ↔
      self.Finishes clock now objs := by
  induction objs generalizing n with
  | nil => exact ⟨fun _ => trivial, fun _ => ⟨fun _ => .insertion, [], rfl⟩⟩
  | cons obj objs ih =>
    constructor
    · rintro ⟨sorts, events, h⟩
      obtain ⟨e, heval, ⟨⟨hall, hlock⟩, _⟩ | ⟨hgo, rest, hrest, _⟩⟩ := evalLoop_cons.1 h
      · exact .inl ⟨hlock, e, yields_of_evalInner heval, hall⟩
      · exact .inr ⟨⟨e, yields_of_evalInner heval, hgo⟩, ih.1 ⟨_, rest, hrest⟩⟩
    · rintro (⟨hlock, e, hyields, hall⟩ | ⟨⟨e, hyields, hgo⟩, hfinishes⟩)
      · obtain ⟨sorts, h⟩ := evalLoop_wipe hyields hall hlock
        exact ⟨sorts, _, h⟩
      · obtain ⟨sorts, rest, hrest⟩ := ih.2 hfinishes
        obtain ⟨sorts, h⟩ := evalLoop_goOn hyields hgo hrest
        exact ⟨sorts, _, h⟩

variable {all : List ObjectOpts}

theorem harms_wipe (hall : e.action.deleteAll = true) :
    self.Harms cal ntp versioned all (obj, e) ↔ ∃ v ∈ all, self.Refused cal ntp v := by
  constructor
  · rintro (⟨haction, _⟩ | ⟨haction, _⟩ | ⟨_, h⟩)
    · exact absurd hall (by simp [show e.action = _ from haction, deleteAll])
    · exact absurd hall (by simp [show e.action = _ from haction, deleteAll])
    · exact h
  · exact fun h => .inr (.inr ⟨hall, h⟩)

theorem harms_goOn : self.Harms cal ntp versioned all (obj, self.guardEvent cal ntp obj e) ↔
      self.TakenAway cal ntp obj e ∧ self.Refused cal ntp obj ∨
        self.NullLost cal ntp versioned all e.action := by
  unfold Harms NullLost
  rw [action_guardEvent.1, action_guardEvent.2, deleteAll_guardEvent]
  simp

theorem not_harms_none {p : ObjectOpts × Event}
    (h : p ∈ objs.zip (objs.map fun _ => ({} : Event))) : ¬self.Harms cal ntp versioned all p := by
  obtain ⟨_, _, hnone⟩ := mem_map.1 (of_mem_zip h).2
  unfold Harms NullLost
  simp [← hnone, deleteAll]

theorem endangers_iff :
    (∃ sorts events, self.evalLoop cal ntp clock now sorts n objs = some events ∧
        ∃ p ∈ objs.zip events, self.Harms cal ntp versioned all p) ↔
      self.Endangers cal ntp versioned clock now all objs := by
  induction objs generalizing n with
  | nil => simp [Endangers]
  | cons obj objs ih =>
    constructor
    · rintro ⟨sorts, events, h, p, hp, hharms⟩
      obtain ⟨e, heval, ⟨⟨hall, hlock⟩, rfl⟩ | ⟨hgo, rest, hrest, rfl⟩⟩ := evalLoop_cons.1 h
      · obtain rfl | hp := mem_cons.1 hp
        · exact .inl ⟨⟨hlock, e, yields_of_evalInner heval, hall⟩, (harms_wipe hall).1 hharms⟩
        · exact absurd hharms (not_harms_none hp)
      · obtain rfl | hp := mem_cons.1 hp
        · exact .inr (.inl ⟨⟨e, yields_of_evalInner heval, harms_goOn.1 hharms⟩,
            finishes_iff.1 ⟨_, rest, hrest⟩⟩)
        · exact .inr (.inr ⟨⟨e, yields_of_evalInner heval, hgo⟩,
            ih.1 ⟨_, rest, hrest, p, hp, hharms⟩⟩)
    · rintro (⟨⟨hlock, e, hyields, hall⟩, hrefused⟩ |
        ⟨⟨e, hyields, htaken⟩, hfinishes⟩ | ⟨⟨e, hyields, hgo⟩, hrest⟩)
      · obtain ⟨sorts, h⟩ := evalLoop_wipe hyields hall hlock
        exact ⟨sorts, _, h, _, mem_cons_self, (harms_wipe hall).2 hrefused⟩
      · have hgo : e.action.deleteAll = true → self.lockEnabled = true := by
          obtain ⟨⟨haction, _⟩, _⟩ | ⟨haction, _⟩ := htaken <;> simp [haction, deleteAll]
        obtain ⟨sorts, rest, hrest⟩ := finishes_iff.2 hfinishes
        obtain ⟨sorts, h⟩ := evalLoop_goOn hyields hgo hrest
        exact ⟨sorts, _, h, _, mem_cons_self, harms_goOn.2 htaken⟩
      · obtain ⟨sorts, rest, hloop, p, hp, hharms⟩ := ih.2 hrest
        obtain ⟨sorts, h⟩ := evalLoop_goOn hyields hgo hloop
        exact ⟨sorts, _, h, p, mem_cons_of_mem _ hp, hharms⟩

/-- The lifecycle keeps the locks exactly if it endangers none of the versions. -/
theorem eval_keepsLocks_iff :
    self.KeepsLocks cal ntp versioned clock now objs ↔
      ∀ first, objs.head? = some first → objs.length = first.numVersions →
        ¬self.Endangers cal ntp versioned clock now objs objs := by
  constructor
  · intro h first hfirst hlength hdanger
    have hruns : ∃ sorts events, self.evalLoop cal ntp clock now sorts 0 objs = some events ∧ _ :=
      endangers_iff.2 hdanger
    obtain ⟨sorts, events, hloop, p, hp, hharms⟩ := hruns
    refine h sorts events ?_ p hp hharms
    cases objs with
    | nil => simp at hfirst
    | cons obj objs =>
      cases hfirst
      rw [eval, if_neg (not_not.2 hlength), hloop]
      rfl
  · intro h sorts events heval p hp hharms
    cases objs with
    | nil => simp at hp
    | cons obj objs =>
      rw [eval] at heval
      split_ifs at heval with hlength
      · exact nomatch heval
      · obtain ⟨_, hloop, hok⟩ := Option.map_eq_some_iff.1 heval
        cases hok
        exact h obj rfl (not_not.1 hlength) (endangers_iff.1 ⟨sorts, events, hloop, p, hp, hharms⟩)

/-! A bucket that keeps its objects for a month, and a rule that removes old versions. -/

def plainCalendar : Calendar where
  toUppercase s := s
  parseIso8601 _ := none
  formatRfc3339 _ := none
  display _ := ""
  stamp _ := ""
  addYears t _ := t
  uppercase_compliance := rfl
  uppercase_governance := rfl
  uppercase_empty := rfl
  parse_format _ _ h := (nomatch h)
  parse_empty := rfl

def keepingMonth : Evaluator where
  policy := ⟨[{ status := "Enabled",
                noncurrentVersionExpiration := some { noncurrentDays := some 1 } }]⟩
  lockRetention := some
    { objectLockEnabled := some "Enabled", defaultRetention := some ⟨some governance, some 30, none⟩ }

def currentVersion : ObjectOpts where
  name := "a"
  modTime := some 1000000000
  versionId := some 2
  isLatest := true
  numVersions := 2

def replacedVersion : ObjectOpts where
  name := "a"
  modTime := some 1000000000
  versionId := some 1
  isLatest := false
  numVersions := 2
  successorModTime := some 1000000000

theorem eval_ignores_default_retention :
    keepingMonth.eval plainCalendar (2 * day) (fun _ => .insertion) (2 * day) (2 * day)
        [currentVersion, replacedVersion] =
      some (.ok [{}, { action := .deleteVersionAction, due := some 86401000000000 }]) ∧
    checkObjectLockForDeletion plainCalendar (2 * day)
        (keepingMonth.lockRetention.bind (·.defaultRetention)) replacedVersion.stored false =
      some (.retention governance (some 2592001000000000)) ∧
    ¬keepingMonth.KeepsLocks plainCalendar (2 * day) true (2 * day) (2 * day)
      [currentVersion, replacedVersion] := by
  have heval : keepingMonth.eval plainCalendar (2 * day) (fun _ => .insertion) (2 * day) (2 * day)
      [currentVersion, replacedVersion] =
      some (.ok [{}, { action := .deleteVersionAction, due := some 86401000000000 }]) := by
    rfl
  have hcheck : checkObjectLockForDeletion plainCalendar (2 * day)
      (keepingMonth.lockRetention.bind (·.defaultRetention)) replacedVersion.stored false =
      some (.retention governance (some 2592001000000000)) := by decide +kernel
  refine ⟨heval, hcheck, fun h => ?_⟩
  refine h _ _ heval (replacedVersion, _) (mem_cons_of_mem _ mem_cons_self)
    (.inl ⟨rfl, ?_⟩)
  rw [Refused, hcheck]
  exact Option.some_ne_none _

end Evaluator

end Rustfs.Lifecycle
