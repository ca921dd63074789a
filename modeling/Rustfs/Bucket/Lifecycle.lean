import Rustfs.Bucket.ObjectLock

/-! The lifecycle rules of a bucket, and the action that they ask for on a version. -/
namespace Rustfs.Lifecycle

inductive IlmAction where
  | noneAction | deleteAction | deleteVersionAction | transitionAction | transitionVersionAction
  | deleteRestoredAction | deleteRestoredVersionAction | deleteAllVersionsAction
  | delMarkerDeleteAllVersionsAction
  deriving DecidableEq

structure Tag where
  key : Option String
  value : Option String
  deriving DecidableEq

structure LifecycleRuleAndOperator where
  objectSizeGreaterThan : Option ℤ := none
  objectSizeLessThan : Option ℤ := none
  pathPrefix : Option String := none
  tags : Option (List Tag) := none
  deriving DecidableEq

structure LifecycleRuleFilter where
  and : Option LifecycleRuleAndOperator := none
  objectSizeGreaterThan : Option ℤ := none
  objectSizeLessThan : Option ℤ := none
  pathPrefix : Option String := none
  tag : Option Tag := none
  deriving DecidableEq

structure LifecycleExpiration where
  date : Option Time := none
  days : Option ℤ := none
  expiredObjectDeleteMarker : Option Bool := none
  deriving DecidableEq

structure NoncurrentVersionExpiration where
  newerNoncurrentVersions : Option ℤ := none
  noncurrentDays : Option ℤ := none
  deriving DecidableEq

structure NoncurrentVersionTransition where
  noncurrentDays : Option ℤ := none
  storageClass : Option String := none
  deriving DecidableEq

structure Transition where
  date : Option Time := none
  days : Option ℤ := none
  storageClass : Option String := none
  deriving DecidableEq

structure LifecycleRule where
  id : Option String := none
  status : String
  pathPrefix : Option String := none
  filter : Option LifecycleRuleFilter := none
  expiration : Option LifecycleExpiration := none
  noncurrentVersionExpiration : Option NoncurrentVersionExpiration := none
  noncurrentVersionTransitions : Option (List NoncurrentVersionTransition) := none
  transitions : Option (List Transition) := none
  deriving DecidableEq

structure BucketLifecycleConfiguration where
  rules : List LifecycleRule

structure ObjectOpts where
  name : String
  userTags : String := ""
  modTime : Option Time
  size : ℕ := 0
  versionId : Option Uuid := none
  isLatest : Bool
  deleteMarker : Bool := false
  numVersions : ℕ := 1
  successorModTime : Option Time := none
  transitionStatus : String := ""
  restoreExpires : Option Time := none
  userDefined : ObjectLock.Metadata := ∅
  versionPurgeStatus : VersionPurgeStatusType := .empty

def ObjectOpts.expiredObjectDeletemarker (self : ObjectOpts) : Bool :=
  self.deleteMarker && self.numVersions == 1

/-- The version has no id, as in a bucket without versions. -/
def ObjectOpts.isNull (self : ObjectOpts) : Bool := self.versionId.all (· == Uuid.nil)

structure Event where
  action : IlmAction := .noneAction
  ruleId : String := ""
  due : Option Time := some 0
  noncurrentDays : ℕ := 0
  newerNoncurrentVersions : ℕ := 0
  storageClass : String := ""
  deriving DecidableEq

def transitionComplete : String := "complete"

/-- Without days the time is the epoch, which has passed. -/
def expectedExpiryTime (modTime : Time) (days : ℤ) : Time :=
  if days = 0 then 0 else saturatingAdd modTime (days * day)

section

variable (clock : Time) (obj : ObjectOpts)

def LifecycleExpiration.nextDue (self : LifecycleExpiration) : Option Time :=
  if !obj.isLatest || !obj.deleteMarker then none
  else self.days.bind fun days => obj.modTime.map (expectedExpiryTime · days)

/-- Where the time of the next version is not known, the time of day stands for it. -/
def NoncurrentVersionTransition.nextDue (self : NoncurrentVersionTransition) : Option Time :=
  if obj.isLatest || self.storageClass.isNone then none
  else
    match self.noncurrentDays with
    | some days => some (expectedExpiryTime (obj.successorModTime.getD clock) days)
    | none => obj.successorModTime

/-- A date counts only beside days. -/
def Transition.nextDue (self : Transition) : Option Time :=
  if !obj.isLatest then none
  else
    match self.days with
    | none => none
    | some days => self.date.or (obj.modTime.map (expectedExpiryTime · days))

end

def hasPrefix (start name : String) : Bool := start.toList.isPrefixOf name.toList

/-- Of the rules for an object, only the status and the prefix of the rule itself are looked at. -/
def filterRules (self : BucketLifecycleConfiguration) (obj : ObjectOpts) :
    Option (List LifecycleRule) :=
  if obj.name = "" then none
  else some (self.rules.filter fun rule =>
    rule.status != "Disabled" && rule.pathPrefix.all (hasPrefix · obj.name))

section

variable (clock : Time) (obj : ObjectOpts) (now modTime : Time) (rule : LifecycleRule)

def LifecycleRule.ruleId : String := rule.id.getD ""

/-- The only version is a delete marker, and the rule removes it. No other rule is tried then. -/
def soleMarkerEvent : Option Event :=
  if !obj.expiredObjectDeletemarker then none
  else
    match rule.expiration with
    | none => none
    | some expiration =>
      match expiration.expiredObjectDeleteMarker, expiration.days with
      -- whether the element says true or false is not looked at
      | some _, _ => some { action := .deleteVersionAction, ruleId := rule.ruleId, due := some now }
      | none, some days =>
        let expectedExpiry := expectedExpiryTime modTime days
        if expectedExpiry.unixTimestamp ≤ now.unixTimestamp then
          some { action := .deleteVersionAction, ruleId := rule.ruleId, due := some expectedExpiry }
        else none
      | none, none => none

/-- For a delete marker on top of other versions. The rule asks for nothing else then. -/
def markerEvents : Option (List Event) :=
  match rule.expiration with
  | none => none
  | some expiration =>
    if obj.isLatest && obj.deleteMarker && expiration.expiredObjectDeleteMarker == some true then
      match expiration.nextDue obj with
      | none => some []
      | some due =>
        if due.unixTimestamp ≤ now.unixTimestamp then
          some [{ action := .delMarkerDeleteAllVersionsAction, ruleId := rule.ruleId,
                  due := some due }]
        else some []
    else none

/-- A rule that keeps newer versions asks for nothing here on versions that are not the latest. -/
def keepsNewer : Bool :=
  !obj.isLatest && rule.noncurrentVersionExpiration.any fun expiration =>
    expiration.newerNoncurrentVersions.any (0 < ·)

def noncurrentExpirationEvents : List Event :=
  if obj.isLatest then []
  else
    match rule.noncurrentVersionExpiration.bind (·.noncurrentDays), obj.successorModTime with
    | some days, some successorModTime =>
      let expectedExpiry := expectedExpiryTime successorModTime days
      if days ≠ 0 ∧ expectedExpiry.unixTimestamp ≤ now.unixTimestamp then
        [{ action := .deleteVersionAction, ruleId := rule.ruleId, due := some expectedExpiry }]
      else []
    | _, _ => []

/-- At the epoch itself every time has passed. -/
def hasPassed (due : Time) : Bool :=
  now.unixTimestamp == 0 || due.unixTimestamp < now.unixTimestamp

/-- The first of the transitions is taken without a look at how many there are. -/
def noncurrentTransitionEvents : Option (List Event) :=
  if obj.isLatest then some []
  else
    match rule.noncurrentVersionTransitions with
    | none => some []
    | some [] => none
    | some (transition :: _) =>
      match transition.storageClass with
      | none => some []
      | some storageClass =>
        if storageClass != "" && !obj.deleteMarker && obj.transitionStatus != transitionComplete then
          match transition.nextDue clock obj with
          | none => some []
          | some due =>
            if hasPassed now due then
              some [{ action := .transitionVersionAction, ruleId := rule.ruleId, due := some due,
                      storageClass := storageClass }]
            else some []
        else some []

/-- Objects that are the latest, and objects without versions. -/
def mayExpire : Bool := (obj.isLatest || obj.isNull) && !obj.deleteMarker

def expirationEvents : List Event :=
  match rule.expiration with
  | none => []
  | some expiration =>
    match expiration.date, expiration.days with
    | some date, _ =>
      if date.unixTimestamp ≠ 0 ∧ date.unixTimestamp ≤ now.unixTimestamp then
        [{ action := .deleteAction, ruleId := rule.ruleId, due := some date }]
      else []
    | none, some days =>
      let expectedExpiry := expectedExpiryTime modTime days
      if expectedExpiry.unixTimestamp ≤ now.unixTimestamp then
        [{ action := .deleteAction, ruleId := rule.ruleId, due := some expectedExpiry }]
      else []
    | none, none => []

def transitionEvents : Option (List Event) :=
  if obj.transitionStatus = transitionComplete then some []
  else
    match rule.transitions with
    | none => some []
    | some [] => none
    | some (transition :: _) =>
      match transition.nextDue obj with
      | none => some []
      | some due =>
        if hasPassed now due then
          some [{ action := .transitionAction, ruleId := rule.ruleId, due := some due,
                  storageClass := transition.storageClass.getD "" }]
        else some []

/-- The events of one rule, and whether the others are left out. -/
def ruleStep : Option (List Event × Bool) :=
  match soleMarkerEvent obj now modTime rule with
  | some event => some ([event], true)
  | none =>
    match markerEvents obj now rule with
    | some events => some (events, false)
    | none =>
      if keepsNewer obj rule then some ([], false)
      else do
        let noncurrent := noncurrentExpirationEvents obj now rule
        let noncurrentTransition ← noncurrentTransitionEvents clock obj now rule
        if mayExpire obj then
          let transition ← transitionEvents obj now rule
          pure (noncurrent ++ noncurrentTransition ++ expirationEvents now modTime rule ++ transition,
            false)
        else pure (noncurrent ++ noncurrentTransition, false)

def rulesLoop : List LifecycleRule → Option (List Event)
  | [] => some []
  | rule :: rules =>
    match ruleStep clock obj now modTime rule with
    | none => none
    | some (events, true) => some events
    | some (events, false) => (events ++ ·) <$> rulesLoop rules

/-- The complement of the seconds is compared with zero, not the seconds. -/
def restoredEvents : List Event :=
  match obj.restoreExpires with
  | none => []
  | some restoreExpires =>
    if -restoreExpires.unixTimestamp - 1 = 0 ∧ restoreExpires.unixTimestamp < now.unixTimestamp then
      [{ action := if obj.isLatest then .deleteRestoredAction else .deleteRestoredVersionAction,
         due := some now }]
    else []

end

/-! One of the events is taken. -/

def IlmAction.comesFirst : IlmAction → Bool
  | .deleteAllVersionsAction | .delMarkerDeleteAllVersionsAction | .deleteAction
  | .deleteVersionAction => true
  | _ => false

def Event.dueSeconds (self : Event) : ℤ := (self.due.getD 0).unixTimestamp

/-- No two events are equal in this order, not even an event and itself. -/
def eventOrder (now : Time) (a b : Event) : Ordering :=
  if a.dueSeconds < now.unixTimestamp ∧ b.dueSeconds < now.unixTimestamp ∨
      a.dueSeconds = b.dueSeconds then
    if a.action.comesFirst then .lt else if b.action.comesFirst then .gt else .lt
  else if a.dueSeconds < b.dueSeconds then .lt
  else .gt

/-- `sort_by` of the standard library. By an order that is not total it may panic, and which
arrangement of the elements it leaves is not said. -/
structure SortBy where
  run : (Event → Event → Ordering) → List Event → Option (List Event)
  perm : ∀ order events sorted, run order events = some sorted → sorted.Perm events

/-- The last element goes before those that it is less than. The list is backwards. -/
def insertBack (order : Event → Event → Ordering) (event : Event) : List Event → List Event
  | [] => [event]
  | last :: rest =>
    if order event last == .lt then last :: insertBack order event rest
    else event :: last :: rest

theorem insertBack_perm (o : Event → Event → Ordering) (e : Event) (es : List Event) :
    (insertBack o e es).Perm (e :: es) := by
  induction es with
  | nil => exact List.Perm.refl _
  | cons last rest ih =>
    unfold insertBack
    split
    · exact (ih.cons last).trans (List.Perm.swap e last rest)
    · exact List.Perm.refl _

/-- Short lists are sorted by insertion. -/
def SortBy.insertion : SortBy where
  run order events :=
    some (events.foldl (fun sorted event => insertBack order event sorted) []).reverse
  perm order events sorted h := by
    have hgen : ∀ done, (events.foldl (fun sorted event => insertBack order event sorted) done).Perm
        (events ++ done) := by
      clear h
      induction events with
      | nil => exact fun done => List.Perm.refl _
      | cons event events ih =>
        intro done
        refine (ih _).trans ?_
        exact ((insertBack_perm order event done).append_left events).trans List.perm_middle
    cases h
    exact (List.reverse_perm _).trans (by simpa using hgen [])

/-- `eval_inner` of a configuration. How many newer versions are kept is not looked at. -/
def evalInner (sort : SortBy) (clock : Time) (self : BucketLifecycleConfiguration)
    (obj : ObjectOpts) (now : Time) (_newerNoncurrentVersions : ℕ) : Option Event :=
  match obj.modTime with
  | none => some {}
  | some modTime =>
    if modTime.unixTimestamp = 0 then some {}
    else do
      let ruleEvents ← rulesLoop clock obj now modTime ((filterRules self obj).getD [])
      match restoredEvents obj now ++ ruleEvents with
      | [] => some {}
      | events => (← sort.run (eventOrder now) events).head?

end Rustfs.Lifecycle
