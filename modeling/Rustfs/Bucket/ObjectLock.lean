import Rustfs.Disk.Drive

/-! Retention and legal hold of an object, as its metadata tells them, and what they forbid. -/
namespace Rustfs.ObjectLock

/-- What the standard library and the calendar do: letters, and the texts of dates. -/
structure Calendar where
  toUppercase : String → String
  parseIso8601 : String → Option Time
  /-- Not every date has a text of this form. -/
  formatRfc3339 : Time → Option String
  display : Time → String
  /-- The time a retention was set, to the nanosecond. -/
  stamp : Time → String
  addYears : Time → ℤ → Time
  uppercase_compliance : toUppercase "COMPLIANCE" = "COMPLIANCE"
  uppercase_governance : toUppercase "GOVERNANCE" = "GOVERNANCE"
  uppercase_empty : toUppercase "" = ""
  parse_format : ∀ t s, formatRfc3339 t = some s → parseIso8601 s = some t
  parse_empty : parseIso8601 "" = none

abbrev Metadata : Type := StrMap String

def modeKey : String := "x-amz-object-lock-mode"

def retainUntilDateKey : String := "x-amz-object-lock-retain-until-date"

def legalHoldKey : String := "x-amz-object-lock-legal-hold"

def compliance : String := "COMPLIANCE"

def governance : String := "GOVERNANCE"

/-- The mode is whatever text the request has. -/
structure ObjectLockRetention where
  mode : Option String
  retainUntilDate : Option Time
  deriving DecidableEq

structure DefaultRetention where
  mode : Option String
  days : Option ℤ
  years : Option ℤ
  deriving DecidableEq

inductive ObjectLockBlockReason where
  | legalHold
  | retention (mode : String) (retainUntil : Option Time)
  deriving DecidableEq

variable (cal : Calendar)

def ObjectLockBlockReason.errorMessage : ObjectLockBlockReason → String
  | .legalHold => "Object has a legal hold and cannot be deleted. Remove the legal hold first."
  | .retention mode (some until_) =>
    s!"Object is under {mode} retention and cannot be deleted until {cal.display until_}"
  | .retention mode none => s!"Object is under {mode} retention and cannot be deleted"

def parseRetMode (modeStr : String) : Option String :=
  if cal.toUppercase modeStr = governance then some governance
  else if cal.toUppercase modeStr = compliance then some compliance
  else none

def getObjectRetentionMeta (metadata : Metadata) : ObjectLockRetention :=
  match metadata.lookup modeKey with
  | none => ⟨none, none⟩
  | some modeStr =>
    match parseRetMode cal modeStr with
    | none => ⟨none, none⟩
    | some mode => ⟨some mode, (metadata.lookup retainUntilDateKey).bind cal.parseIso8601⟩

/-- Whether the legal hold is on: the only status that is looked for. -/
def hasLegalHold (metadata : Metadata) : Bool :=
  (metadata.lookup legalHoldKey).any fun text => cal.toUppercase text == "ON"

variable (now : Time)

/-- The dates are compared in whole seconds. -/
def isRetentionActive (mode : String) (retainUntilDate : Option Time) : Bool :=
  if mode ≠ compliance ∧ mode ≠ governance then false
  else retainUntilDate.any fun until_ => decide (now.unixTimestamp < until_.unixTimestamp)

def isShortening : Option Time → Option Time → Bool
  | some existing, some new => new < existing
  | some _, none => true
  | none, _ => false

/-- The new mode is not looked at. -/
def checkRetentionForModification (userDefined : Metadata)
    (newRetainUntil : Option Time) (bypassGovernance : Bool) : Option ObjectLockBlockReason :=
  let retention := getObjectRetentionMeta cal userDefined
  match retention.mode with
  | none => none
  | some mode =>
    if !isRetentionActive now mode retention.retainUntilDate then none
    else if mode = compliance then
      if isShortening retention.retainUntilDate newRetainUntil then
        some (.retention mode retention.retainUntilDate)
      else none
    else if mode = governance then
      if isShortening retention.retainUntilDate newRetainUntil && !bypassGovernance then
        some (.retention mode retention.retainUntilDate)
      else none
    else none

def checkRetentionBlocksDeletion (mode : String) (retainUntil : Option Time)
    (bypassGovernance : Bool) : Option ObjectLockBlockReason :=
  if mode = governance ∧ bypassGovernance = true then none
  else some (.retention mode retainUntil)

/-- What a version of an object is known by. -/
structure StoredVersion where
  id : Uuid
  deleteMarker : Bool
  userDefined : Metadata
  modTime : Option Time

/-- The date until which the default of the bucket keeps an object, if it has a period. -/
def defaultRetainUntil (retention : DefaultRetention) (modTime : Time) : Option Time :=
  match retention.days, retention.years with
  | some days, _ => some (saturatingAdd modTime (days * day))
  | none, some years => some (cal.addYears modTime years)
  | none, none => none

variable (defaultRetention : Option DefaultRetention)

/-- The default of the bucket, which counts only where a version has no retention of its own. -/
def checkDefaultRetention
    (v : StoredVersion) (bypassGovernance : Bool) : Option ObjectLockBlockReason :=
  match defaultRetention with
  | none => none
  | some retention =>
    match retention.mode, v.modTime with
    | some mode, some modTime =>
      if mode = compliance ∨ mode = governance then
        match defaultRetainUntil cal retention modTime with
        | none => none
        | some retainUntil =>
          if now.unixTimestamp < retainUntil.unixTimestamp then
            checkRetentionBlocksDeletion mode (some retainUntil) bypassGovernance
          else none
      else none
    | _, _ => none

def checkObjectLockForDeletion
    (v : StoredVersion) (bypassGovernance : Bool) : Option ObjectLockBlockReason :=
  if v.deleteMarker then none
  else if hasLegalHold cal v.userDefined then some .legalHold
  else
    let explicitRet := getObjectRetentionMeta cal v.userDefined
    match explicitRet.mode with
    | some mode =>
      if isRetentionActive now mode explicitRet.retainUntilDate then
        checkRetentionBlocksDeletion mode explicitRet.retainUntilDate bypassGovernance
      else none
    | none => checkDefaultRetention cal now defaultRetention v bypassGovernance

/-- The lock as the metadata of a version tells it. The default of the bucket is not asked. -/
def isObjectLockedByMetadata (userDefined : Metadata) (isDeleteMarker : Bool) : Bool :=
  if isDeleteMarker then false
  else if hasLegalHold cal userDefined then true
  else
    let ret := getObjectRetentionMeta cal userDefined
    ret.mode.any fun mode => isRetentionActive now mode ret.retainUntilDate

end Rustfs.ObjectLock
