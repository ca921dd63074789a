import Rustfs.Filemeta.FileInfo

/-! Whether a version moved to a remote tier has a restored copy on disk. -/
namespace Rustfs

/-- The clock, and the text conversions of the time and UUID libraries. -/
structure Runtime where
  now : Time
  parseRfc3339 : String → Option Time
  displayTime : Time → String
  parseUuid : String → Option Uuid

def unixTimestamp (t : Time) : ℤ := t / 1000000000

/-- The UTF-8 bytes of a text. -/
def utf8 (s : String) : Bytes := s.toList.flatMap String.utf8EncodeChar

/-- The characters Unicode calls white space, which `str::trim` strips. -/
def isWhiteSpace (c : Char) : Bool :=
  let n := c.toNat
  (9 ≤ n && n ≤ 13) || n == 32 || n == 0x85 || n == 0xA0 || n == 0x1680 ||
    (0x2000 ≤ n && n ≤ 0x200A) || n == 0x2028 || n == 0x2029 || n == 0x202F || n == 0x205F ||
    n == 0x3000

def trimMatches (p : Char → Bool) (cs : List Char) : List Char :=
  ((cs.dropWhile p).reverse.dropWhile p).reverse

/-- `splitn(2, c)`: the text before the first `c`, and the text after it if there is one. -/
def splitFirst (c : Char) (cs : List Char) : List Char × Option (List Char) :=
  match cs.dropWhile (· ≠ c) with
  | [] => (cs, none)
  | _ :: rest => (cs.takeWhile (· ≠ c), some rest)

structure RestoreStatus where
  isRestoreInProgress : Option Bool := none
  restoreExpiryDate : Option Time := none
  deriving DecidableEq

variable (rt : Runtime)

namespace RestoreStatus

variable (r : RestoreStatus)

def onGoing : Bool := r.isRestoreInProgress.getD false

def expiry : Option Time :=
  if r.onGoing then none else r.restoreExpiryDate

def onDisk : Bool :=
  match r.expiry with
  | some expiry => decide (unixTimestamp rt.now < unixTimestamp expiry)
  | none => false

end RestoreStatus

/-- The restore header of an object; `none` is "x-amz-restore header malformed". -/
def parseRestoreObjStatus (restoreHdr : String) : Option RestoreStatus :=
  let (progress, rest) := splitFirst ',' restoreHdr.toList
  match splitFirst '=' progress with
  | (_, none) => none
  | (key, some value) =>
    if trimMatches isWhiteSpace key ≠ "ongoing-request".toList then none
    else if value = "true".toList ∨ value = "\"true\"".toList then
      match rest with
      | none => some { isRestoreInProgress := some true }
      | some _ => none
    else if value = "false".toList ∨ value = "\"false\"".toList then
      match rest.map (splitFirst '=') with
      | some (name, some date) =>
        if trimMatches isWhiteSpace name ≠ "expiry-date".toList then none
        else
          (rt.parseRfc3339 (String.ofList (trimMatches (· == '"') date))).map fun expiry =>
            { isRestoreInProgress := some false, restoreExpiryDate := some expiry }
      | _ => none
    else none

def amzRestore : String := "x-amz-restore"

def isRestoredObjectOnDisk (metadata : StrMap String) : Bool :=
  match (metadata.lookup amzRestore).bind (parseRestoreObjStatus rt) with
  | some status => status.onDisk rt
  | none => false

def FileInfo.isRemote (fi : FileInfo) : Bool :=
  fi.transitionStatus == transitionComplete && !isRestoredObjectOnDisk rt fi.metadata

end Rustfs
