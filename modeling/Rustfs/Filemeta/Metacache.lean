import Mathlib.Data.String.Basic
import Rustfs.Filemeta.Merge

/-! Entries of a listing, and the reader that takes them off the stream of one disk. -/
namespace Rustfs

namespace FileMeta

variable {B : Type}

def latestModTime (fm : FileMeta B) : Option Time := fm.versions.head?.bind (·.header.modTime)

end FileMeta

theorem not_lt_empty (s : String) : ¬ s < "" := by
  rw [String.lt_iff_toList_lt]
  exact List.not_lt_nil _

/-- A name with prefixes, with its `xl.meta` if it is an object. -/
structure MetaCacheEntry (B : Type) where
  name : String := ""
  metadata : Bytes := []
  cached : Option (FileMeta B) := none
  deriving DecidableEq

namespace MetaCacheEntry

variable {B : Type} (load : Bytes → Option (FileMeta B)) (e other : MetaCacheEntry B)

def isDir : Bool := e.metadata.isEmpty && e.name.toList.getLast? == some '/'

def isObject : Bool := !e.metadata.isEmpty

/-- The decoded metadata; none for a directory and for what cannot be decoded. -/
def xlMeta : Option (FileMeta B) :=
  if e.isDir then none
  else if e.cached.isSome then e.cached
  else if e.metadata.isEmpty then none
  else load e.metadata

/-- The versions of two entries side by side; `prefer` is the entry preferred so far. -/
def matchVersions (strict : Bool) : Option (MetaCacheEntry B) →
    List (FileMetaShallowVersion B × FileMetaShallowVersion B) → Option (MetaCacheEntry B) × Bool
  | prefer, [] => (prefer.or (some e), true)
  | prefer, (s, o) :: rest =>
    let better := if s.header.sortsBefore o.header then e else other
    if s.header = o.header then matchVersions strict prefer rest
    else if s.header.hasEc ≠ o.header.hasEc ∧
        { s.header with ecN := 0, ecM := 0 } = { o.header with ecN := 0, ecM := 0 } then
      matchVersions strict prefer rest
    else if !strict && s.header.matchesNotStrict o.header then
      matchVersions strict (prefer.or (some better)) rest
    else (prefer.or (some better), false)

/-- The entry to prefer of the two, and whether they match. -/
def matchesOther (strict : Bool) : Option (MetaCacheEntry B) × Bool :=
  if e.name ≠ other.name then (some (if e.name < other.name then e else other), false)
  else if other.isDir || e.isDir then (some (if e.isDir then e else other), other.isDir == e.isDir)
  else
    match e.cached.or (load e.metadata), other.cached.or (load other.metadata) with
    | some vers, some otherVers =>
      if vers.versions.length ≠ otherVers.versions.length then
        match Ord.compare vers.latestModTime otherVers.latestModTime with
        | .gt => (some e, false)
        | .lt => (some other, false)
        | .eq =>
          (some (if vers.versions.length > otherVers.versions.length then e else other), false)
      else matchVersions e other strict none (vers.versions.zip otherVers.versions)
    | _, _ => (none, false)

/-- Entries that match have one name. -/
theorem name_eq_of_matchesOther {s : Bool} (h : (e.matchesOther load other s).2) :
    e.name = other.name := by
  by_contra hne
  simp [matchesOther, hne] at h

end MetaCacheEntry

/-- How reading an entry fails. -/
inductive PeekError where
  | unexpected
  | ioEof
  | fileNotFound
  | volumeNotFound
  | other (text : String)
  deriving DecidableEq

/-- The reader: the entries not yet read, the error the stream ends with if it is not just at its
end, and the entry read last while it is not skipped. -/
structure MetacacheReader (B : Type) where
  rest : List (MetaCacheEntry B)
  ending : Option PeekError := none
  current : Option (MetaCacheEntry B) := none

namespace MetacacheReader

variable {B : Type}

/-- The next entry; it is read off the stream even when `current` still has one. -/
def peek (r : MetacacheReader B) : Except PeekError (Option (MetaCacheEntry B)) × MetacacheReader B :=
  match r.rest with
  | e :: rest => (.ok (some e), { r with rest, current := some e })
  | [] =>
    match r.ending with
    | none => (.ok none, r)
    | some err => (.error err, r)

def skip (size : ℕ) (r : MetacacheReader B) : MetacacheReader B :=
  { r with
    rest := r.rest.drop (if r.current.isSome then size - 1 else size)
    current := none }

end MetacacheReader

end Rustfs
