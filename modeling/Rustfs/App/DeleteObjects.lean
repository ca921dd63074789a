import Rustfs.SetDisk.DeleteObjects

/-! The S3 request that deletes many objects, and the results it reports for them. -/
namespace Rustfs.DeleteObjects

structure DeleteItem where
  key : String
  versionId : Option String := none

/-- How the checks of one item end; a failure of its options ends the request. -/
inductive ItemCheck where
  | pass
  | denied (text : String)
  | badOptions (text : String)
  | blocked (text : String)

/-- The parser of version ids, the checks of the items, and the texts of errors. -/
structure RequestContext where
  parseUuid : String → Except String Uuid
  check : ℕ → ItemCheck
  display : StorageError → String

structure ItemError where
  code : String
  key : String
  message : String
  versionId : Option String
  deriving DecidableEq

structure DeleteResult where
  deleteObject : Option DeletedObject := none
  error : Option ItemError := none
  deriving DecidableEq

def isDirObject (object : String) : Bool :=
  globalDirSuffix.isSuffixOf (encodeDirObject object).toList

def eqIgnoreAsciiCase (a b : List Char) : Bool := a.map Char.toLower == b.map Char.toLower

variable (ctx : RequestContext)

def normalizeDeleteObjectsVersionId (versionId : Option String) :
    Except String (Option String × Option Uuid) :=
  match (versionId.map fun v => trimMatches isWhiteSpace v.toList).filter (!·.isEmpty) with
  | none => .ok (none, none)
  | some id =>
    if eqIgnoreAsciiCase id "null".toList then .ok (some "null", some Uuid.nil)
    else
      match ctx.parseUuid (String.ofList id) with
      | .error e => .error e
      | .ok uuid => .ok (some (String.ofList id), some uuid)

/-- One turn of the loop over the items: the error of the item, or what is to be deleted for it. -/
def admitItem (idx : ℕ) (item : DeleteItem) : Except String (ItemError ⊕ ObjectToDelete) :=
  match normalizeDeleteObjectsVersionId ctx item.versionId with
  | .error err =>
    .ok (.inl { code := "NoSuchVersion", key := item.key, message := err, versionId := item.versionId })
  | .ok (versionId, versionUuid) =>
    match ctx.check idx with
    | .denied text =>
      .ok (.inl { code := "AccessDenied", key := item.key, message := text, versionId := versionId })
    | .badOptions text => .error text
    | .blocked text =>
      .ok (.inl { code := "AccessDenied", key := item.key, message := text, versionId := versionId })
    | .pass =>
      .ok (.inr
        { objectName := item.key
          versionId :=
            if isDirObject item.key && versionUuid.isNone then some Uuid.nil else versionUuid })

def admitAll : ℕ → List DeleteItem → Except String (List (ItemError ⊕ ObjectToDelete))
  | _, [] => .ok []
  | idx, item :: items =>
    match admitItem ctx idx item with
    | .error e => .error e
    | .ok a =>
      match admitAll (idx + 1) items with
      | .error e => .error e
      | .ok rest => .ok (a :: rest)

/-- The objects that are deleted, each with the place of its item in the request. -/
def pushed (admitted : List (ItemError ⊕ ObjectToDelete)) : List (ℕ × ObjectToDelete) :=
  admitted.zipIdx.filterMap fun p => p.1.getRight?.map fun o => (p.2, o)

/-- `object_to_delete_index`: an item replaces an earlier one with the same key. -/
def lastIndex : List (ℕ × ObjectToDelete) → String → Option ℕ
  | [], _ => none
  | (idx, o) :: objects, name =>
    match lastIndex objects name with
    | some later => some later
    | none => if o.objectName = name then some idx else none

/-- The results of the items that were not admitted. -/
def refused (admitted : List (ItemError ⊕ ObjectToDelete)) (idx : ℕ) : DeleteResult :=
  { error := (admitted[idx]?).bind Sum.getLeft? }

/-- What a store answer for the object `o` adds to a result. -/
def report (o : ObjectToDelete) (answer : DeletedObject × Option StorageError) (r : DeleteResult) :
    DeleteResult :=
  match answer.2 with
  | none => { r with deleteObject := some answer.1 }
  | some e =>
    if e.isErrObjectNotFound || e.isErrVersionNotFound then
      { r with deleteObject := some answer.1 }
    else
      { r with
        error := some
          { code := ctx.display e, key := o.objectName, message := ctx.display e
            versionId := o.versionId.map Uuid.display } }

/-- One turn of the loop over the store's answers: they are filed under the last item with the name
that the answer has. -/
def file (objects : List (ℕ × ObjectToDelete)) (results : ℕ → DeleteResult)
    (turn : ObjectToDelete × DeletedObject × Option StorageError) : ℕ → DeleteResult :=
  match lastIndex objects turn.2.1.objectName with
  | none => results
  | some didx => Function.update results didx (report ctx turn.1 turn.2 (results didx))

/-- `is_all_buckets_not_found`, on the errors as disk errors. -/
def isAllBucketsNotFound (errs : List (Option StorageError)) : Bool :=
  !errs.isEmpty && errs.all fun err =>
    match err with
    | some .diskNotFound => true
    | some .volumeNotFound => true
    | some (.io e) => e.toDisk == .diskNotFound || e.toDisk == .volumeNotFound
    | _ => false

/-- `execute_delete_objects`: one result for each item of the request, or the error of all. -/
def executeDeleteObjects (store : StoreDelete) (items : List DeleteItem) :
    Except String (List DeleteResult) :=
  if items.isEmpty || 1000 < items.length then
    .error "No objects to delete or too many objects to delete"
  else
    match admitAll ctx 0 items with
    | .error e => .error e
    | .ok admitted =>
      let objects := pushed admitted
      let answers := store.deleteObjects (objects.map Prod.snd)
      if isAllBucketsNotFound (answers.map Prod.snd) then .error "Bucket not found"
      else
        let results := ((objects.map Prod.snd).zip answers).foldl (file ctx objects)
          (refused admitted)
        .ok ((List.range items.length).map results)

end Rustfs.DeleteObjects
