import Rustfs.SetDisk.Precondition
import Rustfs.Storage.ResponseCache

/-! `GetObject` for a whole object: the response built from the store, what it leaves in the cache, and
the response built from the cache. -/
namespace Rustfs.GetObject

/-- The name of a bucket has no slash. -/
structure BucketName where
  name : String
  noSlash : '/' ∉ name.toList
  deriving DecidableEq

/-- A header, with its text if it is one. -/
structure HeaderValue where
  text : Option String

structure GetHeaders where
  ifMatch : Option HeaderValue := none
  ifNoneMatch : Option HeaderValue := none
  ifModifiedSince : Option HeaderValue := none
  ifUnmodifiedSince : Option HeaderValue := none
  checksumMode : Option HeaderValue := none

/-- A request for a whole object, without a range or a part number. -/
structure GetRequest where
  bucket : BucketName
  key : String
  versionId : Option String := none
  headers : GetHeaders := {}
  sseCustomerKey : Option String := none

def GetRequest.cacheKey (req : GetRequest) : String :=
  makeCacheKey req.bucket.name req.key req.versionId

inductive ApiError where
  | storage (e : StorageError)
  | invalidVersionId (id : String)
  | invalidHeader (text : String)
  | preconditionFailed
  | notModified (etag lastModified : Option String)
  | other (text : String)

/-- What decryption makes of the object. -/
structure Plaintext where
  stream : Bytes
  size : ℤ

/-- What the store reads for an object: its metadata, the bytes of its stream, and what comes out when
its sizes, keys and checksums are worked out. -/
structure ObjectRead where
  etag : Option String := none
  modTime : Option Time := none
  contentType : Option String := none
  contentEncoding : Option String := none
  userDefined : StrMap String := ∅
  versionId : Option Uuid := none
  stream : Bytes
  actualSize : Except String ℤ
  ssec : Option String → Except ApiError Plaintext
  managed : Except ApiError (Option Plaintext)
  checksumError : Option ApiError := none

inductive ETag where
  | strong (value : String)
  | weak (value : String)
  deriving DecidableEq

/-- The store, the configuration of its buckets, and the formats of the libraries in use. -/
structure Env where
  read : String → String → Option String → Except StorageError ObjectRead
  versioned : String → String → Bool
  parseUuid : String → Option Uuid
  parseContentType : String → Option String
  parseContentType_empty : parseContentType "" = none
  formatRfc3339 : Time → Option String
  parseRfc3339 : String → Option Time
  formatRfc1123 : Time → Option String
  parseRfc1123 : String → Option Time
  cacheEnabled : Bool
  writebackEnabled : Bool
  maxObjectSize : ℕ

structure GetObjectOutput where
  body : Bytes
  contentLength : Option ℤ
  lastModified : Option Time
  contentType : Option String
  contentEncoding : Option String := none
  contentLanguage : Option String := none
  contentDisposition : Option String := none
  cacheControl : Option String := none
  contentRange : Option String := none
  acceptRanges : Option String := none
  eTag : Option ETag
  metadata : Option (StrMap String) := none
  versionId : Option String := none
  deleteMarker : Option Bool := none
  tagCount : Option ℤ := none

structure CachedGetObject where
  body : Bytes
  contentLength : ℤ
  contentType : Option String := none
  eTag : Option String := none
  lastModified : Option String := none
  cacheControl : Option String := none
  contentDisposition : Option String := none
  contentEncoding : Option String := none
  contentLanguage : Option String := none
  versionId : Option String := none
  deleteMarker : Bool := false
  tagCount : Option ℤ := none
  userMetadata : StrMap String := ∅

def startsWith (p s : String) : Bool := p.toList.isPrefixOf s.toList

def lowercase (s : String) : String := String.ofList (s.toList.map Char.toLower)

def excludedHeaders : List String :=
  ["content-type", "content-disposition", "content-encoding", "content-language", "cache-control",
    "expires", "etag", "x-amz-storage-class", "x-amz-tagging", "x-amz-replication-status",
    "x-amz-server-side-encryption", "x-amz-server-side-encryption-customer-algorithm",
    "x-amz-server-side-encryption-customer-key-md5", "x-amz-server-side-encryption-aws-kms-key-id"]

/-- The entry of the stored metadata is one that the user gave. -/
def isUserMetadata (k v : String) : Bool :=
  let lower := lowercase k
  !startsWith reservedMetadataPrefixLower lower && !startsWith "x-rustfs-encryption-" lower &&
    !(v == "" && (k == "x-amz-object-lock-mode" || k == "x-amz-object-lock-retain-until-date")) &&
    !(k == "X-Amz-Meta-X-Amz-Unencrypted-Content-Md5" ||
      k == "X-Amz-Meta-X-Amz-Unencrypted-Content-Length") &&
    !excludedHeaders.contains lower && !startsWith "x-amz-" lower

def filterObjectMetadata (metadata : StrMap String) : Option (StrMap String) :=
  let filtered : StrMap String := metadata.entries.foldl (fun m e =>
    MetaObject.insertIf (isUserMetadata e.1 e.2) e.1 e.2 m) ∅
  if filtered.entries.isEmpty then none else some filtered

/-- `str::strip_prefix` and `str::strip_suffix`. -/
def stripStart (p s : List Char) : Option (List Char) :=
  if p.isPrefixOf s then some (s.drop p.length) else none

def stripEnd (p s : List Char) : Option (List Char) :=
  if p.isSuffixOf s then some (s.take (s.length - p.length)) else none

def toS3sEtag (etag : String) : ETag :=
  match stripStart "W/\"".toList etag.toList with
  | some rest => .weak (String.ofList ((stripEnd ['"'] rest).getD rest))
  | none =>
    match (stripStart ['"'] etag.toList).bind (stripEnd ['"']) with
    | some body => .strong (String.ofList body)
    | none => .strong etag

/-- `is_etag_equal` of the request headers, which may list several etags. -/
def isEtagEqual (objectEtag headerEtag : String) : Bool :=
  let header := trimMatches isWhiteSpace headerEtag.toList
  header == ['*'] ||
    (header.splitOn ',').any fun s =>
      trimMatches (· == '"') (trimMatches isWhiteSpace s) == trimMatches (· == '"') objectEtag.toList

variable (env : Env)

/-- The version id that the store is asked for. -/
def requestedVersion (key : String) (versionId : Option String) : Except ApiError (Option String) :=
  let nilText := Uuid.nil.display
  match versionId.map fun v => String.ofList (trimMatches isWhiteSpace v.toList) with
  | some id =>
    if lowercase id == "null" then .ok (some nilText)
    else if id != nilText && (env.parseUuid id).isNone then .error (.invalidVersionId id)
    else .ok (some id)
  | none =>
    if globalDirSuffix.isSuffixOf (encodeDirObject key).toList then .ok (some nilText) else .ok none

/-- `fill_conditional_writes_opts_from_header`: the headers with conditions have to be texts. -/
def checkHeaderTexts (headers : GetHeaders) : Except ApiError Unit :=
  if headers.ifNoneMatch.any (·.text.isNone) then
    .error (.invalidHeader "Invalid If-None-Match header")
  else if headers.ifMatch.any (·.text.isNone) then
    .error (.invalidHeader "Invalid If-Match header")
  else .ok ()

variable (req : GetRequest)

def getOpts : Except ApiError (Option String) := do
  let vid ← requestedVersion env req.key req.versionId
  checkHeaderTexts req.headers
  return vid

/-- The `ETag` header of a failed condition, quoted anew. -/
def parseEtag (etag : String) : Option String :=
  let trimmed := trimMatches (· == '"') etag.toList
  if (trimMatches isWhiteSpace trimmed).isEmpty then none
  else some (String.ofList ('"' :: trimmed ++ ['"']))

def headerText (h : Option HeaderValue) : Option String := h.bind (·.text)

/-- One second, in the unit of times. -/
def second : Time := 1000000000

def checkPreconditions (headers : GetHeaders) (info : ObjectRead) : Except ApiError Unit :=
  if info.modTime.isNone && info.etag.isNone then .ok ()
  else if (headerText headers.ifMatch).any fun value => !info.etag.any (isEtagEqual · value) then
    .error .preconditionFailed
  else if headers.ifMatch.isNone && info.modTime.any fun t =>
      ((headerText headers.ifUnmodifiedSince).bind env.parseRfc1123).any fun given =>
        decide (t > given + second) then
    .error .preconditionFailed
  else if (headerText headers.ifNoneMatch).any fun value => info.etag.any (isEtagEqual · value) then
    .error (.notModified (info.etag.bind parseEtag) (info.modTime.bind env.formatRfc1123))
  else if headers.ifNoneMatch.isNone && info.modTime.any fun t =>
      ((headerText headers.ifModifiedSince).bind env.parseRfc1123).any fun given =>
        decide (t < given + second) then
    .error (.notModified (info.etag.bind parseEtag) (info.modTime.bind env.formatRfc1123))
  else .ok ()

/-- The object is decrypted with the key of the request, or with a managed key, or not at all. -/
def sseDecryption (info : ObjectRead) : Except ApiError (Option Plaintext) :=
  if (info.userDefined.lookup "x-amz-server-side-encryption-customer-algorithm").isSome then
    (info.ssec req.sseCustomerKey).map some
  else if (info.userDefined.lookup "x-rustfs-encryption-key").isSome then info.managed
  else .ok none

/-- The first part of the uncached path, up to the stream that the response is made of. -/
structure Opened where
  info : ObjectRead
  stream : Bytes
  contentLength : ℤ
  encrypted : Bool

def opened : Except ApiError Opened := do
  let vid ← getOpts env req
  let info ← (env.read req.bucket.name req.key vid).mapError .storage
  checkPreconditions env req.headers info
  let size ← info.actualSize.mapError .other
  match ← sseDecryption req info with
  | some plain =>
    return { info := info, stream := plain.stream, contentLength := plain.size, encrypted := true }
  | none => return { info := info, stream := info.stream, contentLength := size, encrypted := false }

def shouldCache (o : Opened) : Bool :=
  env.cacheEnabled && env.writebackEnabled && !o.encrypted && decide (o.contentLength > 0) &&
    decide (o.contentLength.toNat ≤ env.maxObjectSize)

/-- What the uncached path leaves in the cache: nothing, or an entry that `put_response` takes. -/
def fill : Option CachedGetObject :=
  match opened env req with
  | .error _ => none
  | .ok o =>
    if shouldCache env o && o.stream.length != 0 && decide (o.stream.length ≤ env.maxObjectSize) then
      some
        { body := o.stream
          contentLength := o.contentLength
          contentType := some (o.info.contentType.getD "")
          eTag := some (o.info.etag.getD "")
          lastModified := some ((o.info.modTime.bind env.formatRfc3339).getD "") }
    else none

/-- The body of an encrypted object is streamed as it is, any other up to the content length. -/
def Opened.body (o : Opened) : Bytes :=
  if o.encrypted then o.stream else o.stream.take o.contentLength.toNat

def checksumsFail (info : ObjectRead) : Option ApiError :=
  if headerText req.headers.checksumMode == some "ENABLED" then info.checksumError else none

/-- The response to a request for an object that was opened. -/
def respond (o : Opened) : GetObjectOutput where
  body := o.body
  contentLength := some o.contentLength
  lastModified := o.info.modTime
  contentType := o.info.contentType.bind env.parseContentType
  contentEncoding := o.info.contentEncoding
  acceptRanges := some "bytes"
  eTag := o.info.etag.map toS3sEtag
  metadata := filterObjectMetadata o.info.userDefined
  versionId :=
    if env.versioned req.bucket.name req.key then
      o.info.versionId.map fun vid => if vid = Uuid.nil then "null" else vid.display
    else none

/-- The response of the uncached path. -/
def uncached : Except ApiError GetObjectOutput := do
  let o ← opened env req
  match checksumsFail req o.info with
  | some e => .error e
  | none => return respond env req o

/-- The response built from an entry of the cache. -/
def cached (entry : CachedGetObject) : GetObjectOutput where
  body := entry.body
  contentLength := some entry.contentLength
  acceptRanges := some "bytes"
  eTag := entry.eTag.map toS3sEtag
  lastModified := entry.lastModified.bind env.parseRfc3339
  contentType := entry.contentType.bind env.parseContentType
  cacheControl := entry.cacheControl
  contentDisposition := entry.contentDisposition
  contentEncoding := entry.contentEncoding
  contentLanguage := entry.contentLanguage
  versionId := entry.versionId
  deleteMarker := some entry.deleteMarker
  tagCount := entry.tagCount
  metadata := if entry.userMetadata.entries.isEmpty then none else some entry.userMetadata

end Rustfs.GetObject
