import Rustfs.Iam.Manager

/-! The values a request has for the condition keys: `get_condition_values`. -/
namespace Rustfs.Iam

/-- The headers of a request in the order they are visited, with one entry for each value. A
value that is not a text reads as none. -/
structure HeaderMap where
  entries : List (String × Option String)
  lower : ∀ entry ∈ entries, entry.1.toList.all (!·.isUpper) = true

namespace HeaderMap

def empty : HeaderMap := ⟨[], nofun⟩

variable (self : HeaderMap) (name : String)

def getAll : List (Option String) := (self.entries.filter (·.1 == name)).map (·.2)

def get : Option (Option String) := (self.getAll name).head?

/-- The first value, if it is a text. -/
def text : Option String := (self.get name).join

/-- All values, empty where one is not a text. -/
def texts : List String := (self.getAll name).map (·.getD "")

def remove : HeaderMap where
  entries := self.entries.filter (·.1 != name)
  lower entry h := self.lower entry (List.mem_of_mem_filter h)

end HeaderMap

/-! How a request is signed. -/

inductive AuthType where
  | unknown | anonymous | presigned | presignedV2 | postPolicy | streamingSigned | signed
  | signedV2 | jwt | sts | streamingSignedTrailer | streamingUnsignedTrailer
  deriving DecidableEq

def startsWith (start text : String) : Bool := start.toList.isPrefixOf text.toList

def containsChars (part : List Char) : List Char → Bool
  | [] => part.isEmpty
  | c :: cs => part.isPrefixOf (c :: cs) || containsChars part cs

section

variable (header : HeaderMap)

def isRequestJwt : Bool := (header.text "authorization").any (startsWith "Bearer ")

def isRequestSignatureV4 : Bool :=
  (header.text "authorization").any (startsWith "AWS4-HMAC-SHA256")

def isRequestSignatureV2 : Bool :=
  (header.text "authorization").any fun auth =>
    !startsWith "AWS4-HMAC-SHA256" auth && startsWith "AWS " auth

/-- The header is there and its text is not empty. -/
def hasText (name : String) : Bool := (header.get name).any fun value => value.getD "" != ""

def isRequestPresignedSignatureV4 : Bool := hasText header "x-amz-credential"

def isRequestPresignedSignatureV2 : Bool := hasText header "awsaccesskeyid"

def isRequestPostPolicySignatureV4 : Bool :=
  (header.text "content-type").any fun ct => containsChars "multipart/form-data".toList ct.toList

def contentSha256Is (text : String) : Bool := (header.text "x-amz-content-sha256").any (· == text)

def isRequestSignStreamingV4 : Bool :=
  contentSha256Is header "STREAMING-AWS4-HMAC-SHA256-PAYLOAD"

def isRequestSignStreamingTrailerV4 : Bool :=
  contentSha256Is header "STREAMING-AWS4-HMAC-SHA256-PAYLOAD-TRAILER"

def isRequestUnsignedTrailerV4 : Bool :=
  contentSha256Is header "STREAMING-UNSIGNED-PAYLOAD-TRAILER"

def isRequestSts : Bool := hasText header "action"

def isRequestAnonymous : Bool := (header.get "authorization").isNone

def getRequestAuthType : AuthType :=
  if isRequestSignatureV2 header then .signedV2
  else if isRequestPresignedSignatureV2 header then .presignedV2
  else if isRequestSignStreamingV4 header then .streamingSigned
  else if isRequestSignStreamingTrailerV4 header then .streamingSignedTrailer
  else if isRequestUnsignedTrailerV4 header then .streamingUnsignedTrailer
  else if isRequestSignatureV4 header then .signed
  else if isRequestPresignedSignatureV4 header then .presigned
  else if isRequestJwt header then .jwt
  else if isRequestPostPolicySignatureV4 header then .postPolicy
  else if isRequestSts header then .sts
  else if isRequestAnonymous header then .anonymous
  else .unknown

/-- The texts for the type and for the version of the signature. -/
def determineAuthTypeAndVersion : String × String :=
  match getRequestAuthType header with
  | .jwt => ("JWT", "")
  | .signedV2 => ("REST-HEADER", "AWS2")
  | .presignedV2 => ("REST-QUERY-STRING", "AWS2")
  | .streamingSigned | .streamingSignedTrailer | .streamingUnsignedTrailer | .signed =>
    ("REST-HEADER", "AWS4-HMAC-SHA256")
  | .presigned => ("REST-QUERY-STRING", "AWS4-HMAC-SHA256")
  | .postPolicy => ("POST", "")
  | .sts => ("STS", "")
  | .anonymous => ("Anonymous", "")
  | .unknown => ("", "")

end

/-! Where a request comes from. -/

/-- What the server knows besides the request. -/
structure RequestEnv extends Env where
  now : Time
  /-- The credentials of the root account, if they are set. -/
  actionCred : Option Credentials
  xffHeaderEnabled : Bool
  /-- The address in the text of a socket address. -/
  socketIp : String → Option String

def beforeComma : List Char → List Char
  | ',' :: ' ' :: _ => []
  | c :: cs => c :: beforeComma cs
  | [] => []

/-- The characters that end the address in a `Forwarded` header. -/
def endsAddress (c : Char) : Bool :=
  c == '(' || c == ';' || c == '|' || c == ',' || c == ' ' || c == ')'

/-- The first match of `FOR_REGEX`. -/
def forMatch : List Char → Option (List Char)
  | [] => none
  | c :: cs =>
    let addr := (cs.drop 3).takeWhile (!endsAddress ·)
    if ((c :: cs).take 4).map Char.toLower == "for=".toList && !addr.isEmpty then some addr
    else forMatch cs

def trimQuotes (s : List Char) : List Char :=
  ((s.dropWhile (· == '"')).reverse.dropWhile (· == '"')).reverse

section

variable (env : RequestEnv) (header : HeaderMap)

def getSourceIpFromHeaders : Option String :=
  let forwarded := if env.xffHeaderEnabled then
      (header.text "x-forwarded-for").map fun s => String.ofList (beforeComma s.toList)
    else none
  match forwarded with
  | some addr => some addr
  | none =>
    match header.get "x-real-ip" with
    | some realIp => realIp
    | none =>
      ((header.text "forwarded").bind fun s => forMatch s.toList).map fun ip =>
        String.ofList (trimQuotes ip)

def getSourceIpRaw (remoteAddr : String) : String :=
  let addr := (getSourceIpFromHeaders env header).getD remoteAddr
  (env.socketIp addr).getD addr

def isTls : Bool :=
  ((header.text "x-forwarded-proto").or (header.text "x-forwarded-scheme")).any (· == "https")

end

/-! The map of the condition keys. -/

def putAll (args : Conditions) (l : List (String × List String)) : Conditions :=
  l.foldl (fun args entry => args.insert entry.1 entry.2) args

def boolText (b : Bool) : String := if b then "true" else "false"

/-- `trim_start_matches("ldap")` -/
def trimLdap : List Char → List Char
  | 'l' :: 'd' :: 'a' :: 'p' :: cs => trimLdap cs
  | cs => cs

/-- The headers of an object lock, and the names of the keys they are put under. -/
def objectLockHeaders : List (String × String) :=
  [("x-amz-object-lock-mode", "object-lock-mode"),
    ("x-amz-object-lock-legal-hold", "object-lock-legal-hold"),
    ("x-amz-object-lock-retain-until-date", "object-lock-retain-until-date")]

/-- What a request has besides its headers and its credentials. -/
structure RequestParts where
  versionId : Option String := none
  region : Option String := none
  remoteAddr : Option String := none

section

variable (env : RequestEnv) (header : HeaderMap) (cred : Credentials) (parts : RequestParts)

def requestUser : String :=
  if cred.isTemp env.now || cred.isServiceAccount then cred.parentUser else cred.accessKey

def principalType : String :=
  let username := requestUser env cred
  if username != "" then
    if cred.claims.isSome then "AssumedRole"
    else if (env.actionCred.map (·.accessKey)).getD "" == username then "Account"
    else "User"
  else "Anonymous"

def timeAndOrigin : List (String × List String) :=
  [("CurrentTime", [env.currentTime]), ("EpochTime", [env.epochTime]),
    ("SecureTransport", [boolText (isTls header)]),
    ("SourceIp", [getSourceIpRaw env header (parts.remoteAddr.getD "")])] ++
  ((header.get "user-agent").toList.map fun v => ("UserAgent", [v.getD ""])) ++
  ((header.get "referer").toList.map fun v => ("Referer", [v.getD ""]))

def userAndPrincipal : List (String × List String) :=
  [("userid", [requestUser env cred]), ("username", [requestUser env cred]),
    ("principaltype", [principalType env cred])]

/-- An entry for a text that is not empty. -/
def unlessEmpty (key value : String) : List (String × List String) :=
  if value = "" then [] else [(key, [value])]

def signatureAndLock : List (String × List String) :=
  let (authType, signatureVersion) := determineAuthTypeAndVersion header
  unlessEmpty "versionid" (parts.versionId.getD "") ++
  unlessEmpty "signatureversion" signatureVersion ++
  unlessEmpty "authType" authType ++
  unlessEmpty "LocationConstraint" (parts.region.getD "") ++
  ((header.get "x-amz-signature-age").toList.map fun v => ("signatureAge", [v.getD ""])) ++
  objectLockHeaders.flatMap fun names =>
    if (header.texts names.1).isEmpty then [] else [(names.2, header.texts names.1)]

/-- The headers without those that have been put in under another name. -/
def otherHeaders : HeaderMap :=
  objectLockHeaders.foldl (fun headers names => headers.remove names.1)
    (header.remove "x-amz-signature-age")

def isTagging (key : String) : Bool := key.toList.map Char.toLower == "x-amz-tagging".toList

/-- A header is visited once for each of its values, and each time all of them are added. -/
def putHeader (args : Conditions) (key : String) : Conditions :=
  if isTagging key then args
  else
    match args.lookup key with
    | some existing => args.insert key (existing ++ (otherHeaders header).texts key)
    | none => args.insert key (header.texts key)

def putHeaders (args : Conditions) : Conditions :=
  ((otherHeaders header).entries.map (·.1)).foldl (putHeader header) args

/-- The key under which a claim is put in. -/
def claimKey (name : String) : String := env.toLowercase (String.ofList (trimLdap name.toList))

/-- The entries that the claims of the token give. -/
def claimEntries : List (String × List String) :=
  match cred.claims with
  | none => []
  | some claims =>
    (claims.entries.filterMap fun claim =>
      claim.2.asStr.map fun v => (claimKey env claim.1, [v])) ++
    match ((claims.lookup "groups").bind Value.asArray).map (·.filterMap Value.asStr) with
    | some (g :: grps) => [("groups", g :: grps)]
    | _ => []

/-- The groups of the credentials count only where nothing else has given groups. -/
def putGroups (args : Conditions) : Conditions :=
  match cred.groups, args.lookup "groups" with
  | some groups, none => args.insert "groups" groups
  | _, _ => args

def getConditionValues : Conditions :=
  let args := putAll ∅ (timeAndOrigin env header parts ++ userAndPrincipal env cred ++
    signatureAndLock header parts)
  putGroups cred (putAll (putHeaders header args) (claimEntries env cred))

end

end Rustfs.Iam
