import Mathlib.Data.List.TakeDrop
import Rustfs.App.GetObject
import Rustfs.Lib.Trial

/-! When a response from the cache is the one the store would give. -/
namespace Rustfs.GetObject

open GetObjectOutput GetRequest String Trial

/-- The parts of a response that a client sees of an object. -/
structure Answer where
  body : Bytes
  contentLength : Option ℤ
  contentType : Option String
  contentEncoding : Option String
  contentLanguage : Option String
  contentDisposition : Option String
  cacheControl : Option String
  contentRange : Option String
  eTag : Option ETag
  metadata : Option (StrMap String)
  versionId : Option String

def GetObjectOutput.answer (out : GetObjectOutput) : Answer where
  body := out.body
  contentLength := out.contentLength
  contentType := out.contentType
  contentEncoding := out.contentEncoding
  contentLanguage := out.contentLanguage
  contentDisposition := out.contentDisposition
  cacheControl := out.cacheControl
  contentRange := out.contentRange
  eTag := out.eTag
  metadata := out.metadata
  versionId := out.versionId

/-- The requests ask for the same version of the same object. -/
def SameObject (r₁ r₂ : GetRequest) : Prop :=
  r₁.bucket = r₂.bucket ∧ r₁.key = r₂.key ∧ r₁.versionId = r₂.versionId

section

variable {r₁ r₂ : GetRequest}

theorem eq_of_append_cons {α : Type} {a : α} {l₁ l₂ s₁ s₂ : List α} (h₁ : a ∉ l₁) (h₂ : a ∉ l₂)
    (h : l₁ ++ a :: s₁ = l₂ ++ a :: s₂) : l₁ = l₂ ∧ s₁ = s₂ := by
  simp only [List.append_eq_append_iff, List.cons_eq_append_iff, List.cons_eq_cons] at h
  rcases h with ⟨c, rfl, ⟨rfl, -, rfl⟩ | ⟨d, rfl, -⟩⟩ | ⟨c, rfl, ⟨rfl, -, rfl⟩ | ⟨d, rfl, -⟩⟩ <;>
    simp_all

/-- The bucket ends at the first slash. -/
theorem bucket_eq_of_append {b₁ b₂ : BucketName} {s₁ s₂ : String}
    (h : b₁.name ++ "/" ++ s₁ = b₂.name ++ "/" ++ s₂) : b₁ = b₂ ∧ s₁ = s₂ := by
  have hlist := congrArg String.toList h
  simp only [toList_append, List.append_assoc] at hlist
  obtain ⟨hname, hrest⟩ := eq_of_append_cons b₁.noSlash b₂.noSlash hlist
  refine ⟨?_, toList_inj.1 hrest⟩
  obtain ⟨n₁, hn₁⟩ := b₁
  obtain ⟨n₂, hn₂⟩ := b₂
  obtain rfl : n₁ = n₂ := toList_inj.1 hname
  rfl

/-- The text of the key and the version id in a cache key. -/
def GetRequest.keyText (r : GetRequest) : String :=
  match r.versionId with
  | some vid => r.key ++ "?versionId=" ++ vid
  | none => r.key

theorem cacheKey_eq (r : GetRequest) : r.cacheKey = r.bucket.name ++ "/" ++ r.keyText := by
  unfold cacheKey makeCacheKey keyText
  cases r.versionId <;> simp [append_assoc]

theorem keyText_eq_of_cacheKey (h : r₁.cacheKey = r₂.cacheKey) :
    r₁.bucket = r₂.bucket ∧ r₁.keyText = r₂.keyText := by
  rw [cacheKey_eq, cacheKey_eq] at h
  exact bucket_eq_of_append h

theorem append_separator_ne (k v : String) : k ++ "?versionId=" ++ v ≠ k := by
  intro h
  have hlen := congrArg (fun s => s.toList.length) h
  simp at hlen

theorem sameObject_iff_key (h : r₁.cacheKey = r₂.cacheKey) :
    SameObject r₁ r₂ ↔ r₁.key = r₂.key := by
  obtain ⟨hbucket, htext⟩ := keyText_eq_of_cacheKey h
  refine ⟨fun hsame => hsame.2.1, fun hkey => ⟨hbucket, hkey, ?_⟩⟩
  unfold keyText at htext
  rw [hkey] at htext
  cases h₁ : r₁.versionId with
  | none =>
    cases h₂ : r₂.versionId with
    | none => rfl
    | some v₂ =>
      simp only [h₁, h₂] at htext
      exact absurd htext.symm (append_separator_ne _ _)
  | some v₁ =>
    cases h₂ : r₂.versionId with
    | none =>
      simp only [h₁, h₂] at htext
      exact absurd htext (append_separator_ne _ _)
    | some v₂ =>
      simp only [h₁, h₂, append_right_inj] at htext
      rw [htext]

/-- No request for another object or version has the cache key of this one. -/
def Unshared (r : GetRequest) : Prop :=
  ∀ r' : GetRequest, r'.cacheKey = r.cacheKey → SameObject r' r

/-- Only requests without a version id have cache keys of their own, and only for keys in which the
separator does not occur. -/
theorem unshared_iff (r : GetRequest) :
    Unshared r ↔ r.versionId = none ∧ ¬"?versionId=".toList <:+: r.key.toList := by
  constructor
  · intro h
    have hnone : r.versionId = none := by
      cases hv : r.versionId with
      | none => rfl
      | some vid =>
        -- the text with the version id is a key as well
        have hsame := h { r with key := r.keyText, versionId := none } (by
          rw [cacheKey_eq, cacheKey_eq]
          rfl)
        have hkey : r.keyText = r.key := hsame.2.1
        rw [keyText, hv] at hkey
        exact absurd hkey (append_separator_ne _ _)
    refine ⟨hnone, ?_⟩
    rintro ⟨p, q, hpq⟩
    have hkey : String.ofList p ++ "?versionId=" ++ String.ofList q = r.key := by
      apply toList_inj.1
      simpa using hpq
    have hsame := h { r with key := String.ofList p, versionId := some (String.ofList q) } (by
      rw [cacheKey_eq, cacheKey_eq]
      simp only [keyText, hnone, hkey])
    rw [SameObject, hnone] at hsame
    cases hsame.2.2
  · rintro ⟨hnone, hsep⟩ r' hkey
    refine (sameObject_iff_key hkey).2 ?_
    have htext := (keyText_eq_of_cacheKey hkey).2
    rw [keyText, keyText, hnone] at htext
    cases hv : r'.versionId with
    | none => simpa only [hv] using htext
    | some vid =>
      simp only [hv] at htext
      refine absurd ⟨r'.key.toList, vid.toList, ?_⟩ hsep
      simp [← htext]

end

section

variable {env : Env} {r₁ r₂ : GetRequest} {o : Opened} {entry : CachedGetObject}

/-- An object that is not encrypted for one request is not encrypted for any. -/
theorem sseDecryption_none {i : ObjectRead} (h : sseDecryption r₁ i = .ok none) :
    sseDecryption r₂ i = .ok none := by
  unfold sseDecryption at h ⊢
  split at h
  · cases hssec : i.ssec r₁.sseCustomerKey <;> simp [hssec, Except.map] at h
  · rw [if_neg ‹_›]
    exact h

/-- An unencrypted object that one request opens is opened by every request for it whose headers with
conditions are texts and are met. -/
theorem opened_of_sameObject (hsame : SameObject r₁ r₂) (h : opened env r₁ = .ok o)
    (hplain : o.encrypted = false) :
    opened env r₂ = do
      checkHeaderTexts r₂.headers
      checkPreconditions env r₂.headers o.info
      return o := by
  obtain ⟨hbucket, hkey, hversion⟩ := hsame
  unfold opened at h ⊢
  obtain ⟨vid, hopts, h⟩ := bind_eq_ok.1 h
  obtain ⟨vid', hvid, hopts⟩ := bind_eq_ok.1 hopts
  obtain ⟨-, -, hret⟩ := bind_eq_ok.1 hopts
  cases hret
  obtain ⟨info, hread, h⟩ := bind_eq_ok.1 h
  obtain ⟨-, -, h⟩ := bind_eq_ok.1 h
  obtain ⟨size, hsize, h⟩ := bind_eq_ok.1 h
  obtain ⟨plain, hsse, h⟩ := bind_eq_ok.1 h
  cases plain with
  | some plain =>
    cases h
    cases hplain
  | none =>
    cases h
    rw [getOpts, ← hbucket, ← hkey, ← hversion, hvid]
    cases htexts : checkHeaderTexts r₂.headers with
    | error e => rfl
    | ok _ =>
      simp only [bind, Except.bind, pure, Except.pure] at hread hsize ⊢
      rw [hread]
      dsimp only
      cases hpre : checkPreconditions env r₂.headers info with
      | error e => rfl
      | ok _ =>
        rw [hsize]
        rw [sseDecryption_none hsse]

theorem fill_some (h : fill env r₁ = some entry) (ho : opened env r₁ = .ok o) :
    o.encrypted = false ∧ entry =
      { body := o.stream
        contentLength := o.contentLength
        contentType := some (o.info.contentType.getD "")
        eTag := some (o.info.etag.getD "")
        lastModified := some ((o.info.modTime.bind env.formatRfc3339).getD "") } := by
  unfold fill at h
  rw [ho] at h
  dsimp only at h
  split_ifs at h with hcache
  refine ⟨?_, (Option.some.inj h).symm⟩
  simp only [shouldCache, Bool.and_eq_true, Bool.not_eq_true'] at hcache
  exact hcache.1.1.1.1.2

variable (env) in
/-- The request would be served as from the cache: its conditions are met, its checksums can be worked
out, and the object has an etag and nothing that the cache does not keep. -/
structure Transparent (req : GetRequest) (o : Opened) : Prop where
  texts : checkHeaderTexts req.headers = .ok ()
  conditions : checkPreconditions env req.headers o.info = .ok ()
  checksums : checksumsFail req o.info = none
  etag : o.info.etag.isSome
  encoding : o.info.contentEncoding = none
  metadata : filterObjectMetadata o.info.userDefined = none
  version : env.versioned req.bucket.name req.key = true → o.info.versionId = none
  length : o.stream.length ≤ o.contentLength.toNat

theorem uncached_ok_iff (hsame : SameObject r₁ r₂) (h : opened env r₁ = .ok o)
    (hplain : o.encrypted = false) {out : GetObjectOutput} :
    uncached env r₂ = .ok out ↔ checkHeaderTexts r₂.headers = .ok () ∧
      checkPreconditions env r₂.headers o.info = .ok () ∧ checksumsFail r₂ o.info = none ∧
      out = respond env r₂ o := by
  unfold uncached
  rw [opened_of_sameObject hsame h hplain]
  cases htexts : checkHeaderTexts r₂.headers with
  | error e => simp [bind, Except.bind]
  | ok _ =>
    cases hpre : checkPreconditions env r₂.headers o.info with
    | error e => simp [bind, Except.bind]
    | ok _ =>
      simp only [bind, Except.bind, pure, Except.pure]
      cases checksumsFail r₂ o.info with
      | some e => simp
      | none => simp only [Except.ok.injEq, true_and, eq_comm]

theorem answer_eq_iff (hfill : fill env r₁ = some entry) (ho : opened env r₁ = .ok o) :
    (respond env r₂ o).answer = (cached env entry).answer ↔
      o.info.etag.isSome ∧ o.info.contentEncoding = none ∧
        filterObjectMetadata o.info.userDefined = none ∧
        (env.versioned r₂.bucket.name r₂.key = true → o.info.versionId = none) ∧
        o.stream.length ≤ o.contentLength.toNat := by
  obtain ⟨hplain, rfl⟩ := fill_some hfill ho
  have htype : o.info.contentType.bind env.parseContentType =
      env.parseContentType (o.info.contentType.getD "") := by
    cases o.info.contentType with
    | none => exact env.parseContentType_empty.symm
    | some ct => rfl
  have hetag : (o.info.etag.map toS3sEtag = some (toS3sEtag (o.info.etag.getD ""))) ↔
      o.info.etag.isSome := by
    cases o.info.etag <;> simp
  have hversion : ((if env.versioned r₂.bucket.name r₂.key then o.info.versionId.map fun vid =>
        if vid = Uuid.nil then "null" else vid.display else none) = none) ↔
      (env.versioned r₂.bucket.name r₂.key = true → o.info.versionId = none) := by
    split <;> simp_all
  simp only [answer, respond, cached, Opened.body, hplain, Answer.mk.injEq,
    htype, Option.bind_some, Option.map_some, hetag, hversion]
  have hnone : (∅ : StrMap String).entries.isEmpty = true := rfl
  rw [if_neg Bool.false_ne_true, if_pos hnone, List.take_eq_self_iff]
  constructor
  · rintro ⟨hlen, -, -, henc, -, -, -, -, hsome, hmeta, hvid⟩
    exact ⟨hsome, henc, hmeta, hvid, hlen⟩
  · rintro ⟨hsome, henc, hmeta, hvid, hlen⟩
    exact ⟨hlen, trivial, trivial, henc, trivial, trivial, trivial, trivial, hsome, hmeta, hvid⟩

theorem transparent_iff (hsame : SameObject r₁ r₂) (hfill : fill env r₁ = some entry)
    (ho : opened env r₁ = .ok o) :
    (uncached env r₂).map answer = .ok (cached env entry).answer ↔ Transparent env r₂ o := by
  have hplain := (fill_some hfill ho).1
  constructor
  · intro h
    cases hout : uncached env r₂ with
    | error e => simp [hout, Except.map] at h
    | ok out =>
      obtain ⟨htexts, hpre, hsums, rfl⟩ := (uncached_ok_iff hsame ho hplain).1 hout
      have hanswer : (respond env r₂ o).answer = (cached env entry).answer := by
        simpa [hout, Except.map] using h
      obtain ⟨hetag, henc, hmeta, hvid, hlen⟩ := (answer_eq_iff hfill ho).1 hanswer
      exact ⟨htexts, hpre, hsums, hetag, henc, hmeta, hvid, hlen⟩
  · intro h
    rw [(uncached_ok_iff hsame ho hplain).2 ⟨h.texts, h.conditions, h.checksums, rfl⟩]
    exact congrArg Except.ok
      ((answer_eq_iff hfill ho).2 ⟨h.etag, h.encoding, h.metadata, h.version, h.length⟩)

/-- An entry that one request left in the cache, and that another is served from, is the right answer
exactly for requests with the same key that are transparent; and only requests without a version id for
keys without the separator share their entries with no other. -/
theorem cachedResponse_iff (hfill : fill env r₁ = some entry) (ho : opened env r₁ = .ok o)
    (hkey : r₁.cacheKey = r₂.cacheKey) :
    ((SameObject r₁ r₂ ∧
        (uncached env r₂).map GetObjectOutput.answer = .ok (cached env entry).answer) ↔
      r₁.key = r₂.key ∧ Transparent env r₂ o) ∧
    (Unshared r₂ ↔ r₂.versionId = none ∧ ¬"?versionId=".toList <:+: r₂.key.toList) := by
  refine ⟨?_, unshared_iff r₂⟩
  constructor
  · rintro ⟨hsame, hanswer⟩
    exact ⟨hsame.2.1, (transparent_iff hsame hfill ho).1 hanswer⟩
  · rintro ⟨hk, htransparent⟩
    have hsame := (sameObject_iff_key hkey).2 hk
    exact ⟨hsame, (transparent_iff hsame hfill ho).2 htransparent⟩

end

section

def dataBucket : BucketName := ⟨"data", by decide⟩

def plainObject : ObjectRead where
  etag := some "e1"
  stream := [1, 2, 3]
  actualSize := .ok 3
  ssec _ := .error (.other "")
  managed := .ok none

/-- A store with one object under every key. -/
def storeOf (object : ObjectRead) : Env where
  read _ _ _ := .ok object
  versioned _ _ := false
  parseUuid _ := none
  parseContentType text := if text = "" then none else some text
  parseContentType_empty := rfl
  formatRfc3339 _ := none
  parseRfc3339 _ := none
  formatRfc1123 _ := none
  parseRfc1123 _ := none
  cacheEnabled := true
  writebackEnabled := true
  maxObjectSize := 10

def plainEntry : CachedGetObject where
  body := [1, 2, 3]
  contentLength := 3
  contentType := some ""
  eTag := some "e1"
  lastModified := some ""

def getKey (key : String) : GetRequest := { bucket := dataBucket, key := key }

/-- An object with an etag alone is served from the cache as from the store. -/
theorem cachedResponse_plain :
    SameObject (getKey "k") (getKey "k") ∧
      (uncached (storeOf plainObject) (getKey "k")).map GetObjectOutput.answer =
        .ok (cached (storeOf plainObject) plainEntry).answer := by
  have hopened : opened (storeOf plainObject) (getKey "k") =
      .ok { info := plainObject, stream := [1, 2, 3], contentLength := 3, encrypted := false } := rfl
  have hfill : fill (storeOf plainObject) (getKey "k") = some plainEntry := rfl
  refine (cachedResponse_iff hfill hopened rfl).1.2 ⟨rfl, ?_⟩
  exact ⟨rfl, rfl, rfl, rfl, rfl, rfl, nofun, by decide⟩

def describedObject : ObjectRead :=
  { plainObject with
    contentEncoding := some "gzip", userDefined := AList.singleton "color" "red" }

def ifNoneMatch : GetRequest := { getKey "k" with headers := { ifNoneMatch := some ⟨some "e1"⟩ } }

/-- A key that ends in the separator and a version id has the cache key of that version of another
key; the cache answers without the content encoding and the metadata of the user; and it answers a
request whose condition fails. -/
theorem cachedResponse_differs :
    (getKey "k?versionId=v").cacheKey = { getKey "k" with versionId := some "v" }.cacheKey ∧
    (fill (storeOf describedObject) (getKey "k") = some plainEntry ∧
      (uncached (storeOf describedObject) (getKey "k")).map answer ≠
        .ok (cached (storeOf describedObject) plainEntry).answer) ∧
    (fill (storeOf plainObject) (getKey "k") = some plainEntry ∧
      ifNoneMatch.cacheKey = (getKey "k").cacheKey ∧
      (uncached (storeOf plainObject) ifNoneMatch).map answer ≠
        .ok (cached (storeOf plainObject) plainEntry).answer) := by
  refine ⟨by decide, ⟨rfl, fun h => ?_⟩, rfl, rfl, fun h => ?_⟩
  · have hencoding := congrArg Answer.contentEncoding (Except.ok.inj h)
    cases hencoding
  · cases h

end

end Rustfs.GetObject
