import Mathlib.Data.List.Perm.Basic
import Mathlib.Data.List.Sort
import Rustfs.Filemeta.Version

/-! The `xl.meta` of an object: its versions, newest first, and the data kept inline with them. -/
namespace Rustfs

open List

/-- The serializer of one version into the buffers of `xl.meta`. -/
structure MetaCodec (B : Type) where
  marshal : FileMetaVersion → B
  unmarshal : B → Except String FileMetaVersion
  compare : B → B → Ordering
  unmarshal_marshal : ∀ v, unmarshal (marshal v) = .ok v

attribute [simp] MetaCodec.unmarshal_marshal

/-- Where those that pass agree in `f` and else no two do, only one passes. -/
theorem eraseP_eq_filter_of_nodup {α β : Type} {f : α → β} {p : α → Bool} {l : List α}
    (hp : ∀ a b, p a → p b → f a = f b) (hn : (l.map f).Nodup) : l.eraseP p = l.filter (!p ·) := by
  induction l with
  | nil => rfl
  | cons a l ih =>
    obtain ⟨ha, hn⟩ := nodup_cons.mp hn
    by_cases hpa : p a
    · rw [eraseP_cons_of_pos hpa, filter_cons_of_neg (by simpa using hpa), eq_comm, filter_eq_self]
      intro b hb
      simpa using fun hpb => ha (mem_map.mpr ⟨b, hb, hp b a hpb hpa⟩)
    · rw [eraseP_cons_of_neg hpa, filter_cons_of_pos (by simpa using hpa), ih hn]

inductive FilemetaError where
  | fileNotFound
  | fileVersionNotFound
  | other (text : String)
  | rmpSerdeDecode (text : String)
  deriving DecidableEq

inductive FilemetaFailure where
  | err (e : FilemetaError)
  | panic
  deriving DecidableEq

structure FileMetaShallowVersion (B : Type) where
  header : FileMetaVersionHeader
  metaBuf : B
  deriving DecidableEq

/-- The inline data by the entries that can be read from it, in order. -/
abbrev InlineData := List (String × Bytes)

namespace InlineData

variable (d : InlineData)

def find (key : String) : Option Bytes := (List.find? (·.1 == key) d).map Prod.snd

def replace (key : String) (value : Bytes) : InlineData :=
  if d.any (·.1 == key) then d.map fun e => if e.1 == key then (e.1, value) else e
  else d ++ [(key, value)]

def remove (keys : List Uuid) : InlineData :=
  d.filter fun e => !keys.any fun k => k.display == e.1

end InlineData

structure FileMeta (B : Type) where
  versions : List (FileMetaShallowVersion B) := []
  data : InlineData := []
  deriving DecidableEq

namespace FileMetaShallowVersion

variable {B : Type} (rt : Runtime) (codec : MetaCodec B)

def ofVersion (ver : FileMetaVersion) : FileMetaShallowVersion B :=
  { header := ver.header rt, metaBuf := codec.marshal ver }

variable (a b : FileMetaShallowVersion B)

def compare : Ordering :=
  (a.header.compare b.header).then (codec.compare a.metaBuf b.metaBuf)

/-- The order `xl.meta` is sorted in: newest first. -/
def sortCompare : Ordering :=
  if a.header.modTime ≠ b.header.modTime then Ord.compare b.header.modTime a.header.modTime
  else if a.header.versionType ≠ b.header.versionType then
    Ord.compare b.header.versionType a.header.versionType
  else if a.header.versionId ≠ b.header.versionId then
    Ord.compare b.header.versionId a.header.versionId
  else if a.header.flags ≠ b.header.flags then Ord.compare b.header.flags a.header.flags
  else compare codec b a

def decodeDataDirFromMeta (buf : B) : Except String (Option Uuid) :=
  (codec.unmarshal buf).map fun ver => ver.object.bind MetaObject.dataDir

end FileMetaShallowVersion

namespace FileMeta

variable {B : Type} (rt : Runtime) (codec : MetaCodec B) (fm : FileMeta B)

def getIdx (idx : ℕ) : Except FilemetaFailure FileMetaVersion :=
  if idx > fm.versions.length then .error (.err .fileNotFound)
  else
    match fm.versions[idx]? with
    | none => .error .panic
    | some v => (codec.unmarshal v.metaBuf).mapError fun e => .err (.rmpSerdeDecode e)

def sortByModTime : FileMeta B :=
  if fm.versions.length ≤ 1 then fm
  else
    { fm with
      versions := fm.versions.insertionSort fun a b =>
        FileMetaShallowVersion.sortCompare codec a b ≠ .gt }

def setIdx (idx : ℕ) (ver : FileMetaVersion) : Except FilemetaError (FileMeta B) :=
  match fm.versions[idx]? with
  | none => .error .fileNotFound
  | some old =>
    let new := FileMetaShallowVersion.ofVersion rt codec ver
    let fm' := { fm with versions := fm.versions.set idx new }
    .ok (if old.header.modTime ≠ new.header.modTime then fm'.sortByModTime codec else fm')

/-- The new version may stand before the existing one: it is at least as new. -/
def standsBefore (modTime : Option Time) (exist : FileMetaShallowVersion B) : Bool :=
  match exist.header.modTime, modTime with
  | some ex, some new => decide (ex ≤ new)
  | _, _ => false

def addVersionFilemata (version : FileMetaVersion) : Except FilemetaError (FileMeta B) :=
  if !version.valid then .error (.other "file meta version invalid")
  else if fm.versions.isEmpty then
    .ok { fm with versions := [FileMetaShallowVersion.ofVersion rt codec version] }
  else
    match fm.versions.findIdx? (·.header.versionId == version.getVersionId) with
    | some fidx => fm.setIdx rt codec fidx version
    | none =>
      match fm.versions.findIdx? (standsBefore version.getModTime) with
      | some idx =>
        .ok { fm with
          versions := fm.versions.insertIdx idx (FileMetaShallowVersion.ofVersion rt codec version) }
      | none => .error (.other "add_version failed")

def addVersion (fi : FileInfo) : Except FilemetaError (FileMeta B) :=
  let fi := { fi with versionId := some (fi.versionId.getD Uuid.nil) }
  let fm := match fi.data with
    | some data => { fm with data := fm.data.replace (Uuid.display (fi.versionId.getD Uuid.nil)) data }
    | none => fm
  fm.addVersionFilemata rt codec (FileMetaVersion.ofFileInfo fi)

def findVersion (vid : Option Uuid) : Except FilemetaFailure (ℕ × FileMetaVersion) :=
  match fm.versions.findIdx? (·.header.versionId == some (vid.getD Uuid.nil)) with
  | some i => (fm.getIdx codec i).map fun ver => (i, ver)
  | none => .error (.err .fileVersionNotFound)

/-- The version is counted as another one with its data in `dataDir`. -/
def sharesDataDir (versionId : Uuid) (dataDir : Option Uuid) (v : FileMetaShallowVersion B) : Bool :=
  v.header.versionType == .object && v.header.versionId != some versionId && v.header.usesDataDir &&
    match FileMetaShallowVersion.decodeDataDirFromMeta codec v.metaBuf with
    | .ok dir => dir.isSome && dir == dataDir
    | .error _ => false

def sharedDataDirCount (versionId dataDir : Option Uuid) : ℕ :=
  let versionId := versionId.getD Uuid.nil
  if decide (fm.data.length > 0) && (fm.data.find versionId.display).isSome then 0
  else fm.versions.countP (sharesDataDir codec versionId dataDir)

/-- The count of `rename_data`, which takes a version that does not decode as one without a
directory and looks at no inline data. -/
def shardDataDirCount (vid dataDir : Option Uuid) : ℕ :=
  fm.versions.countP fun v =>
    v.header.versionType == .object && v.header.versionId != some (vid.getD Uuid.nil) &&
      v.header.usesDataDir &&
      ((FileMetaShallowVersion.decodeDataDirFromMeta codec v.metaBuf).toOption.join == dataDir)

/-- The versions have different ids, and each header says what its version is. -/
structure Tidy (versions : List (FileMetaShallowVersion B)) : Prop where
  nodup : (versions.map fun v => v.header.versionId).Nodup
  headed : ∀ v ∈ versions, ∀ ver, codec.unmarshal v.metaBuf = .ok ver →
    ver.versionType = v.header.versionType ∧ ver.getVersionId = v.header.versionId

/-- Whether there is a place for the version. -/
def Admits (versions : List (FileMetaShallowVersion B)) (ver : FileMetaVersion) : Prop :=
  ver.valid ∧ (versions = [] ∨
    ∃ v ∈ versions, v.header.versionId = ver.getVersionId ∨ standsBefore ver.getModTime v)

instance (versions : List (FileMetaShallowVersion B)) (ver : FileMetaVersion) :
    Decidable (Admits versions ver) :=
  inferInstanceAs (Decidable (_ ∧ (_ ∨ ∃ v ∈ versions, _ ∨ _)))

section

variable {rt codec} {vs versions' : List (FileMetaShallowVersion B)} {ver : FileMetaVersion}

section

variable (h : Tidy codec vs)
include h

theorem Tidy.perm (hp : versions'.Perm vs) : Tidy codec versions' :=
  ⟨(hp.map _).nodup_iff.mpr h.nodup, fun v hv => h.headed v (hp.subset hv)⟩

theorem Tidy.sublist (hs : versions'.Sublist vs) : Tidy codec versions' :=
  ⟨h.nodup.sublist (hs.map _), fun v hv => h.headed v (hs.subset hv)⟩

theorem Tidy.cons (hid : ∀ v ∈ vs, v.header.versionId ≠ ver.getVersionId) :
    Tidy codec (.ofVersion rt codec ver :: vs) := by
  constructor
  · refine nodup_cons.mpr ⟨?_, h.nodup⟩
    simpa [FileMetaShallowVersion.ofVersion] using hid
  · intro v hv ver' hver'
    rcases mem_cons.mp hv with rfl | hv
    · obtain rfl : ver = ver' := by simpa [FileMetaShallowVersion.ofVersion] using hver'
      exact ⟨rfl, rfl⟩
    · exact h.headed v hv ver' hver'

/-- Taking a version out leaves those with another id. -/
theorem Tidy.mem_eraseIdx {i : ℕ} {x : FileMetaShallowVersion B}
    (hi : vs[i]? = some x) (v : FileMetaShallowVersion B) :
    v ∈ vs.eraseIdx i ↔ v ∈ vs ∧ v.header.versionId ≠ x.header.versionId := by
  obtain ⟨hlt, rfl⟩ := List.getElem?_eq_some_iff.mp hi
  have hperm := getElem_cons_eraseIdx_perm hlt
  obtain ⟨hfresh, -⟩ := nodup_cons.mp (h.perm hperm).nodup
  constructor
  · intro hv
    refine ⟨hperm.subset (mem_cons_of_mem _ hv), fun hid => hfresh ?_⟩
    exact mem_map.mpr ⟨v, hv, hid⟩
  · rintro ⟨hv, hid⟩
    rcases mem_cons.mp (hperm.mem_iff.mpr hv) with rfl | hv
    · exact absurd rfl hid
    · exact hv

omit h in
theorem eraseP_versionId {id : Option Uuid} (hn : (vs.map fun v => v.header.versionId).Nodup) :
    vs.eraseP (·.header.versionId == id) = vs.filter (!·.header.versionId == id) :=
  eraseP_eq_filter_of_nodup
    (fun _ _ ha hb => (beq_iff_eq.mp ha).trans (beq_iff_eq.mp hb).symm) hn

theorem Tidy.mem_eraseP (id : Option Uuid) (v : FileMetaShallowVersion B) :
    v ∈ vs.eraseP (·.header.versionId == id) ↔ v ∈ vs ∧ v.header.versionId ≠ id := by
  simp [eraseP_versionId h.nodup]

end

theorem Admits.perm_iff (hp : versions'.Perm vs) : Admits versions' ver ↔ Admits vs ver := by
  simp only [Admits, hp.mem_iff, ← length_eq_zero_iff, hp.length_eq]

end

variable {rt codec fm}

theorem getIdx_of_getElem? {i : ℕ} {x : FileMetaShallowVersion B} {ver : FileMetaVersion}
    (hx : fm.versions[i]? = some x) :
    fm.getIdx codec i = .ok ver ↔ codec.unmarshal x.metaBuf = .ok ver := by
  obtain ⟨hlt, -⟩ := List.getElem?_eq_some_iff.mp hx
  rw [getIdx, if_neg (by omega), hx]
  dsimp only
  cases codec.unmarshal x.metaBuf <;> simp [Except.mapError]

/-- The version found is the one with the id. -/
theorem findVersion_ok {vid : Option Uuid} {r : ℕ × FileMetaVersion}
    (h : fm.findVersion codec vid = .ok r) :
    ∃ v ∈ fm.versions, v.header.versionId = some (vid.getD Uuid.nil) ∧
      codec.unmarshal v.metaBuf = .ok r.2 := by
  unfold findVersion at h
  split at h
  · next i hf =>
    obtain ⟨hlt, hid, -⟩ := findIdx?_eq_some_iff_getElem.mp hf
    refine ⟨_, List.getElem_mem hlt, by simpa using hid, ?_⟩
    refine (getIdx_of_getElem? (getElem?_eq_getElem hlt)).mp ?_
    cases hg : fm.getIdx codec i with
    | error e => simp [hg, Except.map] at h
    | ok ver =>
      obtain rfl : (i, ver) = r := by simpa [hg, Except.map] using h
      rfl
  · cases h

theorem sortByModTime_perm : (fm.sortByModTime codec).versions.Perm fm.versions := by
  unfold sortByModTime
  split
  · exact .refl _
  · exact perm_insertionSort _ _

@[simp] theorem sortByModTime_data : (fm.sortByModTime codec).data = fm.data := by
  unfold sortByModTime
  split <;> rfl

variable (rt codec) in
/-- Setting a version puts it in the place of the old one, up to the order. -/
theorem setIdx_spec {i : ℕ} (hi : i < fm.versions.length) (ver : FileMetaVersion) :
    ∃ fm', fm.setIdx rt codec i ver = .ok fm' ∧ fm'.data = fm.data ∧
      fm'.versions.Perm (.ofVersion rt codec ver :: fm.versions.eraseIdx i) := by
  rw [setIdx, getElem?_eq_getElem hi]
  refine ⟨_, rfl, ?_, ?_⟩
  · split <;> simp
  · refine List.Perm.trans ?_ (set_perm_cons_eraseIdx hi _)
    split
    · exact sortByModTime_perm
    · exact .refl _

variable (rt codec fm) in
/-- Adding a version succeeds exactly when there is a place for it, and puts it in the place of
the version with its id, if there is one. -/
theorem addVersionFilemata_spec (ver : FileMetaVersion) :
    (Admits fm.versions ver ∧ ∃ fm', fm.addVersionFilemata rt codec ver = .ok fm' ∧
      fm'.data = fm.data ∧ fm'.versions.Perm
        (.ofVersion rt codec ver :: fm.versions.eraseP (·.header.versionId == ver.getVersionId))) ∨
    (¬ Admits fm.versions ver ∧ ∃ e, fm.addVersionFilemata rt codec ver = .error e) := by
  unfold addVersionFilemata Admits
  by_cases hv : ver.valid
  swap
  · exact .inr ⟨fun h => hv h.1, _, by simp [hv]; rfl⟩
  by_cases he : fm.versions = []
  · refine .inl ⟨⟨hv, .inl he⟩, { fm with versions := [.ofVersion rt codec ver] }, ?_, rfl, ?_⟩
    · simp [hv, he]
    · simp [he]
  simp only [hv, Bool.not_true, Bool.false_eq_true, if_false, List.isEmpty_iff, he, false_or,
    true_and, eraseP_eq_eraseIdx]
  cases hf : fm.versions.findIdx? (·.header.versionId == ver.getVersionId) with
  | some i =>
    obtain ⟨hlt, hid, -⟩ := findIdx?_eq_some_iff_getElem.mp hf
    refine .inl ⟨⟨_, List.getElem_mem hlt, .inl (by simpa using hid)⟩, setIdx_spec rt codec hlt ver⟩
  | none =>
    have hnone := findIdx?_eq_none_iff.mp hf
    simp only [beq_eq_false_iff_ne] at hnone
    cases hs : fm.versions.findIdx? (standsBefore ver.getModTime) with
    | some j =>
      obtain ⟨hlt, hj, -⟩ := findIdx?_eq_some_iff_getElem.mp hs
      exact .inl ⟨⟨_, List.getElem_mem hlt, .inr hj⟩, _, rfl, rfl, List.perm_insertIdx _ _ hlt.le⟩
    | none =>
      have hnone' := findIdx?_eq_none_iff.mp hs
      refine .inr ⟨?_, _, rfl⟩
      rintro ⟨v, hmem, hid | hb⟩
      · exact hnone v hmem hid
      · simp [hnone' v hmem] at hb

theorem Tidy.addVersionFilemata (h : Tidy codec fm.versions) {ver : FileMetaVersion}
    {fm' : FileMeta B} (hadd : fm.addVersionFilemata rt codec ver = .ok fm') :
    Tidy codec fm'.versions := by
  rcases addVersionFilemata_spec rt codec fm ver with
    ⟨-, fm'', hok, -, hp⟩ | ⟨-, e, herr⟩
  · obtain rfl : fm'' = fm' := by simpa [hadd] using hok.symm
    refine ((h.sublist (eraseP_sublist)).cons ?_).perm hp
    exact fun v hv => ((h.mem_eraseP _ v).mp hv).2
  · simp [hadd] at herr

theorem sharedDataDirCount_eq_zero_iff {vi d : Option Uuid} :
    fm.sharedDataDirCount codec vi d = 0 ↔
      (fm.data.find (Uuid.display (vi.getD Uuid.nil))).isSome ∨
        ∀ v ∈ fm.versions, ¬ sharesDataDir codec (vi.getD Uuid.nil) d v := by
  unfold sharedDataDirCount
  by_cases hf : (fm.data.find (Uuid.display (vi.getD Uuid.nil))).isSome
  · have hne : fm.data.length > 0 := by
      cases hd : fm.data with
      | nil => simp [hd, InlineData.find] at hf
      | cons => simp
    simp [hf, hne]
  · simp [hf, countP_eq_zero]

end FileMeta

end Rustfs
