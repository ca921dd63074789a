import Mathlib.Data.List.TakeWhile
import Rustfs.Filemeta.SharedDataDir

/-! Writing new metadata into a version of `xl.meta` in place. -/
namespace Rustfs

open List MetaObject FileMetaShallowVersion

inductive UpdateError where
  | methodNotAllowed
  | rmpSerdeDecode (text : String)
  deriving DecidableEq

/-- A flag of one request, which is not kept. -/
def isTransient (k : String) : Bool := k == rustfsHealing || k == rustfsDataMov

/-- The object with the metadata of the request written over its own. -/
def MetaObject.update (fi : FileInfo) (o : MetaObject) : MetaObject :=
  { o with
    metaSys := fi.metadata.entries.foldl (fun m e =>
      insertIf (isSysKey e.1 && !isTransient e.1) e.1 (utf8 e.2) m) o.metaSys
    metaUser := fi.metadata.entries.foldl (fun m e => insertIf (!isSysKey e.1) e.1 e.2 m) o.metaUser
    modTime := fi.modTime.or o.modTime }

def FileMetaVersion.update (fi : FileInfo) (ver : FileMetaVersion) : FileMetaVersion :=
  { ver with object := ver.object.map (MetaObject.update fi) }

namespace FileMeta

variable {B : Type} (rt : Runtime) (codec : MetaCodec B) (fm : FileMeta B) (fi : FileInfo)
  (v : FileMetaShallowVersion B)

/-- The version is an object with the id asked for; no id is the nil one. -/
def aimed : Bool :=
  v.header.versionType == .object && v.header.versionId.getD Uuid.nil == fi.requestedId

/-- The loop over the versions: the answer, and the versions when it ends. -/
def updateFrom : List (FileMetaShallowVersion B) →
    Except UpdateError Unit × List (FileMetaShallowVersion B)
  | [] => (.ok (), [])
  | v :: vs =>
    match v.header.versionType with
    | .invalid | .legacy => ((updateFrom vs).1, v :: (updateFrom vs).2)
    | .object =>
      if v.header.versionId.getD Uuid.nil = fi.requestedId then
        match codec.unmarshal v.metaBuf with
        | .error e => (.error (.rmpSerdeDecode e), v :: vs)
        | .ok ver =>
          ((updateFrom vs).1, .ofVersion rt codec (ver.update fi) :: (updateFrom vs).2)
      else ((updateFrom vs).1, v :: (updateFrom vs).2)
    | .delete =>
      if v.header.versionId = fi.versionId then (.error .methodNotAllowed, v :: vs)
      else ((updateFrom vs).1, v :: (updateFrom vs).2)

def updateObjectVersion : Except UpdateError Unit × FileMeta B :=
  match updateFrom rt codec fi fm.versions with
  | (.error e, vs) => (.error e, { fm with versions := vs })
  | (.ok (), vs) =>
    (.ok (), { fm with
      versions := vs.insertionSort fun a b => FileMetaShallowVersion.sortCompare codec a b ≠ .gt })

/-- The version ends the loop with an error. -/
def stops : Bool :=
  (v.header.versionType == .delete && v.header.versionId == fi.versionId) ||
    (aimed fi v && (codec.unmarshal v.metaBuf).toOption.isNone)

/-- What the loop writes in the place of a version it passes. -/
def rewritten : FileMetaShallowVersion B :=
  if aimed fi v then
    match codec.unmarshal v.metaBuf with
    | .error _ => v
    | .ok ver => .ofVersion rt codec (ver.update fi)
  else v

/-- The version decodes to an object, on which metadata can be written. -/
def hasObject : Bool :=
  match codec.unmarshal v.metaBuf with
  | .error _ => false
  | .ok ver => ver.object.isSome

/-- The object has each entry of the request, and its time if it gives one. -/
structure Carries (o : MetaObject) : Prop where
  sys : ∀ k v, fi.metadata.lookup k = some v → MetaObject.isSysKey k → ¬ isTransient k →
    o.metaSys.lookup k = some (utf8 v)
  user : ∀ k v, fi.metadata.lookup k = some v → ¬ MetaObject.isSysKey k →
    o.metaUser.lookup k = some v
  modTime : ∀ t, fi.modTime = some t → o.modTime = some t

/-- The object version asked for carries the new metadata, and every other version is unchanged. -/
def Updated (fm' : FileMeta B) : Prop :=
  ∃ changed, fm'.versions.Perm (changed ++ fm.versions.filter (!aimed fi ·)) ∧
    changed.length = fm.versions.countP (aimed fi) ∧ fm'.data = fm.data ∧
    ∃ v ∈ changed, ∃ ver o, codec.unmarshal v.metaBuf = .ok ver ∧ v.header = ver.header rt ∧
      ver.object = some o ∧ Carries fi o

/-- The request updates the version it names, or fails and changes nothing. -/
def UpdatesOrFails : Prop :=
  ((fm.updateObjectVersion rt codec fi).1 = .ok () ∧
    fm.Updated rt codec fi (fm.updateObjectVersion rt codec fi).2) ∨
  (∃ e, (fm.updateObjectVersion rt codec fi).1 = .error e) ∧
    (fm.updateObjectVersion rt codec fi).2 = fm

section

variable {rt codec fm fi v} {vs : List (FileMetaShallowVersion B)}

theorem updateFrom_of_stops (h : stops codec fi v) :
    (∃ e, (updateFrom rt codec fi (v :: vs)).1 = .error e) ∧
      (updateFrom rt codec fi (v :: vs)).2 = v :: vs := by
  unfold stops aimed at h
  unfold updateFrom
  cases ht : v.header.versionType <;> simp [ht] at h
  · obtain ⟨hid, hnone⟩ := h
    rw [if_pos hid]
    cases hdec : codec.unmarshal v.metaBuf with
    | error e => exact ⟨⟨_, rfl⟩, rfl⟩
    | ok ver => simp [hdec, Except.toOption] at hnone
  · simp [h]

theorem updateFrom_of_passes (h : ¬ stops codec fi v) : updateFrom rt codec fi (v :: vs) =
    ((updateFrom rt codec fi vs).1, rewritten rt codec fi v :: (updateFrom rt codec fi vs).2) := by
  unfold stops aimed at h
  rw [updateFrom, rewritten, aimed]
  cases ht : v.header.versionType <;> simp [ht] at h
  · simp
  · by_cases hid : v.header.versionId.getD Uuid.nil = fi.requestedId
    · cases hdec : codec.unmarshal v.metaBuf with
      | error e => simp [hid, hdec, Except.toOption] at h
      | ok ver => simp [hid]
    · simp [hid]
  · simp [h]
  · simp

variable (rt codec fi) in
/-- The loop rewrites the versions before the first one that stops it. -/
theorem updateFrom_spec (vs : List (FileMetaShallowVersion B)) :
    ((updateFrom rt codec fi vs).1 = .ok () ↔ ∀ v ∈ vs, ¬ stops codec fi v) ∧
    (updateFrom rt codec fi vs).2 = (vs.takeWhile (!stops codec fi ·)).map (rewritten rt codec fi) ++
      vs.dropWhile (!stops codec fi ·) := by
  induction vs with
  | nil => simp [updateFrom]
  | cons v vs ih =>
    by_cases h : stops codec fi v
    · obtain ⟨⟨e, herr⟩, hvs⟩ : (∃ e, (updateFrom rt codec fi (v :: vs)).1 = .error e) ∧ _ :=
        updateFrom_of_stops h
      simp [herr, hvs, h]
    · rw [updateFrom_of_passes h]
      simp [h, ih.1, ih.2]

section

variable {β γ : Type} {p : (Sigma fun _ : String => β) → Bool}
  {f : (Sigma fun _ : String => β) → γ} {es : List (Sigma fun _ : String => β)}

theorem lookup_foldl_of_not_key {k : String} (h : ∀ e ∈ es, e.1 ≠ k) (m : StrMap γ) :
    (es.foldl (fun m e => insertIf (p e) e.1 (f e) m) m).lookup k = m.lookup k := by
  induction es generalizing m with
  | nil => rfl
  | cons e es ih =>
    rw [foldl_cons, ih fun e' he' => h e' (mem_cons_of_mem _ he')]
    unfold insertIf
    split
    · exact AList.lookup_insert_ne (h e mem_cons_self).symm
    · rfl

/-- Copying entries into a map sets each key that is to be copied. -/
theorem lookup_foldl_insertIf (hes : es.NodupKeys) {e : Sigma fun _ : String => β} (he : e ∈ es)
    (hp : p e) (m : StrMap γ) :
    (es.foldl (fun m e => insertIf (p e) e.1 (f e) m) m).lookup e.1 = some (f e) := by
  induction es generalizing m with
  | nil => simp at he
  | cons a es ih =>
    obtain ⟨ha, hes⟩ := nodupKeys_cons.mp hes
    rw [foldl_cons]
    rcases mem_cons.mp he with rfl | he
    · rw [lookup_foldl_of_not_key, insertIf, if_pos hp, AList.lookup_insert]
      exact fun e' he' heq => ha (heq ▸ mem_keys_of_mem he')
    · exact ih hes he _

end

/-- The updated object carries the metadata of the request. -/
theorem carries_update (o : MetaObject) : Carries fi (o.update fi) := by
  have hentry : ∀ {k v}, fi.metadata.lookup k = some v → ⟨k, v⟩ ∈ fi.metadata.entries :=
    fun h => AList.mem_lookup_iff.mp h
  refine ⟨fun k v hk hsys htrans => ?_, fun k v hk huser => ?_, fun t ht => ?_⟩
  · exact lookup_foldl_insertIf fi.metadata.nodupKeys (hentry hk) (by simp [hsys, htrans]) o.metaSys
  · exact lookup_foldl_insertIf fi.metadata.nodupKeys (hentry hk) (by simp [huser]) o.metaUser
  · simp [update, ht]

theorem rewritten_of_aimed {ver : FileMetaVersion} (ha : aimed fi v)
    (hdec : codec.unmarshal v.metaBuf = .ok ver) :
    rewritten rt codec fi v = .ofVersion rt codec (ver.update fi) := by
  rw [rewritten, if_pos ha, hdec]

theorem exists_unmarshal (ha : aimed fi v) (hpass : ¬ stops codec fi v) :
    ∃ ver, codec.unmarshal v.metaBuf = .ok ver := by
  cases hdec : codec.unmarshal v.metaBuf with
  | error e => simp [stops, ha, hdec, Except.toOption] at hpass
  | ok ver => exact ⟨ver, rfl⟩

variable (rt codec fi) in
theorem map_rewritten_perm (vs : List (FileMetaShallowVersion B)) :
    (vs.map (rewritten rt codec fi)).Perm
      ((vs.filter (aimed fi)).map (rewritten rt codec fi) ++ vs.filter (!aimed fi ·)) := by
  have hrest : (vs.filter (!aimed fi ·)).map (rewritten rt codec fi) = vs.filter (!aimed fi ·) := by
    refine (map_congr_left fun v hv => ?_).trans (map_id _)
    have hv : aimed fi v = false := by simpa using (mem_filter.mp hv).2
    simp [rewritten, hv]
  refine ((filter_append_perm (aimed fi) vs).map _).symm.trans ?_
  rw [map_append, hrest]

variable (rt codec fi) in
/-- Once every version is passed, the update took place if one of those asked for has an object. -/
theorem updated_iff {fm' : FileMeta B} (hpass : ∀ v ∈ fm.versions, ¬ stops codec fi v)
    (hp : fm'.versions.Perm (fm.versions.map (rewritten rt codec fi))) (hdata : fm'.data = fm.data) :
    fm.Updated rt codec fi fm' ↔ ∃ v ∈ fm.versions, aimed fi v ∧ hasObject codec v := by
  have hp := hp.trans (map_rewritten_perm rt codec fi fm.versions)
  constructor
  · rintro ⟨changed, hperm, -, -, v, hv, ver, o, hdec, -, hobj, -⟩
    have hchanged := (perm_append_right_iff _).mp (hperm.symm.trans hp)
    obtain ⟨x, hx, rfl⟩ := mem_map.mp (hchanged.mem_iff.mp hv)
    obtain ⟨hmem, ha⟩ := mem_filter.mp hx
    obtain ⟨ver₀, hdec₀⟩ := exists_unmarshal ha (hpass x hmem)
    refine ⟨x, hmem, ha, ?_⟩
    rw [rewritten_of_aimed ha hdec₀] at hdec
    obtain rfl : ver₀.update fi = ver := by simpa [ofVersion] using hdec
    cases hobj₀ : ver₀.object with
    | none => simp [FileMetaVersion.update, hobj₀] at hobj
    | some o => simp [hasObject, hdec₀, hobj₀]
  · rintro ⟨x, hmem, ha, hobj⟩
    obtain ⟨ver, hdec⟩ := exists_unmarshal ha (hpass x hmem)
    refine ⟨_, hp, by simp [countP_eq_length_filter], hdata, rewritten rt codec fi x, ?_, ?_⟩
    · exact mem_map_of_mem (mem_filter.mpr ⟨hmem, ha⟩)
    · rw [rewritten_of_aimed ha hdec]
      cases hobj' : ver.object with
      | none => simp [hasObject, hdec, hobj'] at hobj
      | some o =>
        refine ⟨ver.update fi, o.update fi, ?_, rfl, ?_, carries_update o⟩
        · simp [ofVersion]
        · simp [FileMetaVersion.update, hobj']

/-- A failed update leaves the versions alone exactly if none before the failure changes. -/
theorem unchanged_iff :
    (vs.takeWhile (!stops codec fi ·)).map (rewritten rt codec fi) ++ vs.dropWhile (!stops codec fi ·) =
      vs ↔ ∀ v ∈ vs.takeWhile (!stops codec fi ·), rewritten rt codec fi v = v := by
  conv_lhs => rhs; rw [← takeWhile_append_dropWhile (p := (!stops codec fi ·)) (l := vs)]
  rw [append_left_inj]
  constructor
  · intro h v hv
    exact map_inj_left.mp (h.trans (map_id _).symm) v hv
  · intro h
    exact (map_congr_left h).trans (map_id _)

/-- A loop that passes every version ends in a sort. -/
theorem updateObjectVersion_ok (hpass : ∀ v ∈ fm.versions, ¬ stops codec fi v) :
    fm.updateObjectVersion rt codec fi = (.ok (), { fm with
      versions := (fm.versions.map (rewritten rt codec fi)).insertionSort
        fun a b => sortCompare codec a b ≠ .gt }) := by
  obtain ⟨hok, hvs⟩ := updateFrom_spec rt codec fi fm.versions
  have hrun : updateFrom rt codec fi fm.versions =
      (.ok (), fm.versions.map (rewritten rt codec fi)) := by
    refine Prod.ext (hok.mpr hpass) ?_
    rw [hvs, takeWhile_eq_self_iff.mpr (by simpa using hpass),
      dropWhile_eq_nil_iff.mpr (by simpa using hpass), append_nil]
  rw [updateObjectVersion, hrun]

variable (rt) in
theorem updateObjectVersion_error (hstop : ¬ ∀ v ∈ fm.versions, ¬ stops codec fi v) :
    ∃ e, fm.updateObjectVersion rt codec fi = (.error e, { fm with
      versions := (fm.versions.takeWhile (!stops codec fi ·)).map (rewritten rt codec fi) ++
        fm.versions.dropWhile (!stops codec fi ·) }) := by
  obtain ⟨hok, hvs⟩ := updateFrom_spec rt codec fi fm.versions
  rw [updateObjectVersion]
  cases hrun : updateFrom rt codec fi fm.versions with
  | mk answer vs =>
    rw [hrun] at hok hvs
    cases answer with
    | ok => exact absurd (hok.mp rfl) hstop
    | error e => exact ⟨e, by rw [← hvs]⟩

end

/-- An update changes the version asked for and no other, or fails and changes nothing, exactly if
no version stops the loop and the version asked for is an object, or the versions before the one
that stops it are as the update would leave them. -/
theorem updatesOrFails_iff : fm.UpdatesOrFails rt codec fi ↔
    ((∀ v ∈ fm.versions, ¬ stops codec fi v) ∧
      ∃ v ∈ fm.versions, aimed fi v ∧ hasObject codec v) ∨
    ((∃ v ∈ fm.versions, stops codec fi v) ∧
      ∀ v ∈ fm.versions.takeWhile (!stops codec fi ·), rewritten rt codec fi v = v) := by
  unfold UpdatesOrFails
  by_cases hpass : ∀ v ∈ fm.versions, ¬ stops codec fi v
  · have hnone : ¬ ∃ v ∈ fm.versions, stops codec fi v := by simpa using hpass
    rw [updateObjectVersion_ok hpass]
    simp only [hnone, reduceCtorEq, exists_false, false_and, or_false, true_and]
    refine (updated_iff rt codec fi hpass ?_ ?_).trans ⟨fun h => ⟨hpass, h⟩, And.right⟩
    · exact perm_insertionSort _ _
    · rfl
  · have hsome : ∃ v ∈ fm.versions, stops codec fi v := by simpa using hpass
    obtain ⟨e, herr⟩ := updateObjectVersion_error rt hpass
    rw [herr]
    simp only [hpass, hsome, reduceCtorEq, false_and, false_or, true_and, Except.error.injEq,
      exists_eq']
    rw [← unchanged_iff]
    exact ⟨fun h => congrArg FileMeta.versions h, fun h => by rw [h]⟩

/-- An update of a version that is not there succeeds, with nothing updated. -/
theorem missing_version_updated :
    ((twoVersions 7 8).updateObjectVersion restingRuntime plainCodec { versionId := some 5 }).1 =
      .ok () ∧
    ¬ (twoVersions 7 8).UpdatesOrFails restingRuntime plainCodec { versionId := some 5 } := by
  refine ⟨rfl, ?_⟩
  rintro (⟨-, changed, -, hlen, -, v, hv, -⟩ | ⟨⟨e, he⟩, -⟩)
  · obtain rfl : changed = [] := length_eq_zero_iff.mp hlen
    simp at hv
  · cases he

end FileMeta

end Rustfs
