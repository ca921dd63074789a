import Mathlib.Data.List.Induction
import Rustfs.Filemeta.DeleteFrame
import Rustfs.Filemeta.UpdateVersion

/-! Every `xl.meta` the mutators build is sorted, has each id once and headers that say what the
versions are. -/
namespace Rustfs

open List FileMetaVersion

/-- A call that changes `xl.meta`. -/
inductive VersionCall where
  | add (fi : FileInfo)
  | update (fi : FileInfo)
  | delete (fi : FileInfo)

/-- The runtime at another time. -/
def Runtime.atTime (rt : Runtime) (t : Time) : Runtime := { rt with now := t }

namespace FileMeta

variable {B : Type} (rt : Runtime) (codec : MetaCodec B) (fm : FileMeta B)

/-- The inline data of the request is stored before its version is added. -/
def putData (fi : FileInfo) : FileMeta B :=
  match fi.data with
  | some data => { fm with data := fm.data.replace (Uuid.display fi.requestedId) data }
  | none => fm

def apply : VersionCall → FileMeta B
  | .add fi =>
    match fm.addVersion rt codec fi with
    | .ok fm' => fm'
    | .error _ => fm.putData fi
  | .update fi => (fm.updateObjectVersion rt codec fi).2
  | .delete fi => (fm.deleteVersion rt codec fi).2

/-- The calls one after the other, each at its own time. -/
def applyAll (calls : List (Time × VersionCall)) : FileMeta B :=
  calls.foldl (fun fm c => fm.apply (rt.atTime c.1) codec c.2) fm

/-- Sorted, each id once, and each header that of its version at one of the times. -/
structure WellKept (times : List Time) (versions : List (FileMetaShallowVersion B)) : Prop where
  sorted : isSortedByModTime versions
  distinct : (versions.map fun v => v.header.versionId).Nodup
  named : ∀ v ∈ versions, v.header.versionId.isSome
  headed : ∀ v ∈ versions, ∃ t ∈ times, ∃ ver, codec.unmarshal v.metaBuf = .ok ver ∧
    v.header = ver.header (rt.atTime t)

/-- Each version of the second list is one of the first or newly written. -/
def Writes (versions versions' : List (FileMetaShallowVersion B)) : Prop :=
  ∀ v ∈ versions', v ∈ versions ∨
    ∃ ver, ver.getVersionId.isSome ∧ v = .ofVersion rt codec ver

section

variable {rt codec fm} {fi : FileInfo} {ts : List Time}
  {vs vs' : List (FileMetaShallowVersion B)} {w : FileMetaVersion}

section

variable (h : WellKept rt codec ts vs)
include h

theorem WellKept.tidy : Tidy codec vs := by
  refine ⟨h.distinct, fun v hv ver hdec => ?_⟩
  obtain ⟨t, -, ver', hdec', hheader⟩ := h.headed v hv
  obtain rfl : ver' = ver := by simpa [hdec'] using hdec
  simp [hheader]

theorem WellKept.newestFirst : NewestFirst vs :=
  isSortedByModTime_iff.mp h.sorted

/-- What a step writes is headed at the time of the step. -/
theorem WellKept.of_writes {t : Time}
    (hw : Writes (rt.atTime t) codec vs vs') (hsorted : NewestFirst vs')
    (hdistinct : (vs'.map fun v => v.header.versionId).Nodup) :
    WellKept rt codec (t :: ts) vs' := by
  refine ⟨isSortedByModTime_iff.mpr hsorted, hdistinct, fun v hv => ?_, fun v hv => ?_⟩
  · rcases hw v hv with hold | ⟨ver, hid, rfl⟩
    · exact h.named v hold
    · exact hid
  · rcases hw v hv with hold | ⟨ver, -, rfl⟩
    · obtain ⟨t', ht', hv'⟩ := h.headed v hold
      exact ⟨t', mem_cons_of_mem _ ht', hv'⟩
    · exact ⟨t, mem_cons_self, ver, codec.unmarshal_marshal ver, rfl⟩

end

theorem writes_tryAdd (hid : w.getVersionId.isSome) :
    Writes rt codec fm.versions (fm.tryAdd rt codec w).1.versions := by
  intro v hv
  rcases mem_of_mem_placed (tryAdd_placed.mem_iff.mp hv) with ⟨-, rfl⟩ | hold
  · exact .inr ⟨w, hid, rfl⟩
  · exact .inl hold

theorem Writes.trans {vs'' : List (FileMetaShallowVersion B)}
    (h : Writes rt codec vs vs') (h' : Writes rt codec vs' vs'') : Writes rt codec vs vs'' := by
  intro v hv
  rcases h' v hv with hv | hnew
  · exact h v hv
  · exact .inr hnew

theorem writes_record {ws : List FileMetaVersion} (hid : ∀ w ∈ ws, w.getVersionId.isSome) :
    Writes rt codec fm.versions (fm.record rt codec ws).versions := by
  induction ws generalizing fm with
  | nil => exact fun v hv => .inl hv
  | cons w ws ih =>
    refine (writes_tryAdd (hid w mem_cons_self)).trans ?_
    exact ih fun w' hw' => hid w' (mem_cons_of_mem _ hw')

theorem putData_versions (fi : FileInfo) : (fm.putData fi).versions = fm.versions := by
  unfold putData
  split <;> rfl

theorem addVersion_eq : fm.addVersion rt codec fi = (fm.putData fi).addVersionFilemata rt codec
    (.ofFileInfo { fi with versionId := some fi.requestedId }) := by
  unfold addVersion putData
  cases fi.data <;> rfl

/-- Adding a version is `tryAdd` once the inline data is stored. -/
theorem apply_add : (fm.apply rt codec (.add fi)).versions =
    ((fm.putData fi).tryAdd rt codec
      (.ofFileInfo { fi with versionId := some fi.requestedId })).1.versions := by
  rw [apply, addVersion_eq, tryAdd]
  cases (fm.putData fi).addVersionFilemata rt codec
    (.ofFileInfo { fi with versionId := some fi.requestedId }) <;> rfl

theorem getVersionId_ofFileInfo :
    (ofFileInfo { fi with versionId := some fi.requestedId }).getVersionId =
      some fi.requestedId := by
  unfold ofFileInfo
  split <;> rfl

theorem WellKept.add (h : WellKept rt codec ts fm.versions) (t : Time) (fi : FileInfo) :
    WellKept rt codec (t :: ts) (fm.apply (rt.atTime t) codec (.add fi)).versions := by
  rw [apply_add]
  rw [← putData_versions fi] at h
  refine h.of_writes (writes_tryAdd ?_) (newestFirst_tryAdd h.newestFirst) (tidy_tryAdd h.tidy _).nodup
  simp [getVersionId_ofFileInfo]

section

variable (ht : Tidy codec fm.versions) {i j : ℕ} {ver : FileMetaVersion} {ws : List FileMetaVersion}
  {x : FileMetaShallowVersion B} (hx : fm.versions[j]? = some x)
  (hid : x.header.versionId = some fi.requestedId)

include ht hx hid

theorem markerPlan_id (htype : x.header.versionType = .delete)
    (hp : fm.markerPlan rt codec fi j = (.rewrite i ver, ws)) :
    ver.getVersionId = some fi.requestedId := by
  unfold markerPlan at hp
  split_ifs at hp
  · cases hdec : fm.getIdx codec j with
    | error e => simp [hdec] at hp
    | ok v =>
      obtain ⟨htype', hverid⟩ := headed_getIdx ht hx hdec
      simp only [hdec, Prod.mk.injEq, Touch.rewrite.injEq] at hp
      obtain ⟨⟨-, rfl⟩, -⟩ := hp
      cases hm : v.deleteMarker <;> simp_all [getVersionId]
  · simp at hp
  · simp at hp

theorem purgePlan_id (htype : x.header.versionType = .object)
    (hp : fm.purgePlan codec fi j = (.rewrite i ver, ws)) :
    ver.getVersionId = some fi.requestedId := by
  unfold purgePlan at hp
  cases hdec : fm.getIdx codec j with
  | error e => simp [hdec] at hp
  | ok v =>
    obtain ⟨htype', hverid⟩ := headed_getIdx ht hx hdec
    simp only [hdec, Prod.mk.injEq, Touch.rewrite.injEq] at hp
    obtain ⟨⟨-, rfl⟩, -⟩ := hp
    rw [← hid, ← hverid]
    cases hobj : v.object <;> simp [getVersionId, htype', htype, hobj, MetaObject.purged]

theorem objectPlan_id (hp : fm.objectPlan rt codec fi j = (.rewrite i ver, ws)) :
    ver.getVersionId = some fi.requestedId := by
  unfold objectPlan at hp
  cases hdec : fm.getIdx codec j with
  | error e => simp [hdec] at hp
  | ok v =>
    obtain ⟨-, hverid⟩ := headed_getIdx ht hx hdec
    rw [hdec] at hp
    dsimp only at hp
    cases hobj : v.object with
    | none => simp [hobj] at hp
    | some o =>
      rw [hobj] at hp
      dsimp only at hp
      cases he : v.edit rt fi o with
      | error e => simp [he] at hp
      | ok e =>
        rw [he] at hp
        match e with
        | .drop free => simp at hp
        | .keep ver' =>
          obtain ⟨⟨-, rfl⟩, -⟩ : (j = i ∧ ver' = ver) ∧ _ := by simpa using hp
          exact (edit_keep hobj he).2.1.trans (hverid.trans hid)

end

/-- A version that a request rewrites keeps the id asked for. -/
theorem plan_rewrite_id (ht : Tidy codec fm.versions) {i : ℕ} {ver : FileMetaVersion}
    {ws : List FileMetaVersion} (hp : fm.plan rt codec fi = (.rewrite i ver, ws)) :
    ver.getVersionId = some fi.requestedId := by
  unfold plan at hp
  split at hp
  · cases hp
  · cases hs : fm.scan fi with
    | invalid => simp [hs] at hp
    | marker j =>
      obtain ⟨x, hx, hid, htype⟩ := scan_marker hs
      exact markerPlan_id ht hx hid htype (by simpa [hs] using hp)
    | purge j =>
      obtain ⟨x, hx, hid, htype⟩ := scan_purge hs
      exact purgePlan_id ht hx hid htype (by simpa [hs] using hp)
    | done found =>
      cases found with
      | none => simp [hs] at hp
      | some j =>
        obtain ⟨x, hx, hid, -⟩ := scan_done hs
        exact objectPlan_id ht hx hid (by simpa [hs] using hp)

theorem writes_trySet {i : ℕ} {ver : FileMetaVersion} (hid : ver.getVersionId.isSome) :
    Writes rt codec fm.versions (fm.trySet rt codec i ver).1.versions := by
  unfold trySet
  split
  · next fm' hset =>
    cases hx : fm.versions[i]? with
    | none => simp [setIdx, hx] at hset
    | some x =>
      obtain ⟨hlt, -⟩ := List.getElem?_eq_some_iff.mp hx
      obtain ⟨fm'', hset', -, hp⟩ := setIdx_spec rt codec hlt ver
      obtain rfl : fm' = fm'' := by simpa [hset] using hset'
      intro v hv
      rcases mem_cons.mp (hp.mem_iff.mp hv) with rfl | hold
      · exact .inr ⟨ver, hid, rfl⟩
      · exact .inl (mem_of_mem_eraseIdx hold)
  · exact fun v hv => .inl hv

theorem newestFirst_touch (h : NewestFirst fm.versions) (t : Touch) :
    NewestFirst (fm.touch rt codec t).versions := by
  cases t with
  | leave => exact h
  | remove i => exact h.sublist (eraseIdx_sublist _ _)
  | rewrite i ver =>
    rw [touch, trySet]
    split
    · next hset => exact h.setIdx hset
    · exact h

theorem Planned.named {p : Touch × List FileMetaVersion} (h : Planned rt fm fi p) :
    ∀ w ∈ p.2, w.getVersionId.isSome := by
  have hmarker : ∀ w ∈ fi.marker rt, w.getVersionId.isSome := by
    intro w hw
    unfold FileInfo.marker at hw
    split at hw
    · next hdel =>
      obtain rfl := mem_singleton.mp hw
      simp [getVersionId_ventry hdel]
    · simp at hw
  cases h with
  | free hi hw =>
    obtain ⟨-, id, -, hid⟩ := hw
    simpa [hid] using hmarker
  | leave hws | rewrite hi hws | remove hi hws =>
    rcases hws with rfl | rfl
    · simp
    · exact hmarker

theorem WellKept.delete (h : WellKept rt codec ts fm.versions) (t : Time) (fi : FileInfo) :
    WellKept rt codec (t :: ts) (fm.apply (rt.atTime t) codec (.delete fi)).versions := by
  have hplanned : Planned (rt.atTime t) fm fi (fm.plan (rt.atTime t) codec fi) := planned_plan
  refine h.of_writes ?_ ?_ (h.tidy.deleteVersion (rt.atTime t) fi).nodup
  · rw [apply, deleteVersion_plan]
    refine Writes.trans ?_ (writes_record hplanned.named)
    cases hp : fm.plan (rt.atTime t) codec fi with
    | mk touch ws =>
      cases touch with
      | leave => exact fun v hv => .inl hv
      | remove i => exact fun v hv => .inl (mem_of_mem_eraseIdx hv)
      | rewrite i ver => exact writes_trySet (by simp [plan_rewrite_id h.tidy hp])
  · rw [apply, deleteVersion_plan]
    exact newestFirst_record (newestFirst_touch h.newestFirst _) _

theorem getVersionId_update (ver : FileMetaVersion) :
    (ver.update fi).getVersionId = ver.getVersionId := by
  unfold update getVersionId
  cases ver.versionType <;> cases ver.object <;> rfl

theorem Tidy.rewritten_id (ht : Tidy codec vs) {v : FileMetaShallowVersion B}
    (hv : v ∈ vs) : (rewritten rt codec fi v).header.versionId = v.header.versionId := by
  unfold rewritten
  split
  · cases hdec : codec.unmarshal v.metaBuf with
    | error e => rfl
    | ok ver => exact (getVersionId_update ver).trans (ht.headed v hv ver hdec).2
  · rfl

/-- No version asked for stands before one that stops the loop: it would have the same id. -/
theorem WellKept.not_aimed (h : WellKept rt codec ts vs) (hstop : ∃ v ∈ vs, stops codec fi v) :
    ∀ v ∈ vs.takeWhile (!stops codec fi ·), ¬ aimed fi v := by
  intro v hv ha
  obtain ⟨x, hx, hstop⟩ := hstop
  have hpass : ¬ stops codec fi v := by simpa using mem_takeWhile_imp hv
  have hv := ( takeWhile_prefix _).subset hv
  obtain ⟨t, -, ver, hdec, -⟩ := h.headed x hx
  have hid : x.header.versionId = fi.versionId := by
    simp only [stops, hdec, Except.toOption, Option.isNone_some, Bool.and_false, Bool.or_false,
      Bool.and_eq_true, beq_iff_eq] at hstop
    exact hstop.2
  have hsame : v.header.versionId = x.header.versionId := by
    obtain ⟨id, hxid⟩ := Option.isSome_iff_exists.mp (h.named x hx)
    obtain ⟨id', hvid⟩ := Option.isSome_iff_exists.mp (h.named v hv)
    simp only [aimed, Bool.and_eq_true, beq_iff_eq, FileInfo.requestedId, ← hid, hxid, hvid,
      Option.getD_some] at ha
    rw [hvid, hxid, ha.2]
  obtain rfl := inj_on_of_nodup_map h.distinct hv hx hsame
  exact hpass hstop

theorem WellKept.update (h : WellKept rt codec ts fm.versions) (t : Time) (fi : FileInfo) :
    WellKept rt codec (t :: ts) (fm.apply (rt.atTime t) codec (.update fi)).versions := by
  rw [apply]
  by_cases hpass : ∀ v ∈ fm.versions, ¬ stops codec fi v
  · rw [updateObjectVersion_ok hpass]
    have hp := perm_insertionSort (FileMetaShallowVersion.sortCompare codec · · ≠ .gt)
      (fm.versions.map (rewritten (rt.atTime t) codec fi))
    refine h.of_writes ?_ (newestFirst_of_stored (stored_insertionSort codec _)) ?_
    · intro v hv
      obtain ⟨x, hx, rfl⟩ := mem_map.mp (hp.mem_iff.mp hv)
      by_cases ha : aimed fi x
      · obtain ⟨ver, hdec⟩ := exists_unmarshal ha (hpass x hx)
        rw [rewritten_of_aimed ha hdec]
        refine .inr ⟨_, ?_, rfl⟩
        rw [getVersionId_update, (h.tidy.headed x hx ver hdec).2]
        exact h.named x hx
      · exact .inl (by simpa [rewritten, ha] using hx)
    · have hids : fm.versions.map (fun v => (rewritten (rt.atTime t) codec fi v).header.versionId) =
          fm.versions.map fun v => v.header.versionId :=
        map_congr_left fun v hv => h.tidy.rewritten_id hv
      refine (hp.map _).nodup_iff.mpr ?_
      rw [map_map]
      exact (congrArg List.Nodup hids).mpr h.distinct
  · obtain ⟨e, herr⟩ := updateObjectVersion_error (rt.atTime t) hpass
    have hsame := unchanged_iff.mpr fun v hv => by
      have hnot := h.not_aimed (by simpa using hpass) v hv
      exact (if_neg hnot : rewritten (rt.atTime t) codec fi v = v)
    rw [herr, hsame]
    exact h.of_writes (fun v hv => .inl hv) h.newestFirst h.distinct

end

/-- After any calls, each at its own time, the versions are sorted newest first, no two have one
id, and each header is that of its version at the time of some call. -/
theorem wellKept_applyAll (calls : List (Time × VersionCall)) :
    WellKept rt codec (calls.map Prod.fst).reverse
      (applyAll rt codec ({} : FileMeta B) calls).versions := by
  induction calls using List.reverseRecOn with
  | nil => exact ⟨rfl, nodup_nil, by simp [applyAll], by simp [applyAll]⟩
  | append_singleton calls c ih =>
    obtain ⟨t, call⟩ := c
    rw [applyAll, foldl_append, map_append, reverse_append]
    cases call with
    | add fi => exact ih.add t fi
    | update fi => exact ih.update t fi
    | delete fi => exact ih.delete t fi

section

/-- A runtime that knows one date, ten seconds after the epoch. -/
def tenSeconds : Runtime :=
  { restingRuntime with
    parseRfc3339 := fun date => if date = "1970-01-01T00:00:10Z" then some 10000000000 else none }

/-- A copy restored from the tier until ten seconds after the epoch. -/
def restoredCopy : FileInfo :=
  { versionId := some 1, modTime := some 5,
    metadata := (∅ : StrMap String).insert amzRestore
      "ongoing-request=\"false\", expiry-date=\"1970-01-01T00:00:10Z\"" }

/-- The copy is added at the epoch, and another version updated twenty seconds later. -/
def expiredCopy : FileMeta FileMetaVersion :=
  applyAll tenSeconds plainCodec {}
    [(0, .add restoredCopy), (20000000000, .update { versionId := some 5 })]

/-- By then the stored header still says that the copy uses a data directory, and the header
derived from its metadata does not. -/
theorem header_outlives_restore :
    (expiredCopy.versions.map fun v => v.header.usesDataDir) = [true] ∧
    (expiredCopy.versions.map fun v =>
      (plainCodec.unmarshal v.metaBuf).toOption.map fun ver =>
        (ver.header (tenSeconds.atTime 20000000000)).usesDataDir) = [some false] := by
  decide

end

end FileMeta

end Rustfs
