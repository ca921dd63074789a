import Rustfs.Filemeta.DeleteVersion
import Rustfs.Filemeta.NewestFirst

/-! What a delete request comes to: one version removed or rewritten, then versions recorded. -/
namespace Rustfs

open FileInfo FileMetaVersion

/-- What becomes of the version a delete request is about. -/
inductive Touch where
  | leave
  | remove (i : ℕ)
  | rewrite (i : ℕ) (ver : FileMetaVersion)

/-- The delete marker a request asks for, if it asks for one. -/
def FileInfo.marker (rt : Runtime) (fi : FileInfo) : List FileMetaVersion :=
  if fi.deleted then [fi.ventry rt] else []

theorem FileInfo.length_marker_le (rt : Runtime) (fi : FileInfo) : (fi.marker rt).length ≤ 1 := by
  unfold marker
  split <;> simp

namespace FileMeta

variable {B : Type} (rt : Runtime) (codec : MetaCodec B) (fm : FileMeta B) (fi : FileInfo)

def touch : Touch → FileMeta B
  | .leave => fm
  | .remove i => fm.removeIdx i
  | .rewrite i ver => (fm.trySet rt codec i ver).1

/-- Records the versions one after the other; one without a place is passed over. -/
def record (ws : List FileMetaVersion) : FileMeta B :=
  ws.foldl (fun fm w => (fm.tryAdd rt codec w).1) fm

def markerPlan (i : ℕ) : Touch × List FileMetaVersion :=
  if fi.updateVersion then
    match fm.getIdx codec i with
    | .error _ => (.leave, [])
    | .ok v =>
      let marker := v.deleteMarker.getD { versionId := some fi.requestedId, modTime := fi.modTime }
      let marker := { marker with metaSys := fi.markResets (fi.markReplication rt marker.metaSys) }
      (.rewrite i { v with deleteMarker := some marker }, [])
  else if (fi.markDeleted ∧ fi.versionPurgeStatus ≠ .complete) ∨
      (fi.deleted ∧ fi.requestedId = Uuid.nil) then
    (.remove i, fi.marker rt)
  else (.remove i, [])

def purgePlan (i : ℕ) : Touch × List FileMetaVersion :=
  match fm.getIdx codec i with
  | .error _ => (.leave, [])
  | .ok v => (.rewrite i { v with object := v.object.map (MetaObject.purged fi) }, [])

def objectPlan (i : ℕ) : Touch × List FileMetaVersion :=
  match fm.getIdx codec i with
  | .error _ => (.leave, [])
  | .ok ver =>
    match ver.object with
    | none => (.leave, fi.marker rt)
    | some o =>
      match ver.edit rt fi o with
      | .error _ => (.leave, [])
      | .ok (.keep ver) => (.rewrite i ver, fi.marker rt)
      | .ok (.drop free) => (.remove i, free.toList ++ fi.marker rt)

/-- The version a request touches, and the free version and delete marker it wants to record. -/
def plan : Touch × List FileMetaVersion :=
  if fi.deleted && !fi.isValid then (.leave, [])
  else
    match fm.scan fi with
    | .invalid => (.leave, [])
    | .marker i => fm.markerPlan rt codec fi i
    | .purge i => fm.purgePlan codec fi i
    | .done (some i) => fm.objectPlan rt codec fi i
    | .done none => (.leave, fi.marker rt)

/-- The versions once the plan is carried out. -/
def carryOut (p : Touch × List FileMetaVersion) : FileMeta B :=
  (fm.touch rt codec p.1).record rt codec p.2

section

variable {rt codec fm fi} {i : ℕ}

@[simp] theorem record_nil : fm.record rt codec [] = fm := rfl

@[simp] theorem record_cons (w : FileMetaVersion) (ws : List FileMetaVersion) :
    fm.record rt codec (w :: ws) = (fm.tryAdd rt codec w).1.record rt codec ws := rfl

theorem tryAdd_ventry (h : fi.deleted = false) : (fm.tryAdd rt codec (fi.ventry rt)).1 = fm := by
  simp [tryAdd, addVersionFilemata, ventry, h, valid]

/-- Without a delete marker to record, trying to add one changes nothing. -/
theorem tryAdd_marker : (fm.tryAdd rt codec (fi.ventry rt)).1 = fm.record rt codec (fi.marker rt) := by
  cases h : fi.deleted with
  | false => simp [marker, h, tryAdd_ventry h]
  | true => simp [marker, h]

theorem deleteMissing_record :
    (fm.deleteMissing rt codec fi).2 = fm.record rt codec (fi.marker rt) := by
  unfold deleteMissing
  split
  · rw [versions_nothing, tryAdd_marker]
  · next h => simp [marker, h]

theorem deleteMarkerVersion_plan :
    (fm.deleteMarkerVersion rt codec fi i).2 = fm.carryOut rt codec (fm.markerPlan rt codec fi i) := by
  unfold deleteMarkerVersion markerPlan
  split_ifs
  · cases fm.getIdx codec i with
    | error e => rfl
    | ok v => exact versions_nothing _
  · rw [versions_nothing, tryAdd_marker]
    rfl
  · rfl

theorem purgeObjectVersion_plan :
    (fm.purgeObjectVersion rt codec fi i).2 = fm.carryOut rt codec (fm.purgePlan codec fi i) := by
  unfold purgeObjectVersion purgePlan
  cases fm.getIdx codec i with
  | error e => rfl
  | ok v =>
    dsimp only [carryOut, touch, record_nil]
    split <;> simp_all

theorem deleteObjectVersion_plan :
    (fm.deleteObjectVersion rt codec fi i).2 = fm.carryOut rt codec (fm.objectPlan rt codec fi i) := by
  unfold deleteObjectVersion objectPlan
  cases fm.getIdx codec i with
  | error e => rfl
  | ok ver =>
    dsimp only
    cases ver.object with
    | none => exact deleteMissing_record
    | some o =>
      dsimp only
      cases ver.edit rt fi o with
      | error e => rfl
      | ok e =>
        have hmark : ∀ m : FileMeta B × Option FilemetaError,
            (if fi.deleted then m.1.tryAdd rt codec (fi.ventry rt) else m).1 =
              m.1.record rt codec (fi.marker rt) := by
          intro m
          split
          · exact tryAdd_marker
          · next h => simp [marker, h]
        rw [versions_handOut, applyRequest, hmark]
        cases e with
        | keep ver => rfl
        | drop free => cases free <;> rfl

/-- A delete request does what its plan says. -/
theorem deleteVersion_plan :
    (fm.deleteVersion rt codec fi).2 = fm.carryOut rt codec (fm.plan rt codec fi) := by
  unfold deleteVersion plan
  split
  · rfl
  · cases fm.scan fi with
    | invalid => rfl
    | marker i => exact deleteMarkerVersion_plan
    | purge i => exact purgeObjectVersion_plan
    | done found =>
      cases found with
      | none => exact deleteMissing_record
      | some i => exact deleteObjectVersion_plan

variable (rt codec fm fi) in
/-- Index `i` has the version the request is about. -/
def Names (i : ℕ) : Prop :=
  ∃ x, fm.versions[i]? = some x ∧ x.header.versionId = some fi.requestedId

variable (rt fi) in
/-- A free version, under the id the request brings for it. -/
def IsFree (w : FileMetaVersion) : Prop :=
  w.freeVersion ∧ ∃ id, (fi.metadata.lookup tierFvIdKey).bind rt.parseUuid = some id ∧
    w.getVersionId = some id

variable (rt codec fm fi) in
/-- What a delete request may plan. -/
inductive Planned : Touch × List FileMetaVersion → Prop where
  | leave {ws : List FileMetaVersion} (hws : ws = [] ∨ ws = fi.marker rt) : Planned (.leave, ws)
  | rewrite {i : ℕ} {ver : FileMetaVersion} {ws : List FileMetaVersion} (hi : Names fm fi i)
    (hws : ws = [] ∨ ws = fi.marker rt) : Planned (.rewrite i ver, ws)
  | remove {i : ℕ} {ws : List FileMetaVersion} (hi : Names fm fi i)
    (hws : ws = [] ∨ ws = fi.marker rt) : Planned (.remove i, ws)
  | free {i : ℕ} {w : FileMetaVersion} (hi : Names fm fi i) (hw : IsFree rt fi w) :
    Planned (.remove i, w :: fi.marker rt)

theorem planned_markerPlan (hi : Names fm fi i) : Planned rt fm fi (fm.markerPlan rt codec fi i) := by
  unfold markerPlan
  split_ifs
  · cases fm.getIdx codec i with
    | error e => exact .leave (.inl rfl)
    | ok v => exact .rewrite hi (.inl rfl)
  · exact .remove hi (.inr rfl)
  · exact .remove hi (.inl rfl)

theorem planned_purgePlan (hi : Names fm fi i) : Planned rt fm fi (fm.purgePlan codec fi i) := by
  unfold purgePlan
  cases fm.getIdx codec i with
  | error e => exact .leave (.inl rfl)
  | ok v => exact .rewrite hi (.inl rfl)

/-- A key that is set stays set while other entries are copied in. -/
theorem isSome_lookup_foldl_insertIf {β : Type} {p : (Sigma fun _ : String => β) → Bool}
    {m : StrMap β} {key : String} (h : (m.lookup key).isSome)
    (es : List (Sigma fun _ : String => β)) :
    ((es.foldl (fun m e => MetaObject.insertIf (p e) e.1 e.2 m) m).lookup key).isSome := by
  induction es generalizing m with
  | nil => exact h
  | cons e es ih =>
    refine ih ?_
    dsimp only [MetaObject.insertIf]
    split
    · by_cases hkey : key = e.1
      · rw [hkey, AList.lookup_insert]
        rfl
      · rwa [AList.lookup_insert_ne hkey]
    · exact h

/-- The version an edit adds is a free version. -/
theorem isFree_of_edit {ver f : FileMetaVersion} {o : MetaObject}
    (he : ver.edit rt fi o = .ok (.drop (some f))) : IsFree rt fi f := by
  unfold edit at he
  split_ifs at he
  · cases he
  · cases he
  · unfold MetaObject.initFreeVersion at he
    split_ifs at he
    · simp [Except.map] at he
    · split at he
      · simp [Except.map] at he
      · next id hid =>
        simp only [Except.map, Except.ok.injEq, Edit.drop.injEq, Option.some.injEq] at he
        subst he
        refine ⟨?_, id, hid, rfl⟩
        simp only [freeVersion, beq_self_eq_true, Bool.true_and, Option.any_some]
        refine isSome_lookup_foldl_insertIf ?_ _
        rw [AList.lookup_insert]
        rfl
    · simp [Except.map] at he

theorem planned_objectPlan (hi : Names fm fi i) : Planned rt fm fi (fm.objectPlan rt codec fi i) := by
  unfold objectPlan
  cases fm.getIdx codec i with
  | error e => exact .leave (.inl rfl)
  | ok ver =>
    dsimp only
    cases ver.object with
    | none => exact .leave (.inr rfl)
    | some o =>
      dsimp only
      cases he : ver.edit rt fi o with
      | error e => exact .leave (.inl rfl)
      | ok e =>
        match e with
        | .keep ver => exact .rewrite hi (.inr rfl)
        | .drop none => exact .remove hi (.inr rfl)
        | .drop (some free) => exact .free hi (isFree_of_edit he)

theorem planned_plan : Planned rt fm fi (fm.plan rt codec fi) := by
  unfold plan
  split
  · exact .leave (.inl rfl)
  · cases hs : fm.scan fi with
    | invalid => exact .leave (.inl rfl)
    | marker i =>
      obtain ⟨x, hx, hid, -⟩ := scan_marker hs
      exact planned_markerPlan ⟨x, hx, hid⟩
    | purge i =>
      obtain ⟨x, hx, hid, -⟩ := scan_purge hs
      exact planned_purgePlan ⟨x, hx, hid⟩
    | done found =>
      cases found with
      | none => exact .leave (.inr rfl)
      | some i =>
        obtain ⟨x, hx, hid, -⟩ := scan_done hs
        exact planned_objectPlan ⟨x, hx, hid⟩

end

end FileMeta

end Rustfs
