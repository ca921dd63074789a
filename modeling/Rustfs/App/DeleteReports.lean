import Rustfs.App.DeleteObjects

/-! What the answers of the drives say about a deleted object, and when the results of a request that
deletes many objects say the same. -/
namespace Rustfs

open ErrorReduce List DiskError SetDelete ObjectToDelete StorageError

/-- The answers of a drive that does not have what is to be deleted. -/
def DiskError.isMissing : Option DiskError → Bool
  | some .fileNotFound => true
  | some .fileVersionNotFound => true
  | _ => false

def StorageError.saysNotFound (e : StorageError) : Bool :=
  e.isErrObjectNotFound || e.isErrVersionNotFound

theorem StorageError.saysNotFound_ofDisk (err : DiskError) :
    (ofDisk err).saysNotFound = isMissing (some err) := by
  cases err <;> rfl

theorem StorageError.saysNotFound_toObjectErr (err : DiskError) (ps : List String) :
    ((ofDisk err).toObjectErr ps).saysNotFound = isMissing (some err) := by
  cases err <;> rfl

theorem eq_take_cons_drop {α : Type*} {l : List α} {i : ℕ} {x : α} (h : l[i]? = some x) :
    l = l.take i ++ x :: l.drop (i + 1) := by
  obtain ⟨hi, rfl⟩ := List.getElem?_eq_some_iff.1 h
  rw [getElem_cons_drop, take_append_drop]

namespace SetDelete

variable (set : SetDelete) (cfg : VersioningConfig) (objects : List ObjectToDelete)

/-- The entry of the `i`-th object is sent to the drives, and a write quorum of them applies it. -/
def Applies (i : ℕ) (o : ObjectToDelete) : Prop :=
  (set.sent cfg objects o.objectName).any (·.idx == i) = true ∧
    set.writeQuorum ≤ nilCount (set.driveErrs cfg objects i o)

/-- A write quorum of the drives does not have what is to be deleted. -/
def Lacks (i : ℕ) (o : ObjectToDelete) : Prop :=
  set.writeQuorum ≤ (set.driveErrs cfg objects i o).countP DiskError.isMissing

/-- The drives agree that they do not have what is to be deleted. -/
def Missing (i : ℕ) (o : ObjectToDelete) : Prop :=
  DiskError.isMissing (set.setErr cfg objects i o) = true

variable {set cfg objects} {i : ℕ} {o : ObjectToDelete}

@[simp] theorem deletedObject_objectName :
    (set.deletedObject cfg i o).objectName = o.objectName := by
  unfold deletedObject
  dsimp only
  split <;> rfl

@[simp] theorem deletedObject_deleteMarker :
    (set.deletedObject cfg i o).deleteMarker = cfg.marks o := by
  unfold deletedObject entry
  dsimp only
  split <;> simp_all

@[simp] theorem deletedObject_found : (set.deletedObject cfg i o).found = false := by
  unfold deletedObject
  dsimp only
  split <;> rfl

theorem deletedObject_markerId : (set.deletedObject cfg i o).deleteMarkerVersionId =
    if (set.entry cfg i o).deleted then (set.entry cfg i o).versionId else none := by
  unfold deletedObject
  dsimp only
  split <;> rfl

@[simp] theorem length_driveErrs : (set.driveErrs cfg objects i o).length = set.drives.length := by
  simp [driveErrs]

theorem result_objectName (b : String) :
    (set.result cfg b objects i o).1.objectName = o.objectName := by
  unfold result
  dsimp only
  split
  · exact deletedObject_objectName
  · split <;> exact deletedObject_objectName

theorem setErr_eq_none_iff : set.setErr cfg objects i o = none ↔
    set.writeQuorum ≤ nilCount (set.driveErrs cfg objects i o) :=
  reduceQuorumErrs_eq_none_iff set.order (by rw [length_driveErrs, writeQuorum]; omega)

theorem lacks_of_missing (h : set.Missing cfg objects i o) : set.Lacks cfg objects i o := by
  have hcount : ∀ e, set.setErr cfg objects i o = some e → isMissing (some e) = true →
      set.writeQuorum ≤ (set.driveErrs cfg objects i o).countP isMissing := by
    intro e he hmiss
    have hle := le_countErrs_of_reduceQuorumErrs set.order (Nat.succ_pos _)
      (by rintro rfl; cases hmiss) he
    refine Nat.le_trans hle ?_
    rw [countErrs, List.count]
    exact countP_mono_left fun x _ hx => by simpa [beq_iff_eq.1 hx] using hmiss
  unfold Missing at h
  cases hset : set.setErr cfg objects i o with
  | none => simp [hset, isMissing] at h
  | some e => exact hcount e hset (hset ▸ h)

theorem filterMap_entry_eq_singleton {l : List ObjectToDelete} (n : ℕ)
    (hnd : (l.map objectName).Nodup) (ho : l[i]? = some o) :
    ((l.zipIdx n).filterMap fun p =>
      if p.1.objectName = o.objectName then some (set.entry cfg p.2 p.1) else none) =
        [set.entry cfg (n + i) o] := by
  have hother : ∀ (l : List ObjectToDelete) (n : ℕ), o.objectName ∉ l.map objectName →
      ((l.zipIdx n).filterMap fun p =>
        if p.1.objectName = o.objectName then some (set.entry cfg p.2 p.1) else none) = [] := by
    intro l n h
    refine filterMap_eq_nil_iff.2 fun p hp => if_neg fun heq => h ?_
    exact heq ▸ mem_map_of_mem (fst_mem_of_mem_zipIdx hp)
  have hi := (List.getElem?_eq_some_iff.1 ho).1
  rw [eq_take_cons_drop ho, map_append, map_cons, nodup_middle, nodup_cons, mem_append, not_or] at hnd
  rw [eq_take_cons_drop ho, zipIdx_append, zipIdx_cons, filterMap_append, hother _ _ hnd.1.1,
    length_take_of_le (le_of_lt hi), filterMap_cons, hother _ _ hnd.1.2, nil_append]
  rw [if_pos rfl]

section

variable (hnd : (objects.map objectName).Nodup) (ho : objects[i]? = some o)
include hnd ho

/-- Among objects with different names each has its own entry, which is sent if the lock is held. -/
theorem sent_eq : set.sent cfg objects o.objectName =
      if (set.locks o.objectName).isSome then [] else [set.entry cfg i o] := by
  have hgroup : set.group cfg objects o.objectName = [set.entry cfg i o] := by
    simpa [group] using filterMap_entry_eq_singleton 0 hnd ho
  have hkept : ∀ e : DeleteEntry, kept [e] = [e] := by
    intro e
    cases h : e.deleted <;> simp [kept, h]
  rw [sent, hgroup, hkept]

theorem applies_iff : set.Applies cfg objects i o ↔
      set.locks o.objectName = none ∧ set.setErr cfg objects i o = none := by
  rw [Applies, sent_eq hnd ho, setErr_eq_none_iff]
  cases set.locks o.objectName <;> simp [entry]

/-- A lock that is refused does not look like a missing object. -/
theorem locks_of_missing (h : set.Missing cfg objects i o) : set.locks o.objectName = none := by
  cases hlock : set.locks o.objectName with
  | none => rfl
  | some text =>
    have herr : ∀ drive, set.driveErr cfg objects i o drive = none := by
      intro drive
      simp [driveErr, sent_eq hnd ho, hlock]
    have hlacks := lacks_of_missing h
    have hzero : (set.driveErrs cfg objects i o).countP isMissing = 0 := by
      rw [countP_eq_zero]
      intro x hx
      obtain ⟨drive, -, rfl⟩ := mem_map.1 hx
      simp [herr, isMissing]
    rw [Lacks, hzero] at hlacks
    exact absurd hlacks (Nat.not_succ_le_zero _)

end

/-- The four ways in which the set answers for an object with its own name. -/
theorem result_cases (b : String) (hnd : (objects.map objectName).Nodup)
    (ho : objects[i]? = some o) :
    (set.Applies cfg objects i o ∧ set.result cfg b objects i o =
        ({ set.deletedObject cfg i o with found := true }, none)) ∨
      (¬set.Applies cfg objects i o ∧ set.Missing cfg objects i o ∧ cfg.marks o = false ∧
        set.result cfg b objects i o = (set.deletedObject cfg i o, none)) ∨
      (¬set.Applies cfg objects i o ∧ set.Missing cfg objects i o ∧ cfg.marks o = true ∧
        ∃ e : StorageError, e.saysNotFound = true ∧
          set.result cfg b objects i o = (set.deletedObject cfg i o, some e)) ∨
      (¬set.Applies cfg objects i o ∧ ¬set.Missing cfg objects i o ∧
        ∃ (d : DeletedObject) (e : StorageError), d.objectName = o.objectName ∧
          e.saysNotFound = false ∧ set.result cfg b objects i o = (d, some e)) := by
  have happ : set.Applies cfg objects i o ↔ _ := applies_iff hnd ho
  unfold result
  cases hset : set.setErr cfg objects i o with
  | none =>
    have hmiss : ¬set.Missing cfg objects i o := by simp [Missing, hset, isMissing]
    cases hlock : set.locks o.objectName with
    | none => exact .inl ⟨happ.2 ⟨hlock, hset⟩, rfl⟩
    | some text =>
      have hnot : ¬set.Applies cfg objects i o := fun h => by simp [hlock] at happ; exact happ h
      exact .inr (.inr (.inr ⟨hnot, hmiss, { set.deletedObject cfg i o with found := true },
        .other text, deletedObject_objectName, rfl, rfl⟩))
  | some err =>
    have hnot : ¬set.Applies cfg objects i o := fun h => by simp [hset] at happ; exact happ h
    have hreported : ((ofDisk err).isErrObjectNotFound ||
        (ofDisk err).isErrVersionNotFound) = isMissing (some err) :=
      saysNotFound_ofDisk err
    simp only [hreported, deletedObject_deleteMarker]
    cases hmiss : isMissing (some err) with
    | true =>
      have hm : set.Missing cfg objects i o := by rw [Missing, hset, hmiss]
      have hlock := locks_of_missing hnd ho hm
      cases hmarks : cfg.marks o with
      | false => exact .inr (.inl ⟨hnot, hm, rfl, by simp [hlock]⟩)
      | true =>
        refine .inr (.inr (.inl ⟨hnot, hm, rfl, _, ?_, rfl⟩))
        rw [saysNotFound_toObjectErr, hmiss]
    | false =>
      have hm : ¬set.Missing cfg objects i o := by simp [Missing, hset, hmiss]
      refine .inr (.inr (.inr ⟨hnot, hm, set.deletedObject cfg i o, _, deletedObject_objectName, ?_,
        rfl⟩))
      rw [saysNotFound_toObjectErr, hmiss]

end SetDelete

theorem getElem?_filter_countP {α : Type} {P : α → Bool} {l : List α} {i : ℕ} {x : α}
    (h : l[i]? = some x) (hx : P x = true) : (l.filter P)[(l.take i).countP P]? = some x := by
  nth_rewrite 1 [eq_take_cons_drop h]
  rw [filter_append, filter_cons_of_pos hx, countP_eq_length_filter, getElem?_append_right le_rfl,
    Nat.sub_self, getElem?_cons_zero]

namespace PoolDelete

variable (pool : PoolDelete) (cfg : VersioningConfig) (objects : List ObjectToDelete)

def Applies (i : ℕ) (o : ObjectToDelete) : Prop :=
  (pool.set o).Applies cfg (pool.setObjects objects o) (pool.position objects i o) o

def Lacks (i : ℕ) (o : ObjectToDelete) : Prop :=
  (pool.set o).Lacks cfg (pool.setObjects objects o) (pool.position objects i o) o

def Missing (i : ℕ) (o : ObjectToDelete) : Prop :=
  (pool.set o).Missing cfg (pool.setObjects objects o) (pool.position objects i o) o

/-- The entry that the drives of the object's set are sent for it. -/
def entry (i : ℕ) (o : ObjectToDelete) : DeleteEntry :=
  (pool.set o).entry cfg (pool.position objects i o) o

/-- What the pool answers for the `i`-th object. -/
def answer (bucket : String) (objects : List ObjectToDelete) (i : ℕ) (o : ObjectToDelete) :
    DeletedObject × Option StorageError :=
  (pool.set o).result cfg bucket (pool.setObjects objects o) (pool.position objects i o) o

variable {pool cfg objects} {b : String} {i : ℕ} {o : ObjectToDelete}

theorem getElem?_setObjects (ho : objects[i]? = some o) :
    (pool.setObjects objects o)[pool.position objects i o]? = some o :=
  getElem?_filter_countP ho (by simp [inSet])

theorem getD_deleteObjects (ho : objects[i]? = some o) :
    (pool.deleteObjects cfg b objects).getD i ({}, none) = pool.answer cfg b objects i o := by
  have hset : (pool.setObjects objects o)[pool.position objects i o]? = some o :=
    getElem?_setObjects ho
  simp [deleteObjects, SetDelete.deleteObjects, ho, hset, answer]

variable (hnd : (objects.map objectName).Nodup)
include hnd

theorem nodup_setObjects : ((pool.setObjects objects o).map objectName).Nodup :=
  hnd.sublist (filter_sublist.map _)

/-- The four ways in which a pool answers for an object with its own name. -/
theorem answer_cases (ho : objects[i]? = some o) :
    (pool.Applies cfg objects i o ∧ ∃ d : DeletedObject, d.found = true ∧
        d.objectName = o.objectName ∧ pool.answer cfg b objects i o = (d, none) ∧
        d.deleteMarkerVersionId = if cfg.marks o then (pool.entry cfg objects i o).versionId else none) ∨
      (¬pool.Applies cfg objects i o ∧ ∃ (d : DeletedObject) (e : Option StorageError),
        d.objectName = o.objectName ∧ pool.answer cfg b objects i o = (d, e) ∧
        ((pool.Missing cfg objects i o ∧ e.isSome = cfg.marks o ∧ d.found = false ∧
            (∀ e' ∈ e, e'.saysNotFound = true) ∧ d.deleteMarkerVersionId =
              if cfg.marks o then (pool.entry cfg objects i o).versionId else none) ∨
          (¬pool.Missing cfg objects i o ∧ ∃ e', e = some e' ∧ e'.saysNotFound = false))) := by
  have hid : ((pool.set o).deletedObject cfg (pool.position objects i o) o).deleteMarkerVersionId =
      if cfg.marks o then (pool.entry cfg objects i o).versionId else none :=
    deletedObject_markerId
  rcases result_cases b (nodup_setObjects hnd) (getElem?_setObjects ho) with
    ⟨happ, hres⟩ | ⟨hnot, hmiss, hmarks, hres⟩ | ⟨hnot, hmiss, hmarks, e, hreported, hres⟩ |
      ⟨hnot, hmiss, d, e, hname, hreported, hres⟩
  · exact .inl ⟨happ,
      { (pool.set o).deletedObject cfg (pool.position objects i o) o with found := true }, rfl,
      deletedObject_objectName, hres, hid⟩
  · exact .inr ⟨hnot, _, _, deletedObject_objectName, hres,
      .inl ⟨hmiss, hmarks.symm, deletedObject_found, by simp, hid⟩⟩
  · exact .inr ⟨hnot, _, _, deletedObject_objectName, hres,
      .inl ⟨hmiss, hmarks.symm, deletedObject_found, by simpa using hreported, hid⟩⟩
  · exact .inr ⟨hnot, d, _, hname, hres, .inr ⟨hmiss, e, rfl, hreported⟩⟩

end PoolDelete

section

variable {acc : DeletedObject × Option StorageError}
  {l : List (DeletedObject × Option StorageError)}

/-- The answer says that the pool had the object and deleted it. -/
def FoundIn (x : DeletedObject × Option StorageError) : Prop := x.2 = none ∧ x.1.found = true

theorem mergeAnswers_found (h : ∃ x ∈ l, FoundIn x) :
    ∃ x ∈ l, FoundIn x ∧ mergeAnswers acc l = x := by
  induction l generalizing acc with
  | nil => simp at h
  | cons y l ih =>
    obtain ⟨del, err⟩ := y
    by_cases hy : FoundIn (del, err)
    · refine ⟨(del, err), mem_cons_self, hy, ?_⟩
      obtain ⟨rfl, hfound⟩ := hy
      simp_all [mergeAnswers]
    · obtain ⟨x, hx, hfound⟩ := h
      have hxl : x ∈ l := (mem_cons.1 hx).resolve_left fun heq => hy (heq ▸ hfound)
      obtain ⟨z, hz, hzf, heq⟩ : ∃ z ∈ l, FoundIn z ∧
          mergeAnswers (if acc.2.isNone then (del, err) else acc) l = z := ih ⟨x, hxl, hfound⟩
      refine ⟨z, mem_cons_of_mem _ hz, hzf, ?_⟩
      rw [mergeAnswers, if_neg (by simpa [FoundIn] using hy), heq]

theorem mergeAnswers_of_isSome (hacc : acc.2.isSome) (h : ∀ x ∈ l, ¬FoundIn x) :
    mergeAnswers acc l = acc := by
  induction l with
  | nil => rfl
  | cons y l ih =>
    obtain ⟨del, err⟩ := y
    have hy := h _ mem_cons_self
    have hnone : acc.2.isNone = false := by simpa using hacc
    rw [mergeAnswers, if_neg (by simpa [FoundIn] using hy), hnone]
    exact ih fun x hx => h x (mem_cons_of_mem _ hx)

theorem mergeAnswers_objectName {n : String} (hacc : acc.1.objectName = n)
    (h : ∀ x ∈ l, x.1.objectName = n) : (mergeAnswers acc l).1.objectName = n := by
  induction l generalizing acc with
  | nil => exact hacc
  | cons y l ih =>
    obtain ⟨hy, hrest⟩ := forall_mem_cons.1 h
    obtain ⟨del, err⟩ := y
    rw [mergeAnswers]
    split
    · exact hy
    · refine ih ?_ hrest
      split
      · exact hy
      · exact hacc

/-- Without a pool that had the object, the first error is taken, or all pools are without one. -/
theorem mergeAnswers_notFound (hacc : acc.2 = none) (h : ∀ x ∈ l, ¬FoundIn x) :
    (∃ x ∈ l, x.2.isSome ∧ mergeAnswers acc l = x) ∨
      ((∀ x ∈ l, x.2 = none) ∧ (mergeAnswers acc l = acc ∨ mergeAnswers acc l ∈ l)) := by
  induction l generalizing acc with
  | nil => exact .inr ⟨by simp, .inl rfl⟩
  | cons y l ih =>
    obtain ⟨del, err⟩ := y
    have hrest : ∀ x ∈ l, ¬FoundIn x := fun x hx => h x (mem_cons_of_mem _ hx)
    have hstep : mergeAnswers acc ((del, err) :: l) = mergeAnswers (del, err) l := by
      rw [mergeAnswers, if_neg (by simpa [FoundIn] using h _ mem_cons_self)]
      simp [hacc]
    rw [hstep]
    cases err with
    | some e =>
      exact .inl ⟨_, mem_cons_self, rfl, mergeAnswers_of_isSome rfl hrest⟩
    | none =>
      rcases ih (rfl : (del, (none : Option StorageError)).2 = none) hrest with ⟨x, hx, hsome, heq⟩ | ⟨hall, hmem⟩
      · exact .inl ⟨x, mem_cons_of_mem _ hx, hsome, heq⟩
      · refine .inr ⟨forall_mem_cons.2 ⟨rfl, hall⟩, .inr ?_⟩
        rcases hmem with heq | hmem
        · rw [heq]
          exact mem_cons_self
        · exact mem_cons_of_mem _ hmem

end

namespace StoreDelete

variable (store : StoreDelete) (objects : List ObjectToDelete) (i : ℕ) (o : ObjectToDelete)

/-- The pools' answers for the `i`-th object of a request with stored names, as one. -/
def merged : DeletedObject × Option StorageError :=
  mergeAnswers ({}, none)
    (store.pools.map fun pool => pool.answer store.cfg store.bucket objects i o)

/-- A write quorum of some pool applied the deletion, or in every pool a write quorum does not have
what is to be deleted. -/
def Done : Prop :=
  (∃ pool ∈ store.pools, pool.Applies store.cfg objects i o) ∨
    ∀ pool ∈ store.pools, pool.Lacks store.cfg objects i o

/-- The delete marker `id` was written by a write quorum of some pool. -/
def WritesMarker (id : Uuid) : Prop :=
  ∃ pool ∈ store.pools, pool.Applies store.cfg objects i o ∧
    (pool.entry store.cfg objects i o).deleted = true ∧
    (pool.entry store.cfg objects i o).versionId = some id

/-- An answer that is reported as a deletion is true of the drives. -/
def Truthful (answer : DeletedObject × Option StorageError) : Prop :=
  (∀ e ∈ answer.2, e.saysNotFound = true) →
    store.Done objects i o ∧
      ∀ id, answer.1.deleteMarkerVersionId = some id → store.WritesMarker objects i o id

/-- A request for a delete marker is applied in some pool, or the first pool does not report the
object missing, or the marker has no id and no pool has the object. -/
def MarksPresent : Prop :=
  store.cfg.marks o = true →
    (∃ pool ∈ store.pools, pool.Applies store.cfg objects i o) ∨
      ¬store.first.Missing store.cfg objects i o ∨
      store.cfg.prefixEnabled o.objectName = false ∧
        ∀ pool ∈ store.pools, pool.Lacks store.cfg objects i o

variable {store objects i o}

theorem merged_objectName : (store.merged objects i o).1.objectName = o.objectName := by
  have hfirst : (store.first.answer store.cfg store.bucket objects i o).1.objectName = o.objectName :=
    result_objectName _
  rw [merged, pools, map_cons, mergeAnswers]
  split
  · exact hfirst
  · refine mergeAnswers_objectName hfirst fun x hx => ?_
    obtain ⟨pool, -, rfl⟩ := mem_map.1 hx
    exact result_objectName _

/-- The store's answer for the `i`-th object, with the name that the request gave it. -/
theorem getElem?_deleteObjects (ho : objects[i]? = some o) :
    (store.deleteObjects objects)[i]? =
      some ({ (store.merged (encoded objects) i
                { o with objectName := encodeDirObject o.objectName }).1 with
              objectName := decodeDirObject (encodeDirObject o.objectName) },
            (store.merged (encoded objects) i
              { o with objectName := encodeDirObject o.objectName }).2) := by
  have hlt : i < objects.length := (List.getElem?_eq_some_iff.1 ho).1
  have henc : (encoded objects)[i]? = some { o with objectName := encodeDirObject o.objectName } := by
    simp [encoded, ho]
  have hmerged : mergeAnswers ({}, none) ((store.pools.map fun pool =>
        pool.deleteObjects store.cfg store.bucket (encoded objects)).map
          fun r => r.getD i ({}, none)) =
      store.merged (encoded objects) i { o with objectName := encodeDirObject o.objectName } := by
    rw [merged, map_map]
    congr 1
    exact map_congr_left fun pool _ => PoolDelete.getD_deleteObjects henc
  simp only [deleteObjects, getElem?_map, getElem?_range hlt, Option.map_some, hmerged,
    merged_objectName]

/-- The id of a delete marker is fresh where versioning is enabled, and there is none elsewhere. -/
theorem entry_versionId {p : PoolDelete} {cfg : VersioningConfig} (hmarks : cfg.marks o = true) :
    (p.entry cfg objects i o).versionId =
      if cfg.prefixEnabled o.objectName then some ((p.set o).fresh (p.position objects i o))
      else none := by
  have hnone : o.versionId = none := by
    simpa using (Bool.and_eq_true_iff.1 hmarks).1
  simp [PoolDelete.entry, entry, hmarks, hnone]

theorem foundIn_iff {p : PoolDelete} {cfg : VersioningConfig} {b : String}
    (hnd : (objects.map objectName).Nodup) (ho : objects[i]? = some o) :
    FoundIn (p.answer cfg b objects i o) ↔ p.Applies cfg objects i o := by
  rcases p.answer_cases hnd ho with ⟨happ, d, hfound, -, hres, -⟩ |
    ⟨hnot, d, e, -, hres, ⟨-, -, hfound, -⟩ | ⟨-, e', rfl, -⟩⟩
  · rw [hres]
    exact iff_of_true ⟨rfl, hfound⟩ happ
  · rw [hres]
    exact iff_of_false (fun h => by simp [FoundIn, hfound] at h) hnot
  · rw [hres]
    exact iff_of_false (fun h => by simp [FoundIn] at h) hnot

section

variable (hnd : (objects.map objectName).Nodup) (ho : objects[i]? = some o)
include hnd ho

section

variable (hnone : ¬∃ pool ∈ store.pools, pool.Applies store.cfg objects i o)
include hnone

/-- Without a marker the answer is true: it is reported only if every pool lacks the object. -/
theorem truthful_of_not_marks (hmarks : store.cfg.marks o = false) :
    store.Truthful objects i o (store.merged objects i o) := by
  intro hreported
  have hno : ∀ x ∈ store.pools.map fun pool => pool.answer store.cfg store.bucket objects i o,
      ¬FoundIn x := by
    intro x hx hfound
    obtain ⟨pool, hpool, rfl⟩ := mem_map.1 hx
    exact hnone ⟨pool, hpool, (foundIn_iff hnd ho).1 hfound⟩
  rcases mergeAnswers_notFound (rfl : (({}, none) : DeletedObject × Option StorageError).2 = none) hno
    with ⟨x, hx, hsome, heq⟩ | ⟨hall, hmem⟩
  · -- the first error is reported, and it is none that says that the object is missing
    obtain ⟨pool, hpool, rfl⟩ := mem_map.1 hx
    rw [merged, heq] at hreported
    rcases pool.answer_cases hnd ho with ⟨happ, -⟩ |
      ⟨-, d, e, -, hres, ⟨-, hisSome, -⟩ | ⟨-, e', rfl, he'⟩⟩
    · exact absurd ⟨pool, hpool, happ⟩ hnone
    · rw [hres] at hsome
      simp [hisSome, hmarks] at hsome
    · rw [hres] at hreported
      simp [hreported e' rfl] at he'
  · have hpools : ∀ pool ∈ store.pools, pool.Missing store.cfg objects i o ∧
        (pool.answer store.cfg store.bucket objects i o).1.deleteMarkerVersionId = none := by
      intro pool hpool
      have herr := hall _ (mem_map_of_mem hpool)
      rcases pool.answer_cases hnd ho with ⟨happ, -⟩ |
        ⟨-, d, e, -, hres, ⟨hmiss, -, -, -, hid⟩ | ⟨-, e', rfl, -⟩⟩
      · exact absurd ⟨pool, hpool, happ⟩ hnone
      · rw [hres]
        exact ⟨hmiss, by simpa [hmarks] using hid⟩
      · rw [hres] at herr
        cases herr
    refine ⟨.inr fun pool hpool => lacks_of_missing (hpools pool hpool).1, ?_⟩
    intro id hid
    rcases hmem with heq | hmem
    · rw [merged, heq] at hid
      cases hid
    · obtain ⟨pool, hpool, heq⟩ := mem_map.1 hmem
      rw [merged, ← heq, (hpools pool hpool).2] at hid
      cases hid

/-- With a marker every pool answers with an error, and that of the first is reported. -/
theorem merged_of_marks (hmarks : store.cfg.marks o = true) :
    store.merged objects i o = store.first.answer store.cfg store.bucket objects i o := by
  have hno : ∀ pool ∈ store.pools, ¬FoundIn (pool.answer store.cfg store.bucket objects i o) :=
    fun pool hpool hfound => hnone ⟨pool, hpool, (foundIn_iff hnd ho).1 hfound⟩
  have hsome : (store.first.answer store.cfg store.bucket objects i o).2.isSome = true := by
    rcases store.first.answer_cases hnd ho with ⟨happ, -⟩ |
      ⟨-, d, e, -, hres, ⟨-, hisSome, -⟩ | ⟨-, e', rfl, -⟩⟩
    · exact absurd ⟨_, mem_cons_self, happ⟩ hnone
    · rw [hres, hisSome, hmarks]
    · rw [hres]
      rfl
  have hfirst := hno store.first mem_cons_self
  rw [merged, pools, map_cons, mergeAnswers, if_neg (by simpa [FoundIn] using hfirst)]
  refine mergeAnswers_of_isSome hsome fun x hx => ?_
  obtain ⟨pool, hpool, rfl⟩ := mem_map.1 hx
  exact hno pool (mem_cons_of_mem _ hpool)

end

theorem merged_truthful_iff :
    store.Truthful objects i o (store.merged objects i o) ↔ store.MarksPresent objects i o := by
  by_cases happ : ∃ pool ∈ store.pools, pool.Applies store.cfg objects i o
  · refine iff_of_true (fun _ => ⟨.inl happ, fun id hid => ?_⟩) fun _ => .inl happ
    obtain ⟨pool, hpool, hpa⟩ := happ
    obtain ⟨x, hx, hfound, heq⟩ : ∃ x ∈ store.pools.map fun pool =>
        pool.answer store.cfg store.bucket objects i o, FoundIn x ∧ store.merged objects i o = x :=
      mergeAnswers_found ⟨_, mem_map_of_mem hpool, (foundIn_iff hnd ho).2 hpa⟩
    obtain ⟨pool', hpool', rfl⟩ := mem_map.1 hx
    have happ' := (foundIn_iff hnd ho).1 hfound
    rcases pool'.answer_cases hnd ho with ⟨-, d, -, -, hres, hmarker⟩ | ⟨hnot, -⟩
    · rw [heq, hres, hmarker] at hid
      split at hid
      · exact ⟨pool', hpool', happ', ‹_›, hid⟩
      · cases hid
    · exact absurd happ' hnot
  · cases hmarks : store.cfg.marks o with
    | false =>
      exact iff_of_true (truthful_of_not_marks hnd ho happ hmarks) fun h => by simp [hmarks] at h
    | true =>
      have hmerged := merged_of_marks hnd ho happ hmarks
      rcases store.first.answer_cases hnd ho with ⟨hfirst, -⟩ |
        ⟨-, d, e, -, hres, ⟨hmiss, -, -, hreported, hid⟩ | ⟨hmiss, e', rfl, he'⟩⟩
      · exact absurd ⟨_, mem_cons_self, hfirst⟩ happ
      · -- the first pool does not have the object: its error is reported as a deletion
        rw [hmarks, if_pos rfl] at hid
        rw [Truthful, MarksPresent, hmerged, hres, Done, hid, entry_versionId hmarks]
        have hwrites : ∀ id, ¬store.WritesMarker objects i o id := by
          rintro id ⟨pool, hpool, hpa, -⟩
          exact happ ⟨pool, hpool, hpa⟩
        constructor
        · intro h _
          obtain ⟨hdone, hmarker⟩ := h hreported
          refine .inr (.inr ⟨?_, hdone.resolve_left happ⟩)
          cases hen : store.cfg.prefixEnabled o.objectName with
          | false => rfl
          | true => exact absurd (hmarker _ (by rw [hen, if_pos rfl])) (hwrites _)
        · intro h _
          rcases h hmarks with hpa | hnot | ⟨hen, hlacks⟩
          · exact absurd hpa happ
          · exact absurd hmiss hnot
          · refine ⟨.inr hlacks, fun id hid => ?_⟩
            rw [hen] at hid
            cases hid
      · refine iff_of_true (fun hreported => ?_) fun _ => .inr (.inl hmiss)
        rw [hmerged, hres] at hreported
        simp [hreported e' rfl] at he'

end

end StoreDelete

namespace DeleteObjects

variable {ctx : RequestContext} {os : List (ℕ × ObjectToDelete)} {n : String} {i k : ℕ}
  {o : ObjectToDelete} {r : ℕ → DeleteResult}

section

theorem lastIndex_eq_none_iff : lastIndex os n = none ↔ ∀ p ∈ os, p.2.objectName ≠ n := by
  induction os with
  | nil => simp [lastIndex]
  | cons p os ih =>
    obtain ⟨idx, o⟩ := p
    rw [lastIndex, forall_mem_cons, ← ih]
    cases lastIndex os n <;> simp

theorem lastIndex_mem (h : lastIndex os n = some k) : ∃ o, (k, o) ∈ os ∧ o.objectName = n := by
  induction os with
  | nil => cases h
  | cons p os ih =>
    obtain ⟨idx, o⟩ := p
    rw [lastIndex] at h
    cases hlast : lastIndex os n with
    | some later =>
      rw [hlast] at h
      obtain ⟨o', ho', hname⟩ := ih (hlast.trans h)
      exact ⟨o', mem_cons_of_mem _ ho', hname⟩
    | none =>
      simp only [hlast, Option.ite_none_right_eq_some, Option.some.injEq] at h
      obtain ⟨hname, rfl⟩ := h
      exact ⟨o, mem_cons_self, hname⟩

theorem lastIndex_append (xs ys : List (ℕ × ObjectToDelete)) :
    lastIndex (xs ++ ys) n = (lastIndex ys n).or (lastIndex xs n) := by
  induction xs with
  | nil => simp [lastIndex]
  | cons p xs ih =>
    rw [cons_append, lastIndex, lastIndex, ih]
    cases lastIndex ys n <;> rfl

/-- An object is found under a name if it has the name and no later one does. -/
theorem lastIndex_eq_some_iff (hnd : (os.map Prod.fst).Nodup) (hi : os[i]? = some (k, o)) :
    lastIndex os n = some k ↔ o.objectName = n ∧ ∀ p ∈ os.drop (i + 1), p.2.objectName ≠ n := by
  have hmem : ∀ xs, lastIndex xs n = some k → k ∈ xs.map Prod.fst := fun xs h =>
    have ⟨_, ho, _⟩ := lastIndex_mem h
    mem_map.2 ⟨_, ho, rfl⟩
  rw [eq_take_cons_drop hi, map_append, map_cons, nodup_middle, nodup_cons, mem_append, not_or] at hnd
  rw [← lastIndex_eq_none_iff]
  nth_rewrite 1 [eq_take_cons_drop hi]
  rw [lastIndex_append, lastIndex]
  have hbefore := mt (hmem _) hnd.1.1
  have hafter := mt (hmem _) hnd.1.2
  cases hlast : lastIndex (os.drop (i + 1)) n with
  | some later => simpa [hlast] using hafter
  | none =>
    by_cases hn : o.objectName = n
    · simp [hn]
    · simpa [hn] using hbefore

end

variable {answer : DeletedObject × Option StorageError} {e : ItemError}

section

variable {ts : List (ObjectToDelete × DeletedObject × Option StorageError)}
  {turn : ObjectToDelete × DeletedObject × Option StorageError}

theorem file_other (h : lastIndex os turn.2.1.objectName ≠ some k) :
    file ctx os r turn k = r k := by
  rw [file]
  cases hidx : lastIndex os turn.2.1.objectName with
  | none => rfl
  | some didx =>
    refine Function.update_of_ne (fun heq => h ?_) _ _
    rw [hidx, heq]

theorem file_target (h : lastIndex os turn.2.1.objectName = some k) :
    file ctx os r turn k = report ctx turn.1 turn.2 (r k) := by
  simp [file, h]

theorem foldl_file_other (h : ∀ t ∈ ts, lastIndex os t.2.1.objectName ≠ some k) :
    ts.foldl (file ctx os) r k = r k := by
  induction ts generalizing r with
  | nil => rfl
  | cons t ts ih =>
    obtain ⟨ht, hrest⟩ := forall_mem_cons.1 h
    rw [foldl_cons, ih hrest, file_other ht]

/-- The only turn that is filed at `k` gives the result there. -/
theorem foldl_file_unique (hi : ts[i]? = some turn)
    (htarget : lastIndex os turn.2.1.objectName = some k)
    (hunique : ∀ j t, ts[j]? = some t → lastIndex os t.2.1.objectName = some k → j = i) :
    ts.foldl (file ctx os) r k = report ctx turn.1 turn.2 (r k) := by
  rw [eq_take_cons_drop hi, foldl_append, foldl_cons, foldl_file_other, file_target htarget,
    foldl_file_other]
  · intro t ht hk
    obtain ⟨j, hj, heq⟩ := mem_take_iff_getElem.1 ht
    have := hunique j t (heq ▸ getElem?_eq_getElem _) hk
    omega
  · intro t ht hk
    obtain ⟨j, hj, heq⟩ := mem_drop_iff_getElem.1 ht
    have := hunique _ t (heq ▸ getElem?_eq_getElem _) hk
    omega

variable (ctx o) in
/-- A report is a deletion with the store's answer, or an error with the name of the object. -/
theorem report_cases (a : DeletedObject × Option StorageError) (r : DeleteResult) :
    report ctx o a r = { r with deleteObject := some a.1 } ∨
      ∃ e : ItemError, e.key = o.objectName ∧ report ctx o a r = { r with error := some e } := by
  unfold report
  split
  · exact .inl rfl
  · split
    · exact .inl rfl
    · exact .inr ⟨_, rfl, rfl⟩

/-- What the reports that are filed at `k` keep holds of the result there. -/
theorem foldl_file_induct {P : DeleteResult → Prop} (hr : P (r k))
    (hreport : ∀ t ∈ ts, lastIndex os t.2.1.objectName = some k →
      ∀ r, P r → P (report ctx t.1 t.2 r)) : P (ts.foldl (file ctx os) r k) := by
  refine foldlRecOn (motive := fun r : ℕ → DeleteResult => P (r k)) ts _ hr fun r hr t ht => ?_
  by_cases htarget : lastIndex os t.2.1.objectName = some k
  · rw [file_target htarget]
    exact hreport t ht htarget _ hr
  · rw [file_other htarget]
    exact hr

/-- What the result reports comes from a turn that is filed at `k`. -/
def FiledBy (turns : List (ObjectToDelete × DeletedObject × Option StorageError))
    (objects : List (ℕ × ObjectToDelete)) (k : ℕ) (res : DeleteResult) : Prop :=
  (∀ d, res.deleteObject = some d →
    ∃ t ∈ turns, lastIndex objects t.2.1.objectName = some k ∧ t.2.1 = d) ∧
  ∀ e, res.error = some e →
    ∃ t ∈ turns, lastIndex objects t.2.1.objectName = some k ∧ t.1.objectName = e.key

theorem foldl_file_filedBy (hr : r k = {}) : FiledBy ts os k (ts.foldl (file ctx os) r k) := by
  refine foldl_file_induct ?_ ?_
  · simp [hr, FiledBy]
  · intro t ht htarget r hkept
    rcases report_cases ctx t.1 t.2 r with heq | ⟨e, he, heq⟩
    · exact heq ▸ ⟨fun d hd => ⟨t, ht, htarget, Option.some.inj hd⟩, hkept.2⟩
    · refine heq ▸ ⟨hkept.1, fun e' he' => ⟨t, ht, htarget, ?_⟩⟩
      rw [← Option.some.inj he', he]

end

section

variable {admitted : List (ItemError ⊕ ObjectToDelete)}

theorem mem_pushed : (k, o) ∈ pushed admitted ↔ admitted[k]? = some (.inr o) := by
  constructor
  · intro h
    obtain ⟨⟨a, idx⟩, hp, heq⟩ := mem_filterMap.1 h
    obtain ⟨o', ho', heq⟩ := Option.map_eq_some_iff.1 heq
    cases heq
    dsimp only at ho'
    rw [Sum.getRight?_eq_some_iff.1 ho'] at hp
    exact mem_zipIdx_iff_getElem?.1 hp
  · intro h
    exact mem_filterMap.2 ⟨(.inr o, k), mem_zipIdx_iff_getElem?.2 h, rfl⟩

theorem nodup_pushed : ((pushed admitted).map Prod.fst).Nodup := by
  have hsnd : admitted.zipIdx.Pairwise fun a b => a.2 ≠ b.2 := by
    rw [← pairwise_map, zipIdx_map_snd]
    exact nodup_range'
  refine pairwise_map.2 (hsnd.filterMap _ fun a b hne => ?_)
  simp only [Option.map_eq_some_iff]
  rintro _ ⟨o, -, rfl⟩ _ ⟨o', -, rfl⟩
  exact hne

theorem refused_of_pushed (h : (k, o) ∈ pushed admitted) : refused admitted k = {} := by
  simp [refused, mem_pushed.1 h]

end

section

variable (ctx) (store : StoreDelete) (admitted : List (ItemError ⊕ ObjectToDelete))

/-- The objects of the request under the names they are stored with. -/
def storedObjects : List ObjectToDelete := StoreDelete.encoded ((pushed admitted).map Prod.snd)

def storedObject (o : ObjectToDelete) : ObjectToDelete :=
  { o with objectName := encodeDirObject o.objectName }

/-- An item that was refused has its error as its result. Every other has what the store answered for
it, and what is reported as a deletion is true of the drives. -/
def Reports (results : List DeleteResult) : Prop :=
  (∀ (k : ℕ) (e : ItemError), admitted[k]? = some (.inl e) →
    results[k]? = some { error := some e }) ∧
  ∀ (i k : ℕ) (o : ObjectToDelete), (pushed admitted)[i]? = some (k, o) →
    ∃ answer, (store.deleteObjects ((pushed admitted).map Prod.snd))[i]? = some answer ∧
      results[k]? = some (report ctx o answer {}) ∧
      store.Truthful (storedObjects admitted) i (storedObject o) answer

/-- The name of the object comes back from the store as it was, and no later item has it. -/
def HasOwnName (i : ℕ) (o : ObjectToDelete) : Prop :=
  decodeDirObject (encodeDirObject o.objectName) = o.objectName ∧
    ∀ p ∈ (pushed admitted).drop (i + 1), p.2.objectName ≠ o.objectName

variable {ctx store admitted} {items : List DeleteItem} {results : List DeleteResult}

theorem length_admitAll {idx : ℕ} (h : admitAll ctx idx items = .ok admitted) :
    admitted.length = items.length := by
  fun_induction admitAll ctx idx items generalizing admitted with
  | case1 =>
    cases h
    rfl
  | case2 => cases h
  | case3 => cases h
  | case4 idx item items a ha rest hrest ih =>
    cases h
    rw [length_cons, length_cons, ih hrest]

variable (store admitted) in
/-- The turns of the loop over the store's answers. -/
def turns : List (ObjectToDelete × DeletedObject × Option StorageError) :=
  ((pushed admitted).map Prod.snd).zip (store.deleteObjects ((pushed admitted).map Prod.snd))

theorem executeDeleteObjects_ok (hok : executeDeleteObjects ctx store items = .ok results)
    (hadm : admitAll ctx 0 items = .ok admitted) (hk : k < admitted.length) :
    results[k]? =
      some ((turns store admitted).foldl (file ctx (pushed admitted)) (refused admitted) k) := by
  rw [length_admitAll hadm] at hk
  unfold executeDeleteObjects at hok
  rw [hadm] at hok
  split at hok
  · cases hok
  · dsimp only at hok
    split at hok
    · cases hok
    · cases hok
      simp [hk, turns]

variable (store) in
/-- The turn of the `i`-th object, with the store's answer for it. -/
theorem getElem?_turns (hi : (pushed admitted)[i]? = some (k, o)) :
    ∃ answer, (store.deleteObjects ((pushed admitted).map Prod.snd))[i]? = some answer ∧
      (turns store admitted)[i]? = some (o, answer) ∧
      answer.1.objectName = decodeDirObject (encodeDirObject o.objectName) ∧
      answer.1.deleteMarkerVersionId =
        (store.merged (storedObjects admitted) i (storedObject o)).1.deleteMarkerVersionId ∧
      answer.2 = (store.merged (storedObjects admitted) i (storedObject o)).2 := by
  have ho : ((pushed admitted).map Prod.snd)[i]? = some o := by simp [hi]
  have hanswer := store.getElem?_deleteObjects ho
  refine ⟨_, hanswer, ?_, rfl, rfl, rfl⟩
  rw [turns, getElem?_zip_eq_some]
  exact ⟨ho, hanswer⟩

theorem getElem?_pushed_of_turns {t : ObjectToDelete × DeletedObject × Option StorageError}
    (h : (turns store admitted)[i]? = some t) :
    ∃ k, (pushed admitted)[i]? = some (k, t.1) ∧
      t.2.1.objectName = decodeDirObject (encodeDirObject t.1.objectName) := by
  obtain ⟨o, answer⟩ := t
  have ho : ((pushed admitted).map Prod.snd)[i]? = some o := (getElem?_zip_eq_some.1 h).1
  rw [getElem?_map] at ho
  obtain ⟨⟨k, o'⟩, hi, heq⟩ := Option.map_eq_some_iff.1 ho
  cases heq
  obtain ⟨answer', -, hturn, hname, -⟩ := getElem?_turns store hi
  cases h.symm.trans hturn
  exact ⟨k, hi, hname⟩

/-- The result of an item is its own only if the answers with its name are filed there. -/
theorem hasOwnName_of_report (hi : (pushed admitted)[i]? = some (k, o))
    (hname : answer.1.objectName = decodeDirObject (encodeDirObject o.objectName))
    (h : (turns store admitted).foldl (file ctx (pushed admitted)) (refused admitted) k =
      report ctx o answer {}) : HasOwnName admitted i o := by
  have hfiled : FiledBy (turns store admitted) (pushed admitted) k (report ctx o answer {}) :=
    h ▸ foldl_file_filedBy (refused_of_pushed (mem_of_getElem? hi))
  obtain ⟨t, ht, htarget, heq⟩ : ∃ t ∈ turns store admitted,
      lastIndex (pushed admitted) t.2.1.objectName = some k ∧
        t.2.1.objectName = decodeDirObject (encodeDirObject o.objectName) := by
    rcases report_cases ctx o answer {} with hd | ⟨e, hkey, he⟩
    · obtain ⟨t, ht, htarget, heq⟩ := hfiled.1 _ (congrArg _ hd)
      exact ⟨t, ht, htarget, heq ▸ hname⟩
    · obtain ⟨t, ht, htarget, heq⟩ := hfiled.2 e (congrArg _ he)
      obtain ⟨j, hj⟩ := getElem?_of_mem ht
      obtain ⟨-, -, hname'⟩ := getElem?_pushed_of_turns hj
      refine ⟨t, ht, htarget, ?_⟩
      rw [hname', heq, hkey]
  rw [heq] at htarget
  obtain ⟨hown, hlater⟩ := (lastIndex_eq_some_iff nodup_pushed hi).1 htarget
  rw [← hown] at hlater
  exact ⟨hown.symm, hlater⟩

section

variable (h : ∀ i k o, (pushed admitted)[i]? = some (k, o) → HasOwnName admitted i o)
include h

theorem nodup_storedObjects : ((storedObjects admitted).map objectName).Nodup := by
  have hnd : ((pushed admitted).map fun p => encodeDirObject p.2.objectName).Nodup := by
    refine pairwise_map.2 (pairwise_iff_getElem.2 fun i j hi hj hij heq => ?_)
    have hown := h i _ _ (getElem?_eq_getElem hi)
    have hown' := h j _ _ (getElem?_eq_getElem hj)
    have hmem : (pushed admitted)[j] ∈ (pushed admitted).drop (i + 1) := by
      refine mem_iff_getElem?.2 ⟨j - (i + 1), ?_⟩
      rw [getElem?_drop, Nat.add_sub_cancel' (by omega), getElem?_eq_getElem hj]
    exact hown.2 _ hmem (hown'.1.symm.trans ((congrArg decodeDirObject heq.symm).trans hown.1))
  simpa [storedObjects, StoreDelete.encoded, Function.comp_def] using hnd

variable (hi : (pushed admitted)[i]? = some (k, o))
include hi

/-- Where every item has a name of its own, the store's answer for it is filed as its result. -/
theorem foldl_file_of_hasOwnName (hturn : (turns store admitted)[i]? = some (o, answer)) :
    (turns store admitted).foldl (file ctx (pushed admitted)) (refused admitted) k =
      report ctx o answer {} := by
  have htarget : ∀ (j : ℕ) (t : ObjectToDelete × DeletedObject × Option StorageError) (k' : ℕ),
      (turns store admitted)[j]? = some t →
      (pushed admitted)[j]? = some (k', t.1) →
      lastIndex (pushed admitted) t.2.1.objectName = some k' := by
    intro j t k' ht hj
    obtain ⟨-, -, hname⟩ := getElem?_pushed_of_turns ht
    have hown := h j k' t.1 hj
    rw [hname, hown.1]
    exact (lastIndex_eq_some_iff nodup_pushed hj).2 ⟨rfl, hown.2⟩
  rw [foldl_file_unique hturn (htarget i _ k hturn hi), refused_of_pushed (mem_of_getElem? hi)]
  intro j t ht hk
  obtain ⟨k', hj, -⟩ := getElem?_pushed_of_turns ht
  obtain rfl : k' = k := Option.some.inj ((htarget j t k' ht hj).symm.trans hk)
  have hjk : ((pushed admitted).map Prod.fst)[j]? = some k' := by simp [hj]
  have hik : ((pushed admitted).map Prod.fst)[i]? = some k' := by simp [hi]
  exact (List.getElem?_inj (List.getElem?_eq_some_iff.1 hjk).1 nodup_pushed).1 (hjk.trans hik.symm)

theorem truthful_iff_of_hasOwnName
    (hanswer : (store.deleteObjects ((pushed admitted).map Prod.snd))[i]? = some answer) :
    store.Truthful (storedObjects admitted) i (storedObject o) answer ↔
      store.MarksPresent (storedObjects admitted) i (storedObject o) := by
  have ho : (storedObjects admitted)[i]? = some (storedObject o) := by
    simp [storedObjects, StoreDelete.encoded, hi, storedObject]
  obtain ⟨answer', hanswer', -, -, hmarker, herr⟩ := getElem?_turns store hi
  obtain rfl : answer = answer' := Option.some.inj (hanswer.symm.trans hanswer')
  rw [← StoreDelete.merged_truthful_iff (nodup_storedObjects h) ho, StoreDelete.Truthful, hmarker,
    herr, StoreDelete.Truthful]

end

theorem executeDeleteObjects_refused (hok : executeDeleteObjects ctx store items = .ok results)
    (hadm : admitAll ctx 0 items = .ok admitted)
    (he : admitted[k]? = some (.inl e)) : results[k]? = some { error := some e } := by
  rw [executeDeleteObjects_ok hok hadm (List.getElem?_eq_some_iff.1 he).1, foldl_file_other]
  · simp [refused, he]
  · intro t _ hk
    obtain ⟨o, ho, -⟩ := lastIndex_mem hk
    rw [mem_pushed.1 ho] at he
    cases he

/-- The results are true of every item exactly if every item has a name of its own and asks for a
delete marker only where a pool writes it. -/
theorem executeDeleteObjects_reports_iff
    (hok : executeDeleteObjects ctx store items = .ok results)
    (hadm : admitAll ctx 0 items = .ok admitted) :
    Reports ctx store admitted results ↔
      ∀ i k o, (pushed admitted)[i]? = some (k, o) →
        HasOwnName admitted i o ∧
          store.MarksPresent (storedObjects admitted) i (storedObject o) := by
  have hresult : ∀ k o, (k, o) ∈ pushed admitted → results[k]? =
      some ((turns store admitted).foldl (file ctx (pushed admitted)) (refused admitted) k) :=
    fun k o hmem =>
      executeDeleteObjects_ok hok hadm (List.getElem?_eq_some_iff.1 (mem_pushed.1 hmem)).1
  constructor
  · rintro ⟨-, hitems⟩
    have hown : ∀ i k o, (pushed admitted)[i]? = some (k, o) → HasOwnName admitted i o := by
      intro i k o hi
      obtain ⟨answer, hanswer, hk, -⟩ := hitems i k o hi
      obtain ⟨answer', hanswer', -, hname, -⟩ := getElem?_turns store hi
      obtain rfl : answer = answer' := Option.some.inj (hanswer.symm.trans hanswer')
      rw [hresult k o (mem_of_getElem? hi)] at hk
      exact hasOwnName_of_report hi hname (Option.some.inj hk)
    intro i k o hi
    obtain ⟨answer, hanswer, -, htrue⟩ := hitems i k o hi
    exact ⟨hown i k o hi, (truthful_iff_of_hasOwnName hown hi hanswer).1 htrue⟩
  · intro h
    have hown : ∀ i k o, (pushed admitted)[i]? = some (k, o) → HasOwnName admitted i o :=
      fun i k o hi => (h i k o hi).1
    refine ⟨fun k e he => executeDeleteObjects_refused hok hadm he, fun i k o hi => ?_⟩
    obtain ⟨answer, hanswer, hturn, -⟩ := getElem?_turns store hi
    refine ⟨answer, hanswer, ?_, (truthful_iff_of_hasOwnName hown hi hanswer).2 (h i k o hi).2⟩
    rw [hresult k o (mem_of_getElem? hi), foldl_file_of_hasOwnName hown hi hturn]

/-- A request whose items all pass, and a store of one drive that deletes what it is asked to. -/
def passAll : RequestContext where
  parseUuid text := .ok (BitVec.ofNat 128 text.length)
  check _ := .pass
  display _ := ""

def oneDriveStore (cfg : VersioningConfig) (answer : Option DiskError) : StoreDelete where
  cfg := cfg
  bucket := "bucket"
  first :=
    { setOf := fun _ => 0
      sets := fun _ =>
        { fresh := fun _ => 0, drives := [some fun _ _ => answer], order := .insertion } }
  rest := []

/-- A store of three drives, one of them offline, that do not have `c`; `b` is versioned. -/
def threeDriveStore : StoreDelete where
  cfg := { prefixEnabled := fun name => name == "b" }
  bucket := "bucket"
  first :=
    { setOf := fun _ => 0
      sets := fun _ =>
        { fresh := fun i => BitVec.ofNat 128 (7 + i)
          drives :=
            let answer name (_ : List DeleteEntry) :=
              if name = "c" then some DiskError.fileVersionNotFound else none
            [some answer, none, some answer]
          order := .insertion } }
  rest := []

/-- A version is deleted, a marker is written, and a version is not there. -/
theorem executeDeleteObjects_reports_three :
    Reports passAll threeDriveStore
      [.inr { objectName := "a", versionId := some 1 }, .inr { objectName := "b" },
        .inr { objectName := "c", versionId := some 2 }]
      [{ deleteObject := some { objectName := "a", versionId := some 1, found := true } },
        { deleteObject := some
            { deleteMarker := true, deleteMarkerVersionId := some 8, objectName := "b", found := true } },
        { deleteObject := some { objectName := "c", versionId := some 2 } }] := by
  have hadm : admitAll passAll 0 [{ key := "a", versionId := some "x" }, { key := "b" },
      { key := "c", versionId := some "xx" }] =
      .ok [.inr { objectName := "a", versionId := some 1 }, .inr { objectName := "b" },
        .inr { objectName := "c", versionId := some 2 }] := rfl
  refine (executeDeleteObjects_reports_iff (by decide +kernel) hadm).2 fun i k o hi => ?_
  match i, hi with
  | 0, rfl => exact ⟨⟨by decide +kernel, by decide +kernel⟩, nofun⟩
  | 1, rfl =>
    refine ⟨⟨by decide +kernel, by decide +kernel⟩, fun _ => .inl ⟨threeDriveStore.first, ?_, ?_⟩⟩
    · exact mem_cons_self
    · exact ⟨by decide +kernel, by decide +kernel⟩
  | 2, rfl => exact ⟨⟨by decide +kernel, by decide +kernel⟩, nofun⟩

/-- Of two versions of one object the first has no result; and where versioning is on, a marker is
reported for an object that the drive does not have, and that got none. -/
theorem executeDeleteObjects_misreports :
    (∃ admitted results, executeDeleteObjects passAll (oneDriveStore {} none)
        [{ key := "a", versionId := some "x" }, { key := "a", versionId := some "xx" }] = .ok results ∧
      admitAll passAll 0
        [{ key := "a", versionId := some "x" }, { key := "a", versionId := some "xx" }] = .ok admitted ∧
      ¬Reports passAll (oneDriveStore {} none) admitted results) ∧
    executeDeleteObjects passAll
        (oneDriveStore { prefixEnabled := fun _ => true } (some .fileNotFound)) [{ key := "a" }] =
      .ok [⟨some { deleteMarker := true, deleteMarkerVersionId := some 0, objectName := "a" }, none⟩] := by
  have hok : executeDeleteObjects passAll (oneDriveStore {} none)
        [{ key := "a", versionId := some "x" }, { key := "a", versionId := some "xx" }] =
      .ok [{}, { deleteObject := some { objectName := "a", versionId := some 2, found := true } }] := by
    decide +kernel
  refine ⟨⟨_, _, hok, rfl, fun h => ?_⟩, by decide +kernel⟩
  obtain ⟨answer, -, hresult, -⟩ := h.2 0 0 { objectName := "a", versionId := some 1 } rfl
  have hnone : ({} : DeleteResult) = report passAll _ answer {} := Option.some.inj hresult
  rcases report_cases passAll _ answer {} with hd | ⟨e, -, he⟩
  · cases hnone.trans hd
  · cases hnone.trans he

end

end DeleteObjects

end Rustfs
