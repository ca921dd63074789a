import Rustfs.Lib.Run
import Rustfs.Store.Object

/-! When the versions of an object stay together in one pool. -/
namespace Rustfs

open List StorageError Except StoreCall

/-- The errors that say that an object or a version of it is not there. -/
def StorageError.IsNotFound (e : StorageError) : Prop :=
  e.isErrObjectNotFound = true ∨ e.isErrVersionNotFound = true

variable {i : ℕ} {res : Except StorageError ObjectInfo}

namespace StoreCall

variable {c : StoreCall} {b o : String} {os : ObjectOptions} {pinfo : PoolObjInfo}
  {d : Option PoolObjInfo} {l : List PoolObjInfo} {e : StorageError}

/-- No pool is left out, and a pool that answers with an error is not read as having the object. -/
structure Plain (call : StoreCall) : Prop where
  suspended : ∀ i, call.suspended i = false
  rebalancing : ∀ i, call.rebalancing i = false
  readQuorum : .error .erasureReadQuorum ∉ call.infos

/-- An answer of a pool: an object, or an error and nothing else. -/
def Answered (call : StoreCall) (p : PoolObjInfo) : Prop :=
  (p.err = none ∧ call.infos[p.index]? = some (.ok p.objectInfo)) ∨
    ∃ e, p.err = some e ∧ p.objectInfo = {} ∧ call.infos[p.index]? = some (.error e)

variable {p : PoolObjInfo}

theorem answered_of_mem (h : p ∈ c.poolObjInfos) : c.Answered p := by
  have hp := (perm_insertionSort _ _).mem_iff.1 h
  obtain ⟨i, hi, rfl⟩ := mem_mapIdx.1 hp
  cases hres : c.infos[i] with
  | ok oi => exact .inl ⟨rfl, by simp [getElem?_eq_getElem hi, hres]⟩
  | error e => exact .inr ⟨e, rfl, rfl, by simp [getElem?_eq_getElem hi, hres]⟩

theorem exists_mem_poolObjInfos
    (h : c.infos[i]? = some res) : ∃ p ∈ c.poolObjInfos, p.index = i := by
  obtain ⟨hi, rfl⟩ := List.getElem?_eq_some_iff.1 h
  refine ⟨_, (perm_insertionSort _ _).mem_iff.2 (mem_mapIdx.2 ⟨i, hi, rfl⟩), ?_⟩
  split <;> rfl

theorem scanPools_cons_ok (hp : c.Plain) (h : p.err = none) :
    c.scanPools b o os d (p :: l) = .ok p := by
  simp [scanPools, hp.suspended, hp.rebalancing, h]

theorem scanPools_cons_err (hp : c.Plain) (herr : p.err = some e)
    (hinfo : p.objectInfo = {}) (hat : c.infos[p.index]? = some (.error e)) :
    c.scanPools b o os d (p :: l) =
      if e.isErrObjectNotFound || e.isErrVersionNotFound then
        c.scanPools b o os (some p) l else .error e := by
  have hquorum : (e == erasureReadQuorum) = false := by
    rw [beq_eq_false_iff_ne]
    rintro rfl
    exact hp.readQuorum (mem_of_getElem? hat)
  rw [scanPools, hp.suspended, hp.rebalancing, herr, hinfo]
  cases hobj : e.isErrObjectNotFound <;> cases hver : e.isErrVersionNotFound <;>
    simp [hquorum, hobj, hver]

/-- A lookup that succeeds has found a pool with the object, or every pool is without it and the
request comes from a replication. One that does not find the object has asked every pool. -/
theorem scanPools_spec (hp : c.Plain) (hl : ∀ p ∈ l, c.Answered p) :
    (∀ pinfo, c.scanPools b o os d l = .ok pinfo → (pinfo ∈ l ∧ pinfo.err = none) ∨
      os.replicationRequest = true ∧ ∀ p ∈ l, ∃ e, p.err = some e ∧ e.IsNotFound) ∧
    ∀ e, c.scanPools b o os d l = .error e → e.isErrObjectNotFound = true →
      ∀ p ∈ l, ∃ e, p.err = some e ∧ e.IsNotFound := by
  induction l generalizing d with
  | nil =>
    refine ⟨fun pinfo h => ?_, by simp⟩
    cases hrep : os.replicationRequest with
    | true => exact .inr ⟨rfl, by simp⟩
    | false => cases d <;> simp [scanPools, hrep] at h
  | cons p l ih =>
    obtain ⟨hp', hrest⟩ := forall_mem_cons.1 hl
    rcases hp' with ⟨hnone, -⟩ | ⟨e, herr, hinfo, hat⟩
    · rw [scanPools_cons_ok hp hnone]
      exact ⟨fun pinfo h => .inl (ok.inj h ▸ ⟨mem_cons_self, hnone⟩), fun e h => nomatch h⟩
    rw [scanPools_cons_err hp herr hinfo hat, forall_mem_cons]
    split_ifs with hfound
    · obtain ⟨hok, hnot⟩ := ih (d := some p) hrest
      have hfirst : ∃ e, p.err = some e ∧ e.IsNotFound := ⟨e, herr, Bool.or_eq_true_iff.1 hfound⟩
      refine ⟨fun pinfo h => ?_, fun e h he => ⟨hfirst, hnot e h he⟩⟩
      exact (hok pinfo h).imp (And.imp_left (mem_cons_of_mem _)) (And.imp_right (.intro hfirst))
    · refine ⟨fun _ h => (nomatch h), fun e' h he => ?_⟩
      cases h
      simp [he] at hfound

/-- No pool answers with the object. -/
def NoneHas (call : StoreCall) : Prop :=
  ∀ (i : ℕ) (res : Except StorageError ObjectInfo), call.infos[i]? = some res →
    ∃ e, res = .error e ∧ e.IsNotFound

theorem noneHas_of_forall (h : ∀ p ∈ c.poolObjInfos, ∃ e, p.err = some e ∧ e.IsNotFound) :
    c.NoneHas := by
  intro i res hres
  obtain ⟨p, hmem, rfl⟩ := exists_mem_poolObjInfos hres
  obtain ⟨e, herr, hnot⟩ := h p hmem
  rcases answered_of_mem hmem with ⟨hnone, -⟩ | ⟨e', herr', -, hat⟩
  · simp [hnone] at herr
  · obtain rfl : e = e' := Option.some.inj (herr.symm.trans herr')
    exact ⟨e, Option.some.inj (hres.symm.trans hat), hnot⟩

theorem getPoolInfoExistingWithOpts_ok (hp : c.Plain)
    (h : c.getPoolInfoExistingWithOpts b o os = .ok pinfo) :
    (∃ oi, c.infos[pinfo.index]? = some (.ok oi)) ∨ os.replicationRequest = true ∧ c.NoneHas := by
  rcases (scanPools_spec hp fun p => answered_of_mem).1 _ h with ⟨hmem, hnone⟩ | ⟨hrep, hall⟩
  · rcases answered_of_mem hmem with ⟨-, hat⟩ | ⟨e, herr, -⟩
    · exact .inl ⟨_, hat⟩
    · simp [hnone] at herr
  · exact .inr ⟨hrep, noneHas_of_forall hall⟩

/-- The pool for an object has it already, or no pool has it and this one has space. -/
theorem getPoolIdx_ok (hp : c.Plain) {idx : ℕ} (h : c.getPoolIdx b o = .ok idx) :
    (∃ oi, c.infos[idx]? = some (.ok oi)) ∨ c.NoneHas ∧ c.available = some idx := by
  unfold getPoolIdx at h
  split at h
  · rename_i pinfo hfound
    cases h
    rcases getPoolInfoExistingWithOpts_ok hp hfound with hhas | ⟨hrep, -⟩
    · exact .inl hhas
    · cases hrep
  · rename_i err hnot
    split_ifs at h with he
    have hnone : c.NoneHas := noneHas_of_forall
      ((scanPools_spec hp fun p => answered_of_mem).2 _ hnot (by simpa using he))
    cases hav : c.available with
    | none => simp [hav] at h
    | some i =>
      simp only [hav] at h
      exact .inr ⟨hnone, congrArg some (ok.inj h)⟩

end StoreCall

namespace Store

variable (s : Store) (call : ObjectCall)

/-- Every object has all its versions in one pool. -/
def SinglePool : Prop :=
  ∀ key, ∀ i < s.pools, ∀ j < s.pools, s.versions i key ≠ [] → s.versions j key ≠ [] → i = j

/-- The pools read an object only if they have it, and report it missing only if they do not. -/
structure Honest (key : ObjectKey) : Prop where
  found : ∀ i < s.pools, ∀ fi, (call.reads i).held = .ok fi → s.versions i key ≠ []
  missing : ∀ i < s.pools, ∀ e, (call.reads i).held = .error e →
    (e.toObjectErr [key.1, key.2]).IsNotFound → s.versions i key = []
  deletes : ∀ i < s.pools, ∀ fi, (call.deletes i).held = .ok fi → s.versions i key ≠ []

/-- Changes that go to the pool of the object, if it has one, and to one pool only. -/
structure AtHome (ws : List (ℕ × ObjectKey)) : Prop where
  home : ∀ i key, (i, key) ∈ ws → ∀ j < s.pools, s.versions j key ≠ [] → j = i
  one : ∀ i j key, (i, key) ∈ ws → (j, key) ∈ ws → i = j

variable {s call} {key : ObjectKey} {bucket object : String} {v : Bool}

variable {req : Request}

/-- A request whose changes are at home keeps the versions together. -/
theorem singlePool_step (h : s.SinglePool) (hw : s.AtHome (s.writes call req)) :
    (s.step call req).SinglePool := by
  intro key i hi j hj hvi hvj
  have hkept : ∀ n, (n, key) ∉ s.writes call req → (s.step call req).versions n key ≠ [] →
      s.versions n key ≠ [] := by
    intro n hn hne hnil
    simp [step, hn, hnil] at hne
  by_cases hwi : (i, key) ∈ s.writes call req <;> by_cases hwj : (j, key) ∈ s.writes call req
  · exact hw.one i j key hwi hwj
  · exact (hw.home i key hwi j hj (hkept j hwj hvj)).symm
  · exact hw.home j key hwj i hi (hkept i hwi hvi)
  · exact h key i hi j hj (hkept i hwi hvi) (hkept j hwj hvj)

theorem atHome_singleton (h : ∀ j < s.pools, s.versions j key ≠ [] → j = i) :
    s.AtHome [(i, key)] := by
  refine ⟨fun i' key' hmem => ?_, fun a b key' ha hb => ?_⟩
  · cases mem_singleton.1 hmem
    exact h
  · exact congrArg Prod.fst ((mem_singleton.1 ha).trans (mem_singleton.1 hb).symm)

/-- Changes of pools that have the object already are at home. -/
theorem atHome_of_present (h : s.SinglePool) {ws : List (ℕ × ObjectKey)}
    (hws : ∀ i key, (i, key) ∈ ws → i < s.pools ∧ s.versions i key ≠ []) : s.AtHome ws := by
  refine ⟨fun i key hmem j hj hvj => ?_, fun i j key hi hj => ?_⟩
  · exact h key j hj i (hws i key hmem).1 hvj (hws i key hmem).2
  · exact h key i (hws i key hi).1 j (hws j key hj).1 (hws i key hi).2 (hws j key hj).2

theorem toObjectErr_ne_readQuorum (e : StorageError) (ps : List String) :
    e.toObjectErr ps ≠ .erasureReadQuorum := by
  cases e <;> simp [toObjectErr]

theorem plain_lookup (s : Store) (c : ObjectCall) (b o : String) (v : Bool) :
    (s.lookup c b o v).Plain := by
  refine ⟨fun _ => rfl, fun _ => rfl, fun hmem => ?_⟩
  obtain ⟨i, -, hi⟩ := mem_map.1 hmem
  unfold PoolRead.info at hi
  split at hi
  · simp [other] at hi
  · split at hi
    · exact toObjectErr_ne_readQuorum _ _ (error.inj hi)
    · cases hi

theorem lookup_getElem : (s.lookup call bucket object v).infos[i]? = some res ↔
      i < s.pools ∧ (call.reads i).info bucket object v = res := by
  rw [lookup, getElem?_map]
  by_cases hi : i < s.pools <;> simp [hi]

/-- A pool that answers with the object has it. -/
theorem present_of_lookup (h : s.Honest call (bucket, object)) {oi : ObjectInfo}
    (hi : (s.lookup call bucket object v).infos[i]? = some (.ok oi)) :
    i < s.pools ∧ s.versions i (bucket, object) ≠ [] := by
  obtain ⟨hlt, hinfo⟩ := lookup_getElem.1 hi
  refine ⟨hlt, ?_⟩
  unfold PoolRead.info at hinfo
  split at hinfo
  · cases hinfo
  · split at hinfo
    · cases hinfo
    · exact h.found i hlt _ ‹_›

/-- When no pool answers with the object, none has it. -/
theorem absent_of_lookup (h : s.Honest call (bucket, object))
    (hnone : (s.lookup call bucket object v).NoneHas) (hi : i < s.pools) :
    s.versions i (bucket, object) = [] := by
  obtain ⟨e, he, hnot⟩ := hnone i _ (lookup_getElem.2 ⟨hi, rfl⟩)
  unfold PoolRead.info at he
  split at he
  · cases he
    simp [StorageError.IsNotFound, other, isErrObjectNotFound, isErrVersionNotFound] at hnot
  · split at he
    · cases he
      exact h.missing i hi _ ‹_› hnot
    · cases he

theorem getPoolIdx_home (h : s.SinglePool) (hh : s.Honest call (bucket, object)) {idx : ℕ}
    (hidx : (s.lookup call bucket object v).getPoolIdx bucket object = .ok idx) :
    ∀ j < s.pools, s.versions j (bucket, object) ≠ [] → j = idx := by
  intro j hj hvj
  rcases getPoolIdx_ok (plain_lookup s call bucket object v) hidx with
    ⟨oi, hoi⟩ | ⟨hnone, -⟩
  · obtain ⟨hlt, hv⟩ := present_of_lookup hh hoi
    exact h _ j hj idx hlt hvj hv
  · exact absurd (absent_of_lookup hh hnone hj) hvj

theorem atHome_nil : s.AtHome [] :=
  ⟨fun _ _ hmem => absurd hmem not_mem_nil, fun _ _ _ hmem => absurd hmem not_mem_nil⟩

theorem putWrites_atHome (h : s.SinglePool) {opts : ObjectOptions}
    (hh : s.Honest call (bucket, encodeDirObject object)) :
    s.AtHome (s.putWrites call bucket object opts) := by
  unfold putWrites
  split
  · exact atHome_nil
  split
  · exact atHome_nil
  rename_i idx hput
  apply atHome_singleton
  unfold putPool at hput
  split_ifs at hput with hone
  · intro j hj _
    have hpools : s.pools = 1 := by simpa [singlePool, lookup] using hone
    cases hput
    omega
  · unfold movedPool at hput
    split at hput
    · cases hput
    · rename_i i hidx
      split at hput
      · cases hput
      · cases hput
        exact getPoolIdx_home h hh hidx

/-- The destination of a copy is in the pool of the source, or in the one with space when the source
is in none; a copy onto itself has its pool. -/
def CopiesHome (s : Store) (call : ObjectCall) (src dst : ObjectKey) : Prop :=
  ∀ j < s.pools, s.versions j dst ≠ [] →
    (∀ i < s.pools, s.versions i src ≠ [] → j = i) ∧
      ((∀ i < s.pools, s.versions i src = []) → call.available = some j)

theorem copyWrites_atHome (h : s.SinglePool) {sb so d o : String}
    {os ds : ObjectOptions} {hasReader : Bool} (hh : s.Honest call (sb, encodeDirObject so))
    (hc : s.CopiesHome call (sb, encodeDirObject so)
      (d, encodeDirObject o)) : s.AtHome (s.copyWrites call sb so d o os ds hasReader) := by
  unfold copyWrites
  dsimp only
  split
  · exact atHome_nil
  split
  · exact atHome_nil
  rename_i idx hidx
  split
  · exact atHome_singleton (getPoolIdx_home h hh hidx)
  split
  · apply atHome_singleton
    intro j hj hvj
    obtain ⟨hsame, hspace⟩ := hc j hj hvj
    rcases getPoolIdx_ok (plain_lookup s call _ _ _) hidx with ⟨oi, hoi⟩ | ⟨hnone, hav⟩
    · obtain ⟨hlt, hv⟩ := present_of_lookup hh hoi
      exact hsame idx hlt hv
    · have hj' := hspace fun i hi => absent_of_lookup hh hnone hi
      exact Option.some.inj (hj'.symm.trans hav)
  · exact atHome_nil

variable {opts : ObjectOptions}

/-- A marker that is written where no version is read comes from a versioned request. -/
theorem versioned_of_deletedInfo {e : StorageError} (hheld : (call.deletes i).held = .error e)
    (h : (deletedInfo call object opts i).deleted = true) : opts.versioned = true := by
  have hnone : (call.deletes i).held.toOption = none := by rw [hheld]; rfl
  rw [deletedInfo, hnone, Option.map_none, SetDisks.deleteFileInfo_none_deleted] at h
  split at h <;> exact h

/-- The drives of a pool without the object change only for a request that asks for a delete marker
and is versioned. -/
theorem present_of_deletes (hh : s.Honest call key) (hi : i < s.pools)
    (hopts : opts.deleteMarker = true → opts.versioned = false)
    (h : s.deletes call key opts i = true) : s.versions i key ≠ [] := by
  simp only [deletes, Bool.and_eq_true, Bool.or_eq_true] at h
  obtain ⟨⟨-, hread⟩, hchange⟩ := h
  rcases hchange with hhas | ⟨hmarker, hforced⟩
  · simpa using hhas
  · cases hheld : (call.deletes i).held with
    | ok fi => exact hh.deletes i hi fi hheld
    | error e =>
      have hv := versioned_of_deletedInfo hheld hmarker
      simp [hopts hforced] at hv

theorem deleteObjectsWrites_atHome (h : s.SinglePool) {os : List String} :
    s.AtHome (s.deleteObjectsWrites bucket os) := by
  refine atHome_of_present h fun i key hmem => ?_
  simp only [deleteObjectsWrites, mem_flatMap, mem_filter, mem_map, mem_range] at hmem
  obtain ⟨n, hn, ⟨o, -, heq⟩, hv⟩ := hmem
  obtain ⟨rfl, -⟩ := Prod.mk.inj heq
  exact ⟨hn, by simpa using hv⟩

theorem mem_deleteTurns {l : List ℕ} (h : i ∈ deleteTurns call key opts l) : i ∈ l := by
  induction l with
  | nil => exact h
  | cons n l ih =>
    rw [deleteTurns] at h
    split at h
    · exact mem_singleton.1 h ▸ mem_cons_self
    · split at h
      · exact mem_singleton.1 h ▸ mem_cons_self
      · rcases mem_cons.1 h with rfl | h
        · exact mem_cons_self
        · exact mem_cons_of_mem _ (ih h)

theorem deletePools_lt (hm : opts.dataMovement = false)
    (h : i ∈ s.deletePools call bucket object opts) : i < s.pools := by
  simp only [deletePools, hm, Bool.false_eq_true, if_false] at h
  split at h
  · cases h
  have hmem : i ∈ poolsWithObject (s.lookup call bucket object
      (opts.versioned || opts.versionSuspended)).infos ∨
      i ∈ deleteTurns call (bucket, object) opts (List.range s.pools) := by
    split_ifs at h
    all_goals first | exact .inl h | exact .inr h | cases h
  rcases hmem with hmem | hmem
  · simpa [poolsWithObject, lookup] using (mem_filter.1 hmem).1
  · exact mem_range.1 (mem_deleteTurns hmem)

/-- For moved data only the pool of the object is asked. -/
theorem deletePools_moved (h : s.SinglePool)
    (hh : s.Honest call (bucket, object)) (hm : opts.dataMovement = true)
    (hi : i ∈ s.deletePools call bucket object opts) :
    s.deletePools call bucket object opts = [i] ∧
      ∀ j < s.pools, s.versions j (bucket, object) ≠ [] → j = i := by
  cases hget : (s.lookup call bucket object
      (opts.versioned || opts.versionSuspended)).getPoolInfoExistingWithOpts bucket object opts with
  | error e => simp [deletePools, hget] at hi
  | ok pinfo =>
    simp only [deletePools, hget, hm, if_true] at hi ⊢
    split at hi
    · cases hi
    split at hi
    · cases hi
    obtain rfl := mem_singleton.1 hi
    refine ⟨by simp [*], fun j hj hvj => ?_⟩
    rcases getPoolInfoExistingWithOpts_ok (plain_lookup s call _ _ _) hget with
      ⟨oi, hoi⟩ | ⟨-, hnone⟩
    · obtain ⟨hlt, hv⟩ := present_of_lookup hh hoi
      exact h _ j hj _ hlt hvj hv
    · exact absurd (absent_of_lookup hh hnone hj) hvj

theorem deleteWrites_atHome (h : s.SinglePool) {os : ObjectOptions}
    (hh : s.Honest call (bucket, encodeDirObject object))
    (hopts : os.dataMovement = true ∨ (os.deleteMarker = true → os.versioned = false)) :
    s.AtHome (s.deleteWrites call bucket object os) := by
  unfold deleteWrites
  split
  · exact atHome_nil
  cases hm : os.dataMovement with
  | true =>
    by_cases hnil : s.deletePools call bucket (encodeDirObject object) os = []
    · simp only [hnil, filter_nil, map_nil]
      exact atHome_nil
    · obtain ⟨i, hi⟩ := exists_mem_of_ne_nil _ hnil
      obtain ⟨hone, hhome⟩ := deletePools_moved h hh hm hi
      rw [hone]
      by_cases hdel : s.deletes call (bucket, encodeDirObject object) os i = true
      · simpa [hdel] using atHome_singleton hhome
      · simpa [hdel] using atHome_nil
  | false =>
    refine atHome_of_present h fun i key hmem => ?_
    obtain ⟨n, hn, heq⟩ := mem_map.1 hmem
    cases heq
    obtain ⟨hmem, hdel⟩ := mem_filter.1 hn
    have hlt := deletePools_lt hm hmem
    exact ⟨hlt, present_of_deletes hh hlt (hopts.resolve_left (by simp [hm])) hdel⟩

/-- The object that a request looks up answers honestly. -/
def HonestFor (s : Store) (call : ObjectCall) : Request → Prop
  | .put bucket object _ => s.Honest call (bucket, encodeDirObject object)
  | .copy srcBucket srcObject _ _ _ _ _ => s.Honest call (srcBucket, encodeDirObject srcObject)
  | .delete bucket object _ _ => s.Honest call (bucket, encodeDirObject object)
  | .deleteObjects _ _ => True

/-- The requests that keep to the pool of their object: a copy whose destination is in the pool of
the source, and a delete that asks for no delete marker in a versioned bucket unless data is moved. -/
def KeepsHome (s : Store) (call : ObjectCall) : Request → Prop
  | .copy srcBucket srcObject dstBucket dstObject _ _ _ =>
    s.CopiesHome call (srcBucket, encodeDirObject srcObject) (dstBucket, encodeDirObject dstObject)
  | .delete _ _ opts deletePrefix =>
    deletePrefix = true ∨ opts.dataMovement = true ∨
      (opts.deleteMarker = true → opts.versioned = false)
  | _ => True

theorem writes_atHome (h : s.SinglePool) (hh : s.HonestFor call req)
    (hk : s.KeepsHome call req) : s.AtHome (s.writes call req) := by
  cases req with
  | put bucket object opts => exact putWrites_atHome h hh
  | copy srcBucket srcObject dstBucket dstObject srcOpts dstOpts hasReader =>
    exact copyWrites_atHome h hh hk
  | delete bucket object opts deletePrefix =>
    cases deletePrefix with
    | true => exact atHome_nil
    | false => exact deleteWrites_atHome h hh (hk.resolve_left Bool.false_ne_true)
  | deleteObjects bucket objects => exact deleteObjectsWrites_atHome h

/-- Along a run of requests that keep to the pool of their object, from a store in which no object
is in two pools, none ever is. -/
theorem singlePool_run (h : s.SinglePool) {reqs : List (ObjectCall × Request)}
    (hreqs : Run.Along (fun s r => s.step r.1 r.2)
      (fun s r => s.HonestFor r.1 r.2 ∧ s.KeepsHome r.1 r.2) s reqs) (n : ℕ) :
    (s.run (reqs.take n)).SinglePool := by
  have hstep : ∀ (s : Store) (r : ObjectCall × Request), s.SinglePool →
      s.HonestFor r.1 r.2 ∧ s.KeepsHome r.1 r.2 → (s.step r.1 r.2).SinglePool :=
    fun _ _ h hr => singlePool_step h (writes_atHome h hr.1 hr.2)
  rw [← take_append_drop n reqs] at hreqs
  exact Run.invariant hstep (Run.along_append.1 hreqs).1 h

/-- Two pools, one with the object `src` and the other with the object `dst`. -/
def twoPools : Store where
  pools := 2
  versions := fun i key =>
    if (i, key) = (0, "bucket", "src") ∨ (i, key) = (1, "bucket", "dst") then [{}] else []

/-- The first pool reads `src`, the second does not have it. -/
def readsSrc : ObjectCall where
  reads := fun i => { held := if i = 0 then .ok { modTime := some 1 } else .error .fileNotFound }
  deletes := fun _ => { held := .error .fileNotFound, freshId := 0 }
  after := fun _ _ => [{}]
  keeps := fun _ _ _ => true

def copySrcTo (dst : String) : Request := .copy "bucket" "src" "bucket" dst {} {} true

theorem singlePool_twoPools : twoPools.SinglePool := by
  intro key i hi j hj hvi hvj
  simp only [twoPools, Prod.mk.injEq, ne_eq, ite_eq_right_iff, cons_ne_self, imp_false, not_not]
    at hvi hvj
  rcases hvi with ⟨rfl, rfl⟩ | ⟨rfl, rfl⟩ <;> rcases hvj with ⟨rfl, hkey⟩ | ⟨rfl, hkey⟩
  · rfl
  · simp at hkey
  · simp at hkey
  · rfl

theorem honest_readsSrc (dst : String) : twoPools.HonestFor readsSrc (copySrcTo dst) := by
  have hpool : ∀ i < twoPools.pools, i = 0 ∨ i = 1 := fun i (hi : i < 2) => by omega
  refine ⟨fun i hi fi hfi => ?_, fun i hi e he _ => ?_, fun i hi fi hfi => ?_⟩
  · rcases hpool i hi with rfl | rfl
    · exact cons_ne_nil _ _
    · cases hfi
  · rcases hpool i hi with rfl | rfl
    · cases he
    · rfl
  · cases hfi

/-- A copy puts its destination into the pool of the source although another pool has it. -/
theorem copyObject_splits : twoPools.SinglePool ∧ twoPools.HonestFor readsSrc (copySrcTo "dst") ∧
    ¬(twoPools.step readsSrc (copySrcTo "dst")).SinglePool := by
  refine ⟨singlePool_twoPools, honest_readsSrc "dst", fun h => ?_⟩
  have h0 : (twoPools.step readsSrc (copySrcTo "dst")).versions 0 ("bucket", "dst") = [{}] := rfl
  have h1 : (twoPools.step readsSrc (copySrcTo "dst")).versions 1 ("bucket", "dst") = [{}] := rfl
  have hsame := h ("bucket", "dst") 0 Nat.two_pos 1 Nat.one_lt_two
    (by rw [h0]; exact cons_ne_nil _ _) (by rw [h1]; exact cons_ne_nil _ _)
  cases hsame

/-- A copy to a new name stays in the pool of the source. -/
theorem singlePool_copyNew :
    (twoPools.run ([(readsSrc, copySrcTo "new")].take 1)).SinglePool ∧
      (twoPools.step readsSrc (copySrcTo "new")).versions 0 ("bucket", "new") = [{}] := by
  have hhome : twoPools.KeepsHome readsSrc (copySrcTo "new") := by
    intro j hj hv
    refine absurd ?_ hv
    rcases Nat.le_one_iff_eq_zero_or_eq_one.1 (Nat.le_of_lt_succ hj) with rfl | rfl <;> rfl
  have hreqs : Run.Along (fun s r => s.step r.1 r.2)
      (fun s r => s.HonestFor r.1 r.2 ∧ s.KeepsHome r.1 r.2) twoPools
      [(readsSrc, copySrcTo "new")] := ⟨⟨honest_readsSrc "new", hhome⟩, trivial⟩
  exact ⟨singlePool_run singlePool_twoPools hreqs 1, rfl⟩

end Store

end Rustfs
