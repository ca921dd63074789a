import Rustfs.Lib.Run
import Rustfs.Lib.Trial
import Rustfs.App.ObjectRetention

/-! Which requests leave a version under compliance retention as protected as it was. -/
namespace Rustfs.ObjectLock

open List Trial

variable (cal : Calendar) (date : Time) (id : Uuid) (versions : Versions)

/-- The version is there, and is kept in compliance mode until the date or longer. -/
def Protected : Prop :=
  ∃ v, versions.get (some id) = some v ∧ v.deleteMarker = false ∧
    ∃ d, getObjectRetentionMeta cal v.userDefined = ⟨some compliance, some d⟩ ∧ date ≤ d

/-- The request asks for the deletion of the version. -/
def AsksDeletion : Context × Request → Prop
  | (_, .putRetention _) => False
  | (ctx, .deleteObject req) =>
    takes ctx (markerOnTop versions) req.forceDelete
      (ctx.versionOf (req.versionId.or req.sourceVersionId)) id = true
  | (ctx, .deleteItem req) => takes ctx false false (ctx.versionOf req.versionId) id = true

/-- The version is as protected after the request as the date says, and if the request asks for its
deletion, it is refused. -/
def Upheld (e : Context × Request) : Prop :=
  Protected cal date id (step cal versions e) ∧
    (AsksDeletion id versions e → ∃ reason, respond cal versions e = .error reason)

/-- The retention that is asked for is not one in compliance mode until the date. -/
def Lowers (req : PutRetention) : Prop :=
  ∃ r, req.retention = some r ∧
    ¬(r.mode = some compliance ∧ ∃ new, r.retainUntilDate = some new ∧ date ≤ new)

variable (ctx : Context)

/-- A request that lowers the retention of this version is well formed only if it shortens an
active one and the version can be read. -/
def PutRegular (req : PutRetention) : Prop :=
  ∀ v d, versions.get (ctx.versionOf req.versionId) = some v → v.id = id →
    (getObjectRetentionMeta cal v.userDefined).retainUntilDate = some d →
    ctx.lockConfig = .enabled → ctx.storeError = none →
    (∃ entries, parseObjectLockRetention cal ctx.now req.retention = .ok entries) →
    Lowers date req →
      ctx.readError = none ∧ ctx.now.unixTimestamp < d.unixTimestamp ∧
        isShortening (some d) (req.retention.bind (·.retainUntilDate)) = true

/-- The version is kept from a deletion: by a legal hold, by its own retention, or, if it has none,
by the default of the bucket. -/
def Locked (v : StoredVersion) (bypassGovernance : Bool) : Prop :=
  v.deleteMarker = false ∧
    (hasLegalHold cal v.userDefined = true ∨
      (∃ mode d, getObjectRetentionMeta cal v.userDefined = ⟨some mode, some d⟩ ∧
        ctx.now.unixTimestamp < d.unixTimestamp ∧
        ¬(mode = governance ∧ bypassGovernance = true)) ∨
      ((getObjectRetentionMeta cal v.userDefined).mode = none ∧
        ∃ retention mode modTime d, ctx.defaultRetention = some retention ∧
          retention.mode = some mode ∧ (mode = compliance ∨ mode = governance) ∧
          v.modTime = some modTime ∧ defaultRetainUntil cal retention modTime = some d ∧
          ctx.now.unixTimestamp < d.unixTimestamp ∧
          ¬(mode = governance ∧ bypassGovernance = true)))

/-- The lock check of a deletion stops it: the version it looks at is locked, or cannot be read
where that counts. -/
def Stopped (versions : Versions) (many : Bool) (versionId : Option Uuid)
    (bypassGovernance : Bool) : Prop :=
  match ctx.readError with
  | none => ∃ v, versions.get versionId = some v ∧ Locked cal ctx v bypassGovernance
  | some err => many = false ∧ notFound err = false

/-- The store does not carry the deletion out, and says so. -/
def StoreFails : Prop := ∃ err, ctx.storeError = some err ∧ notFound err = false

/-- A request under which the protection of the version stands. -/
def Regular : Context × Request → Prop
  | (ctx, .putRetention req) => PutRegular cal date id versions ctx req
  | (ctx, .deleteObject req) =>
    AsksDeletion id versions (ctx, .deleteObject req) →
      (ctx.defaultRetention.isSome = true ∧ req.forceDelete = true) ∨
      Stopped cal ctx versions false (ctx.versionOf req.versionId) req.bypassGovernance ∨
      StoreFails ctx
  | (ctx, .deleteItem req) =>
    AsksDeletion id versions (ctx, .deleteItem req) →
      Stopped cal ctx versions true (ctx.versionOf (req.versionId.or req.sourceVersionId))
        req.bypassGovernance ∨ StoreFails ctx

variable {cal date id versions ctx}

variable {versions' : Versions} {mode : String} {metadata : Metadata} {now : Time}
  {v : StoredVersion}

section

variable {s f many b : Bool} {vi : Option Uuid}

theorem newMarker_eq_some {m : StoredVersion} (h : newMarker ctx s f vi = some m) :
    m.deleteMarker = true ∧ takes ctx s f vi m.id = true := by
  unfold newMarker at h
  split_ifs at h with hnot
  simp only [Bool.or_eq_true, not_or, Bool.not_eq_true, Option.isSome_eq_false_iff,
    Option.isNone_iff_eq_none] at hnot
  obtain ⟨⟨rfl, rfl⟩, htop⟩ := hnot
  cases hversioning : ctx.versioning <;> rw [hversioning] at h <;> cases h <;>
    simp [takes, htop, hversioning]

/-- The version that a deletion takes is no longer protected. -/
theorem not_protected_of_takes (h : takes ctx s f vi id = true) :
    ¬Protected cal date id (afterDelete ctx versions s f vi) := by
  rintro ⟨v, hv, hmarker, -⟩
  have hid : v.id = id := by simpa using find?_some hv
  rcases mem_append.mp (mem_of_find?_eq_some hv) with hnew | hold
  · have := (newMarker_eq_some (Option.mem_toList.mp hnew)).1
    rw [hmarker] at this
    exact Bool.noConfusion this
  · have := of_mem_filter hold
    rw [hid, h] at this
    exact Bool.noConfusion this

theorem get_afterDelete (h : takes ctx s f vi id = false) :
    (afterDelete ctx versions s f vi).get (some id) = versions.get (some id) := by
  have hmarker : (newMarker ctx s f vi).toList.find? (·.id = id) = none := by
    refine find?_eq_none.mpr ?_
    intro m hm hid
    have htakes := (newMarker_eq_some (Option.mem_toList.mp hm)).2
    rw [of_decide_eq_true hid, h] at htakes
    exact Bool.noConfusion htakes
  change List.find? _ (_ ++ _) = List.find? _ _
  rw [find?_append, hmarker, Option.none_or, find?_filter]
  congr 1
  funext v
  by_cases hid : v.id = id
  · simp [hid, h]
  · simp [hid]

theorem protected_of_get (h : Protected cal date id versions)
    (hget : versions'.get (some id) = versions.get (some id)) : Protected cal date id versions' := by
  obtain ⟨v, hv, hrest⟩ := h
  exact ⟨v, hget.trans hv, hrest⟩

theorem checkRetentionBlocksDeletion_ne_none_iff {d : Option Time} :
    checkRetentionBlocksDeletion mode d b ≠ none ↔ ¬(mode = governance ∧ b = true) := by
  unfold checkRetentionBlocksDeletion
  split <;> simp_all

theorem getObjectRetentionMeta_mode (h : (getObjectRetentionMeta cal metadata).mode = some mode) :
    mode = compliance ∨ mode = governance := by
  unfold getObjectRetentionMeta parseRetMode at h
  grind

theorem checkDefaultRetention_ne_none_iff {default : Option DefaultRetention} :
    checkDefaultRetention cal now default v b ≠ none ↔
      ∃ retention mode modTime d, default = some retention ∧ retention.mode = some mode ∧
        (mode = compliance ∨ mode = governance) ∧ v.modTime = some modTime ∧
        defaultRetainUntil cal retention modTime = some d ∧
        now.unixTimestamp < d.unixTimestamp ∧ ¬(mode = governance ∧ b = true) := by
  unfold checkDefaultRetention
  cases default with
  | none => simp
  | some retention =>
    simp only [Option.some.injEq, exists_and_left, exists_eq_left']
    cases hmode : retention.mode with
    | none => simp
    | some mode =>
      cases v.modTime with
      | none => simp
      | some modTime =>
        by_cases hknown : mode = compliance ∨ mode = governance
        · cases hd : defaultRetainUntil cal retention modTime with
          | none => simp [hd]
          | some d =>
            by_cases hlt : now.unixTimestamp < d.unixTimestamp
            · simpa [hd, hknown, hlt] using checkRetentionBlocksDeletion_ne_none_iff
            · simp [hd, hlt]
        · simp [hknown]

/-- The check of a deletion finds a reason exactly for a version that is locked. -/
theorem checkObjectLockForDeletion_ne_none_iff :
    checkObjectLockForDeletion cal ctx.now ctx.defaultRetention v b ≠ none ↔
      Locked cal ctx v b := by
  unfold checkObjectLockForDeletion Locked
  cases v.deleteMarker with
  | true => simp
  | false =>
    cases hasLegalHold cal v.userDefined with
    | true => simp
    | false =>
      cases hmeta : getObjectRetentionMeta cal v.userDefined with
      | mk mode retainUntilDate =>
        cases mode with
        | none => simpa using checkDefaultRetention_ne_none_iff
        | some mode =>
          have hknown := getObjectRetentionMeta_mode (by rw [hmeta])
          have hactive : isRetentionActive ctx.now mode retainUntilDate = true ↔
              ∃ d, retainUntilDate = some d ∧ ctx.now.unixTimestamp < d.unixTimestamp := by
            rcases hknown with rfl | rfl <;> simp [isRetentionActive, Option.any_eq_true]
          by_cases hlt : isRetentionActive ctx.now mode retainUntilDate = true
          · obtain ⟨d, rfl, hd⟩ := hactive.mp hlt
            simpa [hlt, hd] using checkRetentionBlocksDeletion_ne_none_iff
          · have hnone := fun d hd => mt hactive.mpr hlt ⟨d, hd⟩
            simp_all

theorem checkDeletion_eq_ok_iff :
    checkDeletion cal ctx versions many vi b = .ok () ↔ ¬Stopped cal ctx versions many vi b := by
  unfold checkDeletion Stopped getObjectInfo
  cases ctx.readError with
  | some err => cases many <;> cases hnot : notFound err <;> simp [hnot]
  | none =>
    cases versions.get vi with
    | none =>
      have hnot : notFound .fileNotFound = true := rfl
      simp [hnot]
    | some v =>
      simp only [Option.some.injEq, exists_eq_left', ← checkObjectLockForDeletion_ne_none_iff]
      cases checkObjectLockForDeletion cal ctx.now ctx.defaultRetention v b with
      | none => simp
      | some reason => simp

variable {e : Context × Request}

theorem step_of_ok
    (h : respond cal versions e = .ok versions') : step cal versions e = versions' := by
  rw [step, h]

theorem step_of_error {r : Refusal}
    (h : respond cal versions e = .error r) : step cal versions e = versions := by
  rw [step, h]

variable (h : Protected cal date id versions)
include h

/-- A deletion that is blocked on `B`, and otherwise goes to the store. -/
theorem upheld_iff_of_delete {B : Prop}
    (hasks : AsksDeletion id versions e ↔ takes ctx s f vi id = true)
    (hblocked : B → ∃ reason, respond cal versions e = .error reason)
    (hpassed : ¬B → respond cal versions e = deleteFromStore ctx versions s f vi) :
    Upheld cal date id versions e ↔ (takes ctx s f vi id = true → B ∨ StoreFails ctx) := by
  unfold Upheld
  rw [hasks]
  have hrefused : (∃ reason, respond cal versions e = .error reason) →
      Protected cal date id (step cal versions e) := by
    rintro ⟨reason, hr⟩
    rwa [step_of_error hr]
  by_cases hB : B
  · exact ⟨fun _ _ => .inl hB, fun _ => ⟨hrefused (hblocked hB), fun _ => hblocked hB⟩⟩
  · have hpass := hpassed hB
    unfold deleteFromStore at hpass
    cases hstore : ctx.storeError with
    | none =>
      rw [hstore] at hpass
      have hfails : ¬StoreFails ctx := by
        rintro ⟨err, herr, -⟩
        rw [hstore] at herr
        exact nomatch herr
      rw [step_of_ok hpass]
      cases htakes : takes ctx s f vi id with
      | true => simp [hB, hfails, not_protected_of_takes htakes]
      | false => simp [protected_of_get h (get_afterDelete htakes)]
    | some err =>
      rw [hstore] at hpass
      cases hnot : notFound err with
      | true =>
        have hok : respond cal versions e = .ok versions := by simpa [hnot] using hpass
        have hfails : ¬StoreFails ctx := by
          rintro ⟨err', herr, hnot'⟩
          rw [hstore] at herr
          cases herr
          rw [hnot] at hnot'
          exact Bool.noConfusion hnot'
        rw [step_of_ok hok, hok]
        simp [h, hB, hfails]
      | false =>
        have herr : respond cal versions e = .error (.storage err) := by simpa [hnot] using hpass
        have hfails : StoreFails ctx := ⟨err, hstore, hnot⟩
        exact ⟨fun _ _ => .inr hfails, fun _ => ⟨hrefused ⟨_, herr⟩, fun _ => ⟨_, herr⟩⟩⟩

theorem upheld_deleteObject_iff (req : DeleteRequest) :
    Upheld cal date id versions (ctx, .deleteObject req) ↔
      Regular cal date id versions (ctx, .deleteObject req) := by
  have hiff := upheld_iff_of_delete (e := (ctx, .deleteObject req))
    (B := (ctx.defaultRetention.isSome = true ∧ req.forceDelete = true) ∨
      Stopped cal ctx versions false (ctx.versionOf req.versionId) req.bypassGovernance)
    h Iff.rfl ?_ ?_
  · rw [hiff]
    simp only [Regular, AsksDeletion, or_assoc]
  · intro hB
    by_cases hforce : ctx.defaultRetention.isSome = true ∧ req.forceDelete = true
    · exact ⟨_, by simp [respond, executeDeleteObject, hforce]; rfl⟩
    · have hstopped := hB.resolve_left hforce
      cases hcheck : checkDeletion cal ctx versions false (ctx.versionOf req.versionId)
          req.bypassGovernance with
      | ok _ => exact absurd hstopped (checkDeletion_eq_ok_iff.mp hcheck)
      | error reason => exact ⟨reason, by simp [respond, executeDeleteObject, hforce, hcheck]; rfl⟩
  · intro hB
    obtain ⟨hforce, hstopped⟩ := not_or.mp hB
    simp only [respond, executeDeleteObject, Bool.and_eq_true, hforce, if_false,
      checkDeletion_eq_ok_iff.mpr hstopped]
    rfl

theorem upheld_deleteItem_iff (req : DeleteRequest) :
    Upheld cal date id versions (ctx, .deleteItem req) ↔
      Regular cal date id versions (ctx, .deleteItem req) := by
  refine upheld_iff_of_delete h Iff.rfl ?_ ?_
  · intro hstopped
    cases hcheck : checkDeletion cal ctx versions true
        (ctx.versionOf (req.versionId.or req.sourceVersionId)) req.bypassGovernance with
    | ok _ => exact absurd hstopped (checkDeletion_eq_ok_iff.mp hcheck)
    | error reason => exact ⟨reason, by simp only [respond, executeDeleteItem, hcheck]; rfl⟩
  · intro hstopped
    simp only [respond, executeDeleteItem, checkDeletion_eq_ok_iff.mpr hstopped]
    rfl

end

section

theorem parseRetMode_compliance : parseRetMode cal compliance = some compliance := by
  unfold parseRetMode
  rw [show cal.toUppercase compliance = compliance from cal.uppercase_compliance]
  decide

theorem parseRetMode_governance : parseRetMode cal governance = some governance := by
  unfold parseRetMode
  rw [show cal.toUppercase governance = governance from cal.uppercase_governance]
  decide

theorem parseRetMode_empty : parseRetMode cal "" = none := by
  unfold parseRetMode
  rw [cal.uppercase_empty]
  decide

/-- What is read back of a retention that was written. -/
theorem getObjectRetentionMeta_insertAll (m : Metadata) (mode t s : String) :
    getObjectRetentionMeta cal (insertAll m
      [(modeKey, mode), (retainUntilDateKey, t), (retentionTimestampKey, s)]) =
      match parseRetMode cal mode with
      | none => ⟨none, none⟩
      | some mode => ⟨some mode, cal.parseIso8601 t⟩ := by
  have hmode : (insertAll m [(modeKey, mode), (retainUntilDateKey, t),
      (retentionTimestampKey, s)]).lookup modeKey = some mode := by
    simp only [insertAll, foldl_cons, foldl_nil]
    rw [AList.lookup_insert_ne (by decide), AList.lookup_insert_ne (by decide),
      AList.lookup_insert]
  have htext : (insertAll m [(modeKey, mode), (retainUntilDateKey, t),
      (retentionTimestampKey, s)]).lookup retainUntilDateKey = some t := by
    simp only [insertAll, foldl_cons, foldl_nil]
    rw [AList.lookup_insert_ne (by decide), AList.lookup_insert]
  unfold getObjectRetentionMeta
  rw [hmode, htext]
  rfl

theorem parse_retentionMode {m : Option String} {t : String}
    (h : retentionMode m = .ok t) : parseRetMode cal t = m := by
  cases m with
  | none =>
    cases h
    exact parseRetMode_empty
  | some m =>
    simp only [retentionMode] at h
    split_ifs at h with hmode
    cases h
    rcases hmode with rfl | rfl
    · exact parseRetMode_compliance
    · exact parseRetMode_governance

theorem parse_retainUntilText {t : String} {r : Option Time}
    (h : retainUntilText cal now mode r = .ok t) : cal.parseIso8601 t = r := by
  cases r with
  | none =>
    cases h
    exact cal.parse_empty
  | some r =>
    simp only [retainUntilText] at h
    split at h
    · exact nomatch h
    · cases hformat : cal.formatRfc3339 r with
      | none => simp [hformat] at h
      | some formatted =>
        simp only [hformat, Except.ok.injEq] at h
        exact cal.parse_format r t (h ▸ hformat)

variable {es : List (String × String)}

/-- A retention that is accepted is read back as it was asked for. -/
theorem getObjectRetentionMeta_of_parse {r : ObjectLockRetention}
    (h : parseObjectLockRetention cal now (some r) = .ok es) (m : Metadata) :
    getObjectRetentionMeta cal (insertAll m es) = if r.mode = none then ⟨none, none⟩ else r := by
  obtain ⟨mode, hmode, h⟩ := bind_eq_ok.mp h
  obtain ⟨text, htext, h⟩ := bind_eq_ok.mp h
  cases h
  rw [getObjectRetentionMeta_insertAll, parse_retentionMode hmode, parse_retainUntilText htext]
  cases r with
  | mk mode' retainUntilDate => cases mode' <;> simp

variable {req : PutRetention}

/-- Whether a request that is accepted protects as long as the date says. -/
theorem protects_iff_not_lowers
    (hparse : parseObjectLockRetention cal now req.retention = .ok es)
    (h : ∃ d, getObjectRetentionMeta cal metadata = ⟨some compliance, some d⟩ ∧ date ≤ d) :
    (∃ d, getObjectRetentionMeta cal (insertAll metadata es) = ⟨some compliance, some d⟩ ∧
      date ≤ d) ↔ ¬Lowers date req := by
  unfold Lowers
  cases hretention : req.retention with
  | none =>
    rw [hretention] at hparse
    cases hparse
    simpa [insertAll] using h
  | some r =>
    rw [hretention] at hparse
    rw [getObjectRetentionMeta_of_parse hparse]
    obtain ⟨mode, retainUntilDate⟩ := r
    cases mode with
    | none => simp
    | some mode => simp [and_assoc]

variable {n : Option Time}

/-- The check of the existing retention, for a version in compliance mode. -/
theorem checkRetentionForModification_compliance {d : Time} (b : Bool)
    (h : getObjectRetentionMeta cal metadata = ⟨some compliance, some d⟩) :
    checkRetentionForModification cal now metadata n b = none ↔
      ¬(now.unixTimestamp < d.unixTimestamp ∧ isShortening (some d) n = true) := by
  have hactive : isRetentionActive now compliance (some d) =
      decide (now.unixTimestamp < d.unixTimestamp) := by
    simp [isRetentionActive]
  simp only [checkRetentionForModification, h, hactive]
  by_cases hlt : now.unixTimestamp < d.unixTimestamp
  · cases isShortening (some d) n <;> simp [hlt]
  · simp [hlt]

theorem get_map (vs : Versions) (id : Uuid) {f : StoredVersion → StoredVersion}
    (hf : ∀ v, (f v).id = v.id) : Versions.get (vs.map f) (some id) = (vs.get (some id)).map f := by
  change List.find? _ _ = (List.find? _ _).map f
  rw [find?_map]
  congr 2
  funext v
  simp [hf]

theorem get_some_of_get {vi : Option Uuid}
    (h : versions.get vi = some v) (hid : v.id = id) : versions.get (some id) = some v := by
  cases vi with
  | some vid =>
    have hvid : v.id = vid := by simpa using find?_some h
    rw [← hid, hvid]
    exact h
  | none =>
    cases versions with
    | nil => exact nomatch h
    | cons w versions =>
      cases h
      simp [Versions.get, hid]

theorem checkExistingRetention_eq_ok_iff {vi : Option Uuid} {d : Time} {b : Bool}
    (hget : versions.get vi = some v)
    (hv : getObjectRetentionMeta cal v.userDefined = ⟨some compliance, some d⟩) :
    checkExistingRetention cal ctx versions vi n b = .ok () ↔
      ¬(ctx.readError = none ∧ ctx.now.unixTimestamp < d.unixTimestamp ∧
        isShortening (some d) n = true) := by
  unfold checkExistingRetention
  rw [hget]
  cases hread : ctx.readError with
  | some err => simp
  | none =>
    simp only [true_and]
    rw [← checkRetentionForModification_compliance b hv]
    cases checkRetentionForModification cal ctx.now v.userDefined n b <;> simp

/-- What a request that is carried out has passed, and what it leaves. -/
theorem executePutObjectRetention_eq_ok
    (h : executePutObjectRetention cal ctx versions req = .ok versions') :
    ctx.lockConfig = .enabled ∧ ctx.storeError = none ∧
      checkExistingRetention cal ctx versions (ctx.versionOf req.versionId)
        (req.retention.bind (·.retainUntilDate)) req.bypassGovernance = .ok () ∧
      ∃ es v, parseObjectLockRetention cal ctx.now req.retention = .ok es ∧
        versions.get (ctx.versionOf req.versionId) = some v ∧
        versions' = versions.map fun w =>
          if w.id = v.id then { w with userDefined := insertAll w.userDefined es } else w := by
  obtain ⟨_, hvalid, h⟩ := bind_eq_ok.mp h
  have hlock : ctx.lockConfig = .enabled := by
    cases hconfig : ctx.lockConfig with
    | enabled => rfl
    | notEnabled | missing | failed =>
      rw [hconfig] at hvalid
      exact nomatch hvalid
  obtain ⟨_, hcheck, h⟩ := bind_eq_ok.mp h
  obtain ⟨es, hparse, h⟩ := bind_eq_ok.mp h
  unfold putObjectMetadata at h
  cases hstore : ctx.storeError with
  | some err => simp [hstore] at h
  | none =>
    cases hget : versions.get (ctx.versionOf req.versionId) with
    | none => simp [hstore, hget] at h
    | some v =>
      simp only [hstore, hget] at h
      split at h
      · exact nomatch h
      · cases h
        exact ⟨hlock, rfl, hcheck, es, v, hparse, rfl, rfl⟩

theorem executePutObjectRetention_isOk (hlock : ctx.lockConfig = .enabled)
    (hstore : ctx.storeError = none)
    (hcheck : checkExistingRetention cal ctx versions (ctx.versionOf req.versionId)
      (req.retention.bind (·.retainUntilDate)) req.bypassGovernance = .ok ())
    (hparse : parseObjectLockRetention cal ctx.now req.retention = .ok es)
    (hget : versions.get (ctx.versionOf req.versionId) = some v) (hmarker : v.deleteMarker = false) :
    ∃ versions', executePutObjectRetention cal ctx versions req = .ok versions' := by
  unfold executePutObjectRetention putObjectMetadata
  rw [hlock, hcheck, hparse, hstore, hget]
  simp only [hmarker, Bool.false_eq_true, if_false]
  exact ⟨_, rfl⟩

theorem upheld_putRetention_iff (h : Protected cal date id versions) (req : PutRetention) :
    Upheld cal date id versions (ctx, .putRetention req) ↔
      Regular cal date id versions (ctx, .putRetention req) := by
  have hprotected := h
  obtain ⟨v₀, hv₀, hmarker, d₀, hd₀, hdate⟩ := h
  change Protected cal date id _ ∧ (False → _) ↔ PutRegular cal date id versions ctx req
  rw [and_iff_left False.elim]
  cases hrespond : executePutObjectRetention cal ctx versions req with
  | error reason =>
    rw [step_of_error (e := (ctx, .putRetention req)) hrespond]
    refine ⟨fun _ => ?_, fun _ => hprotected⟩
    -- The request was refused although all else was in order, so it was the check.
    intro v d hget hid hd hlock hstore hparse hlowers
    have hsame : v = v₀ := Option.some.inj ((get_some_of_get hget hid).symm.trans hv₀)
    subst hsame
    obtain rfl : d₀ = d := by simpa [hd₀] using hd
    by_contra hnot
    obtain ⟨es, hentries⟩ := hparse
    obtain ⟨versions', hok⟩ := executePutObjectRetention_isOk hlock hstore
      ((checkExistingRetention_eq_ok_iff hget hd₀).mpr hnot) hentries hget hmarker
    rw [hok] at hrespond
    exact nomatch hrespond
  | ok versions' =>
    rw [step_of_ok (e := (ctx, .putRetention req)) hrespond]
    obtain ⟨hlock, hstore, hcheck, es, v, hparse, hget, rfl⟩ :=
      executePutObjectRetention_eq_ok hrespond
    have hfound := get_map versions id (f := fun w => if w.id = v.id then
      { w with userDefined := insertAll w.userDefined es } else w) fun w => by split <;> rfl
    by_cases hid : v.id = id
    · have hsame : v = v₀ := Option.some.inj ((get_some_of_get hget hid).symm.trans hv₀)
      subst hsame
      have hlowers := protects_iff_not_lowers hparse ⟨d₀, hd₀, hdate⟩
      have hchecked := (checkExistingRetention_eq_ok_iff hget hd₀).mp hcheck
      rw [hv₀, Option.map_some, if_pos rfl] at hfound
      constructor
      · rintro ⟨w, hw, -, hprotects⟩ v' d hget' hid' hd _ _ _ hlow
        rw [hfound] at hw
        cases hw
        exact absurd hlow (hlowers.mp hprotects)
      · intro hregular
        refine ⟨_, hfound, hmarker, hlowers.mpr fun hlow => hchecked ?_⟩
        exact hregular v d₀ hget hid (by rw [hd₀]) hlock hstore ⟨es, hparse⟩ hlow
    · have hother : v₀.id = id := by simpa using find?_some hv₀
      rw [hv₀, Option.map_some, if_neg (fun heq => hid (heq.symm.trans hother))] at hfound
      refine ⟨fun _ v' d hget' hid' => ?_, fun _ => ⟨v₀, hfound, hmarker, d₀, hd₀, hdate⟩⟩
      rw [hget] at hget'
      cases hget'
      exact absurd hid' hid

end

/-- Along every run of requests on the versions of a key, a version that is under compliance
retention until a date keeps it and every deletion of it is refused, exactly as long as every
request is regular. -/
theorem complianceRetention_upheld_iff (requests : List (Context × Request))
    (h : Protected cal date id versions) :
    Run.Along (step cal) (Upheld cal date id) versions requests ↔
      Run.Along (step cal) (Regular cal date id) versions requests := by
  have hstep : ∀ versions, Protected cal date id versions → ∀ e,
      (Upheld cal date id versions e ↔ Regular cal date id versions e) := by
    rintro versions hprotected ⟨ctx, req⟩
    cases req with
    | putRetention req => exact upheld_putRetention_iff hprotected req
    | deleteObject req => exact upheld_deleteObject_iff hprotected req
    | deleteItem req => exact upheld_deleteItem_iff hprotected req
  induction requests generalizing versions with
  | nil => exact Iff.rfl
  | cons e requests ih =>
    constructor
    · rintro ⟨hupheld, hrest⟩
      exact ⟨(hstep versions h e).mp hupheld, (ih hupheld.1).mp hrest⟩
    · rintro ⟨hregular, hrest⟩
      have hupheld := (hstep versions h e).mpr hregular
      exact ⟨hupheld, (ih hupheld.1).mpr hrest⟩

/-- A calendar that knows two dates. -/
def twoDates : Calendar where
  toUppercase := fun s => s
  parseIso8601 := fun s =>
    if s = "first" then some 100000000000 else if s = "second" then some 200000000000 else none
  formatRfc3339 := fun t =>
    if t = 100000000000 then some "first" else if t = 200000000000 then some "second" else none
  display := fun _ => ""
  stamp := fun _ => ""
  addYears := fun t _ => t
  uppercase_compliance := rfl
  uppercase_governance := rfl
  uppercase_empty := rfl
  parse_format := by
    intro t s h
    split at h
    · rename_i ht
      cases h
      simp [ht]
    · split_ifs at h with ht
      cases h
      simp [ht]
  parse_empty := by decide

/-- A version in compliance mode until the first date. -/
def lockedVersion : StoredVersion where
  id := 1
  deleteMarker := false
  userDefined := insertAll ∅ [(modeKey, compliance), (retainUntilDateKey, "first")]
  modTime := some 0

/-- A store without errors, at the time. -/
def atTime (now : Time) : Context where
  now := now
  lockConfig := .enabled
  defaultRetention := none
  versioning := .enabled
  readError := none
  storeError := none
  freshId := 2
  isDirObject := false

theorem lockedVersion_protected : Protected twoDates 100000000000 1 [lockedVersion] :=
  ⟨lockedVersion, rfl, rfl, 100000000000, by decide +kernel, le_refl _⟩

/-- The retention is extended, and a deletion that may bypass governance is tried. -/
def extension : List (Context × Request) :=
  [(atTime 0, .putRetention ⟨some 1, some ⟨some compliance, some 200000000000⟩, true⟩),
    (atTime 1, .deleteObject ⟨some 1, none, false, true⟩)]

theorem complianceRetention_upheld_extension :
    Run.Along (step twoDates) (Upheld twoDates 100000000000 1) [lockedVersion] extension := by
  refine (complianceRetention_upheld_iff extension lockedVersion_protected).mpr ⟨?_, ?_, trivial⟩
  · rintro v d - - - - - - ⟨r, hr, hnot⟩
    cases hr
    exact absurd ⟨rfl, 200000000000, rfl, by decide⟩ hnot
  · intro _
    exact .inr (.inl ⟨_, rfl, rfl, .inr (.inl ⟨compliance, 200000000000, by decide +kernel,
      by decide +kernel, by decide +kernel⟩)⟩)

/-- The mode is changed to governance with a later date, and a deletion that bypasses governance
follows, both long before the date. -/
def downgrade : List (Context × Request) :=
  [(atTime 0, .putRetention ⟨some 1, some ⟨some governance, some 200000000000⟩, false⟩),
    (atTime 1, .deleteObject ⟨some 1, none, false, true⟩)]

theorem complianceRetention_downgraded :
    Protected twoDates 100000000000 1 [lockedVersion] ∧
    (∀ e ∈ downgrade, e.1.now < 100000000000) ∧
    ¬Run.Along (step twoDates) (Upheld twoDates 100000000000 1) [lockedVersion] downgrade ∧
    downgrade.foldl (step twoDates) [lockedVersion] = [] := by
  have hgone : downgrade.foldl (step twoDates) [lockedVersion] = [] :=
    isEmpty_iff.mp (by decide +kernel)
  refine ⟨lockedVersion_protected, by decide, ?_, hgone⟩
  rintro ⟨-, ⟨hprotected, -⟩, -⟩
  obtain ⟨v, hv, -⟩ := hgone ▸ hprotected
  exact nomatch hv

end Rustfs.ObjectLock
