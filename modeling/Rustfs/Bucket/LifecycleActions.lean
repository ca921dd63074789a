import Rustfs.Bucket.LifecycleFilter
import Rustfs.Lib.Sorting

/-! What the action on a version says about the version, its rules and the time. -/
namespace Rustfs.Lifecycle

section

variable (config : BucketLifecycleConfiguration) (obj : ObjectOpts) (now : Time) (newer : ℕ)
  (event : Event)

def DueByNow : Prop :=
  event.action ≠ .noneAction → ∀ due, event.due = some due → Passed now due

def DeletesLatest : Prop := event.action = .deleteAction → obj.isLatest = true

/-- The version is a delete marker, and the action removes it. -/
def RemovesMarker : Prop := obj.deleteMarker = true ∧ event.action.comesFirst = true

def DaysPassed (e : LifecycleExpiration) : Prop :=
  ∃ days modTime, e.days = some days ∧ obj.modTime = some modTime ∧
    Passed now (expectedExpiryTime modTime days)

/-- A rule for the object says that delete markers are removed, or its days have passed. -/
def MarkerExpires : Prop :=
  ∃ rule ∈ selectedRules config obj, ∃ e, rule.expiration = some e ∧
    (e.expiredObjectDeleteMarker = some true ∨ DaysPassed obj now e)

/-- The days of a rule have passed since the version was replaced, and as many newer versions as
the rule keeps are there. -/
def NoncurrentExpires : Prop :=
  ∃ rule ∈ selectedRules config obj, ∃ e, rule.noncurrentVersionExpiration = some e ∧
    (∃ days replaced, e.noncurrentDays = some days ∧ obj.successorModTime = some replaced ∧
      Passed now (expectedExpiryTime replaced days)) ∧
    ∀ n, e.newerNoncurrentVersions = some n → n ≤ newer

def MarkerRule : Prop :=
  RemovesMarker obj event → obj.numVersions = 1 ∧ MarkerExpires config obj now

def RestoredRule : Prop :=
  ∀ t, obj.restoreExpires = some t → t < now →
    event.action = .deleteRestoredAction ∨ event.action = .deleteRestoredVersionAction

def NoncurrentRule : Prop :=
  obj.isLatest = false → obj.expiredObjectDeletemarker = false →
    event.action = .deleteVersionAction → NoncurrentExpires config obj now newer

/-- No rule for the object says that delete markers are not removed. -/
def NoMarkerKept : Prop :=
  ∀ rule ∈ selectedRules config obj, ∀ e, rule.expiration = some e →
    e.expiredObjectDeleteMarker ≠ some false

/-- What holds of the event of a version. -/
structure ActionRules : Prop where
  due : now.unixTimestamp ≠ 0 → DueByNow now event
  latest : event.action = .deleteAction →
    (obj.isLatest = true ∨ obj.isNull = true) ∧ obj.deleteMarker = false
  marker : RemovesMarker obj event → (obj.numVersions = 1 → NoMarkerKept config obj) →
    obj.numVersions = 1 ∧ MarkerExpires config obj now ∨
    obj.isLatest = true ∧ event.action = .delMarkerDeleteAllVersionsAction ∧
      (∃ rule ∈ selectedRules config obj, ∃ e, rule.expiration = some e ∧
        e.expiredObjectDeleteMarker = some true ∧ DaysPassed obj now e) ∨
    obj.isLatest = false ∧ NoncurrentExpires config obj now newer
  restored : event.action = .deleteRestoredAction ∨ event.action = .deleteRestoredVersionAction →
    ∃ t, obj.restoreExpires = some t ∧ t < now
  noncurrent : NoncurrentRule config obj now newer event

end

variable {clock : Time} {config : BucketLifecycleConfiguration} {obj : ObjectOpts}
  {now modTime : Time} {newer : ℕ} {rule : LifecycleRule} {event : Event} {sort : SortBy}

theorem actionRules_none (h : event.action = .noneAction) :
    ActionRules config obj now newer event := by
  refine ⟨fun _ hne => absurd h hne, ?_, ?_, ?_, ?_⟩
  · intro hdelete
    exact (nomatch h.symm.trans hdelete)
  · intro hremoves
    have hfirst := hremoves.2
    rw [h] at hfirst
    exact nomatch hfirst
  · rintro (hrestored | hrestored)
    all_goals exact (nomatch h.symm.trans hrestored)
  · intro _ _ hversion
    exact (nomatch h.symm.trans hversion)

theorem actionRules_restored (h : event ∈ restoredEvents obj now) :
    ActionRules config obj now newer event := by
  obtain ⟨⟨t, ht, hsec, hnow⟩, hdue, haction⟩ := mem_restoredEvents h
  have hkind : event.action = .deleteRestoredAction ∨
      event.action = .deleteRestoredVersionAction := by
    rw [haction]
    cases obj.isLatest
    · exact .inr rfl
    · exact .inl rfl
  refine ⟨?_, ?_, ?_, ?_, ?_⟩
  · intro _ _ due hsome
    rw [hdue] at hsome
    cases hsome
    exact le_refl _
  · intro hdelete
    obtain hk | hk := hkind <;> rw [hk] at hdelete <;> exact nomatch hdelete
  · intro hremoves
    have hfirst := hremoves.2
    obtain hk | hk := hkind <;> rw [hk] at hfirst <;> exact nomatch hfirst
  · intro _
    have hbefore : @LT.lt ℤ _ t now := by
      unfold Time.unixTimestamp at hsec hnow
      omega
    exact ⟨t, ht, hbefore⟩
  · intro _ _ hversion
    obtain hk | hk := hkind <;> rw [hk] at hversion <;> exact nomatch hversion

theorem passed_of_hasPassed {due : Time} (hnow : now.unixTimestamp ≠ 0)
    (h : hasPassed now due = true) : Passed now due := by
  unfold hasPassed at h
  simp only [Bool.or_eq_true, beq_iff_eq, decide_eq_true_eq] at h
  unfold Passed
  omega

/-- Every event that a rule asks for is due, apart from transitions at the epoch itself. -/
theorem Asks.dueByNow (h : Asks clock obj now modTime rule event)
    (hnow : now.unixTimestamp ≠ 0) : DueByNow now event := by
  intro _ due hdue
  cases h with
  | soleMarker =>
    cases hdue
    exact le_refl _
  | soleMarkerDays _ _ _ _ hpassed | allVersions _ _ _ _ _ _ hpassed
  | noncurrent _ _ _ _ _ _ _ hpassed | expirationDate _ _ _ _ _ hpassed
  | expirationDays _ _ _ _ _ hpassed =>
    cases hdue
    exact hpassed
  | noncurrentTransition _ _ _ _ _ _ _ _ hpassed | transition _ _ _ _ _ hpassed =>
    cases hdue
    exact passed_of_hasPassed hnow hpassed

theorem current_of_mayExpire (h : mayExpire obj = true) :
    (obj.isLatest = true ∨ obj.isNull = true) ∧ obj.deleteMarker = false := by
  refine ⟨?_, not_deleteMarker_of_mayExpire h⟩
  unfold mayExpire at h
  exact (Bool.or_eq_true_iff).1 (Bool.and_eq_true_iff.1 h).1

theorem numVersions_of_sole (h : obj.expiredObjectDeletemarker = true) : obj.numVersions = 1 := by
  unfold ObjectOpts.expiredObjectDeletemarker at h
  exact beq_iff_eq.1 (Bool.and_eq_true_iff.1 h).2

/-- A rule that does not keep newer versions keeps no more than there are. -/
theorem newer_of_not_keepsNewer {e : NoncurrentVersionExpiration} (hlatest : obj.isLatest = false)
    (hkeep : keepsNewer obj rule = false) (he : rule.noncurrentVersionExpiration = some e) :
    ∀ n, e.newerNoncurrentVersions = some n → n ≤ newer := by
  intro n hn
  simp only [keepsNewer, hlatest, he, hn, Bool.not_false, Bool.true_and, Option.any_some,
    decide_eq_false_iff_not] at hkeep
  omega

theorem actionRules_asks (hmod : obj.modTime = some modTime)
    (hmem : rule ∈ selectedRules config obj) (h : Asks clock obj now modTime rule event) :
    ActionRules config obj now newer event := by
  refine ⟨h.dueByNow, ?_, ?_, ?_, ?_⟩
  · intro hdelete
    cases h with
    | expirationDate hmay | expirationDays hmay => exact current_of_mayExpire hmay
    | _ => exact nomatch hdelete
  · intro hremoves hkept
    cases h with
    | @soleMarker e b hsole he hb =>
      refine .inl ⟨numVersions_of_sole hsole, rule, hmem, e, he, .inl ?_⟩
      cases b with
      | true => exact hb
      | false => exact absurd hb (hkept (numVersions_of_sole hsole) rule hmem e he)
    | @soleMarkerDays e days hsole he _ hdays hpassed =>
      exact .inl ⟨numVersions_of_sole hsole, rule, hmem, e, he, .inr ⟨days, modTime, hdays, hmod,
        hpassed⟩⟩
    | @allVersions e due _ hlatest hmarker he hb hdue hpassed =>
      simp only [LifecycleExpiration.nextDue, hlatest, hmarker, hmod, Bool.not_true, Bool.or_self,
        Bool.false_eq_true, if_false, Option.bind_eq_some_iff, Option.map_some] at hdue
      obtain ⟨days, hdays, hexpiry⟩ := hdue
      cases hexpiry
      exact .inr (.inl ⟨hlatest, rfl, rule, hmem, e, he, hb, days, modTime, hdays, hmod, hpassed⟩)
    | @noncurrent e days replaced _ hlatest hkeep he hdays _ hsucc hpassed =>
      exact .inr (.inr ⟨hlatest, rule, hmem, e, he, ⟨days, replaced, hdays, hsucc, hpassed⟩,
        newer_of_not_keepsNewer hlatest hkeep he⟩)
    | noncurrentTransition | transition => exact (nomatch hremoves.2)
    | expirationDate hmay | expirationDays hmay =>
      exact absurd hremoves.1 (by simp [not_deleteMarker_of_mayExpire hmay])
  · intro hrestored
    cases h <;> obtain h | h := hrestored <;> exact nomatch h
  · intro hlatest hsole hversion
    cases h with
    | soleMarker hyes | soleMarkerDays hyes => exact absurd hyes (by simp [hsole])
    | @noncurrent e days replaced _ _ hkeep he hdays _ hsucc hpassed =>
      exact ⟨rule, hmem, e, he, ⟨days, replaced, hdays, hsucc, hpassed⟩,
        newer_of_not_keepsNewer hlatest hkeep he⟩
    | _ => exact nomatch hversion

/-- The event of a version keeps to the rules, whichever of the candidates it is. -/
theorem evalInner_actionRules (h : evalInner sort clock config obj now newer = some event) :
    ActionRules config obj now newer event := by
  by_cases haction : event.action = .noneAction
  · exact actionRules_none haction
  obtain ⟨modTime, hmod, _, _, hrestored | ⟨rule, hreached, hasks⟩⟩ :=
    (yields_of_evalInner h).candidate haction
  · exact actionRules_restored hrestored
  · exact actionRules_asks hmod (mem_of_reached hreached) hasks

/-- A rule for every object. -/
def daysRule : LifecycleRule where
  status := "Enabled"
  expiration := some { days := some 1 }

/-! Versions whose events are not what the words of the rules suggest. -/

/-- It has been replaced, and has no id. -/
def nullVersion : ObjectOpts :=
  { picture with isLatest := false, numVersions := 2, successorModTime := some 1000000000 }

def replacedMarker : ObjectOpts := { nullVersion with deleteMarker := true, versionId := some 1 }

def topMarker : ObjectOpts := { picture with deleteMarker := true, numVersions := 2 }

def onlyMarker : ObjectOpts := { picture with deleteMarker := true }

def restoredPicture (t : Time) : ObjectOpts := { picture with restoreExpires := some t }

def noncurrentRule : LifecycleRule where
  status := "Enabled"
  noncurrentVersionExpiration := some { noncurrentDays := some 1 }

def markerRule (b : Bool) (days : Option ℤ) : LifecycleRule where
  status := "Enabled"
  expiration := some { expiredObjectDeleteMarker := some b, days := days }

def warmRule : LifecycleRule where
  status := "Enabled"
  transitions := some [{ days := some 1, storageClass := some "WARM" }]

/-- An object, a delete marker on its own, one that was replaced, and a restored copy. -/
theorem picture_actionRules : ∃ expired sole replaced restored,
    evalInner .insertion 0 ⟨[daysRule]⟩ picture (2 * day) 0 = some expired ∧
    ActionRules ⟨[daysRule]⟩ picture (2 * day) 0 expired ∧
    evalInner .insertion 0 ⟨[markerRule true none]⟩ onlyMarker (2 * day) 0 = some sole ∧
    ActionRules ⟨[markerRule true none]⟩ onlyMarker (2 * day) 0 sole ∧
    evalInner .insertion 0 ⟨[noncurrentRule]⟩ replacedMarker (2 * day) 0 = some replaced ∧
    ActionRules ⟨[noncurrentRule]⟩ replacedMarker (2 * day) 0 replaced ∧
    evalInner .insertion 0 ⟨[]⟩ (restoredPicture (-1)) (2 * day) 0 = some restored ∧
    ActionRules ⟨[]⟩ (restoredPicture (-1)) (2 * day) 0 restored ∧
    [expired, sole, replaced, restored].map (·.action) =
      [.deleteAction, .deleteVersionAction, .deleteVersionAction, .deleteRestoredAction] := by
  have hexpired : evalInner .insertion 0 ⟨[daysRule]⟩ picture (2 * day) 0 =
      some { action := .deleteAction, due := some 86401000000000 } := by decide +kernel
  have hsole : evalInner .insertion 0 ⟨[markerRule true none]⟩ onlyMarker (2 * day) 0 =
      some { action := .deleteVersionAction, due := some (2 * day) } := by decide +kernel
  have hreplaced : evalInner .insertion 0 ⟨[noncurrentRule]⟩ replacedMarker (2 * day) 0 =
      some { action := .deleteVersionAction, due := some 86401000000000 } := by decide +kernel
  have hrestored : evalInner .insertion 0 ⟨[]⟩ (restoredPicture (-1)) (2 * day) 0 =
      some { action := .deleteRestoredAction, due := some (2 * day) } := by decide +kernel
  exact ⟨_, _, _, _, hexpired, evalInner_actionRules hexpired, hsole, evalInner_actionRules hsole,
    hreplaced, evalInner_actionRules hreplaced, hrestored, evalInner_actionRules hrestored, rfl⟩

theorem evalInner_not_strict :
    (∃ event, evalInner .insertion 0 ⟨[daysRule]⟩ nullVersion (2 * day) 0 = some event ∧
      ¬DeletesLatest nullVersion event) ∧
    (∃ event, evalInner .insertion 0 ⟨[noncurrentRule]⟩ replacedMarker (2 * day) 0 = some event ∧
      ¬MarkerRule ⟨[noncurrentRule]⟩ replacedMarker (2 * day) event) ∧
    (∃ event, evalInner .insertion 0 ⟨[markerRule true (some 1)]⟩ topMarker (2 * day) 0 =
        some event ∧
      ¬MarkerRule ⟨[markerRule true (some 1)]⟩ topMarker (2 * day) event) ∧
    (∃ event, evalInner .insertion 0 ⟨[markerRule false none]⟩ onlyMarker (2 * day) 0 =
        some event ∧
      ¬MarkerRule ⟨[markerRule false none]⟩ onlyMarker (2 * day) event) ∧
    (¬logsRule.Governs (fun _ => []) onlyMarker ∧
      ∃ event, evalInner .insertion 0 ⟨[logsRule]⟩ onlyMarker (2 * day) 0 = some event ∧
        RemovesMarker onlyMarker event) ∧
    (∃ event, evalInner .insertion 0 ⟨[]⟩ (restoredPicture 1000000000) (2 * day) 0 = some event ∧
      ¬RestoredRule (restoredPicture 1000000000) (2 * day) event) ∧
    -- due in the second of now, but not before it
    (∃ event due, evalInner .insertion 0 ⟨[daysRule]⟩ { picture with modTime := some 1500000000 }
      86401000000000 0 = some event ∧ event.due = some due ∧ @LT.lt ℤ _ 86401000000000 due) ∧
    ∃ event, evalInner .insertion 0 ⟨[warmRule]⟩ picture 0 0 = some event ∧ ¬DueByNow 0 event := by
  refine ⟨⟨{ action := .deleteAction, due := some 86401000000000 }, by decide +kernel, ?_⟩,
    ⟨{ action := .deleteVersionAction, due := some 86401000000000 }, by decide +kernel, ?_⟩,
    ⟨{ action := .delMarkerDeleteAllVersionsAction, due := some 86401000000000 },
      by decide +kernel, ?_⟩,
    ⟨{ action := .deleteVersionAction, due := some (2 * day) }, by decide +kernel, ?_⟩,
    ⟨?_, { action := .deleteVersionAction, ruleId := "logs", due := some 86401000000000 },
      by decide +kernel, rfl, rfl⟩,
    ⟨{}, by decide +kernel, ?_⟩,
    ⟨{ action := .deleteAction, due := some 86401500000000 }, _, by decide +kernel, rfl, by decide⟩,
    ⟨{ action := .transitionAction, due := some 86401000000000, storageClass := "WARM" },
      by decide +kernel, ?_⟩⟩
  · exact fun h => nomatch h rfl
  · exact fun h => absurd (h ⟨rfl, rfl⟩).1 (by decide)
  · exact fun h => absurd (h ⟨rfl, rfl⟩).1 (by decide)
  · intro h
    obtain ⟨rule, hrule, e, he, hmarker | ⟨days, _, hdays, _⟩⟩ := (h ⟨rfl, rfl⟩).2
    all_goals
      rw [List.mem_singleton.1 (mem_selectedRules.1 hrule).2.1] at he
      cases he
    · exact nomatch hmarker
    · exact nomatch hdays
  · intro h
    exact absurd ((h.2.2 _ rfl).1 _ rfl) (by decide)
  · intro h
    obtain h | h := h _ rfl (by decide)
    all_goals exact nomatch h
  · intro h
    have hpassed := h nofun _ rfl
    unfold Passed at hpassed
    exact absurd hpassed (by decide +kernel)

/-! The order the events are sorted in. -/

/-- What the events are ordered by: those of the past count alike, and a deletion goes first. -/
def Event.urgency (now : Time) (self : Event) : ℤ :=
  2 * max self.dueSeconds (now.unixTimestamp - 1) + if self.action.comesFirst then 0 else 1

theorem eventOrder_lt_iff {a b : Event} : eventOrder now a b = .lt ↔ a.urgency now ≤ b.urgency now := by
  unfold eventOrder Event.urgency
  cases a.action.comesFirst <;> cases b.action.comesFirst <;>
    simp only [if_true, if_false, Bool.false_eq_true] <;> split_ifs <;> simp <;> omega

theorem eventOrder_gt_iff {a b : Event} : eventOrder now a b = .gt ↔ b.urgency now < a.urgency now := by
  rw [← not_le, ← eventOrder_lt_iff]
  unfold eventOrder
  split_ifs <;> simp

/-- No two of the events are each less than the other. -/
def Apart (now : Time) (events : List Event) : Prop :=
  events.Pairwise fun a b => ¬(eventOrder now a b = .lt ∧ eventOrder now b a = .lt)

/-- Events that the comparison tells apart are put in order. -/
def SortBy.Orders (self : SortBy) (now : Time) : Prop :=
  ∀ events, Apart now events → ∃ sorted, self.run (eventOrder now) events = some sorted ∧
    sorted.Pairwise fun a b => eventOrder now b a = .gt

/-- The events in the order of their urgency. -/
def byUrgency (now : Time) (events : List Event) : List Event :=
  events.insertionSort fun a b => a.urgency now ≤ b.urgency now

def mostUrgent (now : Time) (events : List Event) : Event := (byUrgency now events).headD {}

theorem apart_iff {events : List Event} :
    Apart now events ↔ events.Pairwise fun a b => a.urgency now ≠ b.urgency now := by
  simp only [Apart, eventOrder_lt_iff]
  exact List.Pairwise.iff fun a b => by omega

theorem byUrgency_perm (now : Time) (events : List Event) : (byUrgency now events).Perm events :=
  List.perm_insertionSort _ _

theorem byUrgency_pairwise {events : List Event} (h : Apart now events) :
    (byUrgency now events).Pairwise fun a b => eventOrder now b a = .gt := by
  have hle : (byUrgency now events).Pairwise fun a b => a.urgency now ≤ b.urgency now :=
    pairwise_insertionSort_of_refines (R := fun a b : Event => a.urgency now ≤ b.urgency now)
      (fun _ _ => id) (fun _ _ => le_of_not_ge) (fun _ _ _ => le_trans) _
  have hne := (byUrgency_perm now events).symm.pairwise (apart_iff.1 h) Ne.symm
  exact (hle.and hne).imp fun hr => eventOrder_gt_iff.2 (lt_of_le_of_ne hr.1 hr.2)

/-- The events that the rules ask for, before one is taken. -/
def collected (clock : Time) (self : BucketLifecycleConfiguration) (obj : ObjectOpts) (now : Time) :
    Option (List Event) :=
  match obj.modTime with
  | none => some []
  | some modTime =>
    if modTime.unixTimestamp = 0 then some []
    else (restoredEvents obj now ++ ·) <$> rulesLoop clock obj now modTime (selectedRules self obj)

def SortBy.first (self : SortBy) (now : Time) : List Event → Option Event
  | [] => some {}
  | event :: events => do (← self.run (eventOrder now) (event :: events)).head?

theorem evalInner_eq (sort : SortBy) (clock : Time) (config : BucketLifecycleConfiguration)
    (obj : ObjectOpts) (now : Time) (newer : ℕ) : evalInner sort clock config obj now newer =
      (collected clock config obj now).bind (sort.first now) := by
  unfold evalInner collected
  cases obj.modTime with
  | none => rfl
  | some modTime =>
    dsimp only
    split
    · rfl
    · rw [selectedRules]
      cases rulesLoop clock obj now modTime ((filterRules config obj).getD []) with
      | none => rfl
      | some events =>
        cases h : restoredEvents obj now ++ events <;> simp [SortBy.first, h]

theorem exists_byUrgency_cons (now : Time) (event : Event) (events : List Event) :
    ∃ first rest, byUrgency now (event :: events) = first :: rest := by
  refine List.exists_cons_of_ne_nil (List.ne_nil_of_length_pos ?_)
  rw [(byUrgency_perm now _).length_eq]
  exact Nat.succ_pos _

/-- What is put in order begins with the most urgent event. -/
theorem SortBy.Orders.first_eq (h : sort.Orders now) {events : List Event} (hapart : Apart now events) :
    sort.first now events = some (mostUrgent now events) := by
  cases events with
  | nil => rfl
  | cons event events =>
    obtain ⟨sorted, hrun, hsorted⟩ := h _ hapart
    have hperm := (sort.perm _ _ _ hrun).trans (byUrgency_perm now _).symm
    have heq : sorted = byUrgency now (event :: events) := by
      refine hperm.eq_of_pairwise (fun a b _ _ hab hba => ?_) hsorted (byUrgency_pairwise hapart)
      rw [eventOrder_gt_iff] at hab hba
      omega
    obtain ⟨first, rest, hcons⟩ := exists_byUrgency_cons now event events
    simp [SortBy.first, mostUrgent, hrun, heq, hcons]

/-- A sort that puts every list in order but one, on which it panics. -/
def panicsOn (bad : Option (List Event)) : SortBy where
  run order events :=
    if some events = bad then none else some (events.insertionSort fun a b => order a b = .lt)
  perm order events sorted h := by
    split at h
    · exact nomatch h
    · exact Option.some.inj h ▸ List.perm_insertionSort _ _

section

variable {bad : Option (List Event)} {events : List Event}

theorem panicsOn_run (h : some events ≠ bad) :
    (panicsOn bad).run (eventOrder now) events = some (byUrgency now events) := by
  simp only [panicsOn, if_neg h, eventOrder_lt_iff, byUrgency]

theorem panicsOn_orders (hbad : ∀ es, bad = some es → ¬Apart now es) : (panicsOn bad).Orders now := by
  intro events hapart
  exact ⟨_, panicsOn_run fun h => hbad events h.symm hapart, byUrgency_pairwise hapart⟩

theorem panicsOn_first (h : some events ≠ bad) :
    (panicsOn bad).first now events = some (mostUrgent now events) := by
  cases events with
  | nil => rfl
  | cons event events =>
    obtain ⟨first, rest, hcons⟩ := exists_byUrgency_cons now event events
    simp [SortBy.first, mostUrgent, panicsOn_run h, hcons]

theorem panicsOn_bad (h : ¬Apart now events) : (panicsOn (some events)).first now events = none := by
  cases events with
  | nil => exact absurd List.Pairwise.nil h
  | cons event events => simp [SortBy.first, panicsOn]

end

/-- The same events in the same order, or in both no tie and the same event first. -/
def SameChoice (now : Time) (before after : Option (List Event)) : Prop :=
  before = after ∨ ∃ es es', before = some es ∧ after = some es' ∧ Apart now es ∧ Apart now es' ∧
    mostUrgent now es = mostUrgent now es'

theorem sameChoice_of_first {before after : Option (List Event)}
    (h : ∀ sort : SortBy, sort.Orders now → before.bind (sort.first now) = after.bind (sort.first now)) :
    SameChoice now before after := by
  have hnever := h (panicsOn none) (panicsOn_orders nofun)
  cases before with
  | none =>
    cases after with
    | none => exact .inl rfl
    | some es' => simp [panicsOn_first] at hnever
  | some es =>
    cases after with
    | none => simp [panicsOn_first] at hnever
    | some es' =>
      by_cases heq : es = es'
      · exact .inl (congrArg some heq)
      have hes : Apart now es := by
        by_contra hties
        have hbad := h (panicsOn (some es)) (panicsOn_orders fun _ he => Option.some.inj he ▸ hties)
        have hother : (panicsOn (some es)).first now es' = some (mostUrgent now es') :=
          panicsOn_first fun he => heq (Option.some.inj he).symm
        simp [panicsOn_bad hties, hother] at hbad
      have hes' : Apart now es' := by
        by_contra hties
        have hbad := h (panicsOn (some es')) (panicsOn_orders fun _ he => Option.some.inj he ▸ hties)
        have hother : (panicsOn (some es')).first now es = some (mostUrgent now es) :=
          panicsOn_first fun he => heq (Option.some.inj he)
        simp [panicsOn_bad hties, hother] at hbad
      refine .inr ⟨es, es', rfl, rfl, hes, hes', ?_⟩
      simpa [panicsOn_first] using hnever

/-- The order is total and transitive, but two events of one urgency are each less than the other.
The event does not depend on the order of the rules exactly if every order of them gives the same
list of events, or lists without such a tie that begin with the same event. -/
theorem evalInner_ruleOrder_iff (clock : Time) (config : BucketLifecycleConfiguration)
    (obj : ObjectOpts) (now : Time) (newer : ℕ) :
    (∀ a b, eventOrder now a b = .lt ∨ eventOrder now b a = .lt) ∧
    (∀ a b c, eventOrder now a b = .lt → eventOrder now b c = .lt → eventOrder now a c = .lt) ∧
    (∀ a b, eventOrder now a b = .lt ∧ eventOrder now b a = .lt ↔ a.urgency now = b.urgency now) ∧
    ((∀ sort : SortBy, sort.Orders now → ∀ rules, rules.Perm config.rules →
        evalInner sort clock config obj now newer = evalInner sort clock ⟨rules⟩ obj now newer) ↔
      ∀ rules, rules.Perm config.rules →
        SameChoice now (collected clock config obj now) (collected clock ⟨rules⟩ obj now)) := by
  simp only [eventOrder_lt_iff, evalInner_eq]
  refine ⟨fun a b => le_total _ _, fun a b c => le_trans, fun a b => by omega, ?_, ?_⟩
  · intro h rules hperm
    exact sameChoice_of_first fun sort hsort => h sort hsort rules hperm
  · intro h sort hsort rules hperm
    obtain heq | ⟨es, es', hes, hes', hapart, hapart', hsame⟩ := h rules hperm
    · rw [heq]
    · simp [hes, hes', hsort.first_eq hapart, hsort.first_eq hapart', hsame]

/-- Of two transitions that are due the rule written last gets its own. -/
theorem eventOrder_by_place : ∃ cold : LifecycleRule,
    (evalInner .insertion 0 ⟨[warmRule, cold]⟩ picture (2 * day) 0).map (·.storageClass) =
      some "COLD" ∧
    (evalInner .insertion 0 ⟨[cold, warmRule]⟩ picture (2 * day) 0).map (·.storageClass) =
      some "WARM" :=
  ⟨{ warmRule with transitions := some [{ days := some 0, storageClass := some "COLD" }] }, by
    decide +kernel⟩

end Rustfs.Lifecycle
