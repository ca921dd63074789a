import Rustfs.Bucket.Lifecycle

/-! What each rule asks for, and which rules an action can stand on. -/
namespace Rustfs.Lifecycle

open List Option

section

variable (clock : Time) (obj : ObjectOpts) (now modTime : Time) (rule : LifecycleRule)

def Passed (now due : Time) : Prop := due.unixTimestamp ≤ now.unixTimestamp

/-- The rule removes a delete marker that is the only version, and no other rule is tried. -/
def Ends : Prop :=
  obj.expiredObjectDeletemarker = true ∧ ∃ e, rule.expiration = some e ∧
    (e.expiredObjectDeleteMarker.isSome ∨
      ∃ days, e.days = some days ∧ Passed now (expectedExpiryTime modTime days))

/-- The events that a rule asks for, one case for each of its elements. -/
inductive Asks : Event → Prop
  | soleMarker {e : LifecycleExpiration} {b : Bool} :
      obj.expiredObjectDeletemarker = true → rule.expiration = some e →
      e.expiredObjectDeleteMarker = some b →
      Asks { action := .deleteVersionAction, ruleId := rule.ruleId, due := some now }
  | soleMarkerDays {e : LifecycleExpiration} {days : ℤ} :
      obj.expiredObjectDeletemarker = true → rule.expiration = some e →
      e.expiredObjectDeleteMarker = none → e.days = some days →
      Passed now (expectedExpiryTime modTime days) →
      Asks { action := .deleteVersionAction, ruleId := rule.ruleId,
             due := some (expectedExpiryTime modTime days) }
  | allVersions {e : LifecycleExpiration} {due : Time} :
      obj.expiredObjectDeletemarker = false → obj.isLatest = true → obj.deleteMarker = true →
      rule.expiration = some e → e.expiredObjectDeleteMarker = some true →
      e.nextDue obj = some due → Passed now due →
      Asks { action := .delMarkerDeleteAllVersionsAction, ruleId := rule.ruleId, due := some due }
  | noncurrent {e : NoncurrentVersionExpiration} {days : ℤ} {successorModTime : Time} :
      ¬Ends obj now modTime rule → obj.isLatest = false → keepsNewer obj rule = false →
      rule.noncurrentVersionExpiration = some e → e.noncurrentDays = some days → days ≠ 0 →
      obj.successorModTime = some successorModTime →
      Passed now (expectedExpiryTime successorModTime days) →
      Asks { action := .deleteVersionAction, ruleId := rule.ruleId,
             due := some (expectedExpiryTime successorModTime days) }
  | noncurrentTransition {t : NoncurrentVersionTransition} {ts : List NoncurrentVersionTransition}
      {storageClass : String} {due : Time} :
      obj.isLatest = false → obj.deleteMarker = false → keepsNewer obj rule = false →
      rule.noncurrentVersionTransitions = some (t :: ts) → t.storageClass = some storageClass →
      storageClass ≠ "" → obj.transitionStatus ≠ transitionComplete →
      t.nextDue clock obj = some due → hasPassed now due = true →
      Asks { action := .transitionVersionAction, ruleId := rule.ruleId, due := some due,
             storageClass := storageClass }
  | expirationDate {e : LifecycleExpiration} {date : Time} :
      mayExpire obj = true → keepsNewer obj rule = false → rule.expiration = some e →
      e.date = some date → date.unixTimestamp ≠ 0 → Passed now date →
      Asks { action := .deleteAction, ruleId := rule.ruleId, due := some date }
  | expirationDays {e : LifecycleExpiration} {days : ℤ} :
      mayExpire obj = true → keepsNewer obj rule = false → rule.expiration = some e →
      e.date = none → e.days = some days → Passed now (expectedExpiryTime modTime days) →
      Asks { action := .deleteAction, ruleId := rule.ruleId,
             due := some (expectedExpiryTime modTime days) }
  | transition {t : Transition} {ts : List Transition} {due : Time} :
      mayExpire obj = true → keepsNewer obj rule = false →
      obj.transitionStatus ≠ transitionComplete → rule.transitions = some (t :: ts) →
      t.nextDue obj = some due → hasPassed now due = true →
      Asks { action := .transitionAction, ruleId := rule.ruleId, due := some due,
             storageClass := t.storageClass.getD "" }

/-- The rule has a list of transitions without a first one where the first one is looked at. -/
def Crashes : Prop :=
  ¬Ends obj now modTime rule ∧ keepsNewer obj rule = false ∧
    (obj.isLatest = false ∧ rule.noncurrentVersionTransitions = some [] ∨
      mayExpire obj = true ∧ obj.transitionStatus ≠ transitionComplete ∧
        rule.transitions = some [])

end

variable {c : Time} {obj : ObjectOpts} {now modTime : Time} {rule : LifecycleRule}
  {event : Event}

theorem deleteMarker_of_sole (h : obj.expiredObjectDeletemarker = true) :
    obj.deleteMarker = true := by
  unfold ObjectOpts.expiredObjectDeletemarker at h
  exact (Bool.and_eq_true_iff.1 h).1

theorem not_deleteMarker_of_mayExpire (h : mayExpire obj = true) : obj.deleteMarker = false := by
  unfold mayExpire at h
  simpa using (Bool.and_eq_true_iff.1 h).2

/-! The parts of the loop body. -/

theorem soleMarkerEvent_eq_none_iff :
    soleMarkerEvent obj now modTime rule = none ↔ ¬Ends obj now modTime rule := by
  unfold soleMarkerEvent Ends Passed
  cases obj.expiredObjectDeletemarker with
  | false => simp
  | true =>
    cases rule.expiration with
    | none => simp
    | some e =>
      cases he : e.expiredObjectDeleteMarker with
      | some b => simp [he]
      | none =>
        cases hd : e.days with
        | none | some days => simp [he, hd]

theorem asks_of_soleMarkerEvent (h : soleMarkerEvent obj now modTime rule = some event) :
    Asks c obj now modTime rule event := by
  unfold soleMarkerEvent at h
  split_ifs at h with hsole
  replace hsole : obj.expiredObjectDeletemarker = true := by simpa using hsole
  split at h
  · exact nomatch h
  · rename_i e he
    split at h
    · rename_i hb
      cases h
      exact .soleMarker hsole he hb
    · rename_i days hnone hdays
      dsimp only at h
      split_ifs at h with hpassed
      cases h
      exact .soleMarkerDays hsole he hnone hdays hpassed
    · exact nomatch h

/-- A rule that ends the loop asks for nothing else. -/
theorem soleMarkerEvent_of_asks (hends : Ends obj now modTime rule)
    (h : Asks c obj now modTime rule event) :
    soleMarkerEvent obj now modTime rule = some event := by
  have hmarker := deleteMarker_of_sole hends.1
  unfold soleMarkerEvent
  cases h with
  | soleMarker hsole he hb => simp [hsole, he, hb]
  | soleMarkerDays hsole he hnone hdays hpassed =>
    simp only [Passed] at hpassed
    simp [hsole, he, hnone, hdays, hpassed]
  | allVersions hsole => exact absurd hends.1 (by simp [hsole])
  | noncurrent hnot => exact absurd hends hnot
  | noncurrentTransition _ hnot => exact absurd hmarker (by simp [hnot])
  | expirationDate hmay | expirationDays hmay | transition hmay =>
    exact absurd hmarker (by simp [not_deleteMarker_of_mayExpire hmay])

variable {events : List Event}

theorem markerEvents_eq_some (h : markerEvents obj now rule = some events) :
    obj.isLatest = true ∧ obj.deleteMarker = true ∧
      ∃ e, rule.expiration = some e ∧ e.expiredObjectDeleteMarker = some true := by
  unfold markerEvents at h
  split at h
  · exact nomatch h
  · rename_i e he
    split_ifs at h with hif
    simp only [Bool.and_eq_true, beq_iff_eq] at hif
    exact ⟨hif.1.1, hif.1.2, e, he, hif.2⟩

theorem mem_markerEvents (hends : ¬Ends obj now modTime rule)
    (h : markerEvents obj now rule = some events) :
    event ∈ events ↔ Asks c obj now modTime rule event := by
  obtain ⟨hlatest, hmarker, e, he, hb⟩ := markerEvents_eq_some h
  have hsole : obj.expiredObjectDeletemarker = false := by
    rw [← Bool.not_eq_true]
    intro hsole
    exact hends ⟨hsole, e, he, .inl (by simp [hb])⟩
  constructor
  · intro hmem
    simp only [markerEvents, he, hlatest, hmarker, hb, Bool.and_self, beq_self_eq_true,
      if_true] at h
    split at h
    · cases h
      exact nomatch hmem
    · rename_i due hdue
      split_ifs at h with hpassed
      · cases h
        rw [mem_singleton.1 hmem]
        exact .allVersions hsole hlatest hmarker he hb hdue hpassed
      · cases h
        exact nomatch hmem
  · intro hasks
    cases hasks with
    | soleMarker hyes | soleMarkerDays hyes => simp [hsole] at hyes
    | allVersions _ _ _ he' hb' hdue hpassed =>
      simp only [Passed] at hpassed
      simp only [markerEvents, he', hlatest, hmarker, hb', Bool.and_self, beq_self_eq_true, if_true,
        hdue, hpassed, some.injEq] at h
      exact h ▸ mem_singleton_self _
    | noncurrent _ hnot | noncurrentTransition hnot => simp [hlatest] at hnot
    | expirationDate hmay | expirationDays hmay | transition hmay =>
      simp [not_deleteMarker_of_mayExpire hmay] at hmarker

theorem markerEvents_ne_none {e : LifecycleExpiration} (hlatest : obj.isLatest = true)
    (hmarker : obj.deleteMarker = true) (he : rule.expiration = some e)
    (hb : e.expiredObjectDeleteMarker = some true) : markerEvents obj now rule ≠ none := by
  simp only [markerEvents, he, hlatest, hmarker, hb, Bool.and_self, beq_self_eq_true, if_true]
  split
  · exact some_ne_none _
  · split <;> exact some_ne_none _

theorem mem_noncurrentExpirationEvents (hends : ¬Ends obj now modTime rule)
    (hkeep : keepsNewer obj rule = false) (h : event ∈ noncurrentExpirationEvents obj now rule) :
    Asks c obj now modTime rule event := by
  unfold noncurrentExpirationEvents at h
  split_ifs at h with hlatest
  · exact nomatch h
  · split at h
    · rename_i days successorModTime hdays hsucc
      obtain ⟨e, he, hdays⟩ := bind_eq_some_iff.1 hdays
      dsimp only at h
      split_ifs at h with hif
      · rw [mem_singleton.1 h]
        exact .noncurrent hends (by simpa using hlatest) hkeep he hdays hif.1 hsucc hif.2
      · exact nomatch h
    · exact nomatch h

theorem mem_noncurrentTransitionEvents (hkeep : keepsNewer obj rule = false)
    (hevents : noncurrentTransitionEvents c obj now rule = some events) (h : event ∈ events) :
    Asks c obj now modTime rule event := by
  unfold noncurrentTransitionEvents at hevents
  split at hevents
  · cases hevents
    exact nomatch h
  rename_i hlatest
  split at hevents
  · cases hevents
    exact nomatch h
  · exact nomatch hevents
  rename_i t ts hlist
  split at hevents
  · cases hevents
    exact nomatch h
  rename_i storageClass hclass
  split_ifs at hevents with hif
  · simp only [Bool.and_eq_true, bne_iff_ne, Bool.not_eq_true'] at hif
    split at hevents
    · cases hevents
      exact nomatch h
    · rename_i due hdue
      split_ifs at hevents with hpassed
      · cases hevents
        rw [mem_singleton.1 h]
        exact .noncurrentTransition (by simpa using hlatest) hif.1.2 hkeep hlist hclass hif.1.1 hif.2
          hdue hpassed
      · cases hevents
        exact nomatch h
  · cases hevents
    exact nomatch h

section

variable (hmay : mayExpire obj = true) (hkeep : keepsNewer obj rule = false)
include hmay hkeep

theorem mem_expirationEvents
    (h : event ∈ expirationEvents now modTime rule) : Asks c obj now modTime rule event := by
  unfold expirationEvents at h
  split at h
  · exact nomatch h
  · rename_i e he
    split at h
    · rename_i date hdate
      split_ifs at h with hif
      · rw [mem_singleton.1 h]
        exact .expirationDate hmay hkeep he hdate hif.1 hif.2
      · exact nomatch h
    · rename_i days hdate hdays
      dsimp only at h
      split_ifs at h with hpassed
      · rw [mem_singleton.1 h]
        exact .expirationDays hmay hkeep he hdate hdays hpassed
      · exact nomatch h
    · exact nomatch h

theorem mem_transitionEvents (hevents : transitionEvents obj now rule = some events)
    (h : event ∈ events) : Asks c obj now modTime rule event := by
  unfold transitionEvents at hevents
  split at hevents
  · cases hevents
    exact nomatch h
  rename_i hstatus
  split at hevents
  · cases hevents
    exact nomatch h
  · exact nomatch hevents
  rename_i t ts hlist
  split at hevents
  · cases hevents
    exact nomatch h
  · rename_i due hdue
    split_ifs at hevents with hpassed
    · cases hevents
      rw [mem_singleton.1 h]
      exact .transition hmay hkeep hstatus hlist hdue hpassed
    · cases hevents
      exact nomatch h

end

/-! The whole loop body. -/

theorem noncurrentTransitionEvents_eq_none_iff :
    noncurrentTransitionEvents c obj now rule = none ↔
      obj.isLatest = false ∧ rule.noncurrentVersionTransitions = some [] := by
  unfold noncurrentTransitionEvents
  cases obj.isLatest with
  | true => simp
  | false =>
    cases rule.noncurrentVersionTransitions with
    | none => simp
    | some list =>
      cases list with
      | nil => simp
      | cons t ts =>
        simp only [Bool.false_eq_true, if_false]
        split
        · simp
        · split
          · split
            · simp
            · split <;> simp
          · simp

theorem transitionEvents_eq_none_iff :
    transitionEvents obj now rule = none ↔
      obj.transitionStatus ≠ transitionComplete ∧ rule.transitions = some [] := by
  unfold transitionEvents
  by_cases hstatus : obj.transitionStatus = transitionComplete
  · simp [hstatus]
  · rw [if_neg hstatus]
    cases rule.transitions with
    | none => simp
    | some list =>
      cases list with
      | nil => simp [hstatus]
      | cons t ts =>
        dsimp only
        split
        · simp
        · split <;> simp

section

variable (hends : ¬Ends obj now modTime rule) (hmarker : markerEvents obj now rule = none)
  (hkeep : keepsNewer obj rule = false)
include hends hmarker

/-- Where the other elements are looked at, what the rule asks for is among their events. -/
theorem Asks.of_open (h : Asks c obj now modTime rule event) :
    keepsNewer obj rule = false ∧
      (event ∈ noncurrentExpirationEvents obj now rule ∨
        noncurrentTransitionEvents c obj now rule = some [event] ∨
        mayExpire obj = true ∧ (event ∈ expirationEvents now modTime rule ∨
          transitionEvents obj now rule = some [event])) := by
  cases h with
  | soleMarker hsole he hb => exact absurd ⟨hsole, _, he, .inl (by simp [hb])⟩ hends
  | soleMarkerDays hsole he _ hdays hpassed =>
    exact absurd ⟨hsole, _, he, .inr ⟨_, hdays, hpassed⟩⟩ hends
  | allVersions _ hlatest hdelete he hb =>
    exact absurd hmarker (markerEvents_ne_none hlatest hdelete he hb)
  | noncurrent _ hlatest hkeep he hdays hne hsucc hpassed =>
    simp only [Passed] at hpassed
    exact ⟨hkeep, .inl (by simp [noncurrentExpirationEvents, hlatest, he, hdays, hsucc, hne, hpassed])⟩
  | noncurrentTransition hlatest hdelete hkeep hlist hclass hne hstatus hdue hpassed =>
    refine ⟨hkeep, .inr (.inl ?_)⟩
    simp [noncurrentTransitionEvents, hlatest, hdelete, hlist, hclass, hne, hstatus, hdue, hpassed]
  | expirationDate hmay hkeep he hdate hne hpassed =>
    simp only [Passed] at hpassed
    exact ⟨hkeep, .inr (.inr ⟨hmay, .inl (by simp [expirationEvents, he, hdate, hne, hpassed])⟩)⟩
  | expirationDays hmay hkeep he hdate hdays hpassed =>
    simp only [Passed] at hpassed
    exact ⟨hkeep, .inr (.inr ⟨hmay, .inl (by simp [expirationEvents, he, hdate, hdays, hpassed])⟩)⟩
  | transition hmay hkeep hstatus hlist hdue hpassed =>
    refine ⟨hkeep, .inr (.inr ⟨hmay, .inr ?_⟩)⟩
    simp [transitionEvents, hstatus, hlist, hdue, hpassed]

include hkeep

/-- A rule that is not done with the delete marker looks at its other elements. -/
theorem ruleStep_open : ruleStep c obj now modTime rule =
      (noncurrentTransitionEvents c obj now rule).bind fun noncurrentTransition =>
        if mayExpire obj then
          (transitionEvents obj now rule).bind fun transition =>
            some (noncurrentExpirationEvents obj now rule ++ noncurrentTransition ++
              expirationEvents now modTime rule ++ transition, false)
        else some (noncurrentExpirationEvents obj now rule ++ noncurrentTransition, false) := by
  unfold ruleStep
  rw [soleMarkerEvent_eq_none_iff.2 hends, hmarker, hkeep]
  rfl

theorem mem_ruleStep_open {es : Bool}
    (h : ruleStep c obj now modTime rule = some (events, es)) :
    es = false ∧ ∀ event, event ∈ events ↔ Asks c obj now modTime rule event := by
  rw [ruleStep_open hends hmarker hkeep] at h
  obtain ⟨noncurrent, hnoncurrent, h⟩ := bind_eq_some_iff.1 h
  cases hmay : mayExpire obj with
  | false =>
    rw [hmay] at h
    cases h
    refine ⟨rfl, fun event => ⟨fun hmem => ?_, fun hasks => ?_⟩⟩
    · obtain hmem | hmem := mem_append.1 hmem
      · exact mem_noncurrentExpirationEvents hends hkeep hmem
      · exact mem_noncurrentTransitionEvents hkeep hnoncurrent hmem
    · obtain hin | hin | ⟨hyes, _⟩ := (hasks.of_open hends hmarker).2
      · exact mem_append_left _ hin
      · cases hnoncurrent.symm.trans hin
        exact mem_append_right _ (mem_singleton_self _)
      · simp [hmay] at hyes
  | true =>
    rw [hmay] at h
    obtain ⟨transition, htransition, h⟩ := bind_eq_some_iff.1 h
    cases h
    refine ⟨rfl, fun event => ?_⟩
    simp only [mem_append]
    refine ⟨?_, fun hasks => ?_⟩
    · rintro (((hmem | hmem) | hmem) | hmem)
      · exact mem_noncurrentExpirationEvents hends hkeep hmem
      · exact mem_noncurrentTransitionEvents hkeep hnoncurrent hmem
      · exact mem_expirationEvents hmay hkeep hmem
      · exact mem_transitionEvents hmay hkeep htransition hmem
    · obtain hin | hin | ⟨_, hin | hin⟩ := (hasks.of_open hends hmarker).2
      · exact .inl (.inl (.inl hin))
      · cases hnoncurrent.symm.trans hin
        exact .inl (.inl (.inr (mem_singleton_self _)))
      · exact .inl (.inr hin)
      · cases htransition.symm.trans hin
        exact .inr (mem_singleton_self _)

end

theorem ruleStep_eq_none_iff :
    ruleStep c obj now modTime rule = none ↔ Crashes obj now modTime rule := by
  by_cases hends : Ends obj now modTime rule
  · obtain ⟨event, hevent⟩ :=
      ne_none_iff_exists'.1 fun h => soleMarkerEvent_eq_none_iff.1 h hends
    simp [ruleStep, hevent, Crashes, hends]
  cases hmarker : markerEvents obj now rule with
  | some events =>
    obtain ⟨hlatest, hdelete, _⟩ := markerEvents_eq_some hmarker
    simp [ruleStep, soleMarkerEvent_eq_none_iff.2 hends, hmarker, Crashes, hlatest, hdelete,
      mayExpire]
  | none =>
    cases hkeep : keepsNewer obj rule with
    | true => simp [ruleStep, soleMarkerEvent_eq_none_iff.2 hends, hmarker, hkeep, Crashes]
    | false =>
      have hnoncurrent : noncurrentTransitionEvents c obj now rule = none ↔ _ :=
        noncurrentTransitionEvents_eq_none_iff
      have htransition : transitionEvents obj now rule = none ↔ _ := transitionEvents_eq_none_iff
      rw [ruleStep_open hends hmarker hkeep]
      simp only [Crashes, hends, hkeep, not_false_eq_true, true_and, ← hnoncurrent, ← htransition]
      cases noncurrentTransitionEvents c obj now rule with
      | none => simp
      | some events =>
        cases mayExpire obj with
        | false => simp
        | true => cases transitionEvents obj now rule <;> simp

/-- What the loop body pushes is what the rule asks for. -/
theorem ruleStep_spec {es : Bool} (h : ruleStep c obj now modTime rule = some (events, es)) :
    (es = true ↔ Ends obj now modTime rule) ∧
      ∀ event, event ∈ events ↔ Asks c obj now modTime rule event := by
  by_cases hends : Ends obj now modTime rule
  · obtain ⟨e, he⟩ :=
      ne_none_iff_exists'.1 fun h => soleMarkerEvent_eq_none_iff.1 h hends
    simp only [ruleStep, he, some.injEq, Prod.mk.injEq] at h
    obtain ⟨rfl, rfl⟩ := h
    refine ⟨by simp [hends], fun event => ?_⟩
    rw [mem_singleton]
    constructor
    · rintro rfl
      exact asks_of_soleMarkerEvent he
    · intro hasks
      exact some.inj ((soleMarkerEvent_of_asks hends hasks).symm.trans he)
  cases hmarker : markerEvents obj now rule with
  | some list =>
    simp only [ruleStep, soleMarkerEvent_eq_none_iff.2 hends, hmarker, some.injEq,
      Prod.mk.injEq] at h
    obtain ⟨rfl, rfl⟩ := h
    exact ⟨by simp [hends], fun event => mem_markerEvents hends hmarker⟩
  | none =>
    cases hkeep : keepsNewer obj rule with
    | true =>
      simp only [ruleStep, soleMarkerEvent_eq_none_iff.2 hends, hmarker, hkeep, if_true,
        some.injEq, Prod.mk.injEq] at h
      obtain ⟨rfl, rfl⟩ := h
      refine ⟨by simp [hends], fun event => ⟨nofun, fun hasks => ?_⟩⟩
      exact absurd (hasks.of_open hends hmarker).1 (by simp [hkeep])
    | false =>
      obtain ⟨rfl, hmem⟩ := mem_ruleStep_open hends hmarker hkeep h
      exact ⟨by simp [hends], hmem⟩

/-! All rules, in turn. -/

/-- No rule before this one has ended the loop. -/
def Reached (obj : ObjectOpts) (now modTime : Time) (rules : List LifecycleRule)
    (rule : LifecycleRule) : Prop :=
  ∃ before after, rules = before ++ rule :: after ∧ ∀ r ∈ before, ¬Ends obj now modTime r

variable {rs : List LifecycleRule}

theorem reached_cons {f : LifecycleRule} : Reached obj now modTime (f :: rs) rule ↔
      rule = f ∨ ¬Ends obj now modTime f ∧ Reached obj now modTime rs rule := by
  constructor
  · rintro ⟨before, after, heq, hbefore⟩
    cases before with
    | nil =>
      cases heq
      exact .inl rfl
    | cons r before =>
      cases heq
      obtain ⟨hfirst, hrest⟩ := forall_mem_cons.1 hbefore
      exact .inr ⟨hfirst, before, after, rfl, hrest⟩
  · rintro (rfl | ⟨hfirst, before, after, rfl, hbefore⟩)
    · exact ⟨[], rs, rfl, fun _ h => (nomatch h)⟩
    · exact ⟨f :: before, after, rfl, forall_mem_cons.2 ⟨hfirst, hbefore⟩⟩

theorem rulesLoop_eq_none_iff : rulesLoop c obj now modTime rs = none ↔
      ∃ rule, Reached obj now modTime rs rule ∧ Crashes obj now modTime rule := by
  induction rs with
  | nil => simp [rulesLoop, Reached]
  | cons first rs ih =>
    have hfirst : ruleStep c obj now modTime first = none ↔ _ := ruleStep_eq_none_iff
    simp only [reached_cons, or_and_right, exists_or, exists_eq_left, and_assoc,
      exists_and_left, ← ih, ← hfirst, rulesLoop]
    cases hstep : ruleStep c obj now modTime first with
    | none => simp
    | some result =>
      obtain ⟨events, ends⟩ := result
      have hends := (ruleStep_spec hstep).1
      cases ends with
      | true => simp [hends.1 rfl]
      | false => simp [← hends]

theorem mem_rulesLoop (h : rulesLoop c obj now modTime rs = some events) :
    event ∈ events ↔
      ∃ rule, Reached obj now modTime rs rule ∧ Asks c obj now modTime rule event := by
  induction rs generalizing events with
  | nil =>
    cases h
    simp [Reached]
  | cons first rs ih =>
    simp only [reached_cons, or_and_right, exists_or, exists_eq_left, and_assoc, exists_and_left]
    rw [rulesLoop] at h
    cases hstep : ruleStep c obj now modTime first with
    | none => simp [hstep] at h
    | some result =>
      obtain ⟨pushed, ends⟩ := result
      obtain ⟨hends, hpushed⟩ := ruleStep_spec hstep
      cases ends with
      | true =>
        simp only [hstep, some.injEq] at h
        simp [← h, hpushed, hends.1 rfl]
      | false =>
        simp only [hstep, Option.map_eq_map, Option.map_eq_some_iff] at h
        obtain ⟨rest, hrest, rfl⟩ := h
        simp [mem_append, hpushed, ih hrest, ← hends]

/-! The event that is taken. -/

/-- The rules that are tried for an object. -/
def selectedRules (config : BucketLifecycleConfiguration) (obj : ObjectOpts) :
    List LifecycleRule :=
  (filterRules config obj).getD []

variable {config : BucketLifecycleConfiguration} {s : SortBy} {n : ℕ}

theorem mem_selectedRules :
    rule ∈ selectedRules config obj ↔ obj.name ≠ "" ∧ rule ∈ config.rules ∧
      rule.status ≠ "Disabled" ∧ ∀ p, rule.pathPrefix = some p → hasPrefix p obj.name = true := by
  unfold selectedRules filterRules
  by_cases hname : obj.name = ""
  · simp [hname]
  · rw [if_neg hname, getD_some, mem_filter]
    cases rule.pathPrefix <;> simp [hname]

theorem mem_of_reached (h : Reached obj now modTime rs rule) : rule ∈ rs := by
  obtain ⟨before, after, rfl, _⟩ := h
  exact mem_append_right _ mem_cons_self

/-- One of the events that may be taken. -/
def Candidate (clock : Time) (config : BucketLifecycleConfiguration) (obj : ObjectOpts)
    (now modTime : Time) (event : Event) : Prop :=
  event ∈ restoredEvents obj now ∨ ∃ rule, Reached obj now modTime (selectedRules config obj) rule ∧
    Asks clock obj now modTime rule event

theorem candidate_iff
    (h : rulesLoop c obj now modTime (selectedRules config obj) = some events) :
    event ∈ restoredEvents obj now ++ events ↔ Candidate c config obj now modTime event := by
  rw [mem_append, mem_rulesLoop h, Candidate]

/-- Without a time of its last change a version is left alone. -/
theorem evalInner_of_unset
    (h : ∀ modTime, obj.modTime = some modTime → modTime.unixTimestamp = 0) :
    evalInner s c config obj now n = some {} := by
  unfold evalInner
  split
  · rfl
  · rename_i modTime hmod
    rw [if_pos (h modTime hmod)]

section

variable (hmod : obj.modTime = some modTime) (hsec : modTime.unixTimestamp ≠ 0)
include hmod hsec

theorem evalInner_of_set : evalInner s c config obj now n =
      (rulesLoop c obj now modTime (selectedRules config obj)).bind fun events =>
        if restoredEvents obj now ++ events = [] then some {}
        else (s.run (eventOrder now) (restoredEvents obj now ++ events)).bind List.head? := by
  unfold evalInner
  rw [hmod]
  dsimp only
  rw [if_neg hsec]
  refine congrArg (Option.bind _) (funext fun events => ?_)
  split
  · rename_i hnil
    rw [if_pos hnil]
  · rename_i hne
    rw [if_neg hne]
    rfl

theorem evalInner_eq_none_of_crash
    (hreached : Reached obj now modTime (selectedRules config obj) rule)
    (hcrash : Crashes obj now modTime rule) : evalInner s c config obj now n = none := by
  rw [evalInner_of_set hmod hsec, rulesLoop_eq_none_iff.2 ⟨rule, hreached, hcrash⟩]
  rfl

end

theorem exists_events
    (hcrash : ∀ rule, Reached obj now modTime (selectedRules config obj) rule →
      ¬Crashes obj now modTime rule) :
    ∃ events, rulesLoop c obj now modTime (selectedRules config obj) = some events := by
  refine ne_none_iff_exists'.1 fun hnone => ?_
  obtain ⟨rule, hreached, hrule⟩ := rulesLoop_eq_none_iff.1 hnone
  exact hcrash rule hreached hrule

/-! The events that a version may get, whatever the sort does. -/

/-- A candidate, or nothing if there is none. -/
def Yields (clock : Time) (config : BucketLifecycleConfiguration) (obj : ObjectOpts) (now : Time)
    (event : Event) : Prop :=
  (∀ modTime, obj.modTime = some modTime → modTime.unixTimestamp = 0) ∧ event = {} ∨
  ∃ modTime, obj.modTime = some modTime ∧ modTime.unixTimestamp ≠ 0 ∧
    (∀ rule, Reached obj now modTime (selectedRules config obj) rule →
      ¬Crashes obj now modTime rule) ∧
    (Candidate clock config obj now modTime event ∨
      event = {} ∧ ∀ e, ¬Candidate clock config obj now modTime e)

theorem yields_of_evalInner (h : evalInner s c config obj now n = some event) :
    Yields c config obj now event := by
  by_cases hset : ∀ modTime, obj.modTime = some modTime → modTime.unixTimestamp = 0
  · rw [evalInner_of_unset hset] at h
    cases h
    exact .inl ⟨hset, rfl⟩
  simp only [not_forall] at hset
  obtain ⟨modTime, hmod, hsec⟩ := hset
  have hcrash : ∀ rule, Reached obj now modTime (selectedRules config obj) rule →
      ¬Crashes obj now modTime rule := by
    intro rule hreached hrule
    rw [evalInner_eq_none_of_crash hmod hsec hreached hrule] at h
    exact nomatch h
  rw [evalInner_of_set hmod hsec] at h
  obtain ⟨events, hevents, h⟩ := bind_eq_some_iff.1 h
  refine .inr ⟨modTime, hmod, hsec, hcrash, ?_⟩
  split_ifs at h with hnil
  · cases h
    refine .inr ⟨rfl, fun e he => ?_⟩
    rw [← candidate_iff hevents, hnil] at he
    exact nomatch he
  · obtain ⟨sorted, hsorted, hhead⟩ := bind_eq_some_iff.1 h
    have hmem := (s.perm _ _ _ hsorted).subset (mem_of_head? hhead)
    exact .inl ((candidate_iff hevents).1 hmem)

/-- An arrangement that has the event in front. -/
def SortBy.bring (event : Event) : SortBy where
  run _ events := some (if event ∈ events then event :: events.erase event else events)
  perm order events sorted h := by
    cases h
    split_ifs with hmem
    · exact (perm_cons_erase hmem).symm
    · exact List.Perm.refl _

variable (h : Yields c config obj now event)
include h

/-- Every event that a version may get is one that some sort gives it. -/
theorem evalInner_of_yields : evalInner (.bring event) c config obj now n = some event := by
  obtain ⟨hset, rfl⟩ | ⟨modTime, hmod, hsec, hcrash, hevent⟩ := h
  · exact evalInner_of_unset hset
  obtain ⟨events, hevents⟩ := exists_events hcrash
  rw [evalInner_of_set hmod hsec, hevents, bind_some]
  obtain hcandidate | ⟨rfl, hnone⟩ := hevent
  · have hmem := (candidate_iff hevents).2 hcandidate
    rw [if_neg (ne_nil_of_mem hmem)]
    exact bind_eq_some_iff.2 ⟨_, rfl, by rw [if_pos hmem]; rfl⟩
  · have hnil : restoredEvents obj now ++ events = [] :=
      eq_nil_iff_forall_not_mem.2 fun e he => hnone e ((candidate_iff hevents).1 he)
    rw [if_pos hnil]

/-- An action is one of the candidates. -/
theorem Yields.candidate (haction : event.action ≠ .noneAction) :
    ∃ modTime, obj.modTime = some modTime ∧ modTime.unixTimestamp ≠ 0 ∧
      (∀ rule, Reached obj now modTime (selectedRules config obj) rule →
        ¬Crashes obj now modTime rule) ∧ Candidate c config obj now modTime event := by
  obtain ⟨_, rfl⟩ | ⟨modTime, hmod, hsec, hcrash, hcandidate | ⟨rfl, _⟩⟩ := h
  · exact absurd rfl haction
  · exact ⟨modTime, hmod, hsec, hcrash, hcandidate⟩
  · exact absurd rfl haction

end Rustfs.Lifecycle
