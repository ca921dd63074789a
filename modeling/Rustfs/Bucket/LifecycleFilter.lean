import Rustfs.Bucket.LifecycleRules

/-! Whether an action stands on a rule that is enabled and is about the object. -/
namespace Rustfs.Lifecycle

section

variable (parseTags : String → List (String × String)) (obj : ObjectOpts)

def Tag.Matches (self : Tag) : Prop :=
  (self.key.getD "", self.value.getD "") ∈ parseTags obj.userTags

/-- A delete marker has no size. -/
def SizeWithin (greaterThan lessThan : Option ℤ) : Prop :=
  obj.deleteMarker = true ∨
    (∀ n, greaterThan = some n → n < obj.size) ∧ ∀ n, lessThan = some n → obj.size < n

def Below (pathPrefix : Option String) : Prop :=
  ∀ p, pathPrefix = some p → hasPrefix p obj.name = true

def LifecycleRuleAndOperator.Matches (self : LifecycleRuleAndOperator) : Prop :=
  Below obj self.pathPrefix ∧ SizeWithin obj self.objectSizeGreaterThan self.objectSizeLessThan ∧
    ∀ tags, self.tags = some tags → ∀ tag ∈ tags, tag.Matches parseTags obj

def LifecycleRuleFilter.Matches (self : LifecycleRuleFilter) : Prop :=
  Below obj self.pathPrefix ∧ SizeWithin obj self.objectSizeGreaterThan self.objectSizeLessThan ∧
    (∀ tag, self.tag = some tag → tag.Matches parseTags obj) ∧
    ∀ a, self.and = some a → a.Matches parseTags obj

/-- The rule is enabled, and its prefix and its filter take the object in. -/
def LifecycleRule.Governs (self : LifecycleRule) : Prop :=
  self.status = "Enabled" ∧ Below obj self.pathPrefix ∧
    ∀ filter, self.filter = some filter → filter.Matches parseTags obj

end

variable (parseTags : String → List (String × String)) (clock : Time)
  (config : BucketLifecycleConfiguration) (obj : ObjectOpts) (now : Time)

/-- A rule that governs the object asks for the event. -/
def OnBehalf (event : Event) : Prop :=
  ∃ modTime, obj.modTime = some modTime ∧ ∃ rule ∈ config.rules, rule.Governs parseTags obj ∧
    Asks clock obj now modTime rule event

/-- Whichever event is taken, it is none or one that a rule for the object asks for. -/
def EvalOnBehalf : Prop :=
  ∀ sort newer event, evalInner sort clock config obj now newer = some event →
    event.action ≠ .noneAction → OnBehalf parseTags clock config obj now event

/-- The copy of a restored object is removed without a rule. -/
def RestoreDue : Prop :=
  ∃ t, obj.restoreExpires = some t ∧ t.unixTimestamp = -1 ∧ -1 < now.unixTimestamp

/-- A rule that asks for something governs the object, or one that does asks for the same. -/
def Warranted (modTime : Time) (rule : LifecycleRule) : Prop :=
  ∀ event, Asks clock obj now modTime rule event →
    rule.Governs parseTags obj ∨
      ∃ other ∈ config.rules, other.Governs parseTags obj ∧ Asks clock obj now modTime other event

variable {parseTags clock config obj now} {modTime : Time} {rule : LifecycleRule} {event : Event}

theorem mem_restoredEvents (h : event ∈ restoredEvents obj now) :
    RestoreDue obj now ∧ event.due = some now ∧
      event.action = if obj.isLatest then .deleteRestoredAction else .deleteRestoredVersionAction := by
  unfold restoredEvents at h
  split at h
  · exact nomatch h
  · rename_i t ht
    split at h
    · rename_i hif
      rw [List.mem_singleton.1 h]
      have hsec : t.unixTimestamp = -1 := by omega
      exact ⟨⟨t, ht, hsec, by omega⟩, rfl, rfl⟩
    · exact nomatch h

theorem exists_restored (h : RestoreDue obj now) : ∃ event, event ∈ restoredEvents obj now := by
  obtain ⟨t, ht, hsec, hnow⟩ := h
  unfold restoredEvents
  simp only [ht, hsec]
  rw [if_pos ⟨by omega, hnow⟩]
  exact ⟨_, List.mem_singleton_self _⟩

theorem Asks.action_ne_none (h : Asks clock obj now modTime rule event) :
    event.action ≠ .noneAction := by
  cases h <;> exact nofun

theorem Asks.not_restored (h : Asks clock obj now modTime rule event) :
    event ∉ restoredEvents obj now := by
  intro hmem
  have haction := (mem_restoredEvents hmem).2.2
  cases h <;> cases hlatest : obj.isLatest <;> simp [hlatest] at haction

theorem restored_action_ne_none (h : event ∈ restoredEvents obj now) :
    event.action ≠ .noneAction := by
  rw [(mem_restoredEvents h).2.2]
  cases obj.isLatest <;> exact nofun

/-- The actions stand on rules for the object exactly if every rule that is tried and asks for
something is warranted, and no restored copy is removed. -/
theorem evalInner_onBehalf_iff :
    EvalOnBehalf parseTags clock config obj now ↔
      ∀ modTime, obj.modTime = some modTime → modTime.unixTimestamp ≠ 0 →
        (∀ rule, Reached obj now modTime (selectedRules config obj) rule →
          ¬Crashes obj now modTime rule) →
        ¬RestoreDue obj now ∧
          ∀ rule, Reached obj now modTime (selectedRules config obj) rule →
            Warranted parseTags clock config obj now modTime rule := by
  constructor
  · intro h modTime hmod hsec hcrash
    have hcandidate : ∀ event, event.action ≠ .noneAction →
        Candidate clock config obj now modTime event →
        OnBehalf parseTags clock config obj now event := by
      intro event haction hevent
      have hyields : Yields clock config obj now event :=
        .inr ⟨modTime, hmod, hsec, hcrash, .inl hevent⟩
      exact h _ 0 _ (evalInner_of_yields hyields) haction
    constructor
    · intro hdue
      obtain ⟨event, hevent⟩ := exists_restored hdue
      obtain ⟨_, _, _, _, _, hasks⟩ :=
        hcandidate event (restored_action_ne_none hevent) (.inl hevent)
      exact hasks.not_restored hevent
    · intro rule hreached event hasks
      obtain ⟨modTime', hmod', other, hother, hgoverns, hsame⟩ :=
        hcandidate event hasks.action_ne_none (.inr ⟨rule, hreached, hasks⟩)
      obtain rfl : modTime = modTime' := Option.some.inj (hmod.symm.trans hmod')
      exact .inr ⟨other, hother, hgoverns, hsame⟩
  · intro h sort newer event heval haction
    obtain ⟨modTime, hmod, hsec, hcrash, hcandidate⟩ := (yields_of_evalInner heval).candidate haction
    obtain ⟨hrestore, hrules⟩ := h modTime hmod hsec hcrash
    obtain hrestored | ⟨rule, hreached, hasks⟩ := hcandidate
    · exact absurd (mem_restoredEvents hrestored).1 hrestore
    · obtain hgoverns | ⟨other, hother, hgoverns, hsame⟩ := hrules rule hreached event hasks
      · have hmem := (mem_selectedRules.1 (mem_of_reached hreached)).2.1
        exact ⟨modTime, hmod, rule, hmem, hgoverns, hasks⟩
      · exact ⟨modTime, hmod, other, hother, hgoverns, hsame⟩

/-! A rule for the logs, and a picture. -/

def logsRule : LifecycleRule where
  id := some "logs"
  status := "Enabled"
  filter := some { pathPrefix := some "logs/" }
  expiration := some { days := some 1 }

/-- It was written a second after the epoch. -/
def picture : ObjectOpts where
  name := "pictures/a"
  modTime := some 1000000000
  isLatest := true

theorem evalInner_ignores_filter :
    ¬logsRule.Governs (fun _ => []) picture ∧
      evalInner .insertion 0 ⟨[logsRule]⟩ picture (2 * day) 0 =
        some { action := .deleteAction, ruleId := "logs", due := some 86401000000000 } ∧
      ¬EvalOnBehalf (fun _ => []) 0 ⟨[logsRule]⟩ picture (2 * day) := by
  have hgoverns : ¬logsRule.Governs (fun _ => []) picture := by
    intro h
    have hbelow := (h.2.2 _ rfl).1 _ rfl
    exact absurd hbelow (by decide +kernel)
  have heval : evalInner .insertion 0 ⟨[logsRule]⟩ picture (2 * day) 0 =
      some { action := .deleteAction, ruleId := "logs", due := some 86401000000000 } := by
    decide +kernel
  refine ⟨hgoverns, heval, fun h => ?_⟩
  obtain ⟨_, _, rule, hrule, hyes, _⟩ := h _ _ _ heval nofun
  rw [List.mem_singleton.1 hrule] at hyes
  exact hgoverns hyes

end Rustfs.Lifecycle
