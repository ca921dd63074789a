import Rustfs.Policy.Statement

/-! What stands behind a request that a policy allows. -/
namespace Rustfs.Iam

open List Option Statement Trial

variable {env : Env} {args : Args}

namespace Statement

variable (env) (args) (st : Statement)

def ActionsMatch : Prop :=
  (st.actions.isEmpty = true ∨ st.actions.isMatch args.action = true) ∧
    st.notActions.isMatch args.action = false

/-- The resource of the request matches the pattern. -/
def Covers (r : Resource) : Option Bool :=
  r.isMatchWithResolver args.conditions (some (resolver env args))
    (resourceName args.bucket args.object)

/-- The request is for one of the resources, and for none of those that are left out. -/
def ResourcesMatch : Prop :=
  (st.resources.isEmpty = true ∨ ∃ r ∈ st.resources.toList, Covers env args r = some true) ∧
    ∀ r ∈ st.notResources.toList, Covers env args r = some false

def Matches : Prop :=
  st.ActionsMatch args ∧ st.ResourcesMatch env args ∧ st.conditionsHold env args = some true

/-- The tests of the resources do not count: the statement has an admin action, and they can be
answered, or it has a key management action, and no resources or a request without any. -/
def SkipsResources : Prop :=
  (st.isAdmin = true ∧ (st.outsideResources env args).isSome ∧ (st.inNotResources env args).isSome) ∨
    (st.isKms = true ∧
      (resourceName args.bucket args.object = "/" ∨ st.resources.isEmpty = true))

variable {env args st}

theorem isSts_eq_false : st.isSts = false := by
  refine any_eq_false.mpr ?_
  intro act _
  cases act with
  | stsAction action => cases action
  | s3Action _ | adminAction _ | kmsAction _ | none => simp

theorem outsideResources_eq_false (h : st.outsideResources env args = some false) :
    st.resources.isEmpty = true ∨ ∃ r ∈ st.resources.toList, Covers env args r = some true := by
  unfold outsideResources at h
  split at h
  · exact .inl ‹_›
  · obtain ⟨b, hb, hnot⟩ := map_eq_some_iff.mp h
    have htrue : b = true := by simpa using hnot
    exact .inr (exists_of_anyM (htrue ▸ hb))

theorem outsideResources_ne_true (h : st.ResourcesMatch env args) :
    st.outsideResources env args ≠ some true := by
  intro htrue
  unfold outsideResources at htrue
  split_ifs at htrue with hsome
  · exact nomatch htrue
  · obtain ⟨b, hb, hnot⟩ := map_eq_some_iff.mp htrue
    have hfalse : b = false := by simpa using hnot
    obtain ⟨r, hr, hcovers⟩ := h.1.resolve_left hsome
    have := anyM_eq_false_iff.mp (hfalse ▸ hb) r hr
    rw [show r.isMatchWithResolver _ _ _ = some true from hcovers] at this
    exact nomatch this

theorem inNotResources_eq_false_iff :
    st.inNotResources env args = some false ↔
      ∀ r ∈ st.notResources.toList, Covers env args r = some false := by
  unfold inNotResources
  split_ifs with hempty
  · have hnil : st.notResources.toList = [] := isEmpty_iff.mp hempty
    simp [hnil]
  · exact anyM_eq_false_iff

theorem actionsMatch_iff :
    (!st.actions.isMatch args.action && !st.actions.isEmpty || st.notActions.isMatch args.action) =
      false ↔ st.ActionsMatch args := by
  unfold ActionsMatch
  cases st.actions.isMatch args.action <;> cases st.actions.isEmpty <;>
    cases st.notActions.isMatch args.action <;> simp

/-- A statement that applies has its actions and its conditions met, and its resources unless it
skips them. -/
theorem check_eq_true (h : st.check env args = some true) :
    st.ActionsMatch args ∧ st.conditionsHold env args = some true ∧
      (st.ResourcesMatch env args ∨ st.SkipsResources env args) := by
  unfold check at h
  split at h
  · exact nomatch h
  · rename_i hact
    refine ⟨actionsMatch_iff.mp (by simpa using hact), ?_⟩
    split at h
    · rename_i hkms
      simp only [Bool.and_eq_true, Bool.or_eq_true, beq_iff_eq] at hkms
      exact ⟨h, .inr (.inr hkms)⟩
    · split at h
      · exact nomatch h
      · unfold checkResources at h
        rw [isSts_eq_false] at h
        cases hout : st.outsideResources env args with
        | none => simp [hout] at h
        | some outside =>
          cases hnot : st.inNotResources env args with
          | none => cases outside <;> cases hadmin : st.isAdmin <;> simp [hout, hnot, hadmin] at h
          | some excluded =>
            cases hadmin : st.isAdmin with
            | true =>
              simp only [hout, hnot, hadmin, Bool.not_true, Bool.and_false, Bool.false_and,
                Bool.false_eq_true, if_false, bind_eq_bind, bind_some] at h
              exact ⟨h, .inr (.inl ⟨hadmin, by simp [hout], by simp [hnot]⟩)⟩
            | false =>
              cases outside with
              | true => simp [hout, hadmin] at h
              | false =>
                cases excluded with
                | true => simp [hout, hnot, hadmin] at h
                | false =>
                  simp only [hout, hnot, hadmin, Bool.false_and, Bool.false_eq_true, if_false,
                    bind_eq_bind, bind_some] at h
                  exact ⟨h, .inl ⟨outsideResources_eq_false hout,
                    inNotResources_eq_false_iff.mp hnot⟩⟩

/-- A statement that skips its resources applies where its actions and conditions are met. -/
theorem check_of_skips (hskips : st.SkipsResources env args) (hact : st.ActionsMatch args)
    (hcond : st.conditionsHold env args = some true) : st.check env args = some true := by
  unfold check
  rw [actionsMatch_iff.mpr hact]
  simp only [Bool.false_eq_true, if_false]
  split
  · exact hcond
  · rename_i hkms
    rcases hskips with ⟨hadmin, hout, hnot⟩ | ⟨hiskms, hname⟩
    · obtain ⟨outside, hout⟩ := isSome_iff_exists.mp hout
      obtain ⟨excluded, hnot⟩ := isSome_iff_exists.mp hnot
      simp [checkResources, hadmin, hout, hnot, hcond]
    · exact absurd (by simp [hiskms, hname]) hkms

/-- A statement that matches is not found to be without effect. -/
theorem check_ne_false (h : st.Matches env args)
    (hvalid : st.resources.isEmpty = false ∨ st.notResources.isEmpty = false) :
    st.check env args ≠ some false := by
  obtain ⟨hact, hres, hcond⟩ := h
  unfold check
  rw [actionsMatch_iff.mpr hact]
  simp only [Bool.false_eq_true, if_false]
  split
  · simp [hcond]
  · split_ifs with hempty
    · rcases hvalid with hsome | hsome <;> simp [hsome] at hempty
    · have hout := outsideResources_ne_true hres
      have hnot := inNotResources_eq_false_iff.mpr hres.2
      unfold checkResources
      cases houtside : st.outsideResources env args with
      | none => simp
      | some outside =>
        cases outside with
        | true => exact absurd houtside hout
        | false => simp [hnot, hcond]

theorem resources_of_isValid (h : st.isValid = .ok ()) :
    st.resources.isEmpty = false ∨ st.notResources.isEmpty = false := by
  by_contra hboth
  simp only [not_or, Bool.not_eq_false] at hboth
  unfold isValid at h
  simp only [hboth.1, hboth.2, bind, Except.bind, throw, throwThe, MonadExceptOf.throw] at h
  split at h
  · exact nomatch h
  · split at h <;> exact nomatch h

end Statement

namespace Policy

variable {policy : Policy}

theorem statement_isValid (h : policy.isValid = .ok ()) {st : Statement}
    (hst : st ∈ policy.statements) : st.isValid = .ok () := by
  unfold isValid at h
  split at h
  · exact nomatch h
  · exact forM_eq_ok_iff.1 h st hst

/-- The request is allowed only on behalf of a statement that matches it, against no other, and
no statement grants what is not among its resources. -/
def Sound (env : Env) (policy : Policy) (args : Args) : Prop :=
  (policy.isAllowed env args = some true →
    (∃ st ∈ policy.grants, st.Matches env args) ∧
      ∀ st ∈ policy.denials, ¬st.Matches env args) ∧
    ∀ st ∈ policy.grants, st.isAllowed env args = some true → st.ResourcesMatch env args

theorem isAllowed_eq_true (howner : args.isOwner = false)
    (h : policy.isAllowed env args = some true) :
    (∀ st ∈ policy.denials, st.isAllowed env args = some true) ∧
      ∃ st ∈ policy.grants, st.isAllowed env args = some true := by
  unfold isAllowed at h
  cases hdeny : policy.denials.allM (·.isAllowed env args) with
  | none => simp [hdeny] at h
  | some passed =>
    cases passed with
    | false => simp [hdeny] at h
    | true =>
      cases hmode : args.denyOnly with
      | true => simp [hdeny, howner, hmode] at h
      | false =>
        refine ⟨allM_eq_true_iff.mp hdeny, exists_of_anyM ?_⟩
        simpa [hdeny, howner, hmode] using h

theorem check_of_grant {st : Statement} (hst : st ∈ policy.grants)
    (h : st.isAllowed env args = some true) : st.check env args = some true := by
  have heffect : st.effect = .allow := by simpa using of_mem_filter hst
  simpa [Statement.isAllowed, heffect, Effect.isAllowed] using h

theorem check_of_denial {st : Statement} (hst : st ∈ policy.denials)
    (h : st.isAllowed env args = some true) : st.check env args = some false := by
  have heffect : st.effect = .deny := by simpa using of_mem_filter hst
  simpa [Statement.isAllowed, heffect, Effect.isAllowed] using h

/-- A policy decides soundly exactly if no statement that skips its resources, and whose actions
and conditions the request meets, grants it outside of them. -/
theorem isAllowed_sound_iff (hvalid : policy.isValid = .ok ()) (howner : args.isOwner = false) :
    Sound env policy args ↔
      ∀ st ∈ policy.grants, st.SkipsResources env args → st.ActionsMatch args →
        st.conditionsHold env args = some true → st.ResourcesMatch env args := by
  constructor
  · rintro ⟨-, hgrants⟩ st hst hskips hact hcond
    have heffect : st.effect = .allow := by simpa using of_mem_filter hst
    refine hgrants st hst ?_
    simp [Statement.isAllowed, Statement.check_of_skips hskips hact hcond, heffect,
      Effect.isAllowed]
  · intro hskipping
    have hgrants : ∀ st ∈ policy.grants, st.isAllowed env args = some true →
        st.Matches env args := by
      intro st hst hallowed
      obtain ⟨hact, hcond, hres⟩ := check_eq_true (check_of_grant hst hallowed)
      rcases hres with hres | hskips
      · exact ⟨hact, hres, hcond⟩
      · exact ⟨hact, hskipping st hst hskips hact hcond, hcond⟩
    refine ⟨fun hallowed => ?_, fun st hst hallowed => (hgrants st hst hallowed).2.1⟩
    obtain ⟨hdenials, st, hst, hgrant⟩ := isAllowed_eq_true howner hallowed
    refine ⟨⟨st, hst, hgrants st hst hgrant⟩, ?_⟩
    intro deny hdeny hmatches
    have hstmt := statement_isValid hvalid (mem_of_mem_filter hdeny)
    exact check_ne_false hmatches (resources_of_isValid hstmt)
      (check_of_denial hdeny (hdenials deny hdeny))

end Policy

/-- A clock and a library that know nothing. -/
def plainEnv : Env where
  currentTime := ""
  epochTime := ""
  steps := 3
  toLowercase := fun s => s
  parseIpAddr := fun _ => none
  netContains := fun _ _ => false
  parseRfc3339 := fun _ => none

variable (admin : List AdminAction)

/-- A statement that grants reading below `a`, with the admin actions given. -/
def readBelowA (h : admin.Nodup) : Statement where
  sid := ""
  effect := .allow
  actions := ⟨.s3Action .getObjectAction :: admin.map .adminAction,
    nodup_cons.mpr ⟨by simp, h.map fun _ _ => Action.adminAction.inj⟩⟩
  notActions := ⟨[], nodup_nil⟩
  resources := ⟨[.s3 "a/*"], nodup_singleton _⟩
  notResources := ⟨[], nodup_nil⟩
  conditions := Functions.empty

/-- A request to read an object. -/
def readArgs (bucket object : String) : Args where
  account := "user"
  groups := none
  action := .s3Action .getObjectAction
  bucket := bucket
  conditions := ∅
  isOwner := false
  object := object
  claims := ∅
  denyOnly := false

theorem covers_readArgs {p : String} (h : beforeVariable p.toList = none) (b o : String) :
    Statement.Covers plainEnv (readArgs b o) (.s3 p) =
      some (matchesPattern ∅ (resourceName b o) p) := by
  have hplain : beforeVariable (Resource.s3 p).pattern.toList = none := h
  exact Resource.isMatchWithResolver_plain (Nat.le_refl 3) hplain

/-- An admin action in the statement takes the place of a resource that matches. -/
theorem readBelowA_check (h : admin.Nodup) (b o : String) :
    (readBelowA admin h).check plainEnv (readArgs b o) =
      some (matchesPattern ∅ (resourceName b o) "a/*" || !admin.isEmpty) := by
  have hact : (readBelowA admin h).actions.isMatch (.s3Action .getObjectAction) = true :=
    any_eq_true.mpr ⟨_, mem_cons_self, by decide +kernel⟩
  have hkms : (readBelowA admin h).isKms = false := by
    simp [isKms, readBelowA]
  have hadmin : (readBelowA admin h).isAdmin = !admin.isEmpty := by
    cases admin <;> simp [isAdmin, readBelowA]
  have hout : (readBelowA admin h).outsideResources plainEnv (readArgs b o) =
      some !matchesPattern ∅ (resourceName b o) "a/*" := by
    change (!·) <$> [Resource.s3 "a/*"].anyM (Statement.Covers plainEnv (readArgs b o)) = _
    rw [anyM_singleton, covers_readArgs (by decide)]
    rfl
  have hfirst : (!(readBelowA admin h).actions.isMatch (readArgs b o).action &&
      !(readBelowA admin h).actions.isEmpty ||
      (readBelowA admin h).notActions.isMatch (readArgs b o).action) = false := by
    rw [show (readArgs b o).action = .s3Action .getObjectAction from rfl, hact]
    rfl
  have hempty : (readBelowA admin h).resources.isEmpty = false := rfl
  simp only [check, hfirst, hkms, hempty, Bool.false_eq_true, if_false, Bool.false_and,
    checkResources, hout, hadmin, isSts_eq_false, bind_eq_bind,
    bind_some]
  cases matchesPattern ∅ (resourceName b o) "a/*" <;> cases admin <;> rfl

/-- What the policy of that statement alone says. -/
theorem readBelowA_isAllowed (h : admin.Nodup) (b o : String) :
    Policy.isAllowed ⟨"", defaultVersion, [readBelowA admin h]⟩ plainEnv
        (readArgs b o) = some (matchesPattern ∅ (resourceName b o) "a/*" || !admin.isEmpty) := by
  have hst : (readBelowA admin h).isAllowed plainEnv (readArgs b o) =
      some (matchesPattern ∅ (resourceName b o) "a/*" || !admin.isEmpty) := by
    rw [Statement.isAllowed, readBelowA_check]
    rfl
  change [readBelowA admin h].anyM (·.isAllowed plainEnv (readArgs b o)) = _
  rw [anyM_singleton, hst]

theorem isAllowed_sound_readBelowA :
    let policy : Policy := ⟨"", defaultVersion, [readBelowA [] nodup_nil]⟩
    policy.isAllowed plainEnv (readArgs "a" "x") = some true ∧
      policy.Sound plainEnv (readArgs "a" "x") := by
  refine ⟨?_, (Policy.isAllowed_sound_iff (by decide +kernel) rfl).mpr ?_⟩
  · rw [readBelowA_isAllowed]
    decide +kernel
  · rintro st hst (⟨hadmin, -⟩ | ⟨hkms, -⟩)
    · obtain rfl := mem_singleton.mp hst
      exact nomatch hadmin
    · obtain rfl := mem_singleton.mp hst
      exact nomatch hkms

theorem isAllowed_outside_resources :
    let policy : Policy :=
      ⟨"", defaultVersion, [readBelowA [.serverInfoAdminAction] (nodup_singleton _)]⟩
    policy.isValid = .ok () ∧ (readArgs "b" "x").isOwner = false ∧
      policy.isAllowed plainEnv (readArgs "b" "x") = some true ∧
      ¬policy.Sound plainEnv (readArgs "b" "x") := by
  have hallowed := readBelowA_isAllowed [.serverInfoAdminAction] (nodup_singleton _) "b" "x"
  rw [isEmpty_cons, Bool.not_false, Bool.or_true] at hallowed
  refine ⟨by decide +kernel, rfl, hallowed, ?_⟩
  rintro ⟨hsound, -⟩
  obtain ⟨st, hst, -, ⟨hres, -⟩, -⟩ := (hsound hallowed).1
  obtain rfl := mem_singleton.mp hst
  obtain ⟨r, hr, hcovers⟩ := hres.resolve_left Bool.false_ne_true
  obtain rfl := mem_singleton.mp hr
  rw [covers_readArgs (by decide)] at hcovers
  revert hcovers
  decide +kernel

end Rustfs.Iam
