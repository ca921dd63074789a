import Rustfs.Policy.Soundness
import Rustfs.Policy.StatementEq

/-! What a policy that is merged from others decides. -/
namespace Rustfs.Iam

open Trial KeepFirst Option Statement

variable {env : Env} {args : Args}

/-- Some statement with the effect applies to the request. -/
def SomeApplies (env : Env) (args : Args) (effect : Effect) (statements : List Statement) : Prop :=
  ∃ st ∈ statements, st.effect = effect ∧ st.check env args = some true

/-- What the statements say together. -/
def Allows (env : Env) (args : Args) (statements : List Statement) : Prop :=
  ¬SomeApplies env args .deny statements ∧
    (args.isOwner = true ∨ (args.denyOnly = false ∧ SomeApplies env args .allow statements))

namespace Policy

variable {p : Policy} {b : Bool}

variable {st : Statement}

theorem isAllowed_of_deny (h : st.effect = .deny) :
    st.isAllowed env args = (!·) <$> st.check env args := by
  rw [Statement.isAllowed, h]
  rfl

theorem isAllowed_of_allow (h : st.effect = .allow) :
    st.isAllowed env args = st.check env args := by
  rw [Statement.isAllowed, h]
  exact map_id_apply

theorem mem_denials : st ∈ p.denials ↔ st ∈ p.statements ∧ st.effect = .deny := by
  simp [denials]

theorem mem_grants : st ∈ p.grants ↔ st ∈ p.statements ∧ st.effect = .allow := by
  simp [grants]

/-- A decision begins with all denials, and ends there if one of them applies. -/
theorem denials_of_isAllowed (h : p.isAllowed env args = some b) :
    (SomeApplies env args .deny p.statements ∧ b = false) ∨
      (∀ st ∈ p.denials, st.check env args = some false) ∧
        some b = if args.isOwner then some true
          else if args.denyOnly then some false else p.grants.anyM (·.isAllowed env args) := by
  obtain ⟨passed, hpassed, h⟩ := bind_eq_some_iff.mp h
  cases passed with
  | false =>
    obtain ⟨st, hst, hdenied⟩ := exists_of_allM hpassed
    obtain ⟨hmem, heffect⟩ := mem_denials.mp hst
    rw [isAllowed_of_deny heffect] at hdenied
    obtain ⟨c, hc, hnot⟩ := map_eq_some_iff.mp hdenied
    have htrue : c = true := by simpa using hnot
    cases h
    exact .inl ⟨⟨st, hmem, heffect, htrue ▸ hc⟩, rfl⟩
  | true =>
    refine .inr ⟨?_, h.symm⟩
    intro st hst
    exact check_of_denial hst (allM_eq_true_iff.mp hpassed st hst)

/-- A decision says what the statements say together. -/
theorem isAllowed_spec (h : p.isAllowed env args = some b) :
    b = true ↔ Allows env args p.statements := by
  unfold Allows
  rcases denials_of_isAllowed h with ⟨hdeny, rfl⟩ | ⟨hdenials, hb⟩
  · simp [hdeny]
  · have hnone : ¬SomeApplies env args .deny p.statements := by
      rintro ⟨st, hst, heffect, hcheck⟩
      rw [hdenials st (mem_denials.mpr ⟨hst, heffect⟩)] at hcheck
      exact nomatch hcheck
    cases howner : args.isOwner with
    | true => simp_all
    | false =>
      cases hmode : args.denyOnly with
      | true => simp_all
      | false =>
        have hany : p.grants.anyM (·.isAllowed env args) = some b := by simp_all
        rw [anyM_spec hany]
        simp only [hnone, not_false_eq_true, Bool.false_eq_true, false_or, true_and]
        constructor
        · rintro ⟨st, hst, hallowed⟩
          obtain ⟨hmem, heffect⟩ := mem_grants.mp hst
          exact ⟨st, hmem, heffect, check_of_grant hst hallowed⟩
        · rintro ⟨st, hmem, heffect, hcheck⟩
          exact ⟨st, mem_grants.mpr ⟨hmem, heffect⟩, (isAllowed_of_allow heffect).trans hcheck⟩

theorem isAllowed_isSome (h : ∀ st ∈ p.statements, (st.check env args).isSome) :
    (p.isAllowed env args).isSome := by
  have hall : ∀ st ∈ p.statements, (st.isAllowed env args).isSome := by
    intro st hst
    simpa [Statement.isAllowed] using h st hst
  obtain ⟨passed, hpassed⟩ := isSome_iff_exists.mp
    (allM_isSome fun st hst => hall st (mem_denials.mp hst).1)
  unfold isAllowed
  rw [hpassed]
  cases passed with
  | false => rfl
  | true =>
    cases args.isOwner with
    | true => rfl
    | false =>
      cases args.denyOnly with
      | true => rfl
      | false => exact anyM_isSome fun st hst => hall st (mem_grants.mp hst).1

/-- All statements of the policies. -/
def statementsOf (inputs : List Policy) : List Statement := inputs.flatMap (·.statements)

/-- The first statement that equals it leaves the same resources out. -/
def Exposed (statements : List Statement) (t : Statement) : Prop :=
  ∀ s, statements.find? (·.eq t) = some s → s.notResources.eq t.notResources = true

/-- Some statement with the effect applies that none before it is wrongly taken for. -/
def SomeExposed (env : Env) (args : Args) (effect : Effect) (statements : List Statement) : Prop :=
  ∃ st ∈ statements, st.effect = effect ∧ Exposed statements st ∧ st.check env args = some true

variable {i : List Policy}

variable {effect : Effect}

theorem someExposed_of_merged (h : SomeApplies env args effect (mergePolicies i).statements) :
    SomeExposed env args effect (statementsOf i) := by
  obtain ⟨k, hk, heffect, hcheck⟩ := h
  refine ⟨k, mem_of_kept equiv hk, heffect, ?_, hcheck⟩
  intro s hs
  obtain rfl : k = s := some.inj ((find?_kept equiv hk).symm.trans hs)
  exact hashSet_equiv.refl _

/-- A statement that is exposed is not found to be without effect in the merged policy. -/
theorem merged_of_someExposed (h : SomeExposed env args effect (statementsOf i)) :
    ∃ k ∈ (mergePolicies i).statements, k.effect = effect ∧ k.check env args ≠ some false := by
  obtain ⟨t, ht, heffect, hexposed, hcheck⟩ := h
  obtain ⟨k, hk, hfind⟩ := kept_of_find? equiv ht
  have heq := List.find?_some hfind
  refine ⟨k, hk, ?_, ?_⟩
  · have hsame : k.effect = t.effect := by
      simp only [eq, Bool.and_eq_true, beq_iff_eq] at heq
      exact heq.1.1.1.1
    exact hsame.trans heffect
  · have hagree : Agree (k.check env args) (t.check env args) :=
      check_agree heq (hexposed k hfind)
    exact hagree.symm.ne_of_eq hcheck Bool.noConfusion

theorem someApplies_of_someExposed {ss : List Statement}
    (h : SomeExposed env args effect ss) : SomeApplies env args effect ss := by
  obtain ⟨t, ht, heffect, -, hcheck⟩ := h
  exact ⟨t, ht, heffect, hcheck⟩

/-- A merged policy decides what all statements say together exactly if those that are dropped for
an equal one with other resources left out do not matter: another one applies in their place, or
the request is decided without them. -/
theorem mergePolicies_decides_iff (inputs : List Policy) :
    (∀ b, (mergePolicies inputs).isAllowed env args = some b →
      ((b = true ↔ Allows env args (statementsOf inputs)) ↔
        (SomeApplies env args .deny (statementsOf inputs) →
          SomeExposed env args .deny (statementsOf inputs) ∨
          (args.isOwner = false ∧
            (args.denyOnly = true ∨ ¬SomeExposed env args .allow (statementsOf inputs)))) ∧
        (SomeApplies env args .allow (statementsOf inputs) →
          SomeExposed env args .allow (statementsOf inputs) ∨ args.isOwner = true ∨
          args.denyOnly = true ∨ SomeApplies env args .deny (statementsOf inputs)))) ∧
    ((∀ st ∈ statementsOf inputs, (st.check env args).isSome) →
      ((mergePolicies inputs).isAllowed env args).isSome) := by
  constructor
  · intro b hb
    have hsome : ∀ effect, SomeExposed env args effect (statementsOf inputs) →
        SomeApplies env args effect (statementsOf inputs) :=
      fun _ => someApplies_of_someExposed
    rcases denials_of_isAllowed hb with ⟨happlies, rfl⟩ | ⟨hdenials, hrest⟩
    · have hexposed := someExposed_of_merged happlies
      have hall := hsome _ hexposed
      unfold Allows
      tauto
    · have hnone : ¬SomeExposed env args .deny (statementsOf inputs) := by
        intro h
        obtain ⟨k, hk, heffect, hne⟩ := merged_of_someExposed h
        exact hne (hdenials k (mem_denials.mpr ⟨hk, heffect⟩))
      unfold Allows
      cases howner : args.isOwner with
      | true =>
        obtain rfl : b = true := by simpa [howner] using hrest
        simp [hnone]
      | false =>
        cases hmode : args.denyOnly with
        | true =>
          obtain rfl : b = false := by simpa [howner, hmode] using hrest
          simp
        | false =>
          have hany : (mergePolicies inputs).grants.anyM (·.isAllowed env args) = some b := by
            simpa [howner, hmode] using hrest.symm
          have hgranted : b = true ↔ SomeExposed env args .allow (statementsOf inputs) := by
            constructor
            · rintro rfl
              obtain ⟨st, hst, hgrant⟩ := exists_of_anyM hany
              obtain ⟨hmem, heffect⟩ := mem_grants.mp hst
              exact someExposed_of_merged ⟨st, hmem, heffect, check_of_grant hst hgrant⟩
            · intro h
              obtain ⟨k, hk, heffect, hne⟩ := merged_of_someExposed h
              by_contra hfalse
              rw [Bool.not_eq_true] at hfalse
              subst hfalse
              have hk' := anyM_eq_false_iff.mp hany k (mem_grants.mpr ⟨hk, heffect⟩)
              exact hne ((isAllowed_of_allow heffect).symm.trans hk')
          have happlies := hsome .allow
          rw [hgranted]
          simp only [hnone, Bool.false_eq_true, false_or, true_and]
          tauto
  · intro h
    exact isAllowed_isSome fun st hst => h st (mem_of_kept equiv hst)

end Policy

/-- Everything is granted. -/
def grantAll : Statement where
  sid := ""
  effect := .allow
  actions := ⟨[.s3Action .allActions], allActions_nodup⟩
  notActions := ⟨[], List.nodup_nil⟩
  resources := ⟨[.s3 "*"], allResources_nodup⟩
  notResources := ⟨[], List.nodup_nil⟩
  conditions := Functions.empty

/-- Reading is denied but for what matches the pattern. -/
def denyOutside (pattern : String) : Statement where
  sid := ""
  effect := .deny
  actions := ⟨[.s3Action .getObjectAction], List.nodup_singleton _⟩
  notActions := ⟨[], List.nodup_nil⟩
  resources := ⟨[], List.nodup_nil⟩
  notResources := ⟨[.s3 pattern], List.nodup_singleton _⟩
  conditions := Functions.empty

theorem grantAll_check (b o : String) : grantAll.check plainEnv (readArgs b o) = some true := by
  have hout : grantAll.outsideResources plainEnv (readArgs b o) = some false := by
    change (!·) <$> [Resource.s3 "*"].anyM (Statement.Covers plainEnv (readArgs b o)) = _
    rw [anyM_singleton, covers_readArgs (by decide)]
    have hmatch : matchesPattern ∅ (resourceName b o) "*" = true := by
      have hstar : substituteAll ∅ "*" = "*" := by decide +kernel
      simp [matchesPattern, hstar, isMatch, innerMatch]
    rw [hmatch]
    rfl
  have hact : grantAll.actions.isMatch (readArgs b o).action = true := by
    change ActionSet.isMatch _ (.s3Action .getObjectAction) = true
    decide +kernel
  simp only [check, hact, checkResources, hout]
  rfl

theorem denyOutside_check {p : String} (h : beforeVariable p.toList = none) (b o : String) :
    (denyOutside p).check plainEnv (readArgs b o) =
      some !matchesPattern ∅ (resourceName b o) p := by
  have hin : (denyOutside p).inNotResources plainEnv (readArgs b o) =
      some (matchesPattern ∅ (resourceName b o) p) := by
    change [Resource.s3 p].anyM (Statement.Covers plainEnv (readArgs b o)) = _
    rw [anyM_singleton, covers_readArgs h]
  have hact : (denyOutside p).actions.isMatch (readArgs b o).action = true := by
    change ActionSet.isMatch ⟨[.s3Action .getObjectAction], _⟩ (.s3Action .getObjectAction) = true
    decide +kernel
  have hout : (denyOutside p).outsideResources plainEnv (readArgs b o) = some false := rfl
  simp only [check, hact, checkResources, hout, hin]
  cases matchesPattern ∅ (resourceName b o) p <;> rfl

/-- A policy that grants all but reading outside of `a`. -/
def insideA : Policy := ⟨"", defaultVersion, [grantAll, denyOutside "a/*"]⟩

/-- A policy that denies reading outside of `b`. -/
def insideB : Policy := ⟨"", defaultVersion, [denyOutside "b/*"]⟩

theorem insideA_isAllowed : insideA.isAllowed plainEnv (readArgs "a" "x") = some true := by
  have hdeny : (denyOutside "a/*").isAllowed plainEnv (readArgs "a" "x") = some true := by
    rw [Policy.isAllowed_of_deny rfl, denyOutside_check (by decide)]
    decide +kernel
  have hgrant : grantAll.isAllowed plainEnv (readArgs "a" "x") = some true := by
    rw [Policy.isAllowed_of_allow rfl, grantAll_check]
  have hdenials : insideA.denials = [denyOutside "a/*"] := rfl
  have hgrants : insideA.grants = [grantAll] := rfl
  rw [Policy.isAllowed, hdenials, hgrants, List.allM_cons, hdeny, anyM_singleton, hgrant]
  rfl

/-- The same policy twice decides as once. -/
theorem mergePolicies_decides_twice :
    Allows plainEnv (readArgs "a" "x") (Policy.statementsOf [insideA, insideA]) := by
  have hdecides := (Policy.mergePolicies_decides_iff [insideA, insideA]).1 true insideA_isAllowed
  refine (hdecides.mpr ⟨?_, fun _ => .inl ⟨grantAll, List.mem_cons_self, rfl, ?_,
    grantAll_check _ _⟩⟩).mp rfl
  · rintro ⟨st, hst, heffect, hcheck⟩
    have hcases : st = grantAll ∨ st = denyOutside "a/*" := by
      have hmem : st = grantAll ∨ st = denyOutside "a/*" ∨ st = grantAll ∨
          st = denyOutside "a/*" := by simpa [Policy.statementsOf, insideA] using hst
      tauto
    rcases hcases with rfl | rfl
    · exact nomatch heffect
    · rw [denyOutside_check (by decide)] at hcheck
      exact absurd hcheck (by decide +kernel)
  · intro s hs
    obtain rfl : grantAll = s := some.inj hs
    rfl

/-- The denial of the second policy is taken for that of the first, and dropped. -/
theorem mergePolicies_drops_denial :
    (∀ p ∈ [insideA, insideB], p.isValid = .ok ()) ∧
      (Policy.mergePolicies [insideA, insideB]).isAllowed plainEnv (readArgs "a" "x") = some true ∧
      ¬Allows plainEnv (readArgs "a" "x") (Policy.statementsOf [insideA, insideB]) := by
  refine ⟨by decide +kernel, insideA_isAllowed, ?_⟩
  rintro ⟨hnone, -⟩
  refine hnone ⟨denyOutside "b/*", by simp [Policy.statementsOf, insideB], rfl, ?_⟩
  rw [denyOutside_check (by decide)]
  decide +kernel

/-- More grants and fewer denials, in whatever order, never turn a policy against a request. -/
theorem Policy.isAllowed_mono {p q : Policy} {b : Bool}
    (hgrants : ∀ st ∈ p.statements, st.effect = .allow → st ∈ q.statements)
    (hdenials : ∀ st ∈ q.statements, st.effect = .deny → st ∈ p.statements)
    (hp : p.isAllowed env args = some true) (hq : q.isAllowed env args = some b) : b = true := by
  obtain ⟨hdeny, hallow⟩ := (isAllowed_spec hp).mp rfl
  refine (isAllowed_spec hq).mpr ⟨?_, hallow.imp_right (And.imp_right ?_)⟩
  · rintro ⟨st, hst, heffect, hcheck⟩
    exact hdeny ⟨st, hdenials st hst heffect, heffect, hcheck⟩
  · rintro ⟨st, hst, heffect, hcheck⟩
    exact ⟨st, hgrants st hst heffect, heffect, hcheck⟩

theorem isAllowed_mono_reversed : ∃ b, b = true ∧ Policy.isAllowed
    ⟨"", defaultVersion, [denyOutside "a/*", grantAll]⟩ plainEnv (readArgs "a" "x") = some b :=
  ⟨true, Policy.isAllowed_mono (p := insideA) (by simp [insideA]) (by simp [insideA])
    insideA_isAllowed insideA_isAllowed, insideA_isAllowed⟩

end Rustfs.Iam
