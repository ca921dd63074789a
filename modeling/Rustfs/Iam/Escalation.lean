import Rustfs.Iam.Sys
import Rustfs.Policy.Soundness

/-! Temporary and service account credentials have no more rights than what stands behind them. -/
namespace Rustfs.Iam

open Option Statement AList VariableResolver Value

namespace Args

/-- The request with other claims. -/
def withClaims (args : Args) (claims : Claims) : Args := { args with claims := claims }

/-- The request without the session policy among its claims. -/
def withoutSessionPolicy (args : Args) : Args :=
  args.withClaims (args.claims.erase sessionPolicyNameExtracted)

end Args

/-- Two sets of claims agree on what the evaluation of a policy reads. -/
structure SameIdentity (claims claims' : Claims) : Prop where
  sub : claims'.lookup "sub" = claims.lookup "sub"
  parent : claims'.lookup "parent" = claims.lookup "parent"
  roleArn : claims'.lookup "roleArn" = claims.lookup "roleArn"
  saPolicy : claims'.lookup "sa-policy" = claims.lookup "sa-policy"

section

variable {env : Env} {a : Args} {claims : Claims}

section

variable (h : SameIdentity a.claims claims)
include h

theorem newResolver_congr (c : Clock) (ctx : VariableContext) :
    new c { ctx with claims := some claims } =
      new c { ctx with claims := some a.claims } := by
  have huserid : useridValues { ctx with claims := some claims } =
      useridValues { ctx with claims := some a.claims } := by
    simp only [useridValues, getClaimAsStrings, bind_some, h.sub, h.parent]
  have htype : resolvePrincipalType { ctx with claims := some claims } =
      resolvePrincipalType { ctx with claims := some a.claims } := by
    simp only [resolvePrincipalType, h.roleArn, h.parent, h.saPolicy]
  rw [new, new, PolicyVariableResolver.mk.injEq]
  refine ⟨funext fun name => ?_, rfl⟩
  rw [huserid, resolve, resolve, huserid, htype]
  rfl

theorem resolver_withClaims : resolver env (a.withClaims claims) = resolver env a := by
  have hparent : (a.withClaims claims).claims.lookup "parent" = a.claims.lookup "parent" :=
    h.parent
  rw [resolver, resolver, hparent]
  exact newResolver_congr h env.toClock { VariableContext.new with
      accountId := some a.account
      username := some (((a.claims.lookup "parent").bind asStr).getD a.account) }

theorem check_withClaims (st : Statement) :
    st.check env (a.withClaims claims) = st.check env a := by
  have hres : resolver env (a.withClaims claims) = resolver env a :=
    resolver_withClaims h
  simp only [check, checkResources, outsideResources, inNotResources, conditionsHold, hres]
  rfl

/-- A policy says the same of a request with other claims that it does not read. -/
theorem isAllowed_withClaims (p : Policy) :
    p.isAllowed env (a.withClaims claims) = p.isAllowed env a := by
  have hst : (isAllowed · env (a.withClaims claims)) = (isAllowed · env a) := by
    funext st
    rw [isAllowed, isAllowed, check_withClaims h]
  rw [Policy.isAllowed, Policy.isAllowed, hst]
  rfl

end

theorem sameIdentity_erase (cs : Claims) :
    SameIdentity cs (cs.erase sessionPolicyNameExtracted) where
  sub := lookup_erase_ne (by decide)
  parent := lookup_erase_ne (by decide)
  roleArn := lookup_erase_ne (by decide)
  saPolicy := lookup_erase_ne (by decide)

end

namespace IamSys

section

variable (self : IamSys) (args : Args)

/-- The policies of those names allow the request together. -/
def CombinedAllow (policies : List String) : Prop :=
  ∃ combined, self.combine policies = .policy combined ∧
    combined.isAllowed self.env args = some true

variable (u : Credentials)

/-- What stands behind the account allows the request: the policies of its role if its claims name
one, or else those of its parent. A service account asks in the name of its parent. -/
def PoliciesAllow : Prop :=
  if u.isTemp self.now then
    ∃ policies, self.stsPolicies args u.parentUser = some policies ∧ self.CombinedAllow args policies
  else
    ∃ policies, self.svcPolicies args u.parentUser = some policies ∧
      self.CombinedAllow { args with account := u.parentUser } policies

/-- No policy stands behind a temporary account, and the default policies named in its claims allow
the request. -/
def ClaimAllows : Prop :=
  u.isTemp self.now = true ∧ self.stsPolicies args u.parentUser = some [] ∧
    (Policy.mergePolicies (claimPolicies args)).isAllowed self.env args = some true

/-- The session policy of the claims. -/
def sessionPolicy : Option Policy :=
  ((args.claims.lookup sessionPolicyNameExtracted).bind Value.asStr).bind self.parseConfig

def SessionAllows : Prop :=
  ∃ policy, self.sessionPolicy args = some policy ∧
    policy.isAllowed self.env { args with isOwner := false } = some true

/-- A service account that has its parent's rights, or a session policy with nothing in it. -/
def SkipsSession : Prop :=
  u.isTemp self.now = false ∧
    ((args.claims.lookup Credentials.iamPolicyClaimNameSa).bind Value.asStr =
        some inheritedPolicyType ∨ self.sessionPolicy args = some Policy.default)

end

section

variable {self : IamSys} {args : Args} {session : Option (Bool × Bool)} {d : Option Bool}

theorem restrict_eq_true (h : restrict session d = some true) :
    d = some true ∧ ∃ has allowed, session = some (has, allowed) ∧
      (has = true → allowed = true) := by
  rw [restrict] at h
  obtain ⟨⟨has, allowed⟩, hsession, h⟩ := bind_eq_some_iff.mp h
  cases has with
  | false => exact ⟨h, false, allowed, hsession, nofun⟩
  | true =>
    cases allowed with
    | false => exact nomatch h
    | true => exact ⟨h, true, true, hsession, fun _ => rfl⟩

theorem parseConfig_of_claim {v : Value}
    (h : args.claims.lookup sessionPolicyNameExtracted = some v) :
    v.asStr.bind self.parseConfig = self.sessionPolicy args := by
  rw [sessionPolicy, h, bind_some]

variable {has a : Bool}

theorem sessionAllows_of_map {p : Policy} (hparse : self.sessionPolicy args = some p)
    (h : (true, ·) <$> p.isAllowed self.env { args with isOwner := false } =
      some (has, a)) (himp : has = true → a = true) : self.SessionAllows args := by
  obtain ⟨b, hallowed, hpair⟩ := map_eq_some_iff.mp h
  cases hpair
  obtain rfl := himp rfl
  exact ⟨p, hparse, hallowed⟩

variable (hclaim : (args.claims.lookup sessionPolicyNameExtracted).isSome)
include hclaim

theorem sessionAllows_of_sts (h : self.isAllowedBySessionPolicy args = some (has, a))
    (himp : has = true → a = true) : self.SessionAllows args := by
  obtain ⟨v, hv⟩ := isSome_iff_exists.mp hclaim
  simp only [isAllowedBySessionPolicy, hv, parseConfig_of_claim hv] at h
  cases hparse : self.sessionPolicy args with
  | none =>
    rw [hparse] at h
    cases h
    exact nomatch himp rfl
  | some policy =>
    rw [hparse] at h
    dsimp only at h
    split at h
    · cases h
      exact nomatch himp rfl
    · exact sessionAllows_of_map hparse h himp

theorem sessionAllows_of_serviceAccount
    (h : self.isAllowedBySessionPolicyForServiceAccount args = some (has, a))
    (himp : has = true → a = true) :
    self.SessionAllows args ∨ self.sessionPolicy args = some Policy.default := by
  obtain ⟨v, hv⟩ := isSome_iff_exists.mp hclaim
  simp only [isAllowedBySessionPolicyForServiceAccount, hv, parseConfig_of_claim hv] at h
  cases hparse : self.sessionPolicy args with
  | none =>
    rw [hparse] at h
    cases h
    exact nomatch himp rfl
  | some policy =>
    rw [hparse] at h
    dsimp only at h
    split at h
    case isTrue hempty =>
      obtain ⟨hversion, hstatements, hid⟩ := hempty
      obtain ⟨id, version, statements⟩ := policy
      obtain rfl : statements = [] := List.isEmpty_iff.mp hstatements
      subst hversion hid
      exact .inr rfl
    case isFalse => exact .inl (sessionAllows_of_map hparse h himp)

end

section

variable {self : IamSys} {a : Args} {pu : String} {u : Credentials}

theorem combinedAllow_of_isAllowed {ps : List String}
    (h : (self.combine ps).isAllowed self.env a = some true) : self.CombinedAllow a ps := by
  unfold combine at h
  dsimp only at h
  split_ifs at h with hne
  · exact nomatch h
  · exact ⟨_, if_neg hne, h⟩

theorem isAllowedSts_eq_true (h : self.isAllowedSts a pu = some true) :
    self.stsBehind a pu ≠ .denied ∧
      restrict (self.isAllowedBySessionPolicy a)
        ((self.stsBehind a pu).isAllowed self.env a) = some true := by
  rw [isAllowedSts] at h
  cases hbehind : self.stsBehind a pu with
  | denied => simp [hbehind] at h
  | owner | policy combined => exact ⟨nofun, by simpa [hbehind] using h⟩

/-- What stands behind a temporary account. -/
theorem stsBehind_allows (htemp : u.isTemp self.now = true)
    (h : (self.stsBehind a u.parentUser).isAllowed self.env a = some true) :
    self.isOwner u.parentUser = true ∨ self.PoliciesAllow a u ∨ self.ClaimAllows a u := by
  rw [stsBehind] at h
  by_cases howner : self.isOwner u.parentUser = true
  · exact .inl howner
  rw [if_neg howner] at h
  right
  rw [PoliciesAllow, if_pos htemp]
  cases hpolicies : self.stsPolicies a u.parentUser with
  | none => simp [hpolicies, Behind.isAllowed] at h
  | some policies =>
    cases policies with
    | nil =>
      right
      refine ⟨htemp, hpolicies, ?_⟩
      rw [hpolicies] at h
      cases hclaim : claimPolicies a with
      | nil =>
        rw [hclaim] at h
        exact nomatch h
      | cons p ps =>
        rw [hclaim] at h
        exact h
    | cons p ps =>
      left
      rw [hpolicies] at h
      exact ⟨p :: ps, rfl, combinedAllow_of_isAllowed h⟩

theorem svcBehind_allows (htemp : u.isTemp self.now = false)
    (h : (self.svcBehind a u.parentUser).isAllowed self.env
      { a with account := u.parentUser } = some true) :
    self.isOwner u.parentUser = true ∨ self.PoliciesAllow a u := by
  rw [svcBehind] at h
  by_cases howner : self.isOwner u.parentUser = true
  · exact .inl howner
  rw [if_neg howner] at h
  right
  rw [PoliciesAllow, htemp, if_neg Bool.false_ne_true]
  cases hpolicies : self.svcPolicies a u.parentUser with
  | none => simp [hpolicies, Behind.isAllowed] at h
  | some policies =>
    cases policies with
    | nil => simp [hpolicies, Behind.isAllowed] at h
    | cons p ps =>
      rw [hpolicies] at h
      exact ⟨p :: ps, rfl, combinedAllow_of_isAllowed h⟩

/-- What a service account needs, and that its session policy is asked if it is not skipped. -/
theorem isAllowedServiceAccount_eq_true
    (h : self.isAllowedServiceAccount a pu = some true) :
    (a.claims.lookup "parent").bind asStr = some pu ∧
      (self.svcBehind a pu).isAllowed self.env { a with account := pu } =
        some true ∧
      ∃ sa, (a.claims.lookup Credentials.iamPolicyClaimNameSa).bind asStr = some sa ∧
        (sa ≠ inheritedPolicyType → ∃ has allowed,
          self.isAllowedBySessionPolicyForServiceAccount a = some (has, allowed) ∧
            (has = true → allowed = true)) := by
  rw [isAllowedServiceAccount] at h
  by_cases hparent : (a.claims.lookup "parent").bind asStr ≠ some pu
  · rw [if_pos hparent] at h
    exact nomatch h
  rw [if_neg hparent] at h
  refine ⟨not_not.mp hparent, ?_⟩
  generalize hbehind : self.svcBehind a pu = behind at h
  cases hsa : (a.claims.lookup Credentials.iamPolicyClaimNameSa).bind asStr with
  | none =>
    rw [hsa] at h
    cases behind <;> exact nomatch h
  | some sa =>
    have hdecided : (if sa = inheritedPolicyType then
        behind.isAllowed self.env { a with account := pu }
        else restrict (self.isAllowedBySessionPolicyForServiceAccount a)
          (behind.isAllowed self.env { a with account := pu })) = some true := by
      rw [hsa] at h
      cases behind with
      | denied => exact nomatch h
      | owner => exact h
      | policy combined => exact h
    split at hdecided
    case isTrue hsame => exact ⟨hdecided, sa, rfl, fun hne => absurd hsame hne⟩
    case isFalse =>
      obtain ⟨hallowed, has, allowed, hsession, himp⟩ := restrict_eq_true hdecided
      exact ⟨hallowed, sa, rfl, fun _ => ⟨has, allowed, hsession, himp⟩⟩

end

section

variable {self : IamSys} {a : Args} {p : String}

variable (a) in
theorem lookup_withoutSessionPolicy {key : String} (h : key ≠ sessionPolicyNameExtracted) :
    a.withoutSessionPolicy.claims.lookup key = a.claims.lookup key :=
  lookup_erase_ne h

variable (a) in
theorem lookup_sessionPolicy_withoutSessionPolicy :
    a.withoutSessionPolicy.claims.lookup sessionPolicyNameExtracted = none :=
  lookup_erase _ _

theorem behind_withoutSessionPolicy (b : Behind) :
    b.isAllowed self.env a.withoutSessionPolicy = b.isAllowed self.env a := by
  cases b with
  | denied | owner => rfl
  | policy combined => exact isAllowed_withClaims (sameIdentity_erase _) combined

variable (a) in
theorem getRoleArn_withoutSessionPolicy : getRoleArn a.withoutSessionPolicy = getRoleArn a := by
  rw [getRoleArn, getRoleArn, lookup_withoutSessionPolicy a (by decide)]

theorem stsBehind_withoutSessionPolicy :
    self.stsBehind a.withoutSessionPolicy p = self.stsBehind a p := by
  have hclaims : claimPolicies a.withoutSessionPolicy = claimPolicies a := by
    rw [claimPolicies, claimPolicies, lookup_withoutSessionPolicy a (by decide)]
  have hpolicies : self.stsPolicies a.withoutSessionPolicy p = self.stsPolicies a p := by
    rw [stsPolicies, stsPolicies, getRoleArn_withoutSessionPolicy]
    rfl
  rw [stsBehind, stsBehind, hpolicies, hclaims]

theorem svcBehind_withoutSessionPolicy :
    self.svcBehind a.withoutSessionPolicy p = self.svcBehind a p := by
  have hpolicies : self.svcPolicies a.withoutSessionPolicy p = self.svcPolicies a p := by
    rw [svcPolicies, svcPolicies, getRoleArn_withoutSessionPolicy]
    rfl
  rw [svcBehind, svcBehind, hpolicies]

/-- A session policy takes rights from a temporary account and gives it none. -/
theorem isAllowedSts_withoutSessionPolicy (h : self.isAllowedSts a p = some true) :
    self.isAllowedSts a.withoutSessionPolicy p = some true := by
  obtain ⟨hdenied, hrestrict⟩ := isAllowedSts_eq_true h
  obtain ⟨hallowed, -⟩ := restrict_eq_true hrestrict
  have hnone : self.isAllowedBySessionPolicy a.withoutSessionPolicy = some (false, false) := by
    rw [isAllowedBySessionPolicy, lookup_sessionPolicy_withoutSessionPolicy]
  rw [isAllowedSts, stsBehind_withoutSessionPolicy, hnone]
  cases hbehind : self.stsBehind a p with
  | denied => exact absurd hbehind hdenied
  | owner => rfl
  | policy combined =>
    change (Behind.policy combined).isAllowed self.env a.withoutSessionPolicy = some true
    rw [behind_withoutSessionPolicy, ← hbehind]
    exact hallowed

theorem isAllowedServiceAccount_withoutSessionPolicy
    (h : self.isAllowedServiceAccount a p = some true) :
    self.isAllowedServiceAccount a.withoutSessionPolicy p = some true := by
  obtain ⟨hparent, hallowed, sa, hsa, -⟩ := isAllowedServiceAccount_eq_true h
  have hnone : self.isAllowedBySessionPolicyForServiceAccount a.withoutSessionPolicy =
      some (false, false) := by
    rw [isAllowedBySessionPolicyForServiceAccount, lookup_sessionPolicy_withoutSessionPolicy]
  have hparent' : ¬(a.withoutSessionPolicy.claims.lookup "parent").bind asStr ≠ some p := by
    rw [lookup_withoutSessionPolicy a (by decide), hparent]
    exact not_not.mpr rfl
  have hdecision (behind : Behind) :
      behind.isAllowed self.env { a.withoutSessionPolicy with account := p } =
        behind.isAllowed self.env { a with account := p } := by
    have hargs : { a.withoutSessionPolicy with account := p } =
        Args.withoutSessionPolicy { a with account := p } := rfl
    rw [hargs, behind_withoutSessionPolicy]
  rw [isAllowedServiceAccount, if_neg hparent', svcBehind_withoutSessionPolicy, hnone,
    lookup_withoutSessionPolicy a (by decide), hsa]
  generalize self.svcBehind a p = behind at hallowed
  have hboth : (if sa = inheritedPolicyType then
      behind.isAllowed self.env { a.withoutSessionPolicy with account := p }
      else restrict (some (false, false))
        (behind.isAllowed self.env { a.withoutSessionPolicy with account := p })) =
      some true := by
    rw [hdecision, hallowed]
    split <;> rfl
  cases behind with
  | denied => exact nomatch hallowed
  | owner | policy combined => exact hboth

end

section

variable (self : IamSys) (args : Args) (u : Credentials)

/-- A request of temporary or service account credentials is granted by what stands behind them and
by their session policy, and would be without the session policy. The request is marked as the
owner's only if the parent is the owner and there is no session policy. -/
theorem isAllowed_bounded (hu : self.store.getUser args.account = some u)
    (hkind : u.isTemp self.now = true ∨ u.isServiceAccount = true)
    (hplugin : self.policyPluginClient = none)
    (hmark : args.isOwner = true → self.isOwner u.parentUser = true ∧
      args.claims.lookup sessionPolicyNameExtracted = none)
    (h : self.isAllowed args = some true) :
    (self.isOwner u.parentUser = true ∨ self.PoliciesAllow args u ∨ self.ClaimAllows args u) ∧
      ((args.claims.lookup sessionPolicyNameExtracted).isSome →
        self.SessionAllows args ∨ self.SkipsSession args u) ∧
      self.isAllowed args.withoutSessionPolicy = some true := by
  have haccount : self.store.getUser args.withoutSessionPolicy.account = some u := hu
  by_cases howner : args.isOwner = true
  · have howner' : args.withoutSessionPolicy.isOwner = true := howner
    obtain ⟨hparent, hnone⟩ := hmark howner
    exact ⟨.inl hparent, by simp [hnone], by rw [isAllowed, if_pos howner']⟩
  have howner' : ¬args.withoutSessionPolicy.isOwner = true := howner
  rw [isAllowed, if_neg howner, hplugin, hu] at h
  rw [isAllowed, if_neg howner', hplugin, haccount]
  dsimp only at h ⊢
  by_cases htemp : u.isTemp self.now = true
  · rw [if_pos htemp] at h ⊢
    obtain ⟨-, hrestrict⟩ := isAllowedSts_eq_true h
    obtain ⟨hallowed, has, allowed, hsession, himp⟩ := restrict_eq_true hrestrict
    exact ⟨stsBehind_allows htemp hallowed,
      fun hclaim => .inl (sessionAllows_of_sts hclaim hsession himp),
      isAllowedSts_withoutSessionPolicy h⟩
  · have hsvc : u.isServiceAccount = true := hkind.resolve_left htemp
    have hnot : u.isTemp self.now = false := (Bool.not_eq_true _).mp htemp
    rw [if_neg htemp, if_pos hsvc] at h ⊢
    obtain ⟨-, hallowed, sa, hsa, hsession⟩ := isAllowedServiceAccount_eq_true h
    refine ⟨(svcBehind_allows hnot hallowed).imp_right .inl, fun hclaim => ?_,
      isAllowedServiceAccount_withoutSessionPolicy h⟩
    by_cases hinherited : sa = inheritedPolicyType
    · exact .inr ⟨hnot, .inl (hinherited ▸ hsa)⟩
    · obtain ⟨has, allowed, hsession, himp⟩ := hsession hinherited
      exact (sessionAllows_of_serviceAccount hclaim hsession himp).imp_right
        fun hempty => ⟨hnot, .inr hempty⟩

end

end IamSys

/-- An account of `user`, which is temporary if it has a token. -/
def accountOf (token : String) : Credentials where
  accessKey := "key"
  secretKey := "12345678"
  sessionToken := token
  expiration := none
  status := "on"
  parentUser := "user"
  groups := none
  claims := some (AList.singleton "sa-policy" (.string "embedded-policy"))

/-- A server with the account `key` of `user`, who may do what `policies` say. -/
def serverOf (token policies : String) : IamSys where
  env := plainEnv
  now := 0
  store :=
    { cache :=
        { policyDocs := AList.singleton "readwrite" readwritePolicy
          users := (AList.singleton "key" (accountOf token)).insert "user"
            { accountOf "" with accessKey := "user", parentUser := "", claims := none }
          userPolicies := AList.singleton "user" ⟨policies⟩
          stsAccounts := ∅
          stsPolicies := ∅
          groups := ∅
          userGroupMemberships := ∅
          groupPolicies := ∅ }
      api :=
        { loadGroup := fun _ => .error .other
          loadMappedPolicy := fun _ _ _ => .error .noSuchPolicy
          loadPolicyDoc := fun _ => .error .noSuchPolicy }
      nameOrder := .insertion
      docOrder := .insertion }
  rolesMap := ∅
  globalActionCred := some "root"
  policyPluginClient := none
  deserializePolicy := fun text =>
    if text = "everything" then some readwritePolicy
    else if text = "nothing" then some ⟨"", defaultVersion, []⟩
    else if text = "empty" then some Policy.default
    else none

/-- The account `key` asks to read an object. -/
def keyArgs (claims : Claims) : Args :=
  { (readArgs "a" "x").withClaims claims with account := "key" }

theorem isAllowed_bounded_temp :
    let sys := serverOf "token" "readwrite"
    let args := keyArgs (singleton sessionPolicyNameExtracted (.string "everything"))
    sys.isAllowed args = some true ∧
      (sys.isOwner "user" = true ∨ sys.PoliciesAllow args (accountOf "token") ∨
        sys.ClaimAllows args (accountOf "token")) ∧
      ((args.claims.lookup sessionPolicyNameExtracted).isSome →
        sys.SessionAllows args ∨ sys.SkipsSession args (accountOf "token")) ∧
      sys.isAllowed args.withoutSessionPolicy = some true := by
  have h : (serverOf "token" "readwrite").isAllowed
      (keyArgs (singleton sessionPolicyNameExtracted (.string "everything"))) =
        some true := by decide +kernel
  exact ⟨h, IamSys.isAllowed_bounded _ _ (accountOf "token") rfl (.inl (by decide)) rfl nofun h⟩

/-- Nothing stands behind the account but a policy named in its claims; a session policy that allows
nothing is not asked, because the account is marked as having its parent's rights, or because it is
empty; a policy service decides. -/
theorem isAllowed_beyond_parent :
    let named := keyArgs (singleton "policy" (.string "readwrite"))
    let svc (type policy : String) := keyArgs
      (((singleton "parent" (.string "user")).insert "sa-policy" (.string type)).insert
        sessionPolicyNameExtracted (.string policy))
    ((serverOf "token" "").isAllowed named = some true ∧
        (serverOf "token" "").stsPolicies named "user" = some []) ∧
      ((serverOf "" "readwrite").isAllowed (svc "inherited-policy" "nothing") = some true ∧
        (serverOf "" "readwrite").isAllowedBySessionPolicyForServiceAccount
          (svc "inherited-policy" "nothing") = some (true, false)) ∧
      ((serverOf "" "readwrite").isAllowed (svc "embedded-policy" "empty") = some true ∧
        Policy.default.isAllowed plainEnv (svc "embedded-policy" "empty") = some false) ∧
      ({ serverOf "token" "" with policyPluginClient := some fun _ => true } : IamSys).isAllowed
        (keyArgs ∅) = some true := by
  decide +kernel

end Rustfs.Iam
