import Rustfs.Iam.Escalation
import Rustfs.Policy.Merge
import Rustfs.Storage.Access

/-! A request that is let through is granted by someone and denied by no one. -/
namespace Rustfs.Iam

open Option BucketPolicy

namespace IamSys

variable {self : IamSys} {a : Args}

/-- The policies that an account is judged by, and the request as they are asked about it. -/
def judgedBy (self : IamSys) (args : Args) : Option (Policy × Args) :=
  match self.policyPluginClient, self.store.getUser args.account with
  | none, some u =>
    if u.isTemp self.now then
      match self.stsBehind args u.parentUser with
      | .policy combined => some (combined, args)
      | .denied | .owner => none
    else if u.isServiceAccount then
      match self.svcBehind args u.parentUser with
      | .policy combined => some (combined, { args with account := u.parentUser })
      | .denied | .owner => none
    else
      match self.store.policyDbGet self.now args.account args.groups with
      | .error _ | .ok [] => none
      | .ok policies =>
        some ((self.store.mergePolicies (String.intercalate "," policies)).2, args)
  | _, _ => none

/-- The session policy of the claims is one of the account's own: the account is temporary, or a
service account that does not just inherit its parent's rights. -/
def AsksSession (self : IamSys) (args : Args) : Prop :=
  self.policyPluginClient = none ∧ ∃ u, self.store.getUser args.account = some u ∧
    (u.isTemp self.now = true ∨ u.isServiceAccount = true ∧
      (args.claims.lookup Credentials.iamPolicyClaimNameSa).bind Value.asStr ≠
        some inheritedPolicyType)

def SessionDenies (self : IamSys) (args : Args) : Prop :=
  self.AsksSession args ∧ ∃ policy, self.sessionPolicy args = some policy ∧
    SomeApplies self.env { args with isOwner := false } .deny policy.statements

/-- A denial among the policies of the account, or in its session policy, applies to the request. -/
def Denies (self : IamSys) (args : Args) : Prop :=
  (∃ combined asked, self.judgedBy args = some (combined, asked) ∧
    SomeApplies self.env asked .deny combined.statements) ∨ self.SessionDenies args

theorem not_denies_of_policy {c : Policy} (h : c.isAllowed self.env a = some true) :
    ¬SomeApplies self.env a .deny c.statements :=
  ((Policy.isAllowed_spec h).mp rfl).1

/-- What the account's policies deny is not allowed, -/
theorem not_denies_of_judged (howner : a.isOwner = false) (h : self.isAllowed a = some true)
    {combined : Policy} {asked : Args} (hjudged : self.judgedBy a = some (combined, asked)) :
    ¬SomeApplies self.env asked .deny combined.statements := by
  intro hdeny
  rw [isAllowed, howner, if_neg Bool.false_ne_true] at h
  rw [judgedBy] at hjudged
  cases hplugin : self.policyPluginClient with
  | some opa =>
    rw [hplugin] at hjudged
    cases hjudged
  | none =>
    cases hu : self.store.getUser a.account with
    | none =>
      rw [hu, hplugin] at hjudged
      cases hjudged
    | some u =>
      rw [hplugin, hu] at h hjudged
      dsimp only at h hjudged
      split at h
      case isTrue htemp =>
        rw [if_pos htemp] at hjudged
        have hallowed := (restrict_eq_true (isAllowedSts_eq_true h).2).1
        cases hbehind : self.stsBehind a u.parentUser with
        | denied | owner => simp [hbehind] at hjudged
        | policy p =>
          rw [hbehind] at hjudged hallowed
          cases hjudged
          exact not_denies_of_policy hallowed hdeny
      case isFalse htemp =>
        rw [if_neg htemp] at hjudged
        split at h
        case isTrue hsvc =>
          rw [if_pos hsvc] at hjudged
          have hallowed := (isAllowedServiceAccount_eq_true h).2.1
          cases hbehind : self.svcBehind a u.parentUser with
          | denied | owner => simp [hbehind] at hjudged
          | policy p =>
            rw [hbehind] at hjudged hallowed
            cases hjudged
            exact not_denies_of_policy hallowed hdeny
        case isFalse hsvc =>
          rw [if_neg hsvc] at hjudged
          cases hget : self.store.policyDbGet self.now a.account a.groups with
          | error e => simp [hget] at hjudged
          | ok policies =>
            rw [hget] at h hjudged
            cases policies with
            | nil => cases hjudged
            | cons p ps =>
              cases hjudged
              exact not_denies_of_policy h hdeny

theorem claim_of_sessionPolicy {p : Policy} (h : self.sessionPolicy a = some p) :
    (a.claims.lookup sessionPolicyNameExtracted).isSome := by
  obtain ⟨text, htext, -⟩ := bind_eq_some_iff.mp h
  obtain ⟨v, hv, -⟩ := bind_eq_some_iff.mp htext
  rw [hv, isSome_some]

/-- nor is what its session policy denies, unless that policy is empty. -/
theorem sessionAllows_of_asks (howner : a.isOwner = false) (h : self.isAllowed a = some true)
    (hasks : self.AsksSession a) (hclaim : (a.claims.lookup sessionPolicyNameExtracted).isSome) :
    self.SessionAllows a ∨ self.sessionPolicy a = some Policy.default := by
  obtain ⟨hplugin, u, hu, hkind⟩ := hasks
  rw [isAllowed, howner, if_neg Bool.false_ne_true, hplugin, hu] at h
  dsimp only at h
  split at h
  case isTrue htemp =>
    obtain ⟨-, has, allowed, hsession, himp⟩ := restrict_eq_true (isAllowedSts_eq_true h).2
    exact .inl (sessionAllows_of_sts hclaim hsession himp)
  case isFalse htemp =>
    obtain ⟨hsvc, hinherits⟩ := hkind.resolve_left htemp
    rw [if_pos hsvc] at h
    obtain ⟨-, -, sa, hsa, hsession⟩ := isAllowedServiceAccount_eq_true h
    obtain ⟨has, allowed, hasked, himp⟩ := hsession fun heq => hinherits (heq ▸ hsa)
    exact sessionAllows_of_serviceAccount hclaim hasked himp

theorem not_denies (howner : a.isOwner = false) (h : self.isAllowed a = some true) :
    ¬self.Denies a := by
  rintro (⟨combined, asked, hjudged, hdeny⟩ | ⟨hasks, policy, hpolicy, hdeny⟩)
  · exact not_denies_of_judged howner h hjudged hdeny
  · rcases sessionAllows_of_asks howner h hasks (claim_of_sessionPolicy hpolicy) with
      ⟨asked, hasked, hallowed⟩ | hempty
    · cases hpolicy.symm.trans hasked
      exact not_denies_of_policy hallowed hdeny
    · cases hpolicy.symm.trans hempty
      obtain ⟨s, hs, -⟩ := hdeny
      exact nomatch hs

end IamSys

namespace Server

open Trial

section

variable (self : Server) (reqInfo : ReqInfo) (conditions : Conditions) (action : Action)

/-- A delete that names a version deletes that version. -/
def DeletesVersion : Prop :=
  action = .s3Action .deleteObjectAction ∧ reqInfo.versionId.isSome

def deleteVersion : Action := .s3Action .deleteObjectVersionAction

variable (performed : Action)

/-- The request is this action too. -/
def Performs : Prop :=
  performed = action ∨ DeletesVersion reqInfo action ∧ performed = deleteVersion

def account : String := (reqInfo.cred.map (·.accessKey)).getD ""

/-- A statement of the bucket's policy denies the action, whether or not it can be loaded. -/
def BucketDenies : Prop :=
  reqInfo.bucket.getD "" ≠ "" ∧ ∃ policy, (self.buckets (reqInfo.bucket.getD "")).policy = some policy ∧
    policy.Says self.env (policyArgs reqInfo conditions (account reqInfo) performed false) .deny

/-- Such a statement, of a policy that cannot be loaded. -/
def HiddenDeny : Prop :=
  self.BucketDenies reqInfo conditions performed ∧
    (self.buckets (reqInfo.bucket.getD "")).readable = false

/-- A statement of the policy that was loaded grants the request. -/
def BucketGrants (args : BucketPolicyArgs) : Prop :=
  ∃ policy, self.bucketPolicy args.bucket = some policy ∧ policy.Says self.env args .allow

def CallerDenies : Prop :=
  ∃ cred iam, reqInfo.cred = some cred ∧ self.iam = some iam ∧
    iam.Denies (iamArgs reqInfo conditions cred performed)

def CallerGrants : Prop :=
  ∃ cred iam, reqInfo.cred = some cred ∧ self.iam = some iam ∧
    iam.isAllowed (iamArgs reqInfo conditions cred performed) = some true

/-- The access control list that a permission is looked up in. -/
def aclOf : AclTarget → Option StoredAcl
  | .bucket => (self.loadBucketAcl (reqInfo.bucket.getD "")).toOption
  | .object =>
    if reqInfo.object.getD "" = "" then none
    else (self.loadObjectAcl (reqInfo.bucket.getD "") (reqInfo.object.getD "")
      reqInfo.versionId).toOption

def AclGrants : Prop :=
  ∃ target permission acl, aclPermissionForAction performed = some (target, permission) ∧
    reqInfo.bucket.getD "" ≠ "" ∧ self.aclOf reqInfo target = some acl ∧
    aclAllows acl (reqInfo.cred.map (·.accessKey)) permission
      ((self.buckets (reqInfo.bucket.getD "")).readable &&
        (self.buckets (reqInfo.bucket.getD "")).ignorePublicAcls) = true

/-- The caller's policies, the bucket's policy or a list grants the action. -/
def Grants : Prop :=
  self.CallerGrants reqInfo conditions performed ∨
    self.BucketGrants (policyArgs reqInfo conditions (account reqInfo) performed false) ∨
    self.AclGrants reqInfo performed

/-- Listing a bucket is granted, which is enough for listing its versions. -/
def ListingGranted : Prop :=
  action = .s3Action .listBucketVersionsAction ∧
    (self.CallerGrants reqInfo conditions (.s3Action .listBucketAction) ∨
      self.BucketGrants (policyArgs reqInfo conditions (account reqInfo)
        (.s3Action .listBucketAction) false) ∨
      reqInfo.cred = none ∧ self.BucketGrants
        { policyArgs reqInfo conditions "" (.s3Action .listBucketAction) false with object := "" })

/-- A request that is let through is denied by no one, and granted by someone. -/
def Sound : Prop :=
  self.authorizeRequest reqInfo conditions action = some (.ok ()) →
    ∀ performed, Performs reqInfo action performed →
      ¬self.BucketDenies reqInfo conditions performed ∧
      ¬self.CallerDenies reqInfo conditions performed ∧
      (self.Grants reqInfo conditions performed ∨
        self.ListingGranted reqInfo conditions performed)

end

section

variable (self : Server) (reqInfo : ReqInfo) (conditions : Conditions) (iam : IamSys)
  (cred : Credentials) (action : Action)

/-- What the account's policies say. -/
def callerSays (asked : Action) : Option Bool :=
  iam.isAllowed (iamArgs reqInfo conditions cred asked)

/-- What the bucket's policy says to an account that is not the owner. -/
def bucketSays (account : String) (asked : Action) : Option Bool :=
  self.policySysIsAllowed (policyArgs reqInfo conditions account asked false)

/-- The caller's policies, or else the bucket's, allow to delete the version. -/
def VersionPasses : Prop :=
  DeletesVersion reqInfo action →
    callerSays reqInfo conditions iam cred deleteVersion = some true ∨
      callerSays reqInfo conditions iam cred deleteVersion = some false ∧
        self.bucketSays reqInfo conditions cred.accessKey deleteVersion = some true

/-- The caller's policies allow the action, and the bucket's policy or list agrees. -/
def IamPath : Prop :=
  callerSays reqInfo conditions iam cred action = some true ∧
    self.checkAcl reqInfo conditions cred action = some (.ok ())

/-- Only the bucket's policy allows it. -/
def BucketPath : Prop :=
  callerSays reqInfo conditions iam cred action = some false ∧
    self.bucketSays reqInfo conditions cred.accessKey action = some true

/-- Neither does, but versions are listed and one of them allows to list the bucket. -/
def ListPath : Prop :=
  callerSays reqInfo conditions iam cred action = some false ∧
    self.bucketSays reqInfo conditions cred.accessKey action = some false ∧
    action = .s3Action .listBucketVersionsAction ∧
    (callerSays reqInfo conditions iam cred (.s3Action .listBucketAction) = some true ∨
      callerSays reqInfo conditions iam cred (.s3Action .listBucketAction) = some false ∧
        self.bucketSays reqInfo conditions cred.accessKey (.s3Action .listBucketAction) = some true)

/-- The version that is deleted may not be. -/
def VersionDenied : Prop :=
  DeletesVersion reqInfo action ∧ (self.BucketDenies reqInfo conditions deleteVersion ∨
    iam.Denies (iamArgs reqInfo conditions cred deleteVersion))

/-- No denial is found early, the version may be deleted, and one of the paths is open; on that path
a denial is not seen. -/
def AccountLoophole : Prop :=
  self.deniedEarly reqInfo conditions cred.accessKey action = some false ∧
    self.VersionPasses reqInfo conditions iam cred action ∧
    (self.IamPath reqInfo conditions iam cred action ∧
        (self.HiddenDeny reqInfo conditions action ∨
          self.VersionDenied reqInfo conditions iam cred action) ∨
      self.BucketPath reqInfo conditions iam cred action ∧
        (iam.Denies (iamArgs reqInfo conditions cred action) ∨
          self.VersionDenied reqInfo conditions iam cred action) ∨
      self.ListPath reqInfo conditions iam cred action ∧
        (self.HiddenDeny reqInfo conditions action ∨
          iam.Denies (iamArgs reqInfo conditions cred action)))

/-- Without credentials: the second permission to delete a version is not asked for, a denial cannot
be loaded, or there is no list to look at. -/
def AnonymousLoophole : Prop :=
  self.deniedEarly reqInfo conditions "" action = some false ∧
    action ≠ .s3Action .listAllMyBucketsAction ∧
    (self.bucketSays reqInfo conditions "" action = some true ∧ DeletesVersion reqInfo action ∧
        (self.BucketDenies reqInfo conditions deleteVersion ∨
          ¬self.BucketGrants (policyArgs reqInfo conditions "" deleteVersion false)) ∨
      self.bucketSays reqInfo conditions "" action = some false ∧
        self.anonymousFallback reqInfo conditions action = some false ∧
        self.anonymousAcl reqInfo action = .ok () ∧
        (self.HiddenDeny reqInfo conditions action ∨ reqInfo.bucket.getD "" = "" ∨
          reqInfo.object.getD "" = "" ∧
            (aclPermissionForAction action).map Prod.fst = some .object))

def Loophole : Prop :=
  (∃ cred iam, reqInfo.cred = some cred ∧ self.iam = some iam ∧
      self.AccountLoophole reqInfo conditions iam cred action) ∨
    reqInfo.cred = none ∧ self.AnonymousLoophole reqInfo conditions action

end

section

variable {self : Server} {ri : ReqInfo} {cs : Conditions} {iam : IamSys}
  {c : Credentials} {a : Action}

section

variable (howner : ri.isOwner = false)
include howner

theorem versionRefused_eq_false_iff :
    self.versionRefused ri cs iam c a = some false ↔ self.VersionPasses ri cs iam c a := by
  rw [versionRefused, VersionPasses, DeletesVersion, howner]
  by_cases hdel : a = .s3Action .deleteObjectAction ∧ ri.versionId.isSome
  · rw [if_pos hdel, ite_bind_eq_some_iff, ← callerSays, ← bucketSays, ← deleteVersion]
    simp [hdel, bind_eq_some_iff]
  · simp [hdel]

theorem listFallback_eq_ok_iff :
    self.listFallback ri cs iam c a = some (.ok ()) ↔
      a = .s3Action .listBucketVersionsAction ∧
      (callerSays ri cs iam c (.s3Action .listBucketAction) = some true ∨
        callerSays ri cs iam c (.s3Action .listBucketAction) = some false ∧
          self.bucketSays ri cs c.accessKey (.s3Action .listBucketAction) = some true) := by
  rw [listFallback, howner]
  by_cases hlist : a = .s3Action .listBucketVersionsAction
  · rw [if_pos hlist, ite_bind_eq_some_iff, ite_bind_eq_some_iff, ← callerSays, ← bucketSays]
    simp [hlist]
  · simp [hlist]

/-- The three ways for an account to be let through. -/
theorem authorizeAccount_eq_ok_iff :
    self.authorizeAccount ri cs iam c a = some (.ok ()) ↔
      self.deniedEarly ri cs c.accessKey a = some false ∧
        self.VersionPasses ri cs iam c a ∧
        (self.IamPath ri cs iam c a ∨
          self.BucketPath ri cs iam c a ∨ self.ListPath ri cs iam c a) := by
  rw [authorizeAccount, ite_bind_eq_some_iff, ite_bind_eq_some_iff, ite_bind_eq_some_iff,
    ite_bind_eq_some_iff, versionRefused_eq_false_iff howner, listFallback_eq_ok_iff howner,
    howner, ← callerSays, ← bucketSays]
  constructor
  · rintro (⟨-, h⟩ | ⟨hearly, ⟨-, h⟩ | ⟨hversion, hpath⟩⟩)
    · exact nomatch h
    · exact nomatch h
    · refine ⟨hearly, hversion, ?_⟩
      rcases hpath with hiam | ⟨hcaller, ⟨hbucket, -⟩ | ⟨hbucket, hlist⟩⟩
      · exact .inl hiam
      · exact .inr (.inl ⟨hcaller, hbucket⟩)
      · exact .inr (.inr ⟨hcaller, hbucket, hlist⟩)
  · rintro ⟨hearly, hversion, hpath⟩
    refine .inr ⟨hearly, .inr ⟨hversion, ?_⟩⟩
    rcases hpath with hiam | ⟨hcaller, hbucket⟩ | ⟨hcaller, hbucket, hlist⟩
    · exact .inl hiam
    · exact .inr ⟨hcaller, .inl ⟨hbucket, rfl⟩⟩
    · exact .inr ⟨hcaller, .inr ⟨hbucket, hlist⟩⟩

end

theorem authorizeAnonymous_eq_ok_iff :
    self.authorizeAnonymous ri cs a = some (.ok ()) ↔
      self.deniedEarly ri cs "" a = some false ∧
        a ≠ .s3Action .listAllMyBucketsAction ∧
        (self.bucketSays ri cs "" a = some true ∨
          self.bucketSays ri cs "" a = some false ∧
            (self.anonymousFallback ri cs a = some true ∨
              self.anonymousFallback ri cs a = some false ∧
                self.anonymousAcl ri a = .ok ())) := by
  rw [authorizeAnonymous, ite_bind_eq_some_iff]
  by_cases hall : a = .s3Action .listAllMyBucketsAction
  · simp [hall]
  · rw [if_neg hall, ite_bind_eq_some_iff, ite_bind_eq_some_iff, ← bucketSays]
    simp [hall]

end

section

variable {self : Server} {ri : ReqInfo} {cs : Conditions} {action : Action}

theorem bucketPolicy_eq_some {b : String} {p : BucketPolicy} (h : self.bucketPolicy b = some p) :
    b ≠ "" ∧ (self.buckets b).readable = true ∧ (self.buckets b).policy = some p := by
  rw [bucketPolicy] at h
  split_ifs at h with hload
  obtain ⟨hbucket, hreadable⟩ := not_or.mp hload
  exact ⟨hbucket, (Bool.not_eq_false _).mp hreadable, h⟩

theorem policyArgs_owner {a : String} :
    policyArgs ri cs a action true =
      { policyArgs ri cs a action false with isOwner := true } := rfl

variable {args : BucketPolicyArgs}

theorem policySysIsAllowed_of_policy {p : BucketPolicy}
    (h : self.bucketPolicy args.bucket = some p) :
    self.policySysIsAllowed args = p.isAllowed self.env args := by
  rw [policySysIsAllowed, h]

/-- Where the policy is asked as a stranger asks it, it must have been loaded to allow something. -/
theorem policySysIsAllowed_eq_true (howner : args.isOwner = false)
    (h : self.policySysIsAllowed args = some true) :
    ∃ policy, self.bucketPolicy args.bucket = some policy ∧
      policy.isAllowed self.env args = some true := by
  cases hpolicy : self.bucketPolicy args.bucket with
  | none => simp [policySysIsAllowed, hpolicy, howner] at h
  | some policy => exact ⟨policy, rfl, (policySysIsAllowed_of_policy hpolicy).symm.trans h⟩

theorem isAllowed_of_early {a : String} {p : BucketPolicy}
    (hearly : self.deniedEarly ri cs a action = some false)
    (hpolicy : self.bucketPolicy (ri.bucket.getD "") = some p) :
    p.isAllowed self.env (policyArgs ri cs a action true) = some true := by
  rw [deniedEarly, if_neg (bucketPolicy_eq_some hpolicy).1] at hearly
  obtain ⟨passed, hpassed, hnot⟩ := map_eq_some_iff.mp hearly
  obtain rfl : passed = true := by simpa using hnot
  exact (policySysIsAllowed_of_policy hpolicy).symm.trans hpassed

theorem bucketGrants_of_said (howner : args.isOwner = false)
    (h : self.policySysIsAllowed args = some true) : self.BucketGrants args := by
  obtain ⟨policy, hpolicy, hallowed⟩ := policySysIsAllowed_eq_true howner h
  exact ⟨policy, hpolicy, says_allow hallowed howner⟩

theorem not_bucketDenies_of_said
    (h : self.bucketSays ri cs (account ri) action = some true) :
    ¬self.BucketDenies ri cs action := by
  rintro ⟨-, stored, hstored, hdeny⟩
  obtain ⟨policy, hpolicy, hallowed⟩ := policySysIsAllowed_eq_true rfl h
  obtain ⟨-, -, hsame⟩ := bucketPolicy_eq_some hpolicy
  obtain rfl : policy = stored := some.inj (hsame.symm.trans hstored)
  exact not_says_deny hallowed hdeny

/-- A denial that the early check does not see is one that cannot be loaded. -/
theorem hiddenDeny_of_early
    (hearly : self.deniedEarly ri cs (account ri) action = some false)
    (hdeny : self.BucketDenies ri cs action) : self.HiddenDeny ri cs action := by
  refine ⟨hdeny, ?_⟩
  obtain ⟨hbucket, stored, hstored, hsaid⟩ := hdeny
  by_contra hreadable
  have hpolicy : self.bucketPolicy (ri.bucket.getD "") = some stored := by
    rw [bucketPolicy, if_neg (not_or.mpr ⟨hbucket, hreadable⟩), hstored]
  have hpass := isAllowed_of_early hearly hpolicy
  rw [policyArgs_owner] at hpass
  exact not_says_deny hpass (says_withOwner.mpr hsaid)

/-- A policy that neither denies nor grants has no statement that grants. -/
theorem not_bucketGrants {a : String} (hearly : self.deniedEarly ri cs a action = some false)
    (h : self.bucketSays ri cs a action = some false) :
    ¬self.BucketGrants (policyArgs ri cs a action false) := by
  rintro ⟨policy, hpolicy, hallow⟩
  have hpass := isAllowed_of_early hearly hpolicy
  rw [policyArgs_owner] at hpass
  rw [bucketSays, policySysIsAllowed_of_policy hpolicy] at h
  exact not_says_allow hpass h hallow

end

section

variable {self : Server} {ri : ReqInfo} {cs : Conditions} {iam : IamSys}
  {c : Credentials} {a asked : Action}

theorem not_denies_of_callerSays (howner : ri.isOwner = false)
    (h : callerSays ri cs iam c asked = some true) : ¬iam.Denies (iamArgs ri cs c asked) :=
  IamSys.not_denies howner h

section

variable (hcred : ri.cred = some c)
include hcred

theorem callerDenies_iff (hiam : self.iam = some iam) : self.CallerDenies ri cs asked ↔
      iam.Denies (iamArgs ri cs c asked) := by
  constructor
  · rintro ⟨cred', iam', hcred', hiam', hdeny⟩
    obtain rfl : c = cred' := some.inj (hcred.symm.trans hcred')
    obtain rfl : iam = iam' := some.inj (hiam.symm.trans hiam')
    exact hdeny
  · exact fun hdeny => ⟨c, iam, hcred, hiam, hdeny⟩

theorem account_eq : account ri = c.accessKey := by
  rw [account, hcred]
  rfl

theorem grants_of_bucketSays
    (h : self.bucketSays ri cs c.accessKey asked = some true) : self.Grants ri cs asked := by
  rw [← account_eq hcred] at h
  exact .inr (.inl (bucketGrants_of_said rfl h))

variable (hiam : self.iam = some iam)
include hiam

theorem grants_of_callerSays (h : callerSays ri cs iam c asked = some true) :
    self.Grants ri cs asked :=
  .inl ⟨c, iam, hcred, hiam, h⟩

/-- An account is let through only by someone who grants what it does. -/
theorem grants_of_account (hversion : self.VersionPasses ri cs iam c a)
    (hpath : self.IamPath ri cs iam c a ∨
      self.BucketPath ri cs iam c a ∨
      self.ListPath ri cs iam c a) {p : Action} (hperf : Performs ri a p) :
    self.Grants ri cs p ∨ self.ListingGranted ri cs p := by
  rcases hperf with rfl | ⟨hdel, rfl⟩
  · rcases hpath with ⟨hcaller, -⟩ | ⟨-, hbucket⟩ | ⟨-, -, hlist, hcaller | ⟨-, hbucket⟩⟩
    · exact .inl (grants_of_callerSays hcred hiam hcaller)
    · exact .inl (grants_of_bucketSays hcred hbucket)
    · exact .inr ⟨hlist, .inl ⟨c, iam, hcred, hiam, hcaller⟩⟩
    · rw [← account_eq hcred] at hbucket
      exact .inr ⟨hlist, .inr (.inl (bucketGrants_of_said rfl hbucket))⟩
  · rcases hversion hdel with hcaller | ⟨-, hbucket⟩
    · exact .inl (grants_of_callerSays hcred hiam hcaller)
    · exact .inl (grants_of_bucketSays hcred hbucket)

/-- The denials that the paths do not see are those of the loophole. -/
theorem account_sound_iff (howner : ri.isOwner = false) :
    self.Sound ri cs a ↔ ¬self.AccountLoophole ri cs iam c a := by
  have hauth : self.authorizeRequest ri cs a = self.authorizeAccount ri cs iam c a := by
    rw [authorizeRequest, hcred, hiam]
  rw [Sound, hauth, authorizeAccount_eq_ok_iff howner]
  constructor
  · rintro hsound ⟨hearly, hversion, hpath⟩
    have hdel (hdel : DeletesVersion ri a) (hpath) :=
      hsound ⟨hearly, hversion, hpath⟩ deleteVersion (.inr ⟨hdel, rfl⟩)
    have hact (hpath) := hsound ⟨hearly, hversion, hpath⟩ a (.inl rfl)
    simp only [callerDenies_iff hcred hiam] at hdel hact
    rcases hpath with ⟨hiamPath, hhidden | ⟨hd, hdeny⟩⟩ | ⟨hbucketPath, hdeny | ⟨hd, hdeny⟩⟩ |
      ⟨hlistPath, hhidden | hdeny⟩
    · exact (hact (.inl hiamPath)).1 hhidden.1
    · exact hdeny.elim (hdel hd (.inl hiamPath)).1 (hdel hd (.inl hiamPath)).2.1
    · exact (hact (.inr (.inl hbucketPath))).2.1 hdeny
    · exact hdeny.elim (hdel hd (.inr (.inl hbucketPath))).1 (hdel hd (.inr (.inl hbucketPath))).2.1
    · exact (hact (.inr (.inr hlistPath))).1 hhidden.1
    · exact (hact (.inr (.inr hlistPath))).2.1 hdeny
  · rintro hclosed ⟨hearly, hversion, hpath⟩ performed hperf
    have hgrants := grants_of_account hcred hiam hversion hpath hperf
    rw [← and_assoc, callerDenies_iff hcred hiam]
    refine ⟨?_, hgrants⟩
    rcases hperf with rfl | ⟨hdel, rfl⟩
    · have hhidden (hdeny : self.BucketDenies ri cs performed) :=
        hiddenDeny_of_early ((account_eq hcred).symm ▸ hearly) hdeny
      rcases hpath with hiamPath | hbucketPath | hlistPath
      · exact ⟨fun hdeny => hclosed ⟨hearly, hversion, .inl ⟨hiamPath, .inl (hhidden hdeny)⟩⟩,
          not_denies_of_callerSays howner hiamPath.1⟩
      · exact ⟨not_bucketDenies_of_said ((account_eq hcred).symm ▸ hbucketPath.2),
          fun hdeny => hclosed ⟨hearly, hversion, .inr (.inl ⟨hbucketPath, .inl hdeny⟩)⟩⟩
      · exact ⟨fun hdeny => hclosed ⟨hearly, hversion, .inr (.inr ⟨hlistPath,
            .inl (hhidden hdeny)⟩)⟩,
          fun hdeny => hclosed ⟨hearly, hversion, .inr (.inr ⟨hlistPath, .inr hdeny⟩)⟩⟩
    · have hopen (hdeny : self.BucketDenies ri cs deleteVersion ∨
          iam.Denies (iamArgs ri cs c deleteVersion)) : False := by
        rcases hpath with hiamPath | hbucketPath | hlistPath
        · exact hclosed ⟨hearly, hversion, .inl ⟨hiamPath, .inr ⟨hdel, hdeny⟩⟩⟩
        · exact hclosed ⟨hearly, hversion, .inr (.inl ⟨hbucketPath, .inr ⟨hdel, hdeny⟩⟩)⟩
        · have hsame := hdel.1.symm.trans hlistPath.2.2.1
          exact nomatch hsame
      exact ⟨fun hdeny => hopen (.inl hdeny), fun hdeny => hopen (.inr hdeny)⟩

end

end

section

variable {self : Server} {ri : ReqInfo} {cs : Conditions} {action : Action}

section

variable (hcred : ri.cred = none)
include hcred

theorem account_anonymous : account ri = "" := by
  rw [account, hcred]
  rfl

theorem not_callerDenies : ¬self.CallerDenies ri cs action := by
  rintro ⟨cred, iam, hsome, -⟩
  exact nomatch hcred.symm.trans hsome

theorem not_callerGrants : ¬self.CallerGrants ri cs action := by
  rintro ⟨cred, iam, hsome, -⟩
  exact nomatch hcred.symm.trans hsome

end

/-- There is a list that the permission can be looked up in. -/
def Listed (reqInfo : ReqInfo) (action : Action) : Prop :=
  ¬(reqInfo.bucket.getD "" = "" ∨ reqInfo.object.getD "" = "" ∧
    (aclPermissionForAction action).map Prod.fst = some .object)

theorem map_eq_ok {α : Type} {r : Except S3Error α} {f : α → Bool} (h : f <$> r = .ok true) :
    ∃ a, r.toOption = some a ∧ f a = true := by
  cases r with
  | error e => exact nomatch h
  | ok a => exact ⟨a, rfl, Except.ok.inj h⟩

/-- A list that was looked at grants the permission. -/
theorem aclGrants_of_checkAclAccess (howner : ri.isOwner = false)
    (hlisted : Listed ri action) (hperm : (aclPermissionForAction action).isSome)
    (h : self.checkAclAccess ri action false = .ok true) : self.AclGrants ri action := by
  obtain ⟨hbucket, hobject⟩ := not_or.mp hlisted
  obtain ⟨⟨target, permission⟩, hperm⟩ := isSome_iff_exists.mp hperm
  rw [checkAclAccess, howner, hperm] at h
  simp only [Bool.or_self, Bool.false_eq_true, if_false, if_neg hbucket] at h
  cases target with
  | bucket =>
    obtain ⟨acl, hacl, hallows⟩ := map_eq_ok h
    exact ⟨.bucket, permission, acl, hperm, hbucket, hacl, hallows⟩
  | object =>
    have hnamed : ¬ri.object.getD "" = "" := fun hempty => hobject ⟨hempty, by rw [hperm]; rfl⟩
    rw [if_neg hnamed] at h
    obtain ⟨acl, hacl, hallows⟩ := map_eq_ok h
    refine ⟨.object, permission, acl, hperm, hbucket, ?_, hallows⟩
    rw [aclOf, if_neg hnamed]
    exact hacl

theorem anonymousAcl_eq_ok (h : self.anonymousAcl ri action = .ok ()) :
    (aclPermissionForAction action).isSome ∧ self.checkAclAccess ri action false = .ok true := by
  rw [anonymousAcl] at h
  split at h
  case isFalse => exact nomatch h
  case isTrue hperm =>
    refine ⟨hperm, ?_⟩
    cases hcheck : self.checkAclAccess ri action false with
    | error e => simp [hcheck] at h
    | ok b =>
      cases b with
      | false => simp [hcheck] at h
      | true => rfl

/-- Where no list can be looked at, there is none that grants. -/
theorem not_aclGrants (h : ¬Listed ri action) : ¬self.AclGrants ri action := by
  rintro ⟨target, permission, acl, hperm, hbucket, hacl, -⟩
  rcases not_not.mp h with hempty | ⟨hempty, hobject⟩
  · exact hbucket hempty
  · obtain rfl : target = .object := by simpa [hperm] using hobject
    rw [aclOf, if_pos hempty] at hacl
    exact nomatch hacl

/-- A permission that lists know is not one to list versions, -/
theorem ne_listBucketVersions_of_acl (h : (aclPermissionForAction action).isSome) :
    action ≠ .s3Action .listBucketVersionsAction := by
  rintro rfl
  exact nomatch h

/-- nor one to delete a version. -/
theorem not_deletesVersion_of_acl (h : (aclPermissionForAction action).isSome) :
    ¬DeletesVersion ri action := by
  rintro ⟨rfl, -⟩
  exact nomatch h

/-- Only the statements of the bucket's policy can grant a version's deletion to anyone. -/
theorem bucketGrants_deleteVersion (hcred : ri.cred = none)
    (h : self.Grants ri cs deleteVersion ∨
      self.ListingGranted ri cs deleteVersion) :
    self.BucketGrants (policyArgs ri cs "" deleteVersion false) := by
  rcases h with (hcaller | hbucket | ⟨_, _, _, hperm, -⟩) | ⟨hlist, -⟩
  · exact absurd hcaller (not_callerGrants hcred)
  · rwa [account_anonymous hcred] at hbucket
  · exact nomatch hperm
  · exact nomatch hlist

theorem not_grants_of_unlisted (hcred : ri.cred = none)
    (hearly : self.deniedEarly ri cs "" action = some false)
    (hsaid : self.bucketSays ri cs "" action = some false)
    (hperm : (aclPermissionForAction action).isSome) (hlisted : ¬Listed ri action) :
    ¬(self.Grants ri cs action ∨ self.ListingGranted ri cs action) := by
  rintro ((hcaller | hbucket | hacl) | ⟨hlist, -⟩)
  · exact not_callerGrants hcred hcaller
  · rw [account_anonymous hcred] at hbucket
    exact not_bucketGrants hearly hsaid hbucket
  · exact not_aclGrants hlisted hacl
  · exact ne_listBucketVersions_of_acl hperm hlist

/-- Listing takes the place of listing versions only where the policy was loaded. -/
theorem anonymousFallback_eq_true
    (h : self.anonymousFallback ri cs action = some true) :
    action = .s3Action .listBucketVersionsAction ∧
      (self.buckets (ri.bucket.getD "")).readable = true ∧
      self.BucketGrants
        { policyArgs ri cs "" (.s3Action .listBucketAction) false with object := "" } := by
  rw [anonymousFallback] at h
  split at h
  case isFalse => exact nomatch h
  case isTrue hlist =>
    obtain ⟨policy, hpolicy, -⟩ := policySysIsAllowed_eq_true rfl h
    exact ⟨hlist, (bucketPolicy_eq_some hpolicy).2.1, bucketGrants_of_said rfl h⟩

theorem anonymous_sound_iff (hcred : ri.cred = none) (howner : ri.isOwner = false) :
    self.Sound ri cs action ↔ ¬self.AnonymousLoophole ri cs action := by
  have hauth : self.authorizeRequest ri cs action = self.authorizeAnonymous ri cs action := by
    rw [authorizeRequest, hcred]
  have haccount := account_anonymous hcred
  rw [Sound, hauth, authorizeAnonymous_eq_ok_iff]
  constructor
  · rintro hsound ⟨hearly, hall, hopen⟩
    rcases hopen with ⟨hsaid, hdel, hversion⟩ | ⟨hsaid, hfallback, hacl, hopen⟩
    · obtain ⟨hbucket, -, hgrants⟩ :=
        hsound ⟨hearly, hall, .inl hsaid⟩ deleteVersion (.inr ⟨hdel, rfl⟩)
      exact hversion.elim hbucket fun hnone => hnone (bucketGrants_deleteVersion hcred hgrants)
    · obtain ⟨hbucket, -, hgrants⟩ :=
        hsound ⟨hearly, hall, .inr ⟨hsaid, .inr ⟨hfallback, hacl⟩⟩⟩ action (.inl rfl)
      rcases hopen with hhidden | hunlisted
      · exact hbucket hhidden.1
      · exact not_grants_of_unlisted hcred hearly hsaid (anonymousAcl_eq_ok hacl).1
          (not_not.mpr hunlisted) hgrants
  · rintro hclosed ⟨hearly, hall, hpath⟩ performed hperf
    have hhidden (hdeny : self.BucketDenies ri cs action) :
        self.HiddenDeny ri cs action :=
      hiddenDeny_of_early (haccount.symm ▸ hearly) hdeny
    rw [and_left_comm]
    refine ⟨not_callerDenies hcred, ?_⟩
    rcases hpath with hsaid | ⟨hsaid, hfallback | ⟨hfallback, hacl⟩⟩
    · rcases hperf with rfl | ⟨hdel, rfl⟩
      · rw [← haccount] at hsaid
        exact ⟨not_bucketDenies_of_said hsaid, .inl (.inr (.inl (bucketGrants_of_said rfl hsaid)))⟩
      · refine ⟨fun hdeny => hclosed ⟨hearly, hall, .inl ⟨hsaid, hdel, .inl hdeny⟩⟩, .inl (.inr (.inl ?_))⟩
        by_contra hnone
        rw [haccount] at hnone
        exact hclosed ⟨hearly, hall, .inl ⟨hsaid, hdel, .inr hnone⟩⟩
    · obtain ⟨hlist, hreadable, hgrants⟩ := anonymousFallback_eq_true hfallback
      rcases hperf with rfl | ⟨⟨hdel, -⟩, rfl⟩
      · refine ⟨fun hdeny => ?_, .inr ⟨hlist, .inr (.inr ⟨hcred, hgrants⟩)⟩⟩
        exact nomatch hreadable.symm.trans (hhidden hdeny).2
      · exact nomatch hdel.symm.trans hlist
    · obtain ⟨hperm, hcheck⟩ := anonymousAcl_eq_ok hacl
      have hopen := fun h => hclosed ⟨hearly, hall, .inr ⟨hsaid, hfallback, hacl, h⟩⟩
      rcases hperf with rfl | ⟨hdel, rfl⟩
      · refine ⟨fun hdeny => hopen (.inl (hhidden hdeny)), .inl (.inr (.inr ?_))⟩
        exact aclGrants_of_checkAclAccess howner (fun h => hopen (.inr h)) hperm hcheck
      · exact absurd hdel (not_deletesVersion_of_acl hperm)

end

end Server

/-- A policy of the bucket that denies everything to everyone. -/
def denyEveryone : BucketPolicy :=
  ⟨[{ effect := .deny
      principal := ⟨["*"], List.nodup_singleton _⟩
      actions := ⟨[.s3Action .allActions], allActions_nodup⟩
      notActions := ⟨[], List.nodup_nil⟩
      resources := everything
      notResources := ⟨[], List.nodup_nil⟩
      conditions := Functions.empty }]⟩

/-- A server where `user` may read and write, with the same configuration for every bucket. -/
def serverWith (policy : Option BucketPolicy) (readable : Bool) : Server where
  env := plainEnv
  iam := some (serverOf "" "readwrite")
  buckets := fun _ => ⟨policy, readable, false⟩
  loadBucketAcl := fun _ => .error .internalError
  loadObjectAcl := fun _ _ _ => .error .internalError

/-- `user` asks for an object. -/
def userRequest : ReqInfo where
  cred := some { accountOf "" with accessKey := "user", parentUser := "", claims := none }
  isOwner := false
  bucket := some "a"
  object := some "x"
  versionId := none

end Rustfs.Iam
