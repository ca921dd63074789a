import Rustfs.Iam.Manager

/-! The policy documents in memory and in the store, under calls that set and delete them. -/
namespace Rustfs.Iam

structure CacheEntity (T : Type) where
  map : StrMap T
  loadTime : Time

namespace CacheEntity

variable {T : Type} (self : CacheEntity T) (key : String) (t : Time)

/-- What was loaded at `t` or later is left as it is. -/
def exec (op : StrMap T → StrMap T) : CacheEntity T :=
  if self.loadTime ≥ t then self else { self with map := op self.map }

def addOrUpdate (value : T) : CacheEntity T := self.exec t (·.insert key value)

def delete : CacheEntity T := self.exec t (·.erase key)

end CacheEntity

structure PolicyDoc where
  version : Int64
  policy : Policy
  createDate : Option Time
  updateDate : Option Time

def PolicyDoc.new (policy : Policy) (created now : Time) : PolicyDoc :=
  ⟨1, policy, some created, some now⟩

def PolicyDoc.update (self : PolicyDoc) (policy : Policy) (now : Time) : PolicyDoc :=
  ⟨self.version + 1, policy, self.createDate.or (some now), some now⟩

inductive DocError where
  | policyInUse
  | iam (e : IamError)

/-- What a request to the store comes to, and whether it has been carried out. -/
structure Answer where
  result : Except IamError Unit
  landed : Bool
  landed_of_ok : result = .ok () → landed = true

/-- The parts of the cache that the calls use, and the documents in the store. -/
structure PolicyDocs where
  policyDocs : CacheEntity PolicyDoc
  userPolicies : CacheEntity MappedPolicy
  groupPolicies : StrMap MappedPolicy
  users : StrMap Credentials
  stored : StrMap PolicyDoc

namespace PolicyDocs

variable (self : PolicyDocs) (name : String)

/-- A user that is known, or a group, has the policy in its `policy_set`. -/
def inUse : Bool :=
  (self.userPolicies.map.entries.any fun e => e.1 ∈ self.users && e.2.toSlice.contains name) ||
    self.groupPolicies.entries.any fun e => e.2.toSlice.contains name

/-- The mappings of users that are not known are dropped. -/
def dropUnknown (now : String → Time) : PolicyDocs :=
  { self with
    userPolicies := (self.userPolicies.map.keys.filter (· ∉ self.users)).foldl
      (fun cache k => cache.delete k (now k)) self.userPolicies }

def document (policy : Policy) (created now : Time) : PolicyDoc :=
  match self.policyDocs.map.lookup name with
  | some doc => doc.update policy now
  | none => .new policy created now

def setPolicy (policy : Policy) (created now t : Time) (answer : Answer) :
    Except DocError Time × PolicyDocs :=
  if name = "" ∨ policy.statements = [] then (.error (.iam .invalidArgument), self)
  else
    let doc := self.document name policy created now
    let s := { self with stored := if answer.landed then self.stored.insert name doc else self.stored }
    match answer.result with
    | .error e => (.error (.iam e), s)
    | .ok _ => (.ok t, { s with policyDocs := self.policyDocs.addOrUpdate name t doc })

/-- It is not for a document that the store does not have that the cache is cleared, but for one that
the store fails to delete. -/
def deletePolicy (isFromNotify : Bool) (now : String → Time) (t : Time) (answer : Answer) :
    Except DocError Unit × PolicyDocs :=
  if name = "" then (.error (.iam .invalidArgument), self)
  else if isFromNotify then
    let s := self.dropUnknown now
    if self.inUse name then (.error .policyInUse, s)
    else
      let s := { s with stored := if answer.landed then self.stored.erase name else self.stored }
      match answer.result with
      | .error .noSuchPolicy => (.error (.iam .noSuchPolicy), s)
      | _ => (.ok (), { s with policyDocs := self.policyDocs.delete name t })
  else (.ok (), { self with policyDocs := self.policyDocs.delete name t })

inductive Call where
  | setPolicy (policy : Policy) (created now t : Time) (answer : Answer)
  | deletePolicy (isFromNotify : Bool) (now : String → Time) (t : Time) (answer : Answer)

def run : Call → Except DocError Unit × PolicyDocs
  | .setPolicy policy created now t answer =>
    (self.setPolicy name policy created now t answer).map (·.map fun _ => ()) id
  | .deletePolicy isFromNotify now t answer => self.deletePolicy name isFromNotify now t answer

def after (calls : List (String × Call)) : PolicyDocs :=
  calls.foldl (fun s c => (s.run c.1 c.2).2) self

/-- A call that succeeds leaves cache and store with one document, or with none if it deletes; one
that fails leaves the cache as it was. No other document is touched. -/
def Agrees (c : Call) : Prop :=
  (∀ k ≠ name, (self.run name c).2.policyDocs.map.lookup k = self.policyDocs.map.lookup k ∧
    (self.run name c).2.stored.lookup k = self.stored.lookup k) ∧
  match self.run name c, c with
  | (.error _, s), _ => s.policyDocs = self.policyDocs
  | (.ok _, s), .setPolicy .. =>
    (s.stored.lookup name).isSome ∧ s.policyDocs.map.lookup name = s.stored.lookup name
  | (.ok _, s), .deletePolicy .. =>
    s.policyDocs.map.lookup name = none ∧ s.stored.lookup name = none

/-- The call is refused, or the cache was loaded before it and the store does what is asked. -/
def Heeds : Call → Prop
  | .setPolicy policy _ _ t answer =>
    name = "" ∨ policy.statements = [] ∨ answer.result ≠ .ok () ∨ self.policyDocs.loadTime < t
  | .deletePolicy isFromNotify _ t answer =>
    name = "" ∨
      isFromNotify = true ∧ (self.inUse name = true ∨ answer.result = .error .noSuchPolicy) ∨
      (self.policyDocs.loadTime < t ∨ self.policyDocs.map.lookup name = none) ∧
        (self.stored.lookup name = none ∨ isFromNotify = true ∧ answer.landed = true)

end PolicyDocs

open PolicyDocs

variable {T : Type} {self : CacheEntity T} {key : String} {t : Time}

theorem CacheEntity.lookup_delete :
    (self.delete key t).map.lookup key = none ↔ self.loadTime < t ∨ self.map.lookup key = none := by
  unfold delete exec
  split_ifs with h
  · simp [not_lt.mpr h]
  · simp [not_le.mp h]

theorem CacheEntity.lookup_addOrUpdate {value : T} (hne : self.map.lookup key ≠ some value) :
    (self.addOrUpdate key t value).map.lookup key = some value ↔ self.loadTime < t := by
  unfold addOrUpdate exec
  split_ifs with h
  · simp [not_lt.mpr h, hne]
  · simp [not_le.mp h]

variable (s : PolicyDocs) {name : String}

theorem PolicyDocs.lookup_ne_document {policy : Policy} {created now : Time} :
    s.policyDocs.map.lookup name ≠ some (s.document name policy created now) := by
  unfold document
  cases s.policyDocs.map.lookup name with
  | none => exact fun h => nomatch h
  | some doc =>
    intro h
    have hversion : doc.version = doc.version + 1 := congrArg PolicyDoc.version (Option.some.inj h)
    simp at hversion

theorem PolicyDocs.run_other {k : String} (hk : k ≠ name) (c : Call) :
    (s.run name c).2.policyDocs.map.lookup k = s.policyDocs.map.lookup k ∧
      (s.run name c).2.stored.lookup k = s.stored.lookup k := by
  cases c <;> simp only [run, setPolicy, deletePolicy, dropUnknown, CacheEntity.addOrUpdate,
    CacheEntity.delete, CacheEntity.exec, Prod.map, id] <;>
    split_ifs <;> (try split) <;> simp [AList.lookup_insert_ne hk, AList.lookup_erase_ne hk]

theorem PolicyDocs.agrees_iff (c : Call) : s.Agrees name c ↔ s.Heeds name c := by
  refine (and_iff_right fun k hk => s.run_other hk c).trans ?_
  unfold Heeds
  by_cases hname : name = ""
  · cases c <;> simp [run, setPolicy, deletePolicy, Except.map, hname]
  cases c with
  | setPolicy policy created now t answer =>
    by_cases hpolicy : policy.statements = []
    · simp [run, setPolicy, Except.map, hpolicy]
    cases hanswer : answer.result with
    | error e => simp [run, setPolicy, Except.map, hname, hpolicy, hanswer]
    | ok u =>
      simp [run, setPolicy, Except.map, hname, hpolicy, hanswer, answer.landed_of_ok hanswer,
        CacheEntity.lookup_addOrUpdate s.lookup_ne_document]
  | deletePolicy isFromNotify now t answer =>
    cases isFromNotify with
    | false => simp [run, deletePolicy, hname, CacheEntity.lookup_delete]
    | true =>
      cases huse : s.inUse name with
      | true => simp [run, deletePolicy, hname, huse, dropUnknown]
      | false =>
        rcases hanswer : answer.result with (_ | _ | _ | _) | _ <;> cases hlanded : answer.landed <;>
          simp [run, deletePolicy, hname, huse, hanswer, hlanded, dropUnknown,
            CacheEntity.lookup_delete]

/-- Every call of a run leaves cache and store in agreement exactly if each is heeded. -/
theorem PolicyDocs.agrees_after_iff (calls : List (String × Call)) :
    (∀ (i : ℕ) (c : _), calls[i]? = some c → (s.after (calls.take i)).Agrees c.1 c.2) ↔
      ∀ (i : ℕ) (c : _), calls[i]? = some c → (s.after (calls.take i)).Heeds c.1 c.2 := by
  simp only [agrees_iff]

/-- The store fails to delete a document, the call succeeds and the document stays. -/
theorem PolicyDocs.failed_delete_succeeds : ∃ (s : PolicyDocs) (c : Call),
    (s.run "p" c).1 = .ok () ∧ ((s.run "p" c).2.stored.lookup "p").isSome ∧ ¬s.Agrees "p" c := by
  let doc : PolicyDoc := .new ⟨"", "", []⟩ 0 0
  refine ⟨⟨⟨.singleton "p" doc, 0⟩, ⟨∅, 0⟩, ∅, ∅, .singleton "p" doc⟩,
    .deletePolicy true (fun _ => 1) 1 ⟨.error .other, false, nofun⟩, rfl, rfl, ?_⟩
  rintro ⟨-, -, h⟩
  cases h

end Rustfs.Iam
