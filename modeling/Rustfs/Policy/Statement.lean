import Rustfs.Lib.KeepFirst
import Rustfs.Path
import Rustfs.Policy.Action
import Rustfs.Policy.Function

/-! Statements and the policies made of them. -/
namespace Rustfs.Iam

inductive Resource where
  | s3 (pattern : String)
  | kms (pattern : String)
  deriving DecidableEq

abbrev ResourceSet : Type := HashSet Resource

theorem allResources_nodup : [Resource.s3 "*"].Nodup := List.nodup_singleton _

inductive PolicyError where
  | invalidVersion (version : String)
  | nonAction
  | bothActionAndNotAction
  | nonResource
  | bothResourceAndNotResource
  | invalidResource (kind pattern : String)
  deriving DecidableEq

def Resource.pattern : Resource → String
  | .s3 pattern | .kms pattern => pattern

variable (values : Conditions)

/-- Every common key the request has a value for is put in. -/
def substituteAll (pattern : String) : String :=
  KeyName.commonKeys.foldl (fun resolved key =>
    match commonValue values key with
    | some (_, v) => replaceAll resolved key.varName v
    | none => resolved) pattern

/-- The cleaned resource is the pattern itself, or the resource matches it. -/
def matchesPattern (resource pattern : String) : Bool :=
  let resolved := substituteAll values pattern
  let cp := Path.clean resource
  cp != "." && cp == resolved || isMatch resolved resource

def Resource.isMatchWithResolver
    (resolver : Option PolicyVariableResolver) (resource : String) (self : Resource) :
    Option Bool := do
  let patterns ← resolveValue resolver self.pattern
  pure (patterns.any (matchesPattern values resource))

theorem Resource.isMatchWithResolver_plain {vs : Conditions} {res : PolicyVariableResolver}
    {r : String} {self : Resource} (hsteps : 3 ≤ res.steps)
    (h : beforeVariable self.pattern.toList = none) :
    self.isMatchWithResolver vs (some res) r = some (matchesPattern vs r self.pattern) := by
  simp [isMatchWithResolver, resolveValue, resolveAwsVariables_plain hsteps h]

def ResourceSet.isMatchWithResolver
    (resolver : Option PolicyVariableResolver) (resource : String) (self : ResourceSet) :
    Option Bool :=
  self.toList.anyM (Resource.isMatchWithResolver values resolver resource)

def Resource.isValid : Resource → Except PolicyError Unit
  | .s3 pattern =>
    if pattern = "" ∨ pattern.toList.head? = some '/' then .error (.invalidResource "s3" pattern)
    else .ok ()
  | .kms pattern =>
    if pattern = "" ∨ pattern.toList.any (fun c => c = '/' ∨ c = '\\' ∨ c = '.') then
      .error (.invalidResource "kms" pattern)
    else .ok ()

def ResourceSet.isValid (self : ResourceSet) : Except PolicyError Unit :=
  self.toList.forM Resource.isValid

inductive Effect where
  | allow
  | deny
  deriving DecidableEq

def Effect.isAllowed (self : Effect) (allowed : Bool) : Bool :=
  match self with
  | .allow => allowed
  | .deny => !allowed

/-- What is asked of a policy. -/
structure Args where
  account : String
  groups : Option (List String)
  action : Action
  bucket : String
  conditions : Conditions
  isOwner : Bool
  object : String
  claims : Claims
  denyOnly : Bool

/-- The name that the resources of a policy are about. -/
def resourceName (bucket object : String) : String :=
  if object = "" then bucket ++ "/"
  else if object.toList.head? = some '/' then bucket ++ object
  else bucket ++ "/" ++ object

structure Statement where
  sid : String
  effect : Effect
  actions : ActionSet
  notActions : ActionSet
  resources : ResourceSet
  notResources : ResourceSet
  conditions : Functions

namespace Statement

variable (self : Statement)

def isKms : Bool := self.actions.toList.any fun
  | .kmsAction _ => true
  | _ => false

def isAdmin : Bool := self.actions.toList.any fun
  | .adminAction _ => true
  | _ => false

def isSts : Bool := self.actions.toList.any fun
  | .stsAction _ => true
  | _ => false

/-- The user of temporary and service account credentials is their parent. -/
def resolver (env : Env) (args : Args) : PolicyVariableResolver :=
  VariableResolver.new env.toClock
    { VariableContext.new with
      claims := some args.claims
      accountId := some args.account
      username := some (((args.claims.lookup "parent").bind Value.asStr).getD args.account) }

variable (env : Env) (args : Args)

def conditionsHold : Option Bool :=
  self.conditions.evaluateWithResolver env args.conditions (some (resolver env args))

/-- The request is not for one of the resources. -/
def outsideResources : Option Bool :=
  if self.resources.isEmpty then some false
  else (!·) <$> self.resources.isMatchWithResolver args.conditions (some (resolver env args))
    (resourceName args.bucket args.object)

/-- The request is for one of the resources that are left out. -/
def inNotResources : Option Bool :=
  if self.notResources.isEmpty then some false
  else self.notResources.isMatchWithResolver args.conditions (some (resolver env args))
    (resourceName args.bucket args.object)

/-- The tests of the resources count only for a statement without admin actions. -/
def checkResources : Option Bool := do
  if (← self.outsideResources env args) && !self.isAdmin && !self.isSts then pure false
  else if (← self.inNotResources env args) && !self.isAdmin && !self.isSts then pure false
  else self.conditionsHold env args

def check : Option Bool :=
  if !self.actions.isMatch args.action && !self.actions.isEmpty ||
      self.notActions.isMatch args.action then some false
  else if self.isKms && (resourceName args.bucket args.object == "/" || self.resources.isEmpty) then
    self.conditionsHold env args
  else if self.resources.isEmpty && self.notResources.isEmpty && !self.isAdmin && !self.isSts then
    some false
  else self.checkResources env args

def isAllowed : Option Bool := self.effect.isAllowed <$> self.check env args

def isValid : Except PolicyError Unit := do
  if self.actions.isEmpty && self.notActions.isEmpty then throw .nonAction
  if !self.actions.isEmpty && !self.notActions.isEmpty then throw .bothActionAndNotAction
  if self.resources.isEmpty && self.notResources.isEmpty then throw .nonResource
  if !self.resources.isEmpty && !self.notResources.isEmpty then throw .bothResourceAndNotResource
  self.resources.isValid
  self.notResources.isValid

/-- `PartialEq` of statements: the resources that are left out are not compared. -/
def eq (self other : Statement) : Bool :=
  self.effect == other.effect && self.actions.eq other.actions &&
    self.notActions.eq other.notActions && self.resources.eq other.resources &&
    self.conditions.eq other.conditions

end Statement

structure Policy where
  id : String
  version : String
  statements : List Statement

def defaultVersion : String := "2012-10-17"

namespace Policy

def default : Policy := ⟨"", "", []⟩

variable (self : Policy)

def denials : List Statement := self.statements.filter (·.effect == .deny)

def grants : List Statement := self.statements.filter (·.effect == .allow)

def isAllowed (env : Env) (args : Args) : Option Bool := do
  if ← self.denials.allM (·.isAllowed env args) then
    if args.isOwner then pure true
    else if args.denyOnly then pure false
    else self.grants.anyM (·.isAllowed env args)
  else pure false

def isValid : Except PolicyError Unit := do
  if self.version ≠ "" ∧ self.version ≠ defaultVersion then throw (.invalidVersion self.version)
  self.statements.forM Statement.isValid

/-- A statement is dropped if one that is kept equals it. -/
def dropDuplicateStatements (statements : List Statement) : List Statement :=
  KeepFirst.keepFirst Statement.eq statements

/-- The version is the first one that is not empty. -/
def mergePolicies (inputs : List Policy) : Policy where
  id := ""
  version := inputs.foldl (fun version p => if version = "" then p.version else version) ""
  statements := dropDuplicateStatements (inputs.flatMap (·.statements))

end Policy

end Rustfs.Iam
