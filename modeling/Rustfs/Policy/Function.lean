import Rustfs.Lib.Trial
import Rustfs.Policy.KeyName
import Rustfs.Policy.Variables
import Rustfs.Policy.Wildcard

/-! The conditions of a statement, and how they are evaluated for a request. -/
namespace Rustfs.Iam

/-- The values a request has for the condition keys. -/
abbrev Conditions : Type := StrMap (List String)

inductive IpAddr where
  | v4 (addr : BitVec 32)
  | v6 (addr : BitVec 128)
  deriving DecidableEq

structure IpNetwork where
  addr : IpAddr
  bits : ℕ
  deriving DecidableEq

/-- What the libraries and the clock give to a decision. -/
structure Env extends Clock where
  toLowercase : String → String
  parseIpAddr : String → Option IpAddr
  netContains : IpNetwork → IpAddr → Bool
  parseRfc3339 : String → Option Time

/-- A sign, digits, and a value of 64 bits. -/
def parseI64 (s : String) : Option ℤ :=
  let (negative, digits) := match s.toList with
    | '-' :: cs => (true, cs)
    | '+' :: cs => (false, cs)
    | cs => (false, cs)
  if digits.isEmpty || !digits.all Char.isDigit then none
  else
    let n := digits.foldl (fun (n : ℤ) c => 10 * n + (c.toNat - '0'.toNat : ℤ)) 0
    let v := if negative then -n else n
    if -9223372036854775808 ≤ v ∧ v < 9223372036854775808 then some v else none

/-- `str::replace`; while `skip` is not zero, the text is part of what was replaced. -/
def replaceChars (target value : List Char) : ℕ → List Char → List Char
  | _, [] => []
  | skip + 1, _ :: cs => replaceChars target value skip cs
  | 0, c :: cs =>
    if target.isPrefixOf (c :: cs) then value ++ replaceChars target value (target.length - 1) cs
    else c :: replaceChars target value 0 cs

def replaceAll (text target value : String) : String :=
  String.ofList (replaceChars target.toList value.toList 0 text.toList)

structure Key where
  keyName : KeyName
  variableName : Option String
  deriving DecidableEq

def Key.name (key : Key) : String :=
  match key.variableName with
  | some x => key.keyName.name ++ "/" ++ x
  | none => key.keyName.name

structure FuncKeyValue (T : Type) where
  key : Key
  values : T

def FuncKeyValue.eq {T : Type} (eqv : T → T → Bool) (l r : FuncKeyValue T) : Bool :=
  l.key == r.key && eqv l.values r.values

/-- The keys of an operator with their values: there is at least one. -/
structure InnerFunc (T : Type) where
  entries : List (FuncKeyValue T)
  nonempty : entries ≠ []

def InnerFunc.eq {T : Type} (eqv : T → T → Bool) (l r : InnerFunc T) : Bool :=
  l.entries.isEqv r.entries (FuncKeyValue.eq eqv)

abbrev StringFunc : Type := InnerFunc (HashSet String)

abbrev BinaryFunc : Type := InnerFunc String

abbrev AddrFunc : Type := InnerFunc (List IpNetwork)

abbrev BoolFunc : Type := InnerFunc Bool

abbrev NumberFunc : Type := InnerFunc ℤ

abbrev DateFunc : Type := InnerFunc Time

section

variable (env : Env) (values : Conditions) (resolver : Option PolicyVariableResolver)

/-- The first value of a common key that is not empty, and the key. -/
def commonValue (key : KeyName) : Option (KeyName × String) :=
  match (values.lookup key.name).bind (·.head?) with
  | some v => if v = "" then none else some (key, v)
  | none => none

/-- Only the first common key the request has a value for is put in. -/
def substituteFirst (c : String) : String :=
  match KeyName.commonKeys.findSome? (commonValue values) with
  | some (key, v) => replaceAll c key.varName v
  | none => c

def resolveValue (c : String) : Option (List String) :=
  match resolver with
  | some res => resolveAwsVariables res c
  | none => some [c]

/-- The texts the values of a condition stand for. -/
def resolvedValues (set : HashSet String) : Option (List String) := do
  let resolved ← set.toList.mapM (resolveValue resolver)
  pure (resolved.flatten.map (substituteFirst values))

def stringEval (forAll ignoreCase : Bool) (inner : FuncKeyValue (HashSet String)) :
    Option Bool := do
  let fold := if ignoreCase then env.toLowercase else id
  let rvalues := (((values.lookup inner.key.name).getD []).map fold).eraseDups
  let fvalues := (← resolvedValues values resolver inner.values).map fold
  let ivalues := rvalues.filter fun v => decide (v ∈ fvalues)
  pure (if forAll then rvalues.isEmpty || rvalues.length == ivalues.length
    else decide (0 < ivalues.length))

def stringEvalLike (forAll : Bool) (inner : FuncKeyValue (HashSet String)) : Option Bool :=
  let matched (v : String) : Option Bool := do
    pure ((← resolvedValues values resolver inner.values).any fun x => isMatch x v)
  match values.lookup inner.key.name with
  | none => some forAll
  | some rvalues => if forAll then rvalues.allM matched else rvalues.anyM matched

/-- The test of one key. -/
def stringTest (forAll ignoreCase like negate : Bool) (inner : FuncKeyValue (HashSet String)) :
    Option Bool :=
  (· ^^ negate) <$> if like then stringEvalLike values resolver forAll inner
    else stringEval env values resolver forAll ignoreCase inner

def StringFunc.evaluateWithResolver (forAll ignoreCase like negate : Bool) (func : StringFunc) :
    Option Bool :=
  func.entries.allM (stringTest env values resolver forAll ignoreCase like negate)

/-- The evaluation is not written yet, and panics. -/
def BinaryFunc.evaluate (_func : BinaryFunc) : Option Bool := none

/-- The addresses of the request with the networks of their key, in the order they are tried. -/
def AddrFunc.trials (func : AddrFunc) : List (String × List IpNetwork) :=
  func.entries.flatMap fun inner =>
    ((values.lookup inner.key.name).getD []).map fun r => (r, inner.values)

/-- The first address in one of its networks decides, and so does the first that is none. -/
def addrLoop : List (String × List IpNetwork) → Bool
  | [] => false
  | (r, nets) :: rest =>
    match env.parseIpAddr r with
    | none => false
    | some ip => nets.any (env.netContains · ip) || addrLoop rest

def AddrFunc.evaluate (func : AddrFunc) : Bool := addrLoop env (func.trials values)

def firstValue (key : Key) : Option String := (values.lookup key.name).bind (·.head?)

def BoolFunc.evaluateBool (func : BoolFunc) : Bool :=
  func.entries.all fun inner =>
    match firstValue values inner.key with
    | some x => (if inner.values then "true" else "false") == x
    | none => false

def BoolFunc.evaluateNull (func : BoolFunc) : Bool :=
  func.entries.all fun inner =>
    let len := ((values.lookup inner.key.name).getD []).length
    if inner.values then len == 0 else len != 0

/-- A key without a value ends the loop. -/
def numberLoop (op : ℤ → ℤ → Bool) (ifExists : Bool) : List (FuncKeyValue ℤ) → Bool
  | [] => true
  | inner :: rest =>
    match firstValue values inner.key with
    | none => ifExists
    | some v =>
      match parseI64 v with
      | none => false
      | some rv => if op rv inner.values then numberLoop op ifExists rest else false

def NumberFunc.evaluate (op : ℤ → ℤ → Bool) (ifExists : Bool) (func : NumberFunc) : Bool :=
  numberLoop values op ifExists func.entries

/-- Here the value of the policy stands on the left. -/
def DateFunc.evaluate (op : Time → Time → Bool) (func : DateFunc) : Bool :=
  func.entries.all fun inner =>
    match (firstValue values inner.key).bind env.parseRfc3339 with
    | none => false
    | some rv => op inner.values rv

end

/-! The operators by the kind of their values. -/

inductive StringOp where
  | equals | notEquals | equalsIgnoreCase | notEqualsIgnoreCase | like | notLike
  deriving DecidableEq

def StringOp.ignoreCase : StringOp → Bool
  | .equalsIgnoreCase | .notEqualsIgnoreCase => true
  | .equals | .notEquals | .like | .notLike => false

def StringOp.isLike : StringOp → Bool
  | .like | .notLike => true
  | .equals | .notEquals | .equalsIgnoreCase | .notEqualsIgnoreCase => false

/-- The evaluation of each key is turned around. -/
def StringOp.negate : StringOp → Bool
  | .notEquals | .notEqualsIgnoreCase | .notLike => true
  | .equals | .equalsIgnoreCase | .like => false

inductive AddrOp where
  | ipAddress | notIpAddress
  deriving DecidableEq

inductive BoolOp where
  | null | bool
  deriving DecidableEq

inductive NumberOp where
  | equals | notEquals | lessThan | lessThanEquals | greaterThan | greaterThanIfExists
  | greaterThanEquals
  deriving DecidableEq

def NumberOp.op : NumberOp → ℤ → ℤ → Bool
  | .equals => (· == ·)
  | .notEquals => (· != ·)
  | .lessThan => (· < ·)
  | .lessThanEquals => (· ≤ ·)
  | .greaterThan => (· > ·)
  | .greaterThanIfExists => (· ≥ ·)
  | .greaterThanEquals => (· ≥ ·)

def NumberOp.ifExists : NumberOp → Bool
  | .greaterThanIfExists => true
  | .equals | .notEquals | .lessThan | .lessThanEquals | .greaterThan | .greaterThanEquals => false

inductive DateOp where
  | equals | notEquals | lessThan | lessThanEquals | greaterThan | greaterThanEquals
  deriving DecidableEq

def DateOp.op : DateOp → Time → Time → Bool
  | .equals => (· == ·)
  | .notEquals => (· != ·)
  | .lessThan => (· < ·)
  | .lessThanEquals => (· ≤ ·)
  | .greaterThan => (· > ·)
  | .greaterThanEquals => (· ≥ ·)

/-- `StringEquals(s)` of the source is `.string .equals s`, and so on. -/
inductive Condition where
  | string (op : StringOp) (s : StringFunc)
  | binaryEquals (s : BinaryFunc)
  | addr (op : AddrOp) (s : AddrFunc)
  | bool (op : BoolOp) (s : BoolFunc)
  | numeric (op : NumberOp) (s : NumberFunc)
  | date (op : DateOp) (s : DateFunc)

namespace Condition

def toKey : Condition → String
  | string .equals _ => "StringEquals"
  | string .notEquals _ => "StringNotEquals"
  | string .equalsIgnoreCase _ => "StringEqualsIgnoreCase"
  | string .notEqualsIgnoreCase _ => "StringNotEqualsIgnoreCase"
  | string .like _ => "StringLike"
  | string .notLike _ => "StringNotLike"
  | binaryEquals _ => "BinaryEquals"
  | addr .ipAddress _ => "IpAddress"
  | addr .notIpAddress _ => "NotIpAddress"
  | bool .null _ => "Null"
  | bool .bool _ => "Bool"
  | numeric .equals _ => "NumericEquals"
  | numeric .notEquals _ => "NumericNotEquals"
  | numeric .lessThan _ => "NumericLessThan"
  | numeric .lessThanEquals _ => "NumericLessThanEquals"
  | numeric .greaterThan _ => "NumericGreaterThan"
  | numeric .greaterThanIfExists _ => "NumericGreaterThanIfExists"
  | numeric .greaterThanEquals _ => "NumericGreaterThanEquals"
  | date .equals _ => "DateEquals"
  | date .notEquals _ => "DateNotEquals"
  | date .lessThan _ => "DateLessThan"
  | date .lessThanEquals _ => "DateLessThanEquals"
  | date .greaterThan _ => "DateGreaterThan"
  | date .greaterThanEquals _ => "DateGreaterThanEquals"

/-- What the operator gives before `is_negate` is looked at. -/
def evaluateOperator (env : Env) (forAll : Bool) (values : Conditions)
    (resolver : Option PolicyVariableResolver) : Condition → Option Bool
  | string op s =>
    s.evaluateWithResolver env values resolver forAll op.ignoreCase op.isLike op.negate
  | binaryEquals s => s.evaluate
  | addr _ s => some (s.evaluate env values)
  | bool .null s => some (s.evaluateNull values)
  | bool .bool s => some (s.evaluateBool values)
  | numeric op s => some (s.evaluate values op.op op.ifExists)
  | date op s => some (s.evaluate env values op.op)

def isNegate : Condition → Bool
  | string .notEquals _ | string .notEqualsIgnoreCase _ | addr .notIpAddress _ => true
  | _ => false

def evaluateWithResolver (env : Env) (forAll : Bool) (values : Conditions)
    (resolver : Option PolicyVariableResolver) (c : Condition) : Option Bool := do
  let r ← c.evaluateOperator env forAll values resolver
  pure (if c.isNegate then !r else r)

def eq : Condition → Condition → Bool
  | string op l, string op' r => op == op' && l.eq HashSet.eq r
  | binaryEquals l, binaryEquals r => l.eq (· == ·) r
  | addr op l, addr op' r => op == op' && l.eq (· == ·) r
  | bool op l, bool op' r => op == op' && l.eq (· == ·) r
  | numeric op l, numeric op' r => op == op' && l.eq (· == ·) r
  | date op l, date op' r => op == op' && l.eq (· == ·) r
  | _, _ => false

end Condition

/-- The conditions of a statement. An operator that is named twice is not accepted. -/
structure Functions where
  forAnyValue : List Condition
  forAllValues : List Condition
  forNormal : List Condition
  distinct_any : (forAnyValue.map Condition.toKey).Nodup
  distinct_all : (forAllValues.map Condition.toKey).Nodup
  distinct_normal : (forNormal.map Condition.toKey).Nodup

namespace Functions

def empty : Functions := ⟨[], [], [], List.nodup_nil, List.nodup_nil, List.nodup_nil⟩

def evaluateWithResolver (env : Env) (values : Conditions)
    (resolver : Option PolicyVariableResolver) (self : Functions) : Option Bool := do
  if ← self.forAnyValue.allM (Condition.evaluateWithResolver env false values resolver) then
    if ← self.forAllValues.allM (Condition.evaluateWithResolver env true values resolver) then
      self.forNormal.allM (Condition.evaluateWithResolver env false values resolver)
    else pure false
  else pure false

def sameConditions (l r : List Condition) : Bool := l.all fun x => r.any x.eq

def eq (self other : Functions) : Bool :=
  self.forAllValues.length == other.forAllValues.length &&
    self.forAnyValue.length == other.forAnyValue.length &&
    self.forNormal.length == other.forNormal.length &&
    (sameConditions self.forAnyValue other.forAnyValue &&
      sameConditions self.forAllValues other.forAllValues &&
      sameConditions self.forNormal other.forNormal)

end Functions

end Rustfs.Iam
