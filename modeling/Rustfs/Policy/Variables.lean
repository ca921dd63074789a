import Rustfs.Filemeta.Replication

/-! Variables in the texts of a policy, and what they stand for. -/
namespace Rustfs.Iam

/-- A JSON value. Of a number only the text is read, of an object nothing. -/
inductive Value where
  | null
  | bool (b : Bool)
  | number (text : String)
  | string (s : String)
  | array (items : List Value)
  | object

abbrev Claims : Type := StrMap Value

def Value.asStr : Value → Option String
  | .string s => some s
  | _ => none

def Value.asArray : Value → Option (List Value)
  | .array items => some items
  | _ => none

def Value.text : Value → Option String
  | .string s => some s
  | .number text => some text
  | .bool b => some (if b then "true" else "false")
  | .null | .array _ | .object => none

/-- The texts of a claim: of an array those of its items that have one. -/
def Value.asStrings : Value → Option (List String)
  | .array items => some (items.filterMap Value.text)
  | value => value.text.map ([·])

structure VariableContext where
  isHttps : Bool
  sourceIp : Option String
  accountId : Option String
  region : Option String
  username : Option String
  claims : Option Claims
  customVariables : StrMap String

def VariableContext.new : VariableContext where
  isHttps := false
  sourceIp := none
  accountId := none
  region := none
  username := none
  claims := none
  customVariables := ∅

/-- The time of a decision, as text and in seconds, and how many steps the resolution of a text
may take before it is given up. -/
structure Clock where
  currentTime : String
  epochTime : String
  steps : ℕ

/-- What a variable stands for, if it is known. -/
structure PolicyVariableResolver where
  resolveMultiple : String → Option (List String)
  steps : ℕ

section

variable (clock : Clock) (ctx : VariableContext)

def getClaimAsStrings (claimName : String) : Option (List String) :=
  (ctx.claims.bind (·.lookup claimName)).bind Value.asStrings

/-- All texts of the claim, of which `resolve` takes the last. -/
def useridValues : Option (List String) :=
  (getClaimAsStrings ctx "sub").or (getClaimAsStrings ctx "parent")

def resolvePrincipalType : String :=
  match ctx.claims with
  | none => "User"
  | some claims =>
    if (claims.lookup "roleArn").isSome then "AssumedRole"
    else if (claims.lookup "parent").isSome && (claims.lookup "sa-policy").isSome then
      "ServiceAccount"
    else "User"

def resolveCustomVariable (variableName : String) : Option String :=
  match variableName.toList with
  | 'c' :: 'u' :: 's' :: 't' :: 'o' :: 'm' :: ':' :: key =>
    ctx.customVariables.lookup (String.ofList key)
  | _ => none

def resolve (variableName : String) : Option String :=
  if variableName = "aws:username" then ctx.username
  else if variableName = "aws:userid" then (useridValues ctx).bind (·.getLast?)
  else if variableName = "aws:PrincipalType" then some (resolvePrincipalType ctx)
  else if variableName = "aws:SecureTransport" then some (if ctx.isHttps then "true" else "false")
  else if variableName = "aws:CurrentTime" then some clock.currentTime
  else if variableName = "aws:EpochTime" then some clock.epochTime
  else if variableName = "aws:AccountId" then ctx.accountId
  else if variableName = "aws:Region" then ctx.region
  else if variableName = "aws:SourceIp" then ctx.sourceIp
  else resolveCustomVariable ctx variableName

def VariableResolver.new : PolicyVariableResolver where
  resolveMultiple variableName :=
    if variableName = "aws:username" then ctx.username.map ([·])
    else if variableName = "aws:userid" then useridValues ctx
    else (resolve clock ctx variableName).map ([·])
  steps := clock.steps

end

/-! Positions in a text count bytes, except where the closing brace is looked for. -/

def utf8Len : List Char → ℕ
  | [] => 0
  | c :: cs => c.utf8Size + utf8Len cs

/-- The text from a byte on. Inside a character there is no position. -/
def sliceFrom : List Char → ℕ → Option (List Char)
  | cs, 0 => some cs
  | [], _ + 1 => none
  | c :: cs, n + 1 => if c.utf8Size ≤ n + 1 then sliceFrom cs (n + 1 - c.utf8Size) else none

/-- The text up to a byte. -/
def sliceTo : List Char → ℕ → Option (List Char)
  | _, 0 => some []
  | [], _ + 1 => none
  | c :: cs, n + 1 =>
    if c.utf8Size ≤ n + 1 then (sliceTo cs (n + 1 - c.utf8Size)).map (c :: ·) else none

/-- The text before the first variable, if there is one. -/
def beforeVariable : List Char → Option (List Char)
  | [] => none
  | '$' :: '\x7b' :: _ => some []
  | c :: cs => (beforeVariable cs).map (c :: ·)

inductive Closing where
  | found (pos : ℕ)
  | missing
  /-- The characters end before the bytes do. -/
  | panicked

/-- The end of a variable. Here every character counts one. -/
def closingBrace (len : ℕ) : List Char → ℕ → ℕ → Closing
  | [], pos, _ => if pos < len then .panicked else .missing
  | c :: cs, pos, depth =>
    if c = '\x7b' then closingBrace len cs (pos + 1) (depth + 1)
    else if c = '\x7d' then
      if depth = 1 then .found pos else closingBrace len cs (pos + 1) (depth - 1)
    else closingBrace len cs (pos + 1) depth

/-- The text with each of the values in place of its bytes between the two positions. -/
def replaceBytes (text : List Char) (start stop : ℕ) (values : List (List Char)) :
    Option (List (List Char)) := do
  let head ← sliceTo text start
  let tail ← sliceFrom text stop
  pure (values.map fun value => head ++ value ++ tail)

/-- A pass made something else, or more, of one of the texts. -/
def changedBy (results : List (List Char)) (resolved : List (List (List Char))) : Bool :=
  (results.zip resolved).any fun (result, new) =>
    new.length > 1 || new.length == 1 && new ≠ [result]

/-! No answer stands for a panic, and for steps that run out: a value may bring its own variable
back for ever. -/

section

variable (resolveMultiple : String → Option (List String))

mutual

/-- The first variable from the position on that stands for something is replaced. -/
def replaceVariable : ℕ → List Char → ℕ → Option (Option (List (List Char)))
  | 0, _, _ => none
  | steps + 1, text, start => do
    let rest ← sliceFrom text start
    match beforeVariable rest with
    | none => pure none
    | some before =>
      let pos := start + utf8Len before
      match closingBrace (utf8Len text) (text.drop (pos + 2)) (pos + 2) 1 with
      | .panicked => none
      | .missing => pure none
      | .found stop =>
        let inner ← sliceTo text stop
        let varName ← sliceFrom inner (pos + 2)
        match beforeVariable varName with
        | some _ =>
          let resolved ← resolveAll steps [varName] 10
          match resolved with
          | [] => replaceVariable steps text (stop + 1)
          | _ => some <$> replaceBytes text pos (stop + 1) resolved
        | none =>
          match resolveMultiple (String.ofList varName) with
          | none => replaceVariable steps text (stop + 1)
          | some [] => some <$> replaceBytes text pos (stop + 1) [[]]
          | some values => some <$> replaceBytes text pos (stop + 1) (values.map String.toList)

/-- `resolve_single_pass`: the first text is worked on until nothing in it is replaced. -/
def resolveSinglePass : ℕ → List (List Char) → Option (List (List Char))
  | 0, _ => none
  | _ + 1, [] => pure []
  | steps + 1, text :: rest => do
    match ← replaceVariable steps text 0 with
    | none =>
      let done ← resolveSinglePass steps rest
      pure (text :: done)
    | some new => resolveSinglePass steps (new ++ rest)

/-- Passes over all texts, at most as many as given, until one changes nothing. -/
def resolveAll : ℕ → List (List Char) → ℕ → Option (List (List Char))
  | 0, _, _ => none
  | _ + 1, results, 0 => pure results
  | steps + 1, results, passes + 1 => do
    let resolved ← results.mapM fun result => resolveSinglePass steps [result]
    let next := resolved.flatten.eraseDups
    if changedBy results resolved then resolveAll steps next passes else pure next

end

end

def resolveAwsVariables (res : PolicyVariableResolver) (pattern : String) :
    Option (List String) :=
  (resolveAll res.resolveMultiple res.steps [pattern.toList] 10).map (·.map String.ofList)

variable {res : PolicyVariableResolver} {f : String → Option (List String)}

theorem resolveSinglePass_plain {ss : ℕ} {ts : List Char} (h : beforeVariable ts = none) :
    resolveSinglePass f (ss + 2) [ts] = some [ts] := by
  have hnone : replaceVariable f (ss + 1) ts 0 = some none := by
    rw [replaceVariable]
    simp [sliceFrom, h]
  rw [resolveSinglePass]
  simp [hnone, resolveSinglePass]

/-- A text without variables stays what it is. -/
theorem resolveAwsVariables_plain {p : String} (hsteps : 3 ≤ res.steps)
    (h : beforeVariable p.toList = none) : resolveAwsVariables res p = some [p] := by
  obtain ⟨steps, hsteps⟩ := Nat.exists_eq_add_of_le' hsteps
  have hpass : resolveAll res.resolveMultiple res.steps [p.toList] 10 = some [p.toList] := by
    rw [hsteps, resolveAll]
    simp [resolveSinglePass_plain h, changedBy, List.eraseDups_cons]
  simp [resolveAwsVariables, hpass]

end Rustfs.Iam
