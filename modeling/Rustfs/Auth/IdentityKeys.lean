import Rustfs.Auth.ConditionValues
import Rustfs.Policy.Soundness

/-! When the condition keys about the caller have values of the credentials alone. -/
namespace Rustfs.Iam

open List AList

variable {env : RequestEnv} {header : HeaderMap} {cred : Credentials} {parts : RequestParts}
  {args : Conditions} {key : String}

/-- The keys about the caller: the principal, and what a token claims. -/
def KeyName.aboutCaller : KeyName → Bool
  | .aws .awsPrincipalType | .aws .awsUserID | .aws .awsUsername | .aws .awsGroups => true
  | .aws _ | .s3 _ => false
  | .jwt _ | .ldap _ | .sts _ | .svc _ => true

/-- A key has its value from the claims of the token. -/
def Claimed (env : RequestEnv) (cred : Credentials) (key : String) : Prop :=
  key ∈ (claimEntries env cred).map (·.1)

def IdentityKey (env : RequestEnv) (cred : Credentials) (key : String) : Prop :=
  (∃ name : KeyName, name.aboutCaller = true ∧ name.name = key) ∨ Claimed env cred key

/-- The values of a header, all of them once for each. -/
def HeaderMap.repeated (self : HeaderMap) (name : String) : List String :=
  (List.replicate (self.texts name).length (self.texts name)).flatten

/-- The keys that stand for the request itself. -/
def requestKeys : List String :=
  ["CurrentTime", "EpochTime", "SecureTransport", "SourceIp", "UserAgent", "Referer", "versionid",
    "signatureversion", "authType", "LocationConstraint", "signatureAge", "object-lock-mode",
    "object-lock-legal-hold", "object-lock-retain-until-date", "x-amz-signature-age",
    "x-amz-object-lock-mode", "x-amz-object-lock-legal-hold",
    "x-amz-object-lock-retain-until-date"]

theorem aboutCaller_not_request {n : KeyName} (h : n.aboutCaller = true) :
    n.name ∉ requestKeys ∧ isTagging n.name = false := by
  revert h
  cases n with
  | aws key | jwt key | ldap key => cases key <;> decide +kernel
  | sts key | svc key => cases key; decide +kernel
  | s3 key => intro h; cases h

/-! What each stage leaves in the map. -/

theorem lookup_putAll (l : List (String × List String)) :
    (putAll args l).lookup key = (l.reverse.lookup key).or (args.lookup key) := by
  induction l generalizing args with
  | nil => rfl
  | cons entry l ih =>
    obtain ⟨name, value⟩ := entry
    have hrest : (putAll args ((name, value) :: l)).lookup key =
        (l.reverse.lookup key).or ((args.insert name value).lookup key) := ih
    rw [hrest, reverse_cons, lookup_append, Option.or_assoc]
    congr 1
    by_cases h : key = name
    · subst h
      rw [lookup_cons_self, lookup_insert]
      rfl
    · rw [lookup_insert_ne h, lookup_cons, beq_eq_false_iff_ne.2 h, lookup_nil]
      rfl

theorem lookup_eq_none_of_keys {l : List (String × List String)}
    (h : key ∉ l.map (·.1)) : l.reverse.lookup key = none := by
  rw [lookup_eq_none_iff]
  intro entry hentry
  have hmem : entry.1 ∈ l.map (·.1) := mem_map_of_mem (mem_reverse.1 hentry)
  exact bne_iff_ne.2 fun he => h (he ▸ hmem)

theorem lookup_of_claimed (h : Claimed env cred key) :
    ∃ values, (claimEntries env cred).reverse.lookup key = some values := by
  by_contra hnone
  rw [not_exists] at hnone
  have hlookup := Option.eq_none_iff_forall_ne_some.2 hnone
  obtain ⟨entry, hentry, rfl⟩ := mem_map.1 h
  rw [lookup_eq_none_iff] at hlookup
  exact bne_iff_ne.1 (hlookup entry (mem_reverse.2 hentry)) rfl

theorem timeAndOrigin_keys (h : key ∈ (timeAndOrigin env header parts).map (·.1)) :
    key ∈ requestKeys := by
  simp only [timeAndOrigin, map_append, mem_append, map_map, mem_map] at h
  obtain (⟨entry, hentry, rfl⟩ | ⟨_, _, rfl⟩) | ⟨_, _, rfl⟩ := h
  · simp only [mem_cons, not_mem_nil, or_false] at hentry
    obtain rfl | rfl | rfl | rfl := hentry <;> simp [requestKeys]
  all_goals simp [requestKeys]

theorem unlessEmpty_keys {n v : String} (h : key ∈ (unlessEmpty n v).map (·.1)) : key = n := by
  unfold unlessEmpty at h
  split at h
  · exact nomatch h
  · exact mem_singleton.1 h

theorem signatureAndLock_keys (h : key ∈ (signatureAndLock header parts).map (·.1)) :
    key ∈ requestKeys := by
  simp only [signatureAndLock, map_append, mem_append] at h
  obtain ((((h | h) | h) | h) | h) | h := h
  · simp [requestKeys, unlessEmpty_keys h]
  · simp [requestKeys, unlessEmpty_keys h]
  · simp [requestKeys, unlessEmpty_keys h]
  · simp [requestKeys, unlessEmpty_keys h]
  · obtain ⟨_, hentry, rfl⟩ := mem_map.1 h
    obtain ⟨_, _, rfl⟩ := mem_map.1 hentry
    simp [requestKeys]
  · obtain ⟨entry, hentry, rfl⟩ := mem_map.1 h
    obtain ⟨names, hnames, hin⟩ := mem_flatMap.1 hentry
    split at hin
    · exact nomatch hin
    · rw [mem_singleton.1 hin]
      simp only [objectLockHeaders, mem_cons, not_mem_nil, or_false] at hnames
      obtain rfl | rfl | rfl := hnames <;> simp [requestKeys]

/-- Before the headers are put in, a key that is not of the request has what the principal gives. -/
theorem lookup_base (h : key ∉ requestKeys) :
    (putAll ∅ (timeAndOrigin env header parts ++ userAndPrincipal env cred ++
      signatureAndLock header parts)).lookup key = (userAndPrincipal env cred).reverse.lookup key := by
  have hfront : (timeAndOrigin env header parts).reverse.lookup key = none :=
    lookup_eq_none_of_keys fun hin => h (timeAndOrigin_keys hin)
  have hback : (signatureAndLock header parts).reverse.lookup key = none :=
    lookup_eq_none_of_keys fun hin => h (signatureAndLock_keys hin)
  rw [lookup_putAll]
  simp only [reverse_append, lookup_append]
  rw [hfront, hback, lookup_empty]
  simp

/-! The headers of a request that are put in under their own names. -/

theorem texts_remove {n : String} (h : key ≠ n) :
    (header.remove n).texts key = header.texts key := by
  have hfilter : (header.remove n).entries.filter (·.1 == key) =
      header.entries.filter (·.1 == key) := by
    refine (filter_filter).trans (filter_congr ?_)
    intro entry _
    by_cases he : entry.1 = key
    · simp [he, h]
    · simp [he]
  simp only [HeaderMap.texts, HeaderMap.getAll, hfilter]

theorem texts_otherHeaders (h : key ∉ requestKeys) :
    (otherHeaders header).texts key = header.texts key := by
  simp only [requestKeys, mem_cons, not_or] at h
  obtain ⟨_, _, _, _, _, _, _, _, _, _, _, _, _, _, hage, hmode, hhold, hdate, _⟩ := h
  change ((((header.remove "x-amz-signature-age").remove "x-amz-object-lock-mode").remove
    "x-amz-object-lock-legal-hold").remove "x-amz-object-lock-retain-until-date").texts key = _
  rw [texts_remove hdate, texts_remove hhold, texts_remove hmode, texts_remove hage]

theorem count_names : (header.entries.map (·.1)).count key = (header.texts key).length := by
  rw [count_eq_countP, countP_map, countP_eq_length_filter]
  simp only [HeaderMap.texts, HeaderMap.getAll, length_map]
  rfl

theorem lookup_putHeader_ne {n : String} (h : key ≠ n) :
    (putHeader header args n).lookup key = args.lookup key := by
  unfold putHeader
  split
  · rfl
  · split <;> exact lookup_insert_ne h

theorem lookup_putHeader (h : key ∉ requestKeys) (htag : isTagging key = false) :
    (putHeader header args key).lookup key =
      some ((args.lookup key).getD [] ++ header.texts key) := by
  unfold putHeader
  rw [if_neg (by simp [htag]), texts_otherHeaders h]
  cases hargs : args.lookup key with
  | none | some existing => exact lookup_insert args

/-- The values of a key after a header with its name has been visited some times. -/
def added (texts : List String) (n : ℕ) (values : Option (List String)) : Option (List String) :=
  if n = 0 then values else some (values.getD [] ++ (List.replicate n texts).flatten)

theorem added_succ (ts : List String) (n : ℕ) (vs : Option (List String)) :
    added ts n (some (vs.getD [] ++ ts)) = added ts (n + 1) vs := by
  cases n with
  | zero => simp [added]
  | succ n => simp [added, replicate_succ]

section

variable (h : key ∉ requestKeys) (htag : isTagging key = false)
include h htag

/-- The loop over the headers changes a key only as often as a header of its name is visited. -/
theorem lookup_foldl_putHeader (ns : List String) :
    (ns.foldl (putHeader header) args).lookup key =
      added (header.texts key) (ns.count key) (args.lookup key) := by
  induction ns generalizing args with
  | nil => simp [added]
  | cons name ns ih =>
    rw [foldl_cons, ih]
    by_cases he : name = key
    · subst he
      rw [lookup_putHeader h htag, count_cons_self, added_succ]
    · rw [lookup_putHeader_ne (Ne.symm he), count_cons_of_ne he]

theorem lookup_putHeaders : (putHeaders header args).lookup key =
      added (header.texts key) (header.texts key).length (args.lookup key) := by
  unfold putHeaders
  rw [lookup_foldl_putHeader h htag, count_names, texts_otherHeaders h]

end

theorem lookup_putGroups :
    (putGroups cred args).lookup key =
      (args.lookup key).or (if key = "groups" then cred.groups else none) := by
  unfold putGroups
  split
  · rename_i groups hgroups hnone
    by_cases he : key = "groups"
    · subst he
      rw [lookup_insert, hnone, if_pos rfl, hgroups, Option.none_or]
    · rw [lookup_insert_ne he, if_neg he, Option.or_none]
  · rename_i hother
    by_cases he : key = "groups"
    · subst he
      rw [if_pos rfl]
      cases hargs : args.lookup "groups" with
      | some values => rfl
      | none =>
        cases hgroups : cred.groups with
        | none => rfl
        | some groups => exact absurd hargs (hother groups hgroups)
    · rw [if_neg he, Option.or_none]

/-- The value of a key that a claim gives. -/
theorem lookup_claimed (h : Claimed env cred key) :
    (getConditionValues env header cred parts).lookup key =
      (claimEntries env cred).reverse.lookup key := by
  obtain ⟨values, hvalues⟩ := lookup_of_claimed h
  simp only [getConditionValues]
  rw [lookup_putGroups, lookup_putAll, hvalues, Option.some_or, Option.some_or]

section

variable (hclaim : ¬Claimed env cred key) (h : key ∉ requestKeys) (htag : isTagging key = false)
include hclaim h htag

/-- The value of a key that no claim gives. -/
theorem lookup_unclaimed : (getConditionValues env header cred parts).lookup key =
      (added (header.texts key) (header.texts key).length
        ((userAndPrincipal env cred).reverse.lookup key)).or
      (if key = "groups" then cred.groups else none) := by
  simp only [getConditionValues]
  rw [lookup_putGroups, lookup_putAll, lookup_eq_none_of_keys hclaim, Option.none_or,
    lookup_putHeaders h htag, lookup_base h]

theorem lookup_no_headers : (getConditionValues env .empty cred parts).lookup key =
      ((userAndPrincipal env cred).reverse.lookup key).or
        (if key = "groups" then cred.groups else none) :=
  lookup_unclaimed hclaim h htag

end

theorem repeated_ne_nil (h : header.texts key ≠ []) : header.repeated key ≠ [] := by
  cases htexts : header.texts key with
  | nil => exact absurd htexts h
  | cons text texts => simp [HeaderMap.repeated, htexts, replicate_succ]

theorem userAndPrincipal_groups : (userAndPrincipal env cred).reverse.lookup "groups" = none :=
  lookup_eq_none_of_keys (by simp [userAndPrincipal])

/-- A header named like a key that no claim gives changes the key, unless it repeats the groups
that the credentials have. -/
theorem lookup_same_iff {parts' : RequestParts} (hclaim : ¬Claimed env cred key)
    (h : key ∉ requestKeys) (htag : isTagging key = false) :
    (getConditionValues env header cred parts).lookup key =
        (getConditionValues env .empty cred parts').lookup key ↔
      header.texts key = [] ∨ key = "groups" ∧ cred.groups = some (header.repeated key) := by
  rw [lookup_unclaimed hclaim h htag, lookup_no_headers hclaim h htag]
  by_cases hnone : header.texts key = []
  · simp [hnone, added]
  have hadded : added (header.texts key) (header.texts key).length
      ((userAndPrincipal env cred).reverse.lookup key) =
      some (((userAndPrincipal env cred).reverse.lookup key).getD [] ++ header.repeated key) :=
    if_neg (mt length_eq_zero_iff.1 hnone)
  rw [hadded, Option.some_or]
  simp only [hnone, false_or]
  by_cases hgroups : key = "groups"
  · subst hgroups
    simp [userAndPrincipal_groups, eq_comm]
  · have hrep := repeated_ne_nil hnone
    simp only [hgroups, if_false, Option.or_none, false_and, iff_false]
    cases (userAndPrincipal env cred).reverse.lookup key with
    | none => exact Option.some_ne_none _
    | some values => simpa using hrep

/-! A condition sees the request through the values of its keys. -/

section

variable {values values' : Conditions} {r : Option PolicyVariableResolver}

theorem replaceChars_of_not_mem {c : Char} {ts v t : List Char} (h : c ∉ t) :
    replaceChars (c :: ts) v 0 t = t := by
  induction t with
  | nil => rfl
  | cons a t ih =>
    obtain ⟨hne, hrest⟩ := not_or.1 (mt mem_cons.2 h)
    simp [replaceChars, hne, ih hrest]

theorem varName_toList (n : KeyName) : ∃ rest, n.varName.toList = '$' :: rest := by
  cases n <;> exact ⟨_, by rw [KeyName.varName, String.toList_append, String.toList_append]; rfl⟩

/-- Variables of the request are put in only where there is a variable. -/
theorem substituteFirst_of_not_mem {t : String} (h : '$' ∉ t.toList) :
    substituteFirst values t = t := by
  unfold substituteFirst
  split
  · rename_i name v _
    obtain ⟨rest, hrest⟩ := varName_toList name
    rw [replaceAll, hrest, replaceChars_of_not_mem h, String.ofList_toList]
  · rfl

/-- What the texts stand for has no variables any more. -/
def Settled (resolver : Option PolicyVariableResolver) (set : HashSet String) : Prop :=
  ∀ text ∈ set.toList, ∀ texts, resolveValue resolver text = some texts →
    ∀ x ∈ texts, '$' ∉ x.toList

theorem resolvedValues_congr {set : HashSet String} (h : Settled r set) :
    resolvedValues values r set = resolvedValues values' r set := by
  unfold resolvedValues
  cases hmap : set.toList.mapM (resolveValue r) with
  | none => rfl
  | some lists =>
    have hsub : ∀ v : Conditions, lists.flatten.map (substituteFirst v) = lists.flatten := by
      intro v
      refine (map_congr_left fun x hx => ?_).trans (map_id _)
      obtain ⟨texts, htexts, hx⟩ := mem_flatten.1 hx
      obtain ⟨text, htext, hresolve⟩ := (Trial.mem_of_mapM hmap texts).1 htexts
      exact substituteFirst_of_not_mem (h text htext texts hresolve x hx)
    simp only [Option.bind_eq_bind, Option.bind_some, hsub]

theorem all_congr_of_mem {α : Type} {l : List α} {p q : α → Bool} (h : ∀ x ∈ l, p x = q x) :
    l.all p = l.all q := by
  rw [Bool.eq_iff_iff, all_eq_true, all_eq_true]
  exact forall₂_congr fun x hx => by rw [h x hx]

end

namespace Condition

def keyNames : Condition → List String
  | string _ s => s.entries.map (·.key.name)
  | binaryEquals s => s.entries.map (·.key.name)
  | addr _ s => s.entries.map (·.key.name)
  | bool _ s => s.entries.map (·.key.name)
  | numeric _ s => s.entries.map (·.key.name)
  | date _ s => s.entries.map (·.key.name)

/-- The texts of the condition have no variables of the request. -/
def NoVariables (resolver : Option PolicyVariableResolver) : Condition → Prop
  | string _ s => ∀ e ∈ s.entries, Settled resolver e.values
  | _ => True

end Condition

section

variable {vs vs' : Conditions} {r : Option PolicyVariableResolver}

theorem stringTest_congr {e : FuncKeyValue (HashSet String)} {p : Env}
    (hkey : vs.lookup e.key.name = vs'.lookup e.key.name) (h : Settled r e.values)
    (f i l n : Bool) : stringTest p vs r f i l n e = stringTest p vs' r f i l n e := by
  have hset : resolvedValues vs r e.values = resolvedValues vs' r e.values :=
    resolvedValues_congr h
  simp only [stringTest, stringEval, stringEvalLike, hkey, hset]

theorem numberLoop_congr {l : List (FuncKeyValue ℤ)} {op : ℤ → ℤ → Bool} {es : Bool}
    (h : ∀ e ∈ l, firstValue vs e.key = firstValue vs' e.key) :
    numberLoop vs op es l = numberLoop vs' op es l := by
  induction l with
  | nil => rfl
  | cons e l ih =>
    obtain ⟨he, hl⟩ := forall_mem_cons.1 h
    simp only [numberLoop, he, ih hl]

/-- Two maps that agree on the keys of a condition give it the same answer. -/
theorem Condition.evaluateWithResolver_congr {c : Condition} {p : Env} {f : Bool}
    (hkeys : ∀ name ∈ c.keyNames, vs.lookup name = vs'.lookup name) (hplain : c.NoVariables r) :
    c.evaluateWithResolver p f vs r = c.evaluateWithResolver p f vs' r := by
  suffices h : c.evaluateOperator p f vs r =
      c.evaluateOperator p f vs' r by
    simp only [Condition.evaluateWithResolver, h]
  cases c with
  | string op s =>
    have hkeys := forall_mem_map.1 hkeys
    exact Trial.allM_congr fun e he => stringTest_congr (hkeys e he) (hplain e he) _ _ _ _
  | binaryEquals s => rfl
  | addr op s =>
    have hkeys := forall_mem_map.1 hkeys
    simp only [evaluateOperator, AddrFunc.evaluate, AddrFunc.trials]
    congr 2
    exact flatMap_congr fun e he => by rw [hkeys e he]
  | bool op s =>
    replace hkeys := forall_mem_map.1 hkeys
    cases op with
    | null =>
      simp only [evaluateOperator, BoolFunc.evaluateNull]
      exact congrArg some (all_congr_of_mem fun e he => by rw [hkeys e he])
    | bool =>
      simp only [evaluateOperator, BoolFunc.evaluateBool, firstValue]
      exact congrArg some (all_congr_of_mem fun e he => by rw [hkeys e he])
  | numeric op s =>
    have hkeys := forall_mem_map.1 hkeys
    exact congrArg some (numberLoop_congr fun e he => by rw [firstValue, hkeys e he, firstValue])
  | date op s =>
    have hkeys := forall_mem_map.1 hkeys
    simp only [evaluateOperator, DateFunc.evaluate, firstValue]
    exact congrArg some (all_congr_of_mem fun e he => by rw [hkeys e he])

end

/-! The values about the caller, and the headers that change them. -/

/-- The keys about the caller, the conditions on them and the variables they stand for are those
of a request with the same credentials and no headers. -/
structure OfCredentials (env : RequestEnv) (header : HeaderMap) (cred : Credentials)
    (parts : RequestParts) : Prop where
  values : ∀ key parts', IdentityKey env cred key →
    (getConditionValues env header cred parts).lookup key =
      (getConditionValues env .empty cred parts').lookup key
  conditions : ∀ (c : Condition) forAll resolver parts',
    (∀ key ∈ c.keyNames, IdentityKey env cred key) → c.NoVariables resolver →
    c.evaluateWithResolver env.toEnv forAll (getConditionValues env header cred parts) resolver =
      c.evaluateWithResolver env.toEnv forAll (getConditionValues env .empty cred parts') resolver
  substituted : ∀ (name : KeyName) parts', name.aboutCaller = true →
    commonValue (getConditionValues env header cred parts) name =
      commonValue (getConditionValues env .empty cred parts') name

/-- The header is missing, a claim stands above it, or it repeats the groups of the
credentials. -/
def Harmless (env : RequestEnv) (header : HeaderMap) (cred : Credentials) (name : String) : Prop :=
  header.get name = none ∨ Claimed env cred name ∨
    name = "groups" ∧ cred.groups = some (header.repeated name)

theorem get_eq_none_iff : header.get key = none ↔ header.texts key = [] := by
  simp [HeaderMap.get, HeaderMap.texts]

theorem aboutCaller_same_iff {n : KeyName} {parts' : RequestParts} (h : n.aboutCaller = true) :
    (getConditionValues env header cred parts).lookup n.name =
        (getConditionValues env .empty cred parts').lookup n.name ↔
      Harmless env header cred n.name := by
  obtain ⟨hrequest, htag⟩ := aboutCaller_not_request h
  unfold Harmless
  by_cases hclaim : Claimed env cred n.name
  · simp only [lookup_claimed hclaim, hclaim, true_or, or_true]
  · simp only [lookup_same_iff hclaim hrequest htag, get_eq_none_iff, hclaim, false_or]

/-- What the headers say about the caller is left out exactly if no header has the name of such a
key, except where a claim stands above it or the header repeats the groups. -/
theorem getConditionValues_ofCredentials_iff :
    OfCredentials env header cred parts ↔
      ∀ name : KeyName, name.aboutCaller = true → Harmless env header cred name.name := by
  constructor
  · intro h name hname
    exact (aboutCaller_same_iff hname).1 (h.values name.name parts (.inl ⟨name, hname, rfl⟩))
  · intro h
    have hvalues : ∀ key parts', IdentityKey env cred key →
        (getConditionValues env header cred parts).lookup key =
          (getConditionValues env .empty cred parts').lookup key := by
      rintro key parts' (⟨name, hname, rfl⟩ | hclaim)
      · exact (aboutCaller_same_iff hname).2 (h name hname)
      · rw [lookup_claimed hclaim, lookup_claimed hclaim]
    refine ⟨hvalues, ?_, ?_⟩
    · intro c forAll resolver parts' hkeys hplain
      exact c.evaluateWithResolver_congr (fun key hkey => hvalues key parts' (hkeys key hkey)) hplain
    · intro name parts' hname
      simp only [commonValue, hvalues name.name parts' (.inl ⟨name, hname, rfl⟩)]

/-! A member of no group who sends a header. -/

def plainRequestEnv : RequestEnv where
  toEnv := plainEnv
  now := 0
  actionCred := none
  xffHeaderEnabled := true
  socketIp _ := none

def alice : Credentials where
  accessKey := "alice"
  secretKey := "secret-key"
  sessionToken := ""
  expiration := none
  status := "on"
  parentUser := ""
  groups := none
  claims := none

def groupsHeader : HeaderMap := ⟨[("groups", some "admins")], by decide⟩

def inAdmins : Condition :=
  .string .equals
    ⟨[⟨⟨.aws .awsGroups, none⟩, ⟨["admins"], nodup_singleton _⟩⟩], cons_ne_nil _ _⟩

theorem groups_header_is_believed :
    (getConditionValues plainRequestEnv .empty alice {}).lookup "groups" = none ∧
      (getConditionValues plainRequestEnv groupsHeader alice {}).lookup "groups" =
        some ["admins"] ∧
      inAdmins.evaluateWithResolver plainEnv false
        (getConditionValues plainRequestEnv .empty alice {}) none = some false ∧
      inAdmins.evaluateWithResolver plainEnv false
        (getConditionValues plainRequestEnv groupsHeader alice {}) none = some true ∧
      ¬OfCredentials plainRequestEnv groupsHeader alice {} := by
  have hnone : (getConditionValues plainRequestEnv .empty alice {}).lookup "groups" = none := by
    decide +kernel
  have hsome : (getConditionValues plainRequestEnv groupsHeader alice {}).lookup "groups" =
      some ["admins"] := by decide +kernel
  refine ⟨hnone, hsome, by decide +kernel, by decide +kernel, fun h => ?_⟩
  have hsame := h.values "groups" {} (.inl ⟨.aws .awsGroups, rfl, by decide +kernel⟩)
  rw [hnone, hsome] at hsame
  cases hsame

end Rustfs.Iam
