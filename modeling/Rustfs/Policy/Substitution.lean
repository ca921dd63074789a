import Rustfs.Policy.Statement

/-! Whether a template stands for one text in a condition and in a resource. -/
namespace Rustfs.Iam

open List KeyName

/-- The common keys the request has a value for, in the order they are tried. -/
def presentKeys (values : Conditions) : List (KeyName × String) :=
  commonKeys.filterMap (commonValue values)

def putIn (text : String) (kv : KeyName × String) : String := replaceAll text kv.1.varName kv.2

variable {values : Conditions} {ts value cs : List Char} {k : KeyName} {t : String}
  {kv : KeyName × String} {kvs : List (KeyName × String)}

theorem commonValue_fst (h : commonValue values k = some kv) : kv.1 = k := by
  unfold commonValue at h
  split at h
  · split_ifs at h
    rw [← Option.some.inj h]
  · exact nomatch h

theorem substituteAll_eq : substituteAll values t = (presentKeys values).foldl putIn t := by
  rw [presentKeys, foldl_filterMap, substituteAll]
  congr 1
  funext t key
  cases h : commonValue values key with
  | none => rfl
  | some kv => simp only [putIn, commonValue_fst h]

theorem substituteFirst_eq :
    substituteFirst values t = (presentKeys values).head?.elim t (putIn t) := by
  rw [presentKeys, head?_filterMap, substituteFirst]
  cases commonKeys.findSome? (commonValue values) <;> rfl

theorem replaceChars_length : replaceChars ts value cs.length cs = [] := by
  induction cs with
  | nil => rfl
  | cons c cs ih => exact ih

/-- A text put in for itself changes nothing. -/
theorem replaceChars_self (hne : ts ≠ []) (n : ℕ) : replaceChars ts ts n cs = cs.drop n := by
  induction cs generalizing n with
  | nil => cases n <;> rfl
  | cons c cs ih =>
    cases n with
    | succ n => exact ih n
    | zero =>
      obtain ⟨n, hn⟩ := Nat.exists_eq_add_one.mpr (length_pos_iff.mpr hne)
      rw [replaceChars]
      split_ifs with h
      · have hpre := prefix_iff_eq_append.mp <| isPrefixOf_iff_prefix.mp h
        rw [hn] at hpre ⊢
        rwa [ih, Nat.add_sub_cancel]
      · rw [ih, drop_zero, drop_zero]

theorem replaceChars_absent (h : '$' ∉ cs) : replaceChars ('$' :: ts) value 0 cs = cs := by
  induction cs with
  | nil => rfl
  | cons c cs ih =>
    obtain ⟨hc, hcs⟩ := not_or.mp (mt mem_cons.mpr h)
    rw [replaceChars, if_neg (by simp [isPrefixOf, hc]), ih hcs]

/-- A variable starts with the only `$` in it, and none is the start of another. -/
theorem varName_apart : ∀ k ∈ commonKeys, k.varName.toList.head? = some '$' ∧
    '$' ∉ k.varName.toList.tail ∧
    ∀ j ∈ commonKeys, j.varName.toList.isPrefixOf k.varName.toList → j = k := by
  have h : ∀ p ∈ commonKeys.map fun k => (k, k.varName.toList), p.2.head? = some '$' ∧
      '$' ∉ p.2.tail ∧ ∀ q ∈ commonKeys.map fun k => (k, k.varName.toList),
        q.2.isPrefixOf p.2 → q.1 = p.1 := by
    -- the names are written out before they are compared
    simp only [commonKeys, map_cons, map_nil, varName, AwsKeyName.toStr, JwtKeyName.toStr,
      LdapKeyName.toStr, S3KeyName.toStr, String.toList_append, String.reduceToList, cons_append,
      nil_append]
    decide +kernel
  simpa using h

theorem toList_putIn : (putIn t kv).toList =
    replaceChars kv.1.varName.toList kv.2.toList 0 t.toList := String.toList_ofList

/-- A variable is replaced as a whole, and by its own value only. -/
theorem putIn_varName (hkv : kv.1 ∈ commonKeys) (hk : k ∈ commonKeys) :
    putIn k.varName kv = if kv.1 = k then kv.2 else k.varName := by
  obtain ⟨hhead, htail, hapart⟩ := varName_apart k hk
  obtain ⟨rest, hrest⟩ := head?_eq_some_iff.mp hhead
  obtain ⟨rest', hrest'⟩ := head?_eq_some_iff.mp (varName_apart _ hkv).1
  rw [hrest, tail_cons] at htail
  refine String.toList_injective ?_
  rw [toList_putIn]
  split_ifs with h
  · rw [h, hrest, replaceChars, if_pos (by simp), length_cons, Nat.add_sub_cancel,
      replaceChars_length, append_nil]
  · have hpre := mt (hapart _ hkv) h
    rw [hrest, hrest'] at hpre
    rw [hrest, hrest', replaceChars, if_neg hpre, replaceChars_absent htail]

theorem putIn_self (hkv : kv.1 ∈ commonKeys) (h : kv.2 = kv.1.varName) : putIn t kv = t := by
  refine String.toList_injective ?_
  obtain ⟨rest, hrest⟩ := head?_eq_some_iff.mp (varName_apart _ hkv).1
  rw [toList_putIn, h, replaceChars_self (by simp [hrest]), drop_zero]

theorem foldl_putIn_fixed (h : ∀ kv ∈ kvs, putIn t kv = t) : kvs.foldl putIn t = t := by
  refine foldlRecOn (motive := (· = t)) kvs _ rfl fun s hs kv hkv => ?_
  rw [hs, h kv hkv]

/-- Variables that all stay what they are have themselves as values. -/
theorem values_of_fixed (hcommon : ∀ kv ∈ kvs, kv.1 ∈ commonKeys)
    (hnodup : (kvs.map Prod.fst).Nodup)
    (h : ∀ kv ∈ kvs, kvs.foldl putIn kv.1.varName = kv.1.varName) :
    ∀ kv ∈ kvs, kv.2 = kv.1.varName := by
  -- the last value is put in last, and nothing after it changes the text
  induction kvs using List.reverseRecOn with
  | nil => simp
  | append_singleton kvs kv ih =>
    simp only [foldl_append, foldl_cons, foldl_nil, forall_mem_append, map_append, map_singleton,
      nodup_append, mem_singleton, forall_eq] at *
    obtain ⟨⟨hkvs, hkv⟩, hnodup, -, hne⟩ := hcommon, hnodup
    have hlast : kv.2 = kv.1.varName := by
      have hfixed := h.2
      rwa [foldl_putIn_fixed fun x hx => ?_, putIn_varName hkv hkv, if_pos rfl] at hfixed
      rw [putIn_varName (hkvs x hx) hkv, if_neg (hne _ (mem_map_of_mem hx))]
    simp only [putIn_self hkv hlast] at h
    exact ⟨ih hkvs hnodup h.1, hlast⟩

theorem keys_sublist (ks : List KeyName) :
    (ks.filterMap (commonValue values)).map Prod.fst <+ ks := by
  induction ks with
  | nil => exact .refl _
  | cons k ks ih =>
    cases h : commonValue values k with
    | none =>
      rw [filterMap_cons_none h]
      exact ih.cons k
    | some kv =>
      rw [filterMap_cons_some h, map_cons, commonValue_fst h]
      exact ih.cons_cons k

/-- Two common keys are enough for a template to differ, unless the later stand for themselves. -/
theorem condition_and_resource_agree_iff (values : Conditions) :
    (∀ resolver c, (resolveValue resolver c).map (map (substituteFirst values)) =
      (resolveValue resolver c).map (map (substituteAll values))) ↔
      ∀ kv ∈ (presentKeys values).tail, kv.2 = kv.1.varName := by
  have hsub : (presentKeys values).map Prod.fst <+ commonKeys := keys_sublist _
  have hnodup := hsub.nodup (by decide +kernel)
  have hcommon : ∀ kv ∈ presentKeys values, kv.1 ∈ commonKeys := fun kv hkv =>
    hsub.subset (mem_map_of_mem hkv)
  have heq : (∀ c, substituteFirst values c = substituteAll values c) ↔
      ∀ kv ∈ (presentKeys values).tail, kv.2 = kv.1.varName := by
    simp only [substituteFirst_eq, substituteAll_eq]
    generalize presentKeys values = kvs at *
    cases kvs with
    | nil => simp
    | cons kv kvs =>
      obtain ⟨⟨hkv, hkvs⟩, hnot, hnodup⟩ := forall_mem_cons.mp hcommon, nodup_cons.mp hnodup
      refine ⟨fun h => values_of_fixed hkvs hnodup fun x hx => ?_, fun h c => ?_⟩
      · have hne : kv.1 ≠ x.1 := fun h => hnot (h ▸ mem_map_of_mem hx)
        have hsame := h x.1.varName
        rw [foldl_cons, head?_cons, Option.elim_some, putIn_varName hkv (hkvs x hx),
          if_neg hne] at hsame
        exact hsame.symm
      · exact (foldl_putIn_fixed fun x hx => putIn_self (hkvs x hx) (h x hx)).symm
  rw [← heq]
  refine ⟨fun h c => ?_, fun h resolver c => by rw [funext h]⟩
  simpa [resolveValue] using h none c

/-- The second key the request has a value for is not put in. -/
theorem condition_and_resource_differ : ∃ values : Conditions, ∃ c,
    substituteFirst values c = c ∧ substituteAll values c = "n" ∧ c ≠ "n" :=
  ⟨((∅ : Conditions).insert "username" ["n"]).insert "userid" ["u"], "$\x7baws:aws:username\x7d",
    by decide +kernel⟩

end Rustfs.Iam
