import Mathlib.Tactic.SplitIfs
import Mathlib.Data.Nat.Notation
import Mathlib.Logic.Function.Basic

/-! The cache of responses to `GetObject`, and the keys it is asked with. -/
namespace Rustfs

def makeCacheKey (bucket key : String) : Option String → String
  | some vid => bucket ++ "/" ++ key ++ "?versionId=" ++ vid
  | none => bucket ++ "/" ++ key

structure CacheConfig where
  ttlSecs : ℕ
  hotMinHits : ℕ
  maxObjectSize : ℕ

/-- A response in the cache, with the second at which it was cached. -/
structure CachedResponse (β : Type) where
  data : β
  size : ℕ
  cachedAt : ℕ
  accessCount : ℕ := 0

abbrev ResponseCache (β : Type) := String → Option (CachedResponse β)

namespace ResponseCache

variable {β : Type}

def empty : ResponseCache β := fun _ => none

def invalidate (cache : ResponseCache β) (key : String) : ResponseCache β :=
  Function.update cache key none

/-- `get_response`: an entry that is too old is dropped unless it was asked for often. -/
def getResponse (cfg : CacheConfig) (now : ℕ) (cache : ResponseCache β) (key : String) :
    Option β × ResponseCache β :=
  match cache key with
  | none => (none, cache)
  | some cached =>
    if now - cached.cachedAt ≥ cfg.ttlSecs ∧ cached.accessCount < cfg.hotMinHits then
      (none, cache.invalidate key)
    else
      (some cached.data,
        Function.update cache key (some { cached with accessCount := cached.accessCount + 1 }))

def putResponse (cfg : CacheConfig) (now : ℕ) (cache : ResponseCache β) (key : String) (size : ℕ)
    (response : β) : ResponseCache β :=
  if size = 0 ∨ size > cfg.maxObjectSize then cache
  else Function.update cache key (some { data := response, size := size, cachedAt := now })

/-- The data that the cache has for a key. -/
def Holds (cache : ResponseCache β) (key : String) (data : β) : Prop :=
  ∃ cached, cache key = some cached ∧ cached.data = data

section

variable {cfg : CacheConfig} {now size : ℕ} {c : ResponseCache β} {key key' : String}
  {d data' : β}

theorem holds_of_getResponse (h : (getResponse cfg now c key).1 = some d) : c.Holds key d := by
  unfold getResponse at h
  split at h
  · cases h
  · rename_i cached hcached
    split at h
    · cases h
    · exact ⟨cached, hcached, Option.some.inj h⟩

theorem holds_update {x : Option (CachedResponse β)} : Holds (Function.update c key x) key' d ↔
    if key' = key then ∃ cached, x = some cached ∧ cached.data = d else c.Holds key' d := by
  unfold Holds
  by_cases hkey : key' = key <;> simp [hkey]

theorem holds_of_invalidate (h : (c.invalidate key).Holds key' d) :
    key' ≠ key ∧ c.Holds key' d := by
  rw [invalidate, holds_update] at h
  split_ifs at h with hkey
  · simp at h
  · exact ⟨hkey, h⟩

/-- A lookup adds nothing to the cache. -/
theorem holds_of_getResponse_snd (h : (getResponse cfg now c key).2.Holds key' d) :
    c.Holds key' d := by
  unfold getResponse at h
  split at h
  · exact h
  · rename_i cached hcached
    split at h
    · exact (holds_of_invalidate h).2
    · rw [holds_update] at h
      split_ifs at h with hkey
      · obtain ⟨_, ⟨⟩, rfl⟩ := h
        exact ⟨cached, hkey ▸ hcached, rfl⟩
      · exact h

theorem holds_of_putResponse (h : (putResponse cfg now c key size d).Holds key' data') :
    key' = key ∧ data' = d ∨ c.Holds key' data' := by
  unfold putResponse at h
  split at h
  · exact .inr h
  · rw [holds_update] at h
    split_ifs at h with hkey
    · obtain ⟨_, ⟨⟩, rfl⟩ := h
      exact .inl ⟨hkey, rfl⟩
    · exact .inr h

end

end ResponseCache

end Rustfs
