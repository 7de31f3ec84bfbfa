import SkillRanker.Cache.Injectivity
import SkillRanker.Jev.Admission
import SkillRanker.Library.Machine
import SkillRanker.Library.Table

/-! The response cache of each stage. An entry is fresh from its receipt for its own time to
live, ten minutes at most, and reading it changes nothing.
-/

namespace SkillRanker.Cache

open SkillRanker.Library
open SkillRanker.Jev (Usage)

def defaultCacheTtlSecs : Nat := 600

inductive FreshnessStatus
  | fresh (ageMs remainingTtlMs : Nat)
  | expired (ageMs : Nat)
  | clockRollback (receivedAtUnixMs currentUnixMs : Nat)
  | revisionMismatch
deriving DecidableEq, Repr

structure CachedResponseEntry where
  stage : RequestStage
  requestFingerprint : RequestFingerprint
  responseBytes : List UInt8
  receivedAtUnixMs : Nat
  ttlSeconds : Nat
  model : String
  modelRevision : Option String
  originalUsage : Usage
  attemptId : Option String
deriving DecidableEq

namespace CachedResponseEntry

variable (entry : CachedResponseEntry)

/-- How long the entry is fresh: a longer stored time is cut. -/
def ttlMs : Nat := min entry.ttlSeconds defaultCacheTtlSecs * 1000

def evaluateFreshness (nowUnixMs : Nat) (activeModel : String) (activeRevision : Option String)
    : FreshnessStatus :=
  if nowUnixMs < entry.receivedAtUnixMs then .clockRollback entry.receivedAtUnixMs nowUnixMs
  else if entry.model ≠ activeModel then .revisionMismatch
  else if entry.modelRevision ≠ activeRevision then .revisionMismatch
  else
    let ageMs := nowUnixMs - entry.receivedAtUnixMs
    if ageMs ≥ entry.ttlMs then .expired ageMs
    else .fresh ageMs (entry.ttlMs - ageMs)

end CachedResponseEntry

inductive CacheLookupResult
  | hit (entry : CachedResponseEntry) (ageMs remainingTtlMs : Nat)
  | stale (entry : CachedResponseEntry) (status : FreshnessStatus)
  | miss

/-- A namespace hash, a stage and a request fingerprint. -/
abbrev CacheStorageKey := Digest × Text × Digest

structure CacheLookupQuery where
  key : CacheKey
  space : CacheNamespace
  stage : RequestStage
  fingerprint : RequestFingerprint
  nowUnixMs : Nat
  activeModel : String
  activeRevision : Option String

abbrev MemoryResponseCache :=
  Table CacheStorageKey (CacheStorageKey × CachedResponseEntry) Prod.fst

section Operations

-- the keyed hash of a stream
variable (hash : CacheKey → List UInt8 → Digest)

def CacheLookupQuery.storageKey (query : CacheLookupQuery) : CacheStorageKey :=
  (namespaceHash hash query.key query.space, query.stage.asStr, query.fingerprint)

def CachedResponseEntry.storageKey (entry : CachedResponseEntry) (key : CacheKey)
    (space : CacheNamespace)
    : CacheStorageKey :=
  (namespaceHash hash key space, entry.stage.asStr, entry.requestFingerprint)

def CacheLookupQuery.answer (query : CacheLookupQuery)
    : Option CachedResponseEntry → CacheLookupResult
  | none => .miss
  | some entry =>
      match entry.evaluateFreshness query.nowUnixMs query.activeModel query.activeRevision with
      | .fresh ageMs remainingTtlMs => .hit entry ageMs remainingTtlMs
      | other => .stale entry other

namespace MemoryResponseCache

variable (cache : MemoryResponseCache)

def get (query : CacheLookupQuery) : CacheLookupResult :=
  query.answer ((cache.find? (query.storageKey hash)).map Prod.snd)

def put (key : CacheKey) (space : CacheNamespace) (entry : CachedResponseEntry)
    : MemoryResponseCache :=
  cache.replace (entry.storageKey hash key space, entry)

def evictNamespace (key : CacheKey) (space : CacheNamespace) : MemoryResponseCache × Nat :=
  let kept := cache.deleteWhere fun row => row.1.1 = namespaceHash hash key space
  (kept, cache.rows.length - kept.rows.length)

end MemoryResponseCache

inductive CacheCall
  | put (key : CacheKey) (space : CacheNamespace) (entry : CachedResponseEntry)
  | get (query : CacheLookupQuery)
  | evictNamespace (key : CacheKey) (space : CacheNamespace)

inductive CacheAnswer
  | stored
  | found (result : CacheLookupResult)
  | evicted (count : Nat)

def responses : Machine MemoryResponseCache CacheCall CacheAnswer where
  next cache
    | .put key space entry => (MemoryResponseCache.put hash cache key space entry, .stored)
    | .get query => (cache, .found (MemoryResponseCache.get hash cache query))
    | .evictNamespace key space =>
        let (kept, count) := MemoryResponseCache.evictNamespace hash cache key space
        (kept, .evicted count)

-- What a run has stored

def CacheCall.leaves (address : CacheStorageKey) (held : Option CachedResponseEntry)
    : CacheCall → Option CachedResponseEntry
  | .put key space entry =>
      if entry.storageKey hash key space = address then some entry else held
  | .get _ => held
  | .evictNamespace key space => if address.1 = namespaceHash hash key space then none else held

/-- The entry that calls leave under a storage key: the one of the last write there. -/
def held (address : CacheStorageKey) (calls : List CacheCall) : Option CachedResponseEntry :=
  calls.foldl (CacheCall.leaves hash address) none

end Operations

variable {hash : CacheKey → List UInt8 → Digest}

/-- One call leaves under every key what it is said to. -/
theorem next_leaves (cache : MemoryResponseCache) (call : CacheCall)
    (address : CacheStorageKey)
    : ((((responses hash).next cache call).1).find? address).map Prod.snd
      = call.leaves hash address ((cache.find? address).map Prod.snd) := by
  cases call with
  | put key space entry =>
      simp only [responses, MemoryResponseCache.put, CacheCall.leaves, Table.find?_replace]
      split <;> rfl
  | get query => rfl
  | evictNamespace key space =>
      simp only [responses, MemoryResponseCache.evictNamespace, CacheCall.leaves,
        Table.find?_deleteWhere]
      cases found : cache.find? address with
      | none => simp
      | some row =>
          have own := Table.key_of_find? found
          rw [← own]
          by_cases evicted : row.1.1 = namespaceHash hash key space <;>
            simp only [Option.filter, evicted, decide_true, decide_false, Bool.not_true,
              Bool.not_false, if_true, if_false]
          rfl

/-- After a run, every storage key has the entry of the last write there, by induction on the
calls.
-/
theorem final_held (calls : List CacheCall) (address : CacheStorageKey)
    : (((responses hash).final Table.empty calls).find? address).map Prod.snd
      = held hash address calls := by
  refine (responses hash).run_induction
    (motive := fun calls _ cache => (cache.find? address).map Prod.snd = held hash address calls)
    rfl ?_ calls
  intro earlier call ih
  rw [next_leaves, ih, held, held, List.foldl_append]
  rfl

variable {query : CacheLookupQuery}

/-- Every get of a run is told of the last write under its key before it. -/
theorem get_held {calls : List CacheCall}
    {step : Transition MemoryResponseCache CacheCall CacheAnswer}
    {earlier later : List (Transition MemoryResponseCache CacheCall CacheAnswer)}
    (split : (responses hash).history Table.empty calls = earlier ++ step :: later)
    (got : step.event = .get query)
    : ∃ first rest,
        calls = first ++ .get query :: rest
        ∧ earlier = (responses hash).history Table.empty first
        ∧ step.output = .found (query.answer (held hash (query.storageKey hash) first)) := by
  obtain ⟨first, event, rest, eq, before, rfl⟩ := (responses hash).history_split split
  cases got
  refine ⟨first, rest, eq, before, ?_⟩
  rw [← final_held]
  rfl

-- Freshness

structure CachedResponseEntry.FreshAt (entry : CachedResponseEntry) (nowUnixMs : Nat)
    (activeModel : String) (activeRevision : Option String)
    : Prop where
  model : entry.model = activeModel
  revision : entry.modelRevision = activeRevision
  received : entry.receivedAtUnixMs ≤ nowUnixMs
  unexpired
    : nowUnixMs < entry.receivedAtUnixMs + min entry.ttlSeconds defaultCacheTtlSecs * 1000

variable {entry : CachedResponseEntry}

/-- Freshness is this condition, with the age from the receipt and what is left. -/
theorem evaluateFreshness_fresh {now age remaining : Nat} {model : String}
    {revision : Option String}
    : entry.evaluateFreshness now model revision = .fresh age remaining
      ↔ entry.FreshAt now model revision
        ∧ age = now - entry.receivedAtUnixMs
        ∧ remaining = entry.receivedAtUnixMs + entry.ttlMs - now := by
  unfold CachedResponseEntry.evaluateFreshness
  constructor
  · intro fresh
    split at fresh
    · cases fresh
    split at fresh
    · cases fresh
    split at fresh
    · cases fresh
    next received model revision =>
    dsimp only at fresh
    split at fresh
    next => cases fresh
    next young =>
      cases fresh
      have room : now < entry.receivedAtUnixMs + entry.ttlMs := by omega
      exact ⟨⟨not_not.mp model, not_not.mp revision, by omega, room⟩, rfl, by omega⟩
  · rintro ⟨⟨model, revision, received, unexpired⟩, rfl, rfl⟩
    change now < entry.receivedAtUnixMs + entry.ttlMs at unexpired
    rw [if_neg (by omega), if_neg (not_not.mpr model), if_neg (not_not.mpr revision)]
    dsimp only
    rw [if_neg (by omega)]
    congr 1
    omega

theorem answer_hit {stored : Option CachedResponseEntry} {age remaining : Nat}
    : query.answer stored = .hit entry age remaining
      ↔ stored = some entry
        ∧ entry.evaluateFreshness query.nowUnixMs query.activeModel query.activeRevision
          = .fresh age remaining := by
  cases stored with
  | none => simp [CacheLookupQuery.answer]
  | some other =>
      simp only [CacheLookupQuery.answer, Option.some_inj]
      split
      next ageMs remainingMs fresh =>
        simp only [CacheLookupResult.hit.injEq]
        constructor
        · rintro ⟨rfl, rfl, rfl⟩
          exact ⟨rfl, fresh⟩
        · rintro ⟨rfl, same⟩
          rw [fresh] at same
          cases same
          exact ⟨rfl, rfl, rfl⟩
      next status notFresh =>
        refine iff_of_false (fun same => by cases same) ?_
        rintro ⟨rfl, same⟩
        exact notFresh age remaining same

-- Runs

section Runs

variable (hash : CacheKey → List UInt8 → Digest)

def CacheCall.Writes (address : CacheStorageKey) : CacheCall → Prop
  | .put key space entry => entry.storageKey hash key space = address
  | .get _ => False
  | .evictNamespace key space => address.1 = namespaceHash hash key space

def CacheCall.isRead : CacheCall → Bool
  | .get _ => true
  | _ => false

def CacheCall.hashed : CacheCall → CacheKey × List UInt8
  | .put key space _ => (key, namespaceStream space)
  | .get query => (query.key, namespaceStream query.space)
  | .evictNamespace key space => (key, namespaceStream space)

/-- An entry is served to a query after some calls: it was the last one stored under the
query's namespace, stage and fingerprint, and is fresh from then on.
-/
structure Served (first : List CacheCall) (query : CacheLookupQuery)
    (entry : CachedResponseEntry) (age remaining : Nat)
    : Prop where
  stored
    : ∃ before after,
        first = before ++ .put query.key query.space entry :: after
        ∧ ∀ call ∈ after, ¬ call.Writes hash (query.storageKey hash)
  stage : entry.stage = query.stage
  fingerprint : entry.requestFingerprint = query.fingerprint
  fresh : entry.FreshAt query.nowUnixMs query.activeModel query.activeRevision
  age : age = query.nowUnixMs - entry.receivedAtUnixMs
  remaining : remaining = entry.receivedAtUnixMs + entry.ttlMs - query.nowUnixMs

variable {hash}
variable {address : CacheStorageKey}

theorem leaves_of_not_writes {call : CacheCall} (silent : ¬ call.Writes hash address)
    (stored : Option CachedResponseEntry)
    : call.leaves hash address stored = stored := by
  cases call with
  | put key space entry => exact if_neg silent
  | get query => rfl
  | evictNamespace key space => exact if_neg silent

/-- What is under a key was put there by the last write, by induction on the calls from the
last.
-/
theorem held_some {calls : List CacheCall} {entry : CachedResponseEntry}
    (stored : held hash address calls = some entry)
    : ∃ before key space after,
        calls = before ++ .put key space entry :: after
        ∧ entry.storageKey hash key space = address
        ∧ ∀ call ∈ after, ¬ call.Writes hash address := by
  induction calls using List.reverseRecOn with
  | nil => cases stored
  | append_singleton calls call ih =>
      rw [held, List.foldl_append] at stored
      change call.leaves hash address (held hash address calls) = some entry at stored
      by_cases writes : call.Writes hash address
      · cases call with
        | get query => exact absurd writes id
        | evictNamespace key space =>
            simp only [CacheCall.Writes] at writes
            rw [CacheCall.leaves, if_pos writes] at stored
            cases stored
        | put key space other =>
            simp only [CacheCall.Writes] at writes
            rw [CacheCall.leaves, if_pos writes] at stored
            cases stored
            exact ⟨calls, key, space, [], rfl, writes, by simp⟩
      · rw [leaves_of_not_writes writes] at stored
        obtain ⟨before, key, space, after, rfl, same, silent⟩ := ih stored
        refine ⟨before, key, space, after ++ [call], by simp, same, ?_⟩
        intro other mem
        rcases List.mem_append.mp mem with earlier | last
        · exact silent other earlier
        · exact List.mem_singleton.mp last ▸ writes

theorem space_of_hash {streams : Set (CacheKey × List UInt8)}
    (collisionFree : Set.InjOn (fun pair => hash pair.1 pair.2) streams) {key other : CacheKey}
    {space space' : CacheNamespace} (one : (key, namespaceStream space) ∈ streams)
    (two : (other, namespaceStream space') ∈ streams)
    (same : namespaceHash hash key space = namespaceHash hash other space')
    : key = other ∧ space = space' := by
  obtain ⟨keys, texts⟩ := Prod.mk.inj (collisionFree one two same)
  exact ⟨keys, namespace_delimited.injective (List.append_cancel_left texts)⟩

/-- Reads can be left out of a run: they change nothing, by induction on the calls. -/
theorem final_without_reads (calls : List CacheCall)
    : (responses hash).final Table.empty calls
      = (responses hash).final Table.empty (calls.filter fun call => !call.isRead) := by
  induction calls using List.reverseRecOn with
  | nil => rfl
  | append_singleton calls call ih =>
      rw [List.filter_append, Machine.final_snoc, Machine.final_append, ← ih]
      cases call <;> rfl

/-- Freshness of the response cache: over every run, a hit is the last entry that was put
under the query's namespace, stage and fingerprint, by the model and revision asked for and
within its time to live from its receipt. Reads change nothing, so they extend no lifetime.
-/
theorem get_fresh {streams : Set (CacheKey × List UInt8)}
    (collisionFree : Set.InjOn (fun pair => hash pair.1 pair.2) streams)
    {calls : List CacheCall} (known : ∀ call ∈ calls, call.hashed ∈ streams)
    : (∀ earlier step later query entry age remaining,
        (responses hash).history Table.empty calls = earlier ++ step :: later
        → step.event = .get query
        → step.output = .found (.hit entry age remaining)
        → ∃ first rest,
            calls = first ++ .get query :: rest
            ∧ earlier = (responses hash).history Table.empty first
            ∧ Served hash first query entry age remaining)
      ∧ (responses hash).final Table.empty calls
        = (responses hash).final Table.empty (calls.filter fun call => !call.isRead) := by
  refine ⟨?_, final_without_reads calls⟩
  intro earlier step later query entry age remaining split got hit
  obtain ⟨first, rest, rfl, before, found⟩ := get_held split got
  refine ⟨first, rest, rfl, before, ?_⟩
  rw [hit] at found
  obtain ⟨stored, fresh⟩ := answer_hit.mp (CacheAnswer.found.inj found).symm
  obtain ⟨early, key, space, after, rfl, same, silent⟩ := held_some stored
  obtain ⟨hashes, places⟩ := Prod.mk.inj same
  obtain ⟨stages, fingerprints⟩ := Prod.mk.inj places
  obtain ⟨freshAt, ages, remains⟩ := evaluateFreshness_fresh.mp fresh
  have inPut := known (.put key space entry) (by simp)
  have inGet := known (.get query) (by simp)
  obtain ⟨rfl, rfl⟩ := space_of_hash collisionFree inPut inGet hashes
  exact ⟨⟨early, after, rfl, silent⟩, stage_injective stages, fingerprints, freshAt, ages, remains⟩

end Runs

/-- A response received at one second, whose stored time to live is a day. -/
def sampleEntry : CachedResponseEntry where
  stage := .wide
  requestFingerprint := sampleDigest 2
  responseBytes := [123, 125]
  receivedAtUnixMs := 1000
  ttlSeconds := 86400
  model := "systemone"
  modelRevision := none
  originalUsage := { inputTokens := 9, outputTokens := 1 }
  attemptId := none

def sampleQuery (nowUnixMs : Nat) : CacheLookupQuery where
  key := sampleDigest 1
  space := sampleSpace
  stage := .wide
  fingerprint := sampleDigest 2
  nowUnixMs := nowUnixMs
  activeModel := "systemone"
  activeRevision := none

/-- A response is served until ten minutes after its receipt, however often it was read. -/
theorem get_fresh_sample
    : ∃ first rest,
        [.put (sampleDigest 1) sampleSpace sampleEntry, .get (sampleQuery 2000),
            .get (sampleQuery 600999)]
          = first ++ .get (sampleQuery 600999) :: rest
        ∧ Served (fun key _ => key) first (sampleQuery 600999) sampleEntry 599999 1 := by
  obtain ⟨first, rest, same, _, served⟩ :=
    (@get_fresh (fun key _ => key) {(sampleDigest 1, namespaceStream sampleSpace)}
      (Set.injOn_singleton _ _)
      [.put (sampleDigest 1) sampleSpace sampleEntry, .get (sampleQuery 2000),
        .get (sampleQuery 600999)]
      (by simp [CacheCall.hashed, sampleQuery])).1
      _ _ _ (sampleQuery 600999) sampleEntry 599999 1
      (rfl : _ = [_, _] ++ _ :: []) rfl rfl
  exact ⟨first, rest, same, served⟩

end SkillRanker.Cache
