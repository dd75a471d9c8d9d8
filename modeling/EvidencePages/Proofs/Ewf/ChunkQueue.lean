import EvidencePages.Ewf.ChunkCache
import EvidencePages.Proofs.Store.HandleQueue

/-!
# A cache keeps the chunks that were used last

A cache may be kept in a table of the chunks and a queue of their indices. A
call that finds a chunk, or inserts one that is not there, uses its index. After
any calls the two hold the indices that were used last, as many as fit, and a
chunk that is kept is the one that was inserted first since its index was
dropped last. The cache of entries in order of use is the same cache.
-/

set_option autoImplicit false

namespace EvidencePages.Ewf

abbrev ChunkQueue := RecencyQueue ByteArray

namespace ChunkQueue

def ofCapacity (maxEntries : Nat) : ChunkQueue := { limit := max 1 maxEntries }

def get (cache : ChunkQueue) (index : Nat) : Option ByteArray × ChunkQueue :=
  match cache.table[index]? with
  | none => (none, cache)
  | some data => (some data, cache.use index)

/-- A chunk that is kept already is not replaced. -/
def insert (cache : ChunkQueue) (index : Nat) (data : ByteArray) : ChunkQueue :=
  if index ∈ cache.table then cache else cache.add index data

/-! ## Runs -/

inductive Call where
  | get (index : Nat)
  | insert (index : Nat) (data : ByteArray)

namespace Call

def index : Call → Nat
  | .get index => index
  | .insert index _ => index

def inserted? : Call → Nat → Option ByteArray
  | .get _, _ => none
  | .insert index data, other => if other = index then some data else none

end Call

def serve (cache : ChunkQueue) : Call → Option ByteArray × ChunkQueue
  | .get index => cache.get index
  | .insert index data => (none, cache.insert index data)

/-- Whether a call found its index, what it gave, and which indices it took away. -/
structure Event where
  call : Call
  present : Bool
  given : Option ByteArray
  dropped : List Nat

def eventOf (cache : ChunkQueue) (call : Call) (given : Option ByteArray) (next : ChunkQueue) :
    Event where
  call := call
  present := cache.table[call.index]?.isSome
  given := given
  dropped := cache.queue.filter (· ∉ next.queue)

/-- The calls one by one. Events are added in front of those that were there before. -/
def run (past : List Event) (cache : ChunkQueue) : List Call → List Event × ChunkQueue
  | [] => (past, cache)
  | call :: rest =>
    run (cache.eventOf call (cache.serve call).1 (cache.serve call).2 :: past)
      (cache.serve call).2 rest

def Event.used? (event : Event) : Option Nat :=
  match event.call with
  | .get index => if event.present then some index else none
  | .insert index _ => if event.present then none else some index

def byRecency (past : List Event) : List Nat := HandleQueue.firsts (past.filterMap Event.used?)

/-- The data of the first insertion of an index since it was dropped last. -/
def firstInserted? (past : List Event) (index : Nat) : Option ByteArray :=
  ((past.takeWhile fun event => index ∉ event.dropped).filterMap
    (·.call.inserted? index)).getLast?

/-! ## What an event adds to the past -/

variable {past : List Event} {event : Event} {index : Nat}

theorem byRecency_used (used : event.used? = some index) :
    byRecency (event :: past) = index :: (byRecency past).filter (· ≠ index) := by
  rw [byRecency, List.filterMap_cons, used]
  rfl

theorem byRecency_unused (unused : event.used? = none) :
    byRecency (event :: past) = byRecency past := by
  rw [byRecency, List.filterMap_cons, unused]
  rfl

theorem firstInserted?_cons (event : Event) (past : List Event) (index : Nat) :
    firstInserted? (event :: past) index =
      if index ∈ event.dropped then none
      else (firstInserted? past index).or (event.call.inserted? index) := by
  rw [firstInserted?, List.takeWhile_cons]
  by_cases gone : index ∈ event.dropped
  · rw [if_neg (by simpa using gone), if_pos gone]
    rfl
  · rw [if_pos (by simpa using gone), if_neg gone, firstInserted?, List.filterMap_cons]
    cases event.call.inserted? index with
    | none => exact (Option.or_none).symm
    | some data =>
      dsimp only
      rw [List.getLast?_cons]
      cases (List.filterMap _ _).getLast? <;> rfl

/-! ## What a call can do -/

variable {cache next : ChunkQueue} {call : Call} {given : Option ByteArray}

inductive Served (cache : ChunkQueue) : Call → Option ByteArray → ChunkQueue → Prop
  | found {index : Nat} {data : ByteArray} (hit : cache.table[index]? = some data) :
    Served cache (.get index) (some data) (cache.use index)
  | missed {index : Nat} (miss : cache.table[index]? = none) : Served cache (.get index) none cache
  | ignored {index : Nat} {data kept : ByteArray} (hit : cache.table[index]? = some kept) :
    Served cache (.insert index data) none cache
  | added {index : Nat} {data : ByteArray} (miss : cache.table[index]? = none) :
    Served cache (.insert index data) none (cache.add index data)

theorem insert_held {data kept : ByteArray} (hit : cache.table[index]? = some kept) :
    cache.insert index data = cache :=
  if_pos (Std.HashMap.mem_iff_isSome_getElem?.mpr (by rw [hit]; rfl))

theorem insert_missing {data : ByteArray} (miss : cache.table[index]? = none) :
    cache.insert index data = cache.add index data :=
  if_neg fun held => by
    rw [Std.HashMap.mem_iff_isSome_getElem?, miss] at held
    cases held

theorem served (cache : ChunkQueue) (call : Call) :
    Served cache call (cache.serve call).1 (cache.serve call).2 := by
  cases call with
  | get index =>
    rw [serve, get]
    cases found : cache.table[index]? with
    | none => exact .missed found
    | some data => exact .found found
  | insert index data =>
    rw [serve]
    cases found : cache.table[index]? with
    | none =>
      rw [insert_missing found]
      exact .added found
    | some kept =>
      rw [insert_held found]
      exact .ignored found

theorem Served.limit (step : Served cache call given next) : next.limit = cache.limit := by
  cases step with
  | found hit => rfl
  | missed miss => rfl
  | ignored hit => rfl
  | added miss => exact cache.add_limit _ _

theorem Served.agrees (step : Served cache call given next) (agrees : cache.Agrees) :
    next.Agrees := by
  cases step with
  | found hit => exact agrees.use ((agrees.held_iff _).mpr (by rw [hit]; rfl))
  | missed miss => exact agrees
  | ignored hit => exact agrees
  | added miss => exact agrees.add miss _

theorem Served.getElem?_eq (step : Served cache call given next) (agrees : cache.Agrees)
    (other : Nat) :
    next.table[other]? =
      if other ∈ cache.queue ∧ other ∉ next.queue then none
      else cache.table[other]?.or (call.inserted? other) := by
  -- An index leaves only when another is added to a full queue.
  cases step with
  | @found index data hit =>
    have stays : other ∈ cache.queue → other ∈ (cache.use index).queue := by
      intro inside
      by_cases same : other = index
      · rw [same]
        exact List.mem_cons_self
      · exact List.mem_cons_of_mem _ (List.mem_filter.mpr ⟨inside, decide_eq_true same⟩)
    rw [if_neg (fun gone => gone.2 (stays gone.1)), Call.inserted?, Option.or_none]
    rfl
  | missed miss =>
    rw [if_neg (fun gone => gone.2 gone.1), Call.inserted?, Option.or_none]
  | @ignored index data kept hit =>
    rw [if_neg (fun gone => gone.2 gone.1), Call.inserted?]
    by_cases same : other = index
    · rw [same, hit]
      rfl
    · rw [if_neg same, Option.or_none]
  | @added index data miss =>
    have inserted : (cache.add index data).table = cache.evict.table.insert index data := rfl
    have queued : (cache.add index data).queue = index :: cache.evict.queue := rfl
    rw [inserted, queued, Std.HashMap.getElem?_insert, Call.inserted?]
    by_cases same : other = index
    · have absent : other ∉ cache.queue := by
        rw [agrees.held_iff, same, miss]
        exact Bool.false_ne_true
      rw [if_pos (beq_iff_eq.mpr same.symm), if_neg (fun gone => absurd gone.1 absent), if_pos same,
        same, miss, Option.none_or]
    · rw [if_neg (by simpa using fun back => same back.symm), if_neg same, Option.or_none,
        agrees.getElem?_evict]
      simp only [List.mem_cons, same, false_or]

/-! ## What the past tells of a cache -/

/-- Presence, answer and loss of an event follow from the events before it. -/
structure Accounted (limit : Nat) (earlier : List Event) (event : Event) : Prop where
  present : event.present = true ↔ event.call.index ∈ (byRecency earlier).take limit
  given : ∀ index, event.call = .get index → event.given = firstInserted? earlier index
  dropped : ∀ index, index ∈ event.dropped ↔ index ∈ (byRecency earlier).take limit ∧
    index ∉ (byRecency (event :: earlier)).take limit

structure Traced (past : List Event) (cache : ChunkQueue) : Prop
    extends RecencyQueue.Agrees cache where
  recent : cache.queue <+: byRecency past
  full : cache.queue.length = min cache.limit (byRecency past).length
  data : ∀ index, cache.table[index]? = firstInserted? past index
  accounted : ∀ later event earlier, past = later ++ event :: earlier →
    Accounted cache.limit earlier event

theorem traced_ofCapacity (maxEntries : Nat) : Traced [] (ofCapacity maxEntries) where
  toAgrees := RecencyQueue.agrees_nothing maxEntries
  recent := List.prefix_rfl
  full := (Nat.min_zero _).symm
  data index := by simp [ofCapacity, firstInserted?]
  accounted later event earlier cut := by simp at cut

theorem queue_eq_take {queue order : List Nat} {limit : Nat} (recent : queue <+: order)
    (full : queue.length = min limit order.length) : queue = order.take limit := by
  rw [List.prefix_iff_eq_take.mp recent, full, List.take_eq_take_iff]
  omega

theorem Traced.queue_eq (traced : Traced past cache) :
    cache.queue = (byRecency past).take cache.limit :=
  queue_eq_take traced.recent traced.full

theorem Traced.ordered (traced : Traced past cache) (step : Served cache call given next) :
    next.queue <+: byRecency (cache.eventOf call given next :: past) ∧
      next.queue.length =
        min next.limit (byRecency (cache.eventOf call given next :: past)).length := by
  have unused : (cache.eventOf call given next).used? = none → next = cache →
      next.queue <+: byRecency (cache.eventOf call given next :: past) ∧
        next.queue.length =
          min next.limit (byRecency (cache.eventOf call given next :: past)).length := by
    intro none same
    rw [byRecency_unused none, same]
    exact ⟨traced.recent, traced.full⟩
  cases step with
  | @found index data hit =>
    have used : (cache.eventOf (.get index) (some data) (cache.use index)).used? = some index := by
      simp [Event.used?, eventOf, Call.index, hit]
    have queued : index ∈ cache.queue := (traced.held_iff index).mpr (by rw [hit]; rfl)
    rw [byRecency_used used]
    exact ⟨RecencyQueue.prefix_use traced.recent index,
      traced.use_full queued (HandleQueue.nodup_firsts _) traced.recent traced.full⟩
  | missed miss => exact unused (by simp [Event.used?, eventOf, Call.index, miss]) rfl
  | ignored hit => exact unused (by simp [Event.used?, eventOf, Call.index, hit]) rfl
  | @added index data miss =>
    have used : (cache.eventOf (.insert index data) none (cache.add index data)).used? =
        some index := by
      simp [Event.used?, eventOf, Call.index, miss]
    rw [byRecency_used used, RecencyQueue.add_limit]
    exact ⟨traced.add_prefix miss data traced.recent,
      traced.add_full miss data traced.recent traced.full⟩

theorem mem_dropped (cache next : ChunkQueue) (call : Call) (given : Option ByteArray)
    (index : Nat) : index ∈ (cache.eventOf call given next).dropped ↔
      index ∈ cache.queue ∧ index ∉ next.queue := by
  rw [eventOf, List.mem_filter, decide_eq_true_iff]

theorem Traced.served (traced : Traced past cache) (step : Served cache call given next) :
    Traced (cache.eventOf call given next :: past) next := by
  obtain ⟨recent, full⟩ := traced.ordered step
  have agrees := step.agrees traced.toAgrees
  have queue : next.queue = (byRecency (cache.eventOf call given next :: past)).take cache.limit :=
    step.limit ▸ queue_eq_take recent full
  refine ⟨agrees, recent, full, fun index => ?_, fun later event earlier cut => ?_⟩
  · rw [step.getElem?_eq traced.toAgrees, firstInserted?_cons, traced.data]
    simp only [mem_dropped]
    rfl
  rw [step.limit]
  cases later with
  | cons latest later => exact traced.accounted later event earlier (List.cons.inj cut).2
  | nil =>
    cases cut
    refine ⟨?_, fun index asked => ?_, fun index => ?_⟩
    · rw [← traced.queue_eq]
      exact (traced.held_iff _).symm
    · rw [← traced.data]
      change call = .get index at asked
      cases step with
      | found hit =>
        cases asked
        exact hit.symm
      | missed miss =>
        cases asked
        exact miss.symm
      | ignored hit => cases asked
      | added miss => cases asked
    · rw [mem_dropped, ← traced.queue_eq, ← queue]

theorem Traced.run (traced : Traced past cache) (calls : List Call) :
    Traced (cache.run past calls).1 (cache.run past calls).2 := by
  induction calls generalizing past cache with
  | nil => exact traced
  | cons call rest ih => exact ih (traced.served (cache.served call))

theorem calls_run (past : List Event) (cache : ChunkQueue) (calls : List Call) :
    (cache.run past calls).1.map Event.call = calls.reverse ++ past.map Event.call := by
  induction calls generalizing past cache with
  | nil => rfl
  | cons call rest ih =>
    rw [run, ih, List.reverse_cons, List.append_assoc]
    rfl

theorem limit_run (past : List Event) (cache : ChunkQueue) (calls : List Call) :
    (cache.run past calls).2.limit = cache.limit := by
  induction calls generalizing past cache with
  | nil => rfl
  | cons call rest ih => exact (ih _ _).trans (cache.served call).limit

theorem get_fst (cache : ChunkQueue) (index : Nat) : (cache.get index).1 = cache.table[index]? := by
  unfold get
  cases cache.table[index]? <;> rfl

end ChunkQueue

/-! ## Entries in order of use -/

namespace ChunkCache

def serve (cache : ChunkCache) : ChunkQueue.Call → Option ByteArray × ChunkCache
  | .get index => cache.get index
  | .insert index data => (none, cache.insert index data)

def run (given : List (Option ByteArray)) (cache : ChunkCache) :
    List ChunkQueue.Call → List (Option ByteArray) × ChunkCache
  | [] => (given, cache)
  | call :: rest => run ((cache.serve call).1 :: given) (cache.serve call).2 rest

structure Mirrors (entries : ChunkCache) (cache : ChunkQueue) : Prop where
  capacity : entries.capacity = cache.limit
  chunks : RecencyQueue.Mirrors entries.chunks cache

theorem mirrors_ofCapacity (maxEntries : Nat) :
    Mirrors { maxEntries } (ChunkQueue.ofCapacity maxEntries) where
  capacity := rfl
  chunks := ⟨rfl, fun index => by simp [ChunkQueue.ofCapacity, Recency.find?]⟩

variable {entries : ChunkCache} {cache : ChunkQueue}

theorem Mirrors.serve (mirrors : Mirrors entries cache) (agrees : cache.Agrees)
    (call : ChunkQueue.Call) :
    (entries.serve call).1 = (cache.serve call).1 ∧
      Mirrors (entries.serve call).2 (cache.serve call).2 := by
  have found := mirrors.chunks.found call.index
  cases call with
  | get index =>
    change Recency.find? entries.chunks index = cache.table[index]? at found
    rw [ChunkCache.serve, ChunkCache.get, ChunkQueue.serve, ChunkQueue.get]
    cases hit : cache.table[index]? with
    | none =>
      rw [hit] at found
      rw [found]
      exact ⟨rfl, mirrors⟩
    | some data =>
      rw [hit] at found
      rw [found]
      exact ⟨rfl, mirrors.capacity, mirrors.chunks.use hit⟩
  | insert index data =>
    change Recency.find? entries.chunks index = cache.table[index]? at found
    rw [ChunkCache.serve, ChunkCache.insert, ChunkQueue.serve]
    refine ⟨rfl, ?_⟩
    cases hit : cache.table[index]? with
    | none =>
      rw [hit] at found
      rw [found, ChunkQueue.insert_missing hit]
      refine ⟨mirrors.capacity.trans (cache.add_limit index data).symm, ?_⟩
      change RecencyQueue.Mirrors ((index, data) :: Recency.makeRoom entries.capacity _) _
      rw [mirrors.capacity]
      exact mirrors.chunks.add agrees index data
    | some kept =>
      rw [hit] at found
      rw [found, ChunkQueue.insert_held hit]
      exact mirrors

end ChunkCache

namespace ChunkQueue

theorem run_mirrors (past : List Event) {entries : ChunkCache} {cache : ChunkQueue}
    (mirrors : entries.Mirrors cache) (agrees : cache.Agrees) (calls : List Call) :
    (entries.run (past.map Event.given) calls).1 = (cache.run past calls).1.map Event.given ∧
      (entries.run (past.map Event.given) calls).2.Mirrors (cache.run past calls).2 := by
  induction calls generalizing entries cache past with
  | nil => exact ⟨rfl, mirrors⟩
  | cons call rest ih =>
    obtain ⟨same, next⟩ := mirrors.serve agrees call
    have rest := ih (cache.eventOf call (cache.serve call).1 (cache.serve call).2 :: past) next
      ((cache.served call).agrees agrees)
    rw [List.map_cons] at rest
    rw [ChunkCache.run, same]
    exact rest

/-- After any calls, the queue holds the indices of the table and nothing else, each once, and they
are the indices that were used last, as many as fit. An index of the table has the data of its
first insertion since it was dropped last, and any other gives nothing. What the calls found, gave
and dropped was so at the time of each. The cache of entries gives the same and holds the same
chunks in the same order. -/
theorem queue_is_latest_used (maxEntries : Nat) (calls : List Call) :
    ∃ past cache, (ofCapacity maxEntries).run [] calls = (past, cache) ∧
      past.map Event.call = calls.reverse ∧
      cache.queue.Nodup ∧
      (∀ index, index ∈ cache.queue ↔ index ∈ cache.table) ∧
      cache.table.size = cache.queue.length ∧
      cache.table.size ≤ max 1 maxEntries ∧
      cache.queue = (byRecency past).take (max 1 maxEntries) ∧
      (∀ index, (cache.get index).1 = firstInserted? past index) ∧
      (∀ index, index ∉ cache.queue → (cache.get index).1 = none) ∧
      (∀ later event earlier, past = later ++ event :: earlier →
        Accounted (max 1 maxEntries) earlier event) ∧
      ∃ entries : ChunkCache, ChunkCache.run [] { maxEntries } calls =
          (past.map Event.given, entries) ∧
        Recency.keys entries.chunks = cache.queue ∧
        ∀ index, (entries.get index).1 = (cache.get index).1 := by
  have traced := (traced_ofCapacity maxEntries).run calls
  have order := calls_run [] (ofCapacity maxEntries) calls
  have limit := limit_run [] (ofCapacity maxEntries) calls
  obtain ⟨same, mirrors⟩ := run_mirrors [] (ChunkCache.mirrors_ofCapacity maxEntries)
    (traced_ofCapacity maxEntries).toAgrees calls
  generalize (ofCapacity maxEntries).run [] calls = ran at *
  obtain ⟨past, cache⟩ := ran
  dsimp only at limit order traced same mirrors
  change cache.limit = max 1 maxEntries at limit
  refine ⟨past, cache, rfl, order.trans (List.append_nil _), traced.nodup, traced.held,
    traced.count, ?_, limit ▸ traced.queue_eq, fun index => ?_, fun index gone => ?_,
    limit ▸ traced.accounted, _, Prod.ext same rfl, mirrors.chunks.keys, fun index => ?_⟩
  · rw [traced.count, ← limit]
    exact traced.bounded
  · rw [get_fst, traced.data]
  · rw [get_fst]
    exact Std.HashMap.getElem?_eq_none fun held => gone ((traced.held index).mpr held)
  · exact (mirrors.serve traced.toAgrees (.get index)).1

end ChunkQueue

end EvidencePages.Ewf
