import EvidencePages.Proofs.Store.RecencyQueue

/-!
# A pool forgets what was used longest ago

A pool may be kept in two containers, a table of the open handles and a queue
of their parts in order of use, which a hit, a miss, an eviction and a failed
opening each change in their own way. After any calls the two agree, and the
queue is the beginning of the list of all parts that were ever given out, each
at its latest use. The pool of entries in order of use is the same pool.
-/

set_option autoImplicit false

namespace EvidencePages

/-- A pool in two containers. The queue starts with the part that was used last. -/
structure HandleQueue where
  paths : List Path
  maxOpen : Nat
  handles : Std.HashMap Nat Handle := {}
  queue : List Nat := []

namespace HandleQueue

def ofPaths (paths : List Path) (maxOpen : Nat) : HandleQueue := { paths, maxOpen := max 1 maxOpen }

def openCount (pool : HandleQueue) : Nat := pool.handles.size

def evict (pool : HandleQueue) : HandleQueue :=
  if pool.maxOpen ≤ pool.handles.size then
    match pool.queue.getLast? with
    | none => pool
    | some oldest =>
      { pool with handles := pool.handles.erase oldest, queue := pool.queue.dropLast }
  else pool

def fetch (store : FileStore) (pool : HandleQueue) (index : Nat) :
    Except IoError Handle × HandleQueue :=
  match pool.paths[index]? with
  | none => (.error (.indexOutOfRange index pool.paths.length), pool)
  | some path =>
    match pool.handles[index]? with
    | some handle =>
      (.ok handle, { pool with queue := index :: pool.queue.filter (· ≠ index) })
    | none =>
      let room := pool.evict
      match store.openFile path with
      | .error cause => (.error cause, room)
      | .ok handle =>
        (.ok handle, { room with
          handles := room.handles.insert index handle, queue := index :: room.queue })

/-! ## Runs -/

structure Call where
  store : FileStore
  index : Nat

structure Answer extends Call where
  cached : Bool
  result : Except IoError Handle

def answer (pool : HandleQueue) (call : Call) : Answer :=
  { call with
    cached := pool.handles[call.index]?.isSome
    result := (pool.fetch call.store call.index).1 }

/-- The calls one by one. Answers are added in front of those that were given before. -/
def serve (past : List Answer) (pool : HandleQueue) : List Call → List Answer × HandleQueue
  | [] => (past, pool)
  | call :: rest => serve (pool.answer call :: past) (pool.fetch call.store call.index).2 rest

def given (past : List Answer) : List Nat :=
  past.filterMap fun answer => if answer.result.isOk then some answer.index else none

def firsts : List Nat → List Nat
  | [] => []
  | index :: rest => index :: (firsts rest).filter (· ≠ index)

def byRecency (past : List Answer) : List Nat := firsts (given past)

def Failed (paths : List Path) (answer : Answer) : Prop :=
  answer.index < paths.length ∧ answer.result.isOk = false

/-- The last call for a part that did not find it in the pool. -/
def lastMiss? (past : List Answer) (index : Nat) : Option Answer :=
  past.find? fun answer => answer.index = index && !answer.cached

theorem nodup_firsts (used : List Nat) : (firsts used).Nodup := by
  induction used with
  | nil => exact List.nodup_nil
  | cons first rest ih => exact RecencyQueue.nodup_use ih first

/-! ## What a call can do -/

variable {pool : HandleQueue} {past : List Answer} {store : FileStore} {index : Nat}

def kept (pool : HandleQueue) : RecencyQueue Handle where
  limit := pool.maxOpen
  table := pool.handles
  queue := pool.queue

theorem evict_paths (pool : HandleQueue) : pool.evict.paths = pool.paths := by
  unfold evict
  split
  · split <;> rfl
  · rfl

theorem kept_evict (pool : HandleQueue) : pool.evict.kept = pool.kept.evict := by
  unfold evict RecencyQueue.evict
  by_cases full : pool.maxOpen ≤ pool.handles.size
  · rw [if_pos full, if_pos (show pool.kept.limit ≤ pool.kept.table.size from full)]
    dsimp only [kept]
    cases pool.queue.getLast? <;> rfl
  · rw [if_neg full, if_neg (show ¬pool.kept.limit ≤ pool.kept.table.size from full)]

theorem evict_maxOpen (pool : HandleQueue) : pool.evict.maxOpen = pool.maxOpen :=
  (congrArg RecencyQueue.limit pool.kept_evict).trans pool.kept.evict_limit

theorem kept_opened (pool : HandleQueue) (index : Nat) (handle : Handle) :
    ({ pool.evict with
      handles := pool.evict.handles.insert index handle
      queue := index :: pool.evict.queue } : HandleQueue).kept = pool.kept.add index handle := by
  rw [RecencyQueue.add, ← kept_evict]
  rfl

inductive Fetched (store : FileStore) (pool : HandleQueue) (index : Nat) :
    Except IoError Handle → HandleQueue → Prop
  | outside (out : pool.paths[index]? = none) :
    Fetched store pool index (.error (.indexOutOfRange index pool.paths.length)) pool
  | held {path : Path} {handle : Handle} (there : pool.paths[index]? = some path)
    (hit : pool.handles[index]? = some handle) :
    Fetched store pool index (.ok handle)
      { pool with queue := index :: pool.queue.filter (· ≠ index) }
  | failed {path : Path} {cause : IoError} (there : pool.paths[index]? = some path)
    (miss : pool.handles[index]? = none) (refused : store.openFile path = .error cause) :
    Fetched store pool index (.error cause) pool.evict
  | opened {path : Path} {handle : Handle} (there : pool.paths[index]? = some path)
    (miss : pool.handles[index]? = none) (given : store.openFile path = .ok handle) :
    Fetched store pool index (.ok handle)
      { pool.evict with
        handles := pool.evict.handles.insert index handle
        queue := index :: pool.evict.queue }

theorem fetched (store : FileStore) (pool : HandleQueue) (index : Nat) :
    Fetched store pool index (pool.fetch store index).1 (pool.fetch store index).2 := by
  unfold fetch
  cases there : pool.paths[index]? with
  | none => exact .outside there
  | some path =>
    cases hit : pool.handles[index]? with
    | some handle => exact .held there hit
    | none =>
      cases opened : store.openFile path with
      | error cause =>
        simp only [opened]
        exact .failed there hit opened
      | ok handle =>
        simp only [opened]
        exact .opened there hit opened

theorem Fetched.paths {result : Except IoError Handle} {next : HandleQueue}
    (step : Fetched store pool index result next) : next.paths = pool.paths := by
  cases step with
  | outside out => rfl
  | held there hit => rfl
  | failed there miss refused => exact evict_paths pool
  | opened there miss given => exact evict_paths pool

theorem Fetched.maxOpen {result : Except IoError Handle} {next : HandleQueue}
    (step : Fetched store pool index result next) : next.maxOpen = pool.maxOpen := by
  cases step with
  | outside out => rfl
  | held there hit => rfl
  | failed there miss refused => exact evict_maxOpen pool
  | opened there miss given => exact evict_maxOpen pool

/-! ## The two containers -/

/-- Table and queue hold the same parts, each once and not too many. -/
structure Agrees (pool : HandleQueue) : Prop where
  positive : 1 ≤ pool.maxOpen
  nodup : pool.queue.Nodup
  held : ∀ index, index ∈ pool.queue ↔ index ∈ pool.handles
  count : pool.openCount = pool.queue.length
  bounded : pool.queue.length ≤ pool.maxOpen
  inside : ∀ index ∈ pool.queue, index < pool.paths.length

theorem agrees_ofPaths (paths : List Path) (maxOpen : Nat) : (ofPaths paths maxOpen).Agrees where
  positive := Nat.le_max_left _ _
  nodup := List.nodup_nil
  held := by simp [ofPaths]
  count := by simp [ofPaths, openCount]
  bounded := Nat.zero_le _
  inside := by simp [ofPaths]

theorem Agrees.kept (agrees : pool.Agrees) : pool.kept.Agrees :=
  ⟨agrees.positive, agrees.nodup, agrees.held, agrees.count, agrees.bounded⟩

theorem agrees_of_kept (agrees : pool.kept.Agrees)
    (inside : ∀ index ∈ pool.queue, index < pool.paths.length) : pool.Agrees :=
  ⟨agrees.positive, agrees.nodup, agrees.held, agrees.count, agrees.bounded, inside⟩

theorem Agrees.evict_prefix (agrees : pool.Agrees) : pool.evict.queue <+: pool.queue := by
  have left := agrees.kept.evict_prefix
  rwa [← kept_evict] at left

theorem Agrees.evict (agrees : pool.Agrees) : pool.evict.Agrees := by
  refine agrees_of_kept (pool.kept_evict ▸ agrees.kept.evict) fun index there => ?_
  rw [evict_paths]
  exact agrees.inside index (agrees.evict_prefix.subset there)

theorem Agrees.getElem?_of_evict (agrees : pool.Agrees) {index : Nat} {handle : Handle}
    (left : pool.evict.handles[index]? = some handle) : pool.handles[index]? = some handle := by
  change pool.evict.kept.table[index]? = some handle at left
  rw [kept_evict, agrees.kept.getElem?_evict] at left
  split at left
  · cases left
  · exact left

theorem lt_of_getElem? {paths : List Path} {path : Path} (there : paths[index]? = some path) :
    index < paths.length :=
  (List.getElem?_eq_some_iff.mp there).1

theorem Agrees.held_iff (agrees : pool.Agrees) (index : Nat) :
    index ∈ pool.queue ↔ pool.handles[index]?.isSome = true :=
  agrees.kept.held_iff index

theorem Agrees.fetched {result : Except IoError Handle} {next : HandleQueue}
    (agrees : pool.Agrees) (step : Fetched store pool index result next) : next.Agrees := by
  cases step with
  | outside out => exact agrees
  | failed there miss refused => exact agrees.evict
  | held there hit =>
    have queued : index ∈ pool.queue := (agrees.held_iff index).mpr (by rw [hit]; rfl)
    refine agrees_of_kept (agrees.kept.use queued) fun other inside => ?_
    rcases List.mem_cons.mp inside with rfl | inside
    · exact agrees.inside _ queued
    · exact agrees.inside _ (List.mem_filter.mp inside).1
  | opened there miss given =>
    refine agrees_of_kept (pool.kept_opened index _ ▸ agrees.kept.add miss _)
      fun other inside => ?_
    change other < pool.evict.paths.length
    rcases List.mem_cons.mp inside with rfl | inside
    · rw [evict_paths]
      exact lt_of_getElem? there
    · exact agrees.evict.inside other inside

/-! ## The answers -/

/-- What an answer goes back to: on a hit to the last miss, and on a miss to the file itself. -/
structure Accounted (paths : List Path) (earlier : List Answer) (answer : Answer) : Prop where
  hit : answer.cached = true → ∃ miss handle, lastMiss? earlier answer.index = some miss ∧
    miss.result = .ok handle ∧ answer.result = .ok handle
  miss : answer.cached = false →
    answer.result = HandlePool.fetched answer.store paths answer.index

structure Traced (past : List Answer) (pool : HandleQueue) : Prop extends Agrees pool where
  recent : pool.queue <+: byRecency past
  full : (∀ answer ∈ past, ¬Failed pool.paths answer) →
    pool.queue.length = min pool.maxOpen (byRecency past).length
  opened : ∀ index handle, pool.handles[index]? = some handle →
    ∃ miss, lastMiss? past index = some miss ∧ miss.result = .ok handle
  accounted : ∀ later answer earlier, past = later ++ answer :: earlier →
    Accounted pool.paths earlier answer

theorem traced_ofPaths (paths : List Path) (maxOpen : Nat) : Traced [] (ofPaths paths maxOpen) where
  toAgrees := agrees_ofPaths paths maxOpen
  recent := List.prefix_rfl
  full _ := (Nat.min_zero _).symm
  opened index handle held := by simp [ofPaths] at held
  accounted later answer earlier cut := by simp at cut

theorem byRecency_ok {answer : Answer} {handle : Handle} (given : answer.result = .ok handle) :
    byRecency (answer :: past) = firsts (answer.index :: HandleQueue.given past) := by
  rw [byRecency, HandleQueue.given, List.filterMap_cons, given]
  rfl

theorem byRecency_error {answer : Answer} {cause : IoError}
    (refused : answer.result = .error cause) :
    byRecency (answer :: past) = byRecency past := by
  rw [byRecency, HandleQueue.given, List.filterMap_cons, refused]
  rfl

theorem lastMiss?_cons_of_not {answer : Answer} {index : Nat}
    (other : answer.index = index → answer.cached = true) :
    lastMiss? (answer :: past) index = lastMiss? past index := by
  refine List.find?_cons_of_neg ?_
  by_cases same : answer.index = index
  · simp [other same]
  · simp [same]

theorem lastMiss?_cons_of_miss {answer : Answer} (miss : answer.cached = false) :
    lastMiss? (answer :: past) answer.index = some answer :=
  List.find?_cons_of_pos (by simp [miss])

theorem Traced.accounts {result : Except IoError Handle} {next : HandleQueue}
    (traced : Traced past pool) (step : Fetched store pool index result next) :
    Accounted pool.paths past { store, index, cached := pool.handles[index]?.isSome, result } := by
  cases step with
  | outside out =>
    refine ⟨fun cached => ?_, fun _ => by simp only [HandlePool.fetched, out]⟩
    have within := traced.inside index ((traced.held_iff index).mpr cached)
    rw [List.getElem?_eq_none_iff] at out
    omega
  | held there hit =>
    refine ⟨fun _ => ?_, fun missed => ?_⟩
    · obtain ⟨miss, last, given⟩ := traced.opened index _ hit
      exact ⟨miss, _, last, given, rfl⟩
    · rw [hit] at missed
      cases missed
  | failed there miss refused =>
    refine ⟨fun cached => ?_, fun _ => by simp only [HandlePool.fetched, there, refused]⟩
    rw [miss] at cached
    cases cached
  | opened there miss given =>
    refine ⟨fun cached => ?_, fun _ => by simp only [HandlePool.fetched, there, given]⟩
    rw [miss] at cached
    cases cached

theorem Traced.fetched {result : Except IoError Handle} {next : HandleQueue}
    (traced : Traced past pool) (step : Fetched store pool index result next) :
    Traced ({ store, index, cached := pool.handles[index]?.isSome, result } :: past) next where
  toAgrees := traced.toAgrees.fetched step
  recent := by
    cases step with
    | outside out =>
      rw [byRecency_error rfl]
      exact traced.recent
    | held there hit =>
      rw [byRecency_ok rfl]
      exact RecencyQueue.prefix_use traced.recent index
    | failed there miss refused =>
      rw [byRecency_error rfl]
      exact traced.evict_prefix.trans traced.recent
    | @opened path handle there miss given =>
      have moved := traced.kept.add_prefix miss handle traced.recent
      rw [← kept_opened] at moved
      rw [byRecency_ok rfl]
      exact moved
  full whole := by
    have before := traced.full fun answer given failed =>
      whole answer (List.mem_cons_of_mem _ given) (by rw [step.paths]; exact failed)
    cases step with
    | outside out =>
      rw [byRecency_error rfl]
      exact before
    | held there hit =>
      have queued : index ∈ pool.queue := (traced.held_iff index).mpr (by rw [hit]; rfl)
      rw [byRecency_ok rfl]
      exact traced.kept.use_full queued (nodup_firsts (given past)) traced.recent before
    | failed there miss refused =>
      refine absurd ⟨?_, rfl⟩ (whole _ List.mem_cons_self)
      rw [evict_paths]
      exact lt_of_getElem? there
    | @opened path handle there miss opening =>
      have longer := traced.kept.add_full miss handle traced.recent before
      rw [← kept_opened] at longer
      rw [byRecency_ok rfl, evict_maxOpen]
      exact longer
  opened other handle held := by
    -- a part that stays in the table keeps the miss that brought it there
    have kept : pool.handles[other]? = some handle →
        ∃ miss, lastMiss? ({ store, index, cached := pool.handles[index]?.isSome, result } :: past)
          other = some miss ∧ miss.result = .ok handle := by
      intro there
      obtain ⟨miss, last, given⟩ := traced.opened other handle there
      refine ⟨miss, (lastMiss?_cons_of_not fun same => ?_).trans last, given⟩
      change pool.handles[index]?.isSome = true
      rw [show index = other from same, there]
      rfl
    cases step with
    | outside out => exact kept held
    | held there hit => exact kept held
    | failed there miss refused => exact kept (traced.getElem?_of_evict held)
    | opened there miss given =>
      rw [Std.HashMap.getElem?_insert] at held
      split at held
      · rename_i same
        cases held
        rw [← eq_of_beq same]
        exact ⟨_, lastMiss?_cons_of_miss (by rw [miss]; rfl), rfl⟩
      · exact kept (traced.getElem?_of_evict held)
  accounted later answer earlier cut := by
    rw [step.paths]
    cases later with
    | nil =>
      cases cut
      exact traced.accounts step
    | cons latest later =>
      exact traced.accounted later answer earlier (List.cons.inj cut).2

theorem Traced.serve (traced : Traced past pool) (calls : List Call) :
    Traced (pool.serve past calls).1 (pool.serve past calls).2 := by
  induction calls generalizing past pool with
  | nil => exact traced
  | cons call rest ih => exact ih (traced.fetched (pool.fetched call.store call.index))

theorem calls_serve (past : List Answer) (pool : HandleQueue) (calls : List Call) :
    (pool.serve past calls).1.map Answer.toCall = calls.reverse ++ past.map Answer.toCall := by
  induction calls generalizing past pool with
  | nil => rfl
  | cons call rest ih =>
    rw [serve, ih, List.reverse_cons, List.append_assoc]
    rfl

theorem settings_serve (past : List Answer) (pool : HandleQueue) (calls : List Call) :
    (pool.serve past calls).2.paths = pool.paths ∧
      (pool.serve past calls).2.maxOpen = pool.maxOpen := by
  induction calls generalizing past pool with
  | nil => exact ⟨rfl, rfl⟩
  | cons call rest ih =>
    have step := pool.fetched call.store call.index
    obtain ⟨paths, maxOpen⟩ := ih (pool.answer call :: past) (pool.fetch call.store call.index).2
    exact ⟨paths.trans step.paths, maxOpen.trans step.maxOpen⟩

/-- A handle that is given out was opened at its part's path, by this call or one before. -/
theorem Traced.opening (traced : Traced past pool) {later earlier : List Answer} {answer : Answer}
    (cut : past = later ++ answer :: earlier) {handle : Handle}
    (given : answer.result = .ok handle) :
    ∃ opening ∈ answer :: earlier, opening.index = answer.index ∧ opening.cached = false ∧
      ∃ path, pool.paths[answer.index]? = some path ∧
        opening.store.openFile path = .ok handle := by
  -- a miss that gave a handle opened the path
  have opened : ∀ later miss before, past = later ++ miss :: before → miss.cached = false →
      miss.result = .ok handle → ∃ path, pool.paths[miss.index]? = some path ∧
        miss.store.openFile path = .ok handle := by
    intro later miss before cut missed gave
    rw [(traced.accounted later miss before cut).miss missed, HandlePool.fetched] at gave
    split at gave
    · cases gave
    · exact ⟨_, by assumption, gave⟩
  cases cached : answer.cached with
  | false =>
    exact ⟨answer, List.mem_cons_self, rfl, cached, opened later answer earlier cut cached given⟩
  | true =>
    obtain ⟨miss, handle', last, gave, same⟩ :=
      (traced.accounted later answer earlier cut).hit cached
    rw [given] at same
    cases same
    have found := List.find?_some last
    rw [Bool.and_eq_true, decide_eq_true_iff, Bool.not_eq_true'] at found
    have listed := List.mem_of_find?_eq_some last
    obtain ⟨front, back, rfl⟩ := List.append_of_mem listed
    have opening := opened (later ++ answer :: front) miss back
      (by rw [cut, List.append_assoc]; rfl) found.2 gave
    rw [found.1] at opening
    exact ⟨miss, List.mem_cons_of_mem _ listed, found.1, found.2, opening⟩

/-! ## Entries in order of use -/

structure Mirrors (entries : HandlePool) (pool : HandleQueue) : Prop where
  paths : entries.paths = pool.paths
  capacity : entries.capacity = pool.maxOpen
  keys : Recency.keys entries.handles = pool.queue
  found : ∀ index, Recency.find? entries.handles index = pool.handles[index]?

theorem mirrors_ofPaths (paths : List Path) (maxOpen : Nat) :
    Mirrors (HandlePool.ofPaths paths maxOpen) (ofPaths paths maxOpen) where
  paths := rfl
  capacity := rfl
  keys := rfl
  found index := by simp [HandlePool.ofPaths, ofPaths, Recency.find?]

variable {entries : HandlePool} {pool : HandleQueue}

theorem Mirrors.kept (mirrors : Mirrors entries pool) :
    RecencyQueue.Mirrors entries.handles pool.kept :=
  ⟨mirrors.keys, mirrors.found⟩

theorem mirrors_of_kept (paths : entries.paths = pool.paths)
    (capacity : entries.capacity = pool.maxOpen)
    (mirrors : RecencyQueue.Mirrors entries.handles pool.kept) : Mirrors entries pool :=
  ⟨paths, capacity, mirrors.keys, mirrors.found⟩

theorem Mirrors.fetch (mirrors : Mirrors entries pool) (agrees : pool.Agrees) (store : FileStore)
    (index : Nat) :
    (entries.fetch store index).1 = (pool.fetch store index).1 ∧
      Mirrors (entries.fetch store index).2 (pool.fetch store index).2 := by
  have limit : entries.capacity = pool.kept.limit := mirrors.capacity
  have found := mirrors.found index
  unfold HandlePool.fetch HandleQueue.fetch
  cases there : pool.paths[index]? with
  | none =>
    simp only [mirrors.paths, there]
    exact ⟨trivial, mirrors⟩
  | some path =>
    rw [← mirrors.paths] at there
    cases hit : pool.handles[index]? with
    | some handle =>
      rw [hit] at found
      simp only [there, found]
      exact ⟨trivial, mirrors_of_kept mirrors.paths mirrors.capacity (mirrors.kept.use hit)⟩
    | none =>
      rw [hit] at found
      have paths := mirrors.paths.trans pool.evict_paths.symm
      have capacity := mirrors.capacity.trans pool.evict_maxOpen.symm
      cases opened : store.openFile path with
      | error cause =>
        simp only [there, found, opened]
        refine ⟨trivial, mirrors_of_kept paths capacity ?_⟩
        rw [limit, kept_evict]
        exact mirrors.kept.evict agrees.kept
      | ok handle =>
        simp only [there, found, opened]
        refine ⟨trivial, mirrors_of_kept paths capacity ?_⟩
        rw [limit, kept_opened]
        exact mirrors.kept.add agrees.kept index handle

end HandleQueue

namespace HandlePool

def serve (results : List (Except IoError Handle)) (pool : HandlePool) :
    List HandleQueue.Call → List (Except IoError Handle) × HandlePool
  | [] => (results, pool)
  | call :: rest =>
    serve ((pool.fetch call.store call.index).1 :: results) (pool.fetch call.store call.index).2
      rest

end HandlePool

namespace HandleQueue

variable {entries : HandlePool} {pool : HandleQueue} {past : List Answer}

theorem Mirrors.serve (mirrors : Mirrors entries pool) (traced : Traced past pool)
    (calls : List Call) :
    (entries.serve (past.map Answer.result) calls).1 =
        (pool.serve past calls).1.map Answer.result ∧
      Mirrors (entries.serve (past.map Answer.result) calls).2 (pool.serve past calls).2 := by
  induction calls generalizing entries past pool with
  | nil => exact ⟨rfl, mirrors⟩
  | cons call rest ih =>
    obtain ⟨same, next⟩ := mirrors.fetch traced.toAgrees call.store call.index
    have served := ih next (traced.fetched (pool.fetched call.store call.index))
    rw [List.map_cons] at served
    rw [HandlePool.serve, same]
    exact served

/-- After any calls, over any states of the files, the queue holds the parts of the open handles
and nothing else, each once and at most `maxOpen` of them, and they are the first of all parts
given out so far by their latest use: as many as fit, as long as no opening failed. A hit gives
the handle of the part's last miss, and every handle given out was opened at the part's path. The
pool of entries gives the same answers and holds the same handles in the same order. -/
theorem queue_is_recency (paths : List Path) (maxOpen : Nat) (calls : List Call) :
    ∃ past pool, (ofPaths paths maxOpen).serve [] calls = (past, pool) ∧
      past.map Answer.toCall = calls.reverse ∧
      pool.queue.Nodup ∧
      (∀ index, index ∈ pool.queue ↔ index ∈ pool.handles) ∧
      pool.openCount = pool.queue.length ∧
      pool.queue.length ≤ max 1 maxOpen ∧
      pool.queue <+: byRecency past ∧
      ((∀ answer ∈ past, ¬Failed paths answer) →
        pool.queue.length = min (max 1 maxOpen) (byRecency past).length) ∧
      (∀ later answer earlier, past = later ++ answer :: earlier →
        (answer.cached = true → ∃ miss handle, lastMiss? earlier answer.index = some miss ∧
          miss.result = .ok handle ∧ answer.result = .ok handle) ∧
        ∀ handle, answer.result = .ok handle →
          ∃ opening ∈ answer :: earlier, opening.index = answer.index ∧ opening.cached = false ∧
            ∃ path, paths[answer.index]? = some path ∧
              opening.store.openFile path = .ok handle) ∧
      ∃ entries, (HandlePool.ofPaths paths maxOpen).serve [] calls =
          (past.map Answer.result, entries) ∧
        Recency.keys entries.handles = pool.queue ∧
        (∀ index, Recency.find? entries.handles index = pool.handles[index]?) ∧
        entries.openCount = pool.openCount := by
  have traced := (traced_ofPaths paths maxOpen).serve calls
  have order := calls_serve [] (ofPaths paths maxOpen) calls
  obtain ⟨same, limit⟩ := settings_serve [] (ofPaths paths maxOpen) calls
  obtain ⟨answers, mirrors⟩ :=
    (mirrors_ofPaths paths maxOpen).serve (traced_ofPaths paths maxOpen) calls
  generalize (ofPaths paths maxOpen).serve [] calls = served at *
  obtain ⟨past, pool⟩ := served
  dsimp only at same limit order traced answers mirrors
  change pool.paths = paths at same
  change pool.maxOpen = max 1 maxOpen at limit
  refine ⟨past, pool, rfl, order.trans (List.append_nil _), traced.nodup, traced.held,
    traced.count, limit ▸ traced.bounded, traced.recent, ?_, fun later answer earlier cut => ?_, ?_⟩
  · rw [← limit, ← same]
    exact traced.full
  · refine ⟨(traced.accounted later answer earlier cut).hit, fun handle given => ?_⟩
    rw [← same]
    exact traced.opening cut given
  · refine ⟨_, Prod.ext answers rfl, mirrors.keys, mirrors.found, ?_⟩
    rw [traced.count, ← mirrors.keys, Recency.keys, List.length_map]
    rfl

end HandleQueue

end EvidencePages
