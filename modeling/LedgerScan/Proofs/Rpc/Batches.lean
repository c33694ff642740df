import LedgerScan.Rpc.Batch

/-!
# Batches keep requests and answers in step

The requests are cut into batches, each batch is posted and its answer shared out among the
requests by position. Here this is put together again, for every list of requests, every size of a
batch and every transport:

* `flatten_chunks`, `length_chunks`, `full_of_mem_dropLast`: nothing is lost in cutting a list, and
  only the last piece may be shorter than the others;
* `Timer.Ticks` is what is known of a timer, and `Timer.Ticks.after_eq` what follows for pauses one
  after the other: each lasts a whole number of ticks, so each starts at a tick;
* `Wire.turn_after` says what one turn does to the wire, and `send_eq` that the exchanges with their
  times, the accounts and the end of a run are those that are sent;
* `execute_in_step`: the accounts at position `i` come from item `i % size` of the answer to batch
  `i / size` and from nowhere else.
-/

namespace LedgerScan.Rpc

/-! ## 1. Cutting a list -/

section Chunks

variable {α β γ : Type} {size : Nat}

@[simp] theorem chunks_nil (size fuel : Nat) : chunks size fuel ([] : List α) = [] := by
  cases fuel <;> rfl

theorem chunks_cons (size fuel : Nat) (x : α) (xs : List α) :
    chunks size (fuel + 1) (x :: xs)
      = (x :: xs).take size :: chunks size fuel ((x :: xs).drop size) := rfl

/-- What is left after a piece has been cut off needs one step less. -/
theorem length_drop_le {fuel : Nat} {xs : List α} (positive : 0 < size)
    (enough : xs.length ≤ fuel + 1) : (xs.drop size).length ≤ fuel := by
  rw [List.length_drop]
  omega

theorem flatten_chunks (positive : 0 < size) :
    ∀ {fuel : Nat} {xs : List α}, xs.length ≤ fuel → (chunks size fuel xs).flatten = xs
  | _, [], _ => by simp
  | 0, _ :: _, enough => absurd enough (Nat.not_succ_le_zero _)
  | fuel + 1, x :: xs, enough => by
      rw [chunks_cons, List.flatten_cons, flatten_chunks positive (length_drop_le positive enough),
        List.take_append_drop]

theorem length_chunks (positive : 0 < size) :
    ∀ {fuel : Nat} {xs : List α}, xs.length ≤ fuel →
      (chunks size fuel xs).length = (xs.length + size - 1) / size
  | _, [], _ => by
      rw [chunks_nil, List.length_nil, List.length_nil, Nat.div_eq_of_lt (by omega)]
  | 0, _ :: _, enough => absurd enough (Nat.not_succ_le_zero _)
  | fuel + 1, x :: xs, enough => by
      have hsum : (x :: xs).length + size - 1 = xs.length + size := by
        rw [List.length_cons]
        omega
      rw [chunks_cons, List.length_cons, length_chunks positive (length_drop_le positive enough),
        hsum, Nat.add_div_right _ positive, List.length_drop, List.length_cons]
      by_cases hlast : xs.length + 1 ≤ size
      · rw [Nat.div_eq_of_lt (by omega), Nat.div_eq_of_lt (by omega)]
      · rw [show xs.length + 1 - size + size - 1 = xs.length by omega]

theorem bounds_of_mem_chunks (positive : 0 < size) :
    ∀ {fuel : Nat} {xs piece : List α}, piece ∈ chunks size fuel xs →
      0 < piece.length ∧ piece.length ≤ size
  | _, [], _, h => by simp at h
  | 0, _ :: _, _, h => by cases h
  | fuel + 1, x :: xs, piece, h => by
      rw [chunks_cons, List.mem_cons] at h
      rcases h with rfl | h
      · rw [List.length_take, List.length_cons]
        omega
      · exact bounds_of_mem_chunks positive h

/-- Only the last piece may be shorter than the others. -/
theorem full_of_mem_dropLast :
    ∀ {fuel : Nat} {xs piece : List α}, piece ∈ (chunks size fuel xs).dropLast →
      piece.length = size
  | _, [], _, h => by simp at h
  | 0, _ :: _, _, h => by cases h
  | fuel + 1, x :: xs, piece, h => by
      rw [chunks_cons] at h
      -- if this piece were shorter, no other would follow
      rcases Nat.lt_or_ge (x :: xs).length size with hshort | hlength
      · rw [List.drop_of_length_le (Nat.le_of_lt hshort), chunks_nil] at h
        cases h
      · cases htail : chunks size fuel ((x :: xs).drop size) with
        | nil => rw [htail] at h; cases h
        | cons _ _ =>
          rw [htail, List.dropLast_cons_cons, ← htail, List.mem_cons] at h
          rcases h with rfl | h
          · rw [List.length_take, Nat.min_eq_left hlength]
          · exact full_of_mem_dropLast h

/-- Where all lists but the last have one length, an item is found by division. -/
theorem getElem?_flatMap {f : β → List γ} (positive : 0 < size) :
    ∀ {xs : List β}, (∀ x ∈ xs, (f x).length ≤ size) →
      (∀ x ∈ xs.dropLast, (f x).length = size) → ∀ i,
      (xs.flatMap f)[i]? = xs[i / size]?.bind fun x => (f x)[i % size]?
  | [], _, _, i => by simp
  | [x], bound, _, i => by
      rw [List.flatMap_singleton]
      by_cases h : i < size
      · rw [Nat.div_eq_of_lt h, Nat.mod_eq_of_lt h]
        rfl
      · have hle : size ≤ i := Nat.le_of_not_lt h
        have hlast : (f x).length ≤ i := Nat.le_trans (bound x List.mem_cons_self) hle
        have hnone : [x].length ≤ i / size := (Nat.one_le_div_iff positive).mpr hle
        rw [List.getElem?_eq_none hlast, List.getElem?_eq_none hnone]
        rfl
  | x :: y :: ys, bound, full, i => by
      rw [List.dropLast_cons_cons, List.forall_mem_cons] at full
      rw [List.forall_mem_cons] at bound
      rw [List.flatMap_cons]
      by_cases h : i < size
      · rw [List.getElem?_append_left (full.1 ▸ h), Nat.div_eq_of_lt h, Nat.mod_eq_of_lt h]
        rfl
      · have hle : size ≤ i := Nat.le_of_not_lt h
        rw [List.getElem?_append_right (full.1 ▸ hle), full.1,
          getElem?_flatMap positive bound.2 full.2, Nat.div_eq_sub_div positive hle,
          List.getElem?_cons_succ, Nat.mod_eq_sub_mod hle]

end Chunks

/-! ## 2. Timers -/

namespace Timer

/-- **A timer ticks**: a sleep ends at a tick, when it has lasted as long as it was asked to, or as
    the longest sleep lasts, and before one more tick has passed. -/
structure Ticks (timer : Timer) (tick longest : Duration) : Prop where
  positive : 0 < tick.nanoseconds
  onTick : ∀ now asked, tick.nanoseconds ∣ timer.wake now asked
  notBefore : ∀ now asked, now + min asked.nanoseconds longest.nanoseconds ≤ timer.wake now asked
  atOnce : ∀ now asked,
    timer.wake now asked < now + min asked.nanoseconds longest.nanoseconds + tick.nanoseconds

/-- How long a pause lasts that is asked for: rounded up to ticks, and no longer than a sleep can
    be. -/
def pause (tick longest asked : Duration) : Nat :=
  roundUp tick.nanoseconds (min asked.nanoseconds longest.nanoseconds)

section RoundUp

variable {tick time : Nat}

theorem dvd_roundUp (tick time : Nat) : tick ∣ roundUp tick time :=
  Nat.dvd_mul_left tick _

theorem le_roundUp (positive : 0 < tick) (time : Nat) : time ≤ roundUp tick time := by
  have hdiv : roundUp tick time + _ = _ := Nat.div_add_mod' (time + (tick - 1)) tick
  have hmod := Nat.mod_lt (time + (tick - 1)) positive
  omega

theorem roundUp_lt (positive : 0 < tick) (time : Nat) : roundUp tick time < time + tick := by
  have hdiv : roundUp tick time + _ = _ := Nat.div_add_mod' (time + (tick - 1)) tick
  omega

/-- What is a whole number of ticks stays as it is. -/
theorem roundUp_eq_self (positive : 0 < tick) (whole : tick ∣ time) : roundUp tick time = time :=
  Nat.le_antisymm
    (Nat.le_of_lt_add_of_dvd (roundUp_lt positive time) (dvd_roundUp tick time) whole)
    (le_roundUp positive time)

end RoundUp

section Ticks

variable {timer : Timer} {tick longest : Duration}

theorem ticks_ticking (positive : 0 < tick.nanoseconds) (longest : Duration) :
    (ticking tick longest).Ticks tick longest where
  positive := positive
  onTick _ _ := dvd_roundUp _ _
  notBefore _ _ := le_roundUp positive _
  atOnce _ _ := roundUp_lt positive _

/-- A pause that is a whole number of ticks lasts as long as it was asked to. -/
theorem pause_eq {asked : Duration} (positive : 0 < tick.nanoseconds)
    (whole : tick.nanoseconds ∣ asked.nanoseconds)
    (short : asked.nanoseconds ≤ longest.nanoseconds) :
    pause tick longest asked = asked.nanoseconds := by
  rw [pause, Nat.min_eq_left short, roundUp_eq_self positive whole]

/-- A sleep that starts at a tick is a pause of its length. -/
theorem Ticks.wake_eq (ticks : timer.Ticks tick longest) {now : Nat}
    (whole : tick.nanoseconds ∣ now) (asked : Duration) :
    timer.wake now asked = now + pause tick longest asked := by
  have hsum : tick.nanoseconds ∣ now + pause tick longest asked :=
    Nat.dvd_add whole (dvd_roundUp _ _)
  have hwake := ticks.onTick now asked
  have hnotBefore := ticks.notBefore now asked
  have hatOnce := ticks.atOnce now asked
  have hle : _ ≤ pause tick longest asked := le_roundUp ticks.positive _
  have hlt : pause tick longest asked < _ := roundUp_lt ticks.positive _
  -- two ticks less than a tick apart are the same
  exact Nat.le_antisymm (Nat.le_of_lt_add_of_dvd (by omega) hwake hsum)
    (Nat.le_of_lt_add_of_dvd (by omega) hsum hwake)

theorem after_of_zero {asked : Duration} (h : asked.nanoseconds = 0) (timer : Timer) (n : Nat) :
    timer.after asked n = 0 := by
  induction n with
  | zero => rfl
  | succ n ih => rw [after, if_pos h, ih]

theorem after_succ {asked : Duration} (h : asked.nanoseconds ≠ 0) (timer : Timer) (n : Nat) :
    timer.after asked (n + 1) = timer.wake (timer.after asked n) asked := by
  rw [after, if_neg h]

/-- **Pauses one after the other** all last equally long, for each of them starts at a tick. -/
theorem Ticks.after_eq (ticks : timer.Ticks tick longest) (asked : Duration) (n : Nat) :
    timer.after asked n = n * pause tick longest asked := by
  by_cases hzero : asked.nanoseconds = 0
  · have hpause : pause tick longest asked = asked.nanoseconds :=
      pause_eq ticks.positive (hzero ▸ Nat.dvd_zero _) (hzero ▸ Nat.zero_le _)
    rw [after_of_zero hzero, hpause, hzero, Nat.mul_zero]
  induction n with
  | zero => rw [after, Nat.zero_mul]
  | succ n ih =>
    have whole : tick.nanoseconds ∣ n * pause tick longest asked :=
      Nat.dvd_mul_left_of_dvd (dvd_roundUp _ _) n
    rw [after_succ hzero, ih, ticks.wake_eq whole, Nat.succ_mul]

end Ticks

end Timer

section Runs

variable (requests : List Json) (endpoint : String) (options : FetchOptions)
  (transport : Transport)

/-! ## 3. Batches and exchanges -/

theorem size_positive (n : Nat) : 0 < max n 1 := Nat.le_max_right _ _

theorem length_batches (size : Nat) :
    (batches size requests).length = (requests.length + max size 1 - 1) / max size 1 :=
  length_chunks (size_positive _) (Nat.le_refl _)

/-- The batch in which a request is sent, and its place there. -/
theorem exists_batch {requests : List Json} (size : Nat) {i : Nat} (h : i < requests.length) :
    ∃ batch, (batches size requests)[i / max size 1]? = some batch ∧
      batch[i % max size 1]? = requests[i]? := by
  have hflatten : (batches size requests).flatMap id = requests := by
    rw [List.flatMap_id]
    exact flatten_chunks (size_positive _) (Nat.le_refl _)
  have hfind : ((batches size requests).flatMap id)[i]? = _ :=
    getElem?_flatMap (size_positive size)
      (fun _ hmem => (bounds_of_mem_chunks (size_positive size) hmem).2)
      (fun _ hmem => full_of_mem_dropLast hmem) i
  rw [hflatten, List.getElem?_eq_getElem h, eq_comm, Option.bind_eq_some_iff] at hfind
  rw [List.getElem?_eq_getElem h]
  exact hfind

theorem map_requests_exchanges :
    (exchanges requests endpoint options transport).map (·.requests)
      = batches options.batchSize requests := by
  rw [exchanges, List.map_map]
  exact List.zipIdx_map_fst 0 _

theorem length_exchanges :
    (exchanges requests endpoint options transport).length
      = (batches options.batchSize requests).length := by
  rw [← map_requests_exchanges requests endpoint options transport, List.length_map]

/-- All requests are sent, in their order. -/
theorem flatMap_requests_exchanges :
    (exchanges requests endpoint options transport).flatMap (·.requests) = requests := by
  rw [List.flatMap_def, map_requests_exchanges]
  exact flatten_chunks (size_positive _) (Nat.le_refl _)

/-- Exchange `k` is batch `k`, posted after `k` pauses, and what came back. -/
theorem getElem?_exchanges (k : Nat) :
    (exchanges requests endpoint options transport)[k]?
      = (batches options.batchSize requests)[k]?.map fun batch =>
          let post : Post := ⟨endpoint, .list batch, transport.timer.after options.delay k⟩
          ⟨k, batch, post, transport k post⟩ := by
  rw [exchanges, List.getElem?_map, List.getElem?_zipIdx, Option.map_map, Nat.zero_add]
  rfl

variable {requests endpoint options transport}

theorem bounds_of_mem_exchanges {exchange : Exchange}
    (h : exchange ∈ exchanges requests endpoint options transport) :
    0 < exchange.requests.length ∧ exchange.requests.length ≤ max options.batchSize 1 := by
  have hbatch := List.mem_map_of_mem (f := (·.requests)) h
  rw [map_requests_exchanges] at hbatch
  exact bounds_of_mem_chunks (size_positive _) hbatch

theorem full_of_mem_dropLast_exchanges {exchange : Exchange}
    (h : exchange ∈ (exchanges requests endpoint options transport).dropLast) :
    exchange.requests.length = max options.batchSize 1 := by
  have hbatch := List.mem_map_of_mem (f := (·.requests)) h
  rw [List.map_dropLast, map_requests_exchanges] at hbatch
  exact full_of_mem_dropLast hbatch

/-! ## 4. Sending batch after batch -/

/-- Over a wire, one thing is done after the other. -/
theorem bind_apply {α β : Type} (first : StateM Wire α) (rest : α → StateM Wire β) (wire : Wire) :
    (first >>= rest) wire = rest (first wire).1 (first wire).2 := rfl

variable (requests endpoint options transport)

/-- The clock after the turn of batch `k`: there are as many pauses as turns, less the last one. -/
theorem clock_turn (timer : Timer) (asked : Duration) {k count : Nat} (h : k < count) :
    (if asked.nanoseconds ≠ 0 ∧ k + 1 < count then timer.wake (timer.after asked k) asked
      else timer.after asked k) = timer.after asked (min (k + 1) (count - 1)) := by
  by_cases hzero : asked.nanoseconds = 0
  · rw [if_neg fun hboth => hboth.1 hzero, Timer.after_of_zero hzero, Timer.after_of_zero hzero]
  · by_cases hlast : k + 1 < count
    · rw [if_pos ⟨hzero, hlast⟩, Nat.min_eq_left (by omega), Timer.after_succ hzero]
    · rw [if_neg fun hboth => hlast hboth.2, show min (k + 1) (count - 1) = k by omega]

/-- The wire after `k` turns: the last turn does not pause. -/
def Wire.after (k : Nat) : Wire :=
  let run := Rpc.exchanges requests endpoint options transport
  ⟨transport.timer.after options.delay (min k (run.length - 1)), run.take k⟩

/-- **What one turn does**: it makes the next exchange, hands out its accounts and pauses if another
    one follows. -/
theorem Wire.turn_after {k : Nat} {exchange : Exchange}
    (h : (Rpc.exchanges requests endpoint options transport)[k]? = some exchange) :
    Wire.turn endpoint options transport (Rpc.exchanges requests endpoint options transport).length
        (exchange.requests, k) (.after requests endpoint options transport k)
      = (exchange.accounts, .after requests endpoint options transport (k + 1)) := by
  have hk := (List.getElem?_eq_some_iff.mp h).1
  have hbefore : min k ((Rpc.exchanges requests endpoint options transport).length - 1) = k := by
    omega
  have htake : (Rpc.exchanges requests endpoint options transport).take (k + 1)
      = (Rpc.exchanges requests endpoint options transport).take k ++ [exchange] := by
    rw [List.take_add_one, h]
    rfl
  have hclock := clock_turn transport.timer options.delay hk
  rw [getElem?_exchanges, Option.map_eq_some_iff] at h
  obtain ⟨batch, _, rfl⟩ := h
  unfold Wire.after Wire.turn
  simp only [hbefore, htake, ← hclock]
  split
  · rfl
  · rfl

/-- The turns from batch `k` on, by induction on the exchanges that are left. -/
theorem Wire.mapM_turn_after :
    ∀ {rest : List Exchange} {k : Nat},
      (Rpc.exchanges requests endpoint options transport).drop k = rest →
      ((rest.map (·.requests)).zipIdx k).mapM (Wire.turn endpoint options transport
          (Rpc.exchanges requests endpoint options transport).length)
          (.after requests endpoint options transport k)
        = (rest.map Exchange.accounts, .after requests endpoint options transport (k + rest.length))
  | [], _, _ => rfl
  | exchange :: rest, k, h => by
      have hexchange : (Rpc.exchanges requests endpoint options transport)[k]? = some exchange := by
        rw [← Nat.add_zero k, ← List.getElem?_drop, h]
        rfl
      have hrest : (Rpc.exchanges requests endpoint options transport).drop (k + 1) = rest := by
        rw [← List.drop_drop, h]
        rfl
      have hturn := turn_after requests endpoint options transport hexchange
      have hmore := mapM_turn_after hrest
      rw [List.map_cons, List.zipIdx_cons, List.mapM_cons, bind_apply, hturn, bind_apply, hmore,
        List.map_cons, List.length_cons, Nat.add_right_comm, Nat.add_assoc]
      rfl

/-- **What is sent is what the exchanges say**: these are made at their times, the accounts are
    gathered from them, and the run ends when it was said to. -/
theorem send_eq :
    send requests endpoint options transport .fresh
      = (execute requests endpoint options transport,
          ⟨elapsed requests options transport.timer,
            exchanges requests endpoint options transport⟩) := by
  have hsent := Wire.mapM_turn_after requests endpoint options transport
    (List.drop_zero (l := exchanges requests endpoint options transport))
  have hstart : Wire.after requests endpoint options transport 0 = .fresh := by
    simp [Wire.after, Wire.fresh, Timer.after]
  have hend : Wire.after requests endpoint options transport
        (0 + (exchanges requests endpoint options transport).length)
      = ⟨elapsed requests options transport.timer,
          exchanges requests endpoint options transport⟩ := by
    rw [Wire.after, Nat.zero_add, List.take_length, Nat.min_eq_right (Nat.sub_le _ _), elapsed,
      length_exchanges]
  rw [hstart, hend, map_requests_exchanges, length_exchanges] at hsent
  unfold send
  rw [bind_apply, hsent, execute, List.flatMap_def]
  rfl

/-! ## 5. Which answer an account comes from -/

/-- The item at a position of a reply that is a list. -/
def Reply.item? (reply : Reply) (position : Nat) : Option Json :=
  match reply with
  | .ok (.list items) => items[position]?
  | _ => none

theorem accountsAt_eq (reply : Reply) (position : Nat) :
    reply.accountsAt position = ((reply.item? position).map accounts).getD [] := by
  cases reply with
  | error e => rfl
  | ok content =>
    cases content with
    | list items =>
      simp only [Reply.accountsAt, Reply.item?]
      cases items[position]? <;> rfl
    | _ => rfl

theorem length_accounts (exchange : Exchange) :
    exchange.accounts.length = exchange.requests.length := by
  rw [Exchange.accounts, List.length_map, List.length_range]

theorem getElem?_accounts {exchange : Exchange} {position : Nat}
    (h : position < exchange.requests.length) :
    exchange.accounts[position]?
      = some (((exchange.reply.item? position).map accounts).getD []) := by
  rw [Exchange.accounts, List.getElem?_map, List.getElem?_range h, Option.map_some, accountsAt_eq]

theorem length_execute :
    (execute requests endpoint options transport).length = requests.length := by
  have hlength : ∀ run : List Exchange,
      (run.flatMap Exchange.accounts).length = (run.flatMap (·.requests)).length := by
    intro run
    simp only [List.length_flatMap, length_accounts]
  rw [execute, hlength, flatMap_requests_exchanges]

/-- The accounts of a request are those in its item of the answer to its batch. -/
theorem getElem?_execute {i : Nat} {batch : List Json}
    (hbatch : (batches options.batchSize requests)[i / max options.batchSize 1]? = some batch)
    (h : i % max options.batchSize 1 < batch.length) :
    let k := i / max options.batchSize 1
    let post : Post := ⟨endpoint, .list batch, transport.timer.after options.delay k⟩
    (execute requests endpoint options transport)[i]?
      = some ((((transport k post).item? (i % max options.batchSize 1)).map accounts).getD []) := by
  intro k post
  have hfind : (execute requests endpoint options transport)[i]? = _ :=
    getElem?_flatMap (size_positive options.batchSize)
      (fun exchange hmem => length_accounts exchange ▸ (bounds_of_mem_exchanges hmem).2)
      (fun exchange hmem => length_accounts exchange ▸ full_of_mem_dropLast_exchanges hmem) i
  rw [hfind, getElem?_exchanges, hbatch]
  exact getElem?_accounts h

/-- A transport that answers a batch with the list of the answers to its requests. -/
def Transport.Answers (transport : Transport) (answer : Json → Json) : Prop :=
  ∀ index post batch, post.body = .list batch →
    transport index post = .ok (.list (batch.map answer))

variable {requests endpoint options transport} in
theorem accounts_of_answers {answer : Json → Json} (answers : transport.Answers answer)
    {exchange : Exchange} (h : exchange ∈ exchanges requests endpoint options transport) :
    exchange.accounts = exchange.requests.map fun request => accounts (answer request) := by
  obtain ⟨k, hk⟩ := List.mem_iff_getElem?.mp h
  rw [getElem?_exchanges, Option.map_eq_some_iff] at hk
  obtain ⟨batch, _, rfl⟩ := hk
  have hreply := answers k ⟨endpoint, .list batch, transport.timer.after options.delay k⟩ batch rfl
  refine List.ext_getElem? fun position => ?_
  rcases Nat.lt_or_ge position batch.length with hinside | hbeyond
  · rw [getElem?_accounts hinside]
    simp [hreply, Reply.item?, hinside]
  · rw [List.getElem?_eq_none (by rw [length_accounts]; exact hbeyond),
      List.getElem?_eq_none (by rw [List.length_map]; exact hbeyond)]

variable {transport} in
/-- Where every request has its own answer it does not matter how requests are batched. -/
theorem execute_of_answers {answer : Json → Json} (answers : transport.Answers answer) :
    execute requests endpoint options transport
      = requests.map fun request => accounts (answer request) := by
  have hrun : execute requests endpoint options transport
      = (exchanges requests endpoint options transport).flatMap
          fun exchange => exchange.requests.map fun request => accounts (answer request) := by
    rw [execute, List.flatMap_def, List.flatMap_def,
      List.map_congr_left fun _ h => accounts_of_answers answers h]
  rw [hrun, ← List.map_flatMap, flatMap_requests_exchanges]

/-- **Requests, answers and pauses are in step**, whatever the requests, the size of a batch, the
    delay and the transport. What is sent are the exchanges, and they send every request once and in
    order, in full batches of which only the last may be shorter. There is one list of accounts for
    each request: the one at `i` is read from item `i % size` of the answer to batch `i / size`, it
    is empty if there is no such item, and no other part of any answer has to do with it. If the
    timer ticks, batch `k` is posted after `k` pauses of the same length, and the run ends after as
    many as there are batches but one; a delay that is a whole number of ticks, and not longer than
    a sleep can be, is the length of a pause. -/
theorem execute_in_step :
    let size := max options.batchSize 1
    let run := exchanges requests endpoint options transport
    let results := execute requests endpoint options transport
    let stop := elapsed requests options transport.timer
    send requests endpoint options transport .fresh = (results, ⟨stop, run⟩) ∧
      run.length = (requests.length + size - 1) / size ∧
      run.flatMap (·.requests) = requests ∧
      (∀ exchange ∈ run, 1 ≤ exchange.requests.length ∧ exchange.requests.length ≤ size) ∧
      (∀ exchange ∈ run.dropLast, exchange.requests.length = size) ∧
      (∀ k exchange, run[k]? = some exchange →
        exchange.post.endpoint = endpoint ∧ exchange.post.body = .list exchange.requests ∧
          exchange.reply = transport k exchange.post) ∧
      results.length = requests.length ∧
      (∀ i, i < requests.length → ∃ exchange, run[i / size]? = some exchange ∧
        exchange.requests[i % size]? = requests[i]? ∧
        results[i]? = some (((exchange.reply.item? (i % size)).map accounts).getD []) ∧
        ∀ reply : Nat → Post → Reply,
          (reply (i / size) exchange.post).item? (i % size) = exchange.reply.item? (i % size) →
          (execute requests endpoint options { transport with reply })[i]? = results[i]?) ∧
      ∀ tick longest : Duration, transport.timer.Ticks tick longest →
        let pause := Timer.roundUp tick.nanoseconds
          (min options.delay.nanoseconds longest.nanoseconds)
        (∀ k exchange, run[k]? = some exchange → exchange.post.time = k * pause) ∧
          stop = (max run.length 1 - 1) * pause ∧
          (tick.nanoseconds ∣ options.delay.nanoseconds →
            options.delay.nanoseconds ≤ longest.nanoseconds →
            pause = options.delay.nanoseconds) := by
  intro size run results stop
  refine ⟨send_eq requests endpoint options transport,
    (length_exchanges requests endpoint options transport).trans (length_batches _ _),
    flatMap_requests_exchanges requests endpoint options transport,
    fun _ => bounds_of_mem_exchanges, fun _ => full_of_mem_dropLast_exchanges, ?_,
    length_execute requests endpoint options transport, ?_, ?_⟩
  · intro k exchange h
    rw [getElem?_exchanges, Option.map_eq_some_iff] at h
    obtain ⟨batch, _, rfl⟩ := h
    exact ⟨rfl, rfl, rfl⟩
  · intro i hi
    obtain ⟨batch, hbatch, hplace⟩ := exists_batch options.batchSize hi
    have hinside : i % size < batch.length := by
      rw [List.getElem?_eq_getElem hi] at hplace
      exact (List.getElem?_eq_some_iff.mp hplace).1
    have hresult := fun world =>
      getElem?_execute requests endpoint options world hbatch hinside
    let post : Post := ⟨endpoint, .list batch, transport.timer.after options.delay (i / size)⟩
    refine ⟨⟨i / size, batch, post, transport (i / size) post⟩, ?_, hplace, hresult transport,
      fun reply hsame => ?_⟩
    · rw [getElem?_exchanges, hbatch]
      rfl
    · refine (hresult { transport with reply }).trans (.trans ?_ (hresult transport).symm)
      exact congrArg (fun item : Option Json => some ((item.map accounts).getD [])) hsame
  · intro tick longest ticks pause
    refine ⟨fun k exchange h => ?_, ?_, Timer.pause_eq ticks.positive⟩
    · rw [getElem?_exchanges, Option.map_eq_some_iff] at h
      obtain ⟨batch, _, rfl⟩ := h
      exact ticks.after_eq options.delay k
    · show transport.timer.after _ _ = _
      rw [ticks.after_eq, ← length_exchanges requests endpoint options transport,
        show max run.length 1 - 1 = run.length - 1 by omega]
      rfl

end Runs

/-- Batches of two, a quarter of a second apart. -/
def inPairs : FetchOptions :=
  { FetchOptions.standard with batchSize := 2, delay := .ofMilliseconds 250 }

/-- An answer that is too short for a batch of two, and then none. -/
def shortThenFailing : Transport :=
  .ofReplies [.ok (.list [.null]), .error (.rejected "503")]

/-- Of three requests the second has no item in the answer, and the third is in the batch that
    fails, after one pause: both are left without accounts. -/
theorem execute_three :
    shortThenFailing.timer.Ticks (.ofMilliseconds 1) (.ofMilliseconds 946080000000) ∧
      ∃ exchange, (exchanges [.nat 0, .nat 1, .nat 2] "e" inPairs shortThenFailing)[1]?
          = some exchange ∧
        exchange.post.time = 250000000 ∧
        (execute [.nat 0, .nat 1, .nat 2] "e" inPairs shortThenFailing)[1]? = some [] ∧
        (execute [.nat 0, .nat 1, .nat 2] "e" inPairs shortThenFailing)[2]? = some [] := by
  have ticks : shortThenFailing.timer.Ticks (.ofMilliseconds 1) (.ofMilliseconds 946080000000) :=
    Timer.ticks_ticking (by decide) _
  obtain ⟨_, _, _, _, _, _, _, hresults, htimes⟩ :=
    execute_in_step [.nat 0, .nat 1, .nat 2] "e" inPairs shortThenFailing
  obtain ⟨first, hfirst, _, hshort, _⟩ := hresults 1 (by decide)
  obtain ⟨second, hsecond, _, hfailed, _⟩ := hresults 2 (by decide)
  obtain ⟨hpost, _, hpause⟩ := htimes _ _ ticks
  have htime := (hpost 1 second hsecond).trans
    (congrArg (1 * ·) (hpause (by decide) (by decide)))
  cases hfirst
  cases hsecond
  exact ⟨ticks, _, rfl, htime, hshort, hfailed⟩

/-- A delay is not always what lies between two posts: half a millisecond is rounded up to the next
    tick, and of more than thirty years the rest is cut off. -/
theorem post_before_delay :
    let second (delay : Duration) : Option Nat :=
      (exchanges [.ofPairs [("id", .nat 0)], .ofPairs [("id", .nat 1)]] "e"
        { FetchOptions.standard with batchSize := 1, delay } (.ofReplies []))[1]?.map (·.post.time)
    second (.ofMilliseconds 946080000001)
        = some (.ofMilliseconds 946080000000 : Duration).nanoseconds ∧
      second (.ofMilliseconds 946080000001)
        ≠ some (1 * (.ofMilliseconds 946080000001 : Duration).nanoseconds) ∧
      second ⟨500000⟩ = some 1000000 ∧ second ⟨500000⟩ ≠ some (1 * 500000) :=
  ⟨rfl, by decide, rfl, by decide⟩

end LedgerScan.Rpc
