import LedgerScan.Proofs.Rpc.Batches
import LedgerScan.Proofs.Scan.Fetch

/-!
# A scan is its leaves

A run sends the requests of all leaves together, and whatever batches they fall into, each leaf
gets back what belongs to it. Where the transport has an answer of its own to every request, a scan
therefore brings what its leaves bring one by one:

* `Fetch.records_of_answers`: the records of a run are those of its plans, each from its own answer;
* `Scan.planLeaf_renumber`: a leaf is planned without regard to the others, but for its number;
* `Scan.fetchWith_leaves`: fetching is the concatenation of fetching the leaves, and batches,
  pauses and logging change none of the records.
-/

namespace LedgerScan

open Fallible

/-! ## 1. Records from answers -/

/-- The records of a plan: some of the accounts in the answer to its request, in their order. -/
def LeafPlan.recordsFrom (plan : LeafPlan) (schema : Schema) (options : FetchOptions)
    (answer : Json → Json) : List Record :=
  (Rpc.accounts (answer plan.request)).filterMap (plan.rebuild? schema options)

/-- Each answer becomes the records of the plan that it belongs to. -/
theorem Fetch.records_eq (run : Fetch) :
    run.records = (run.plans.zip (run.exchanges.flatMap Rpc.Exchange.accounts)).flatMap
      fun entry => entry.2.filterMap (entry.1.rebuild? run.scan.schema run.options) := by
  unfold records returned
  simp only [List.filterMap_flatMap, List.filterMap_map]
  rfl

theorem Fetch.records_of_answers {run : Fetch} {answer : Json → Json}
    (answers : run.transport.Answers answer) :
    run.records
      = run.plans.flatMap fun plan => plan.recordsFrom run.scan.schema run.options answer := by
  have haccounts : run.exchanges.flatMap Rpc.Exchange.accounts
      = run.plans.map fun plan => Rpc.accounts (answer plan.request) := by
    have hexecute := Rpc.execute_of_answers run.requests run.endpoint run.options answers
    rw [Fetch.requests, List.map_map] at hexecute
    exact hexecute
  rw [Fetch.records_eq, haccounts, ← List.map_prod_left_eq_zip, List.flatMap_map]
  rfl

/-! ## 2. Plans of single leaves -/

section Leaves

variable {scan : Scan} {layout : RecordLayout} {commitment : Commitment} {connection : Connection}
  {options : FetchOptions} {transport : Rpc.Transport}

/-- The scan for one leaf alone. -/
def Scan.only (scan : Scan) (leaf : Leaf) : Scan := { scan with leaves := [leaf] }

/-- A leaf is planned in the same way under every number. -/
theorem Scan.planLeaf_renumber {leaf : Leaf} {number : Nat} {plan : LeafPlan}
    (h : scan.planLeaf layout commitment leaf number = .ok plan) (other : Nat) :
    scan.planLeaf layout commitment leaf other = .ok { plan with node := other } := by
  obtain ⟨named, pushdown, hpushdown, rfl⟩ := planLeaf_eq_ok.mp h
  exact planLeaf_eq_ok.mpr ⟨named, pushdown, hpushdown, rfl⟩

theorem Scan.plan_of_layout (laid : scan.schema.layoutOf scan.record = .ok layout) :
    scan.plan commitment = scan.planLeaves layout commitment scan.leaves 1 := by
  unfold Scan.plan
  cases scan.leaves with
  | nil => rfl
  | cons => rw [laid]; rfl

theorem Scan.fetchWith_of_plan {plans : List LeafPlan}
    (planned : scan.plan connection.resolve.1 = .ok plans) (options : FetchOptions)
    (transport : Rpc.Transport) :
    scan.fetchWith connection options transport
      = .ok ⟨scan, options, plans, connection.resolve.2, transport⟩ := by
  show (scan.plan connection.resolve.1).map _ = _
  rw [planned]
  rfl

/-- Alone, a leaf that can be planned is fetched by its plan. -/
theorem Scan.fetchWith_only (laid : scan.schema.layoutOf scan.record = .ok layout) {leaf : Leaf}
    {number : Nat} {plan : LeafPlan}
    (h : scan.planLeaf layout connection.resolve.1 leaf number = .ok plan) :
    (scan.only leaf).fetchWith connection options transport
      = .ok ⟨scan.only leaf, options, [{ plan with node := 1 }], connection.resolve.2,
          transport⟩ := by
  have hlaid : (scan.only leaf).schema.layoutOf (scan.only leaf).record = .ok layout := laid
  have hplans : (scan.only leaf).plan connection.resolve.1 = .ok [{ plan with node := 1 }] := by
    rw [plan_of_layout hlaid]
    exact except_bind_eq_ok.mpr ⟨_, planLeaf_renumber h 1, rfl⟩
  exact fetchWith_of_plan hplans options transport

variable {answer : Json → Json}

/-- Fetched one by one, leaves that can be planned together bring what their plans bring, by
    induction on the leaves. -/
theorem Scan.exists_runs (laid : scan.schema.layoutOf scan.record = .ok layout)
    (answers : transport.Answers answer) :
    ∀ {leaves : List Leaf} {number : Nat} {plans : List LeafPlan},
      scan.planLeaves layout connection.resolve.1 leaves number = .ok plans →
      ∃ runs,
        leaves.mapM (fun leaf => (scan.only leaf).fetchWith connection options transport)
          = .ok runs ∧
        runs.flatMap Fetch.records
          = plans.flatMap (·.recordsFrom scan.schema options answer) ∧
        ∀ run ∈ runs, ∃ plan, run.plans = [plan] ∧
          run.records = plan.recordsFrom scan.schema options answer
  | [], _, _, h => by
      cases h
      exact ⟨[], rfl, rfl, fun run hrun => by cases hrun⟩
  | leaf :: leaves, number, _, h => by
      obtain ⟨plan, hplan, h⟩ := except_bind_eq_ok.mp h
      obtain ⟨plans, hplans, h⟩ := except_bind_eq_ok.mp h
      cases h
      obtain ⟨runs, hruns, hrecords, heach⟩ := exists_runs laid answers hplans
      let run : Fetch := ⟨scan.only leaf, options, [{ plan with node := 1 }],
        connection.resolve.2, transport⟩
      have hfirst : (scan.only leaf).fetchWith connection options transport = .ok run :=
        fetchWith_only laid hplan
      have hrun : run.records = plan.recordsFrom scan.schema options answer := by
        rw [Fetch.records_of_answers answers]
        exact List.flatMap_singleton _ _
      refine ⟨run :: runs, ?_, ?_, ?_⟩
      · rw [List.mapM_cons, hfirst, hruns]
        rfl
      · rw [List.flatMap_cons, List.flatMap_cons, hrun, hrecords]
      · rw [List.forall_mem_cons]
        exact ⟨⟨_, rfl, hrun⟩, heach⟩

end Leaves

/-! ## 3. Runs -/

/-- **Fetching is the concatenation of fetching the leaves.** Let a scan be planned, and let the
    transport have an answer to every request, whatever batch it comes in. Then each leaf alone can
    be fetched as well, and the records of the scan are theirs, in the order of the leaves. Those of
    one leaf are some of the accounts in the answer to its request, one for each at most and in
    their order. How requests are batched, how long the pauses are and what is logged does not
    matter. -/
theorem Scan.fetchWith_leaves (scan : Scan) (connection : Connection) (options : FetchOptions)
    {transport : Rpc.Transport} {answer : Json → Json} (answers : transport.Answers answer)
    {plans : List LeafPlan} (planned : scan.plan connection.resolve.1 = .ok plans) :
    ∃ run runs,
      scan.fetchWith connection options transport = .ok run ∧
      scan.leaves.mapM (fun leaf => (scan.only leaf).fetchWith connection options transport)
        = .ok runs ∧
      run.records = runs.flatMap Fetch.records ∧
      (∀ single ∈ runs, ∃ plan, single.plans = [plan] ∧
        single.records = (Rpc.accounts (answer plan.request)).filterMap
          (plan.rebuild? scan.schema options)) ∧
      ∀ debug batchSize delay, ∃ other,
        scan.fetchWith connection { options with debug, batchSize, delay } transport
          = .ok other ∧
        other.records = run.records := by
  have hfetch := fetchWith_of_plan planned
  have hruns : ∃ runs,
      scan.leaves.mapM (fun leaf => (scan.only leaf).fetchWith connection options transport)
        = .ok runs ∧
      runs.flatMap Fetch.records = plans.flatMap (·.recordsFrom scan.schema options answer) ∧
      ∀ single ∈ runs, ∃ plan, single.plans = [plan] ∧
        single.records = plan.recordsFrom scan.schema options answer := by
    -- without leaves there need not be a layout
    cases hlaid : scan.schema.layoutOf scan.record with
    | ok layout => exact exists_runs hlaid answers (plan_of_layout hlaid ▸ planned)
    | error e =>
      unfold Scan.plan at planned
      rw [hlaid] at planned
      cases hleaves : scan.leaves with
      | nil =>
        rw [hleaves] at planned
        cases planned
        exact ⟨[], rfl, rfl, fun single hsingle => by cases hsingle⟩
      | cons =>
        rw [hleaves] at planned
        cases planned
  obtain ⟨runs, hall, hrecords, heach⟩ := hruns
  have hrun : ∀ options : FetchOptions,
      Fetch.records ⟨scan, options, plans, connection.resolve.2, transport⟩
        = plans.flatMap (·.recordsFrom scan.schema options answer) :=
    fun _ => Fetch.records_of_answers answers
  refine ⟨_, runs, hfetch options transport, hall, (hrun options).trans hrecords.symm, heach, ?_⟩
  intro debug batchSize delay
  exact ⟨_, hfetch _ transport, (hrun _).trans (hrun options).symm⟩

/-- An honest node has an answer to every request. -/
theorem Ledger.answers (ledger : Ledger) : ledger.transport.Answers ledger.answer := by
  intro index post batch h
  show ledger.reply post = _
  unfold Ledger.reply
  rw [h]

/-- The cheap asks of one book and all orders of another. -/
def Scan.twoBooks : Scan :=
  { Scan.ofRecord Schema.orders "Order" with leaves := [Leaf.cheapAsks, Leaf.ofAddress "other"] }

/-- A bid and an ask, the same in every book. -/
def Ledger.bidAndAsk : Ledger := fun _ => [⟨"bid", [7, 0, 5, 0, 3]⟩, ⟨"ask", [7, 1, 5, 0, 3]⟩]

theorem fetch_twoBooks :
    ∃ run runs,
      Scan.twoBooks.fetchWith .standard .standard Ledger.bidAndAsk.transport = .ok run ∧
      Scan.twoBooks.leaves.mapM (fun leaf =>
        (Scan.twoBooks.only leaf).fetchWith .standard .standard Ledger.bidAndAsk.transport)
        = .ok runs ∧
      run.records = runs.flatMap Fetch.records ∧
      run.records.map Record.pubkey? = [some "ask", some "bid", some "ask"] := by
  obtain ⟨run, runs, hrun, hruns, hrecords, _⟩ := Scan.twoBooks.fetchWith_leaves
    .standard .standard (Ledger.answers Ledger.bidAndAsk) rfl
  refine ⟨run, runs, hrun, hruns, hrecords, ?_⟩
  cases hrun
  decide +kernel

end LedgerScan
