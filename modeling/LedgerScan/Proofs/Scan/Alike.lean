import LedgerScan.Proofs.Scan.Leaves

/-!
# Plans that come to the same

Of a plan nothing is seen outside but its request and the records that it makes of accounts. Plans
in which these are the same are alike, and whatever is built from alike plans is the same: the
requests of a run and so its posts, what comes back, and the records.

* `Scan.planLeaves_alike`: leaves that are planned alike one by one are planned alike together;
* `Fetch.posts_and_records_alike`: runs of alike plans;
* `Scan.fetchWith_alike`: scans whose leaves are planned alike;
* `Scan.fetchWith_replace`: scans that differ in one leaf.
-/

namespace LedgerScan

open Fallible

/-! ## 1. Plans -/

/-- **Alike plans** send the same request and make the same record of every account. -/
structure LeafPlan.Alike (p q : LeafPlan) : Prop where
  request : p.request = q.request
  rebuilds : ∀ (schema : Schema) (options : FetchOptions) (account : RawAccount),
    p.rebuild? schema options account = q.rebuild? schema options account

theorem LeafPlan.Alike.refl (plan : LeafPlan) : plan.Alike plan :=
  ⟨rfl, fun _ _ _ => rfl⟩

/-- A record is made of the fields that are shown, if all predicates accept them in some order. -/
theorem LeafPlan.rebuild?_congr {p q : LeafPlan} {schema : Schema}
    (fields : p.fields schema = q.fields schema)
    (predicates : p.pushdown.predicates.Perm q.pushdown.predicates)
    (metadata : p.metadata = q.metadata) (requestId : p.requestId = q.requestId)
    (options : FetchOptions) (account : RawAccount) :
    p.rebuild? schema options account = q.rebuild? schema options account := by
  have haccepts : accepts p.pushdown.predicates = accepts q.pushdown.predicates := by
    funext shown
    exact predicates.all_eq
  unfold rebuild? shown? metadataFor
  rw [fields, haccepts, metadata, requestId]

section Scans

variable {scan other : Scan} {layout : RecordLayout} {commitment : Commitment}
  {connection : Connection} {options : FetchOptions} {transport : Rpc.Transport}

/-- A leaf of one scan is planned like a leaf of another, under whatever number. -/
def Scan.PlansAlike (scan other : Scan) (layout : RecordLayout) (commitment : Commitment)
    (leaf leaf' : Leaf) : Prop :=
  ∀ number, SucceedAlike LeafPlan.Alike (scan.planLeaf layout commitment leaf number)
    (other.planLeaf layout commitment leaf' number)

/-- **Leaves that are planned alike are planned alike together**, by induction along both lists. -/
theorem Scan.planLeaves_alike {leaves leaves' : List Leaf}
    (alike : List.Forall₂ (scan.PlansAlike other layout commitment) leaves leaves')
    (number : Nat) :
    SucceedAlike (List.Forall₂ LeafPlan.Alike) (scan.planLeaves layout commitment leaves number)
      (other.planLeaves layout commitment leaves' number) := by
  induction alike generalizing number with
  | nil => exact .ok .nil
  | cons first _ ih =>
    refine (first number).bind fun p q hplans => ?_
    exact (ih (number + 1)).bind fun ps qs hrest => .ok (.cons hplans hrest)

theorem Scan.plan_alike (schema : scan.schema = other.schema) (record : scan.record = other.record)
    (count : scan.leaves.length = other.leaves.length)
    (alike : ∀ layout, scan.schema.layoutOf scan.record = .ok layout →
      List.Forall₂ (scan.PlansAlike other layout commitment) scan.leaves other.leaves) :
    SucceedAlike (List.Forall₂ LeafPlan.Alike) (scan.plan commitment) (other.plan commitment) := by
  have hempty : scan.leaves.isEmpty = other.leaves.isEmpty := by
    rw [Bool.eq_iff_iff, List.isEmpty_iff_length_eq_zero, List.isEmpty_iff_length_eq_zero, count]
  unfold Scan.plan
  rw [hempty, ← schema, ← record]
  split
  · exact .ok .nil
  · cases hlaid : scan.schema.layoutOf scan.record with
    | error e => exact .error _ _
    | ok layout => exact planLeaves_alike (alike layout hlaid) 1

/-! ## 2. Runs -/

theorem map_request_alike {plans others : List LeafPlan}
    (alike : List.Forall₂ LeafPlan.Alike plans others) :
    plans.map (·.request) = others.map (·.request) := by
  induction alike with
  | nil => rfl
  | cons first _ ih => rw [List.map_cons, List.map_cons, first.request, ih]

/-- The same answers become the same records. -/
theorem filterMap_rebuild?_alike {plans others : List LeafPlan}
    (alike : List.Forall₂ LeafPlan.Alike plans others) (schema : Schema) (options : FetchOptions)
    (answers : List (List RawAccount)) :
    ((plans.zip answers).flatMap fun entry => entry.2.filterMap (entry.1.rebuild? schema options))
      = (others.zip answers).flatMap fun entry =>
          entry.2.filterMap (entry.1.rebuild? schema options) := by
  induction alike generalizing answers with
  | nil => rfl
  | cons first _ ih =>
    -- there may be fewer answers than plans
    cases answers with
    | nil => rfl
    | cons accounts answers =>
      have hfirst := funext (first.rebuilds schema options)
      rw [List.zip_cons_cons, List.zip_cons_cons, List.flatMap_cons, List.flatMap_cons, ih answers,
        hfirst]

/-- **Runs of alike plans** post the same and bring the same records. -/
theorem Fetch.posts_and_records_alike {run run' : Fetch}
    (schema : run.scan.schema = run'.scan.schema) (options : run.options = run'.options)
    (endpoint : run.endpoint = run'.endpoint) (transport : run.transport = run'.transport)
    (alike : List.Forall₂ LeafPlan.Alike run.plans run'.plans) :
    run.posts = run'.posts ∧ run.records = run'.records := by
  have hrequests : run.requests = run'.requests := map_request_alike alike
  have hexchanges : run.exchanges = run'.exchanges := by
    unfold exchanges
    rw [hrequests, options, endpoint, transport]
  constructor
  · rw [posts, hexchanges, posts]
  · rw [records_eq, records_eq, hexchanges, schema, options]
    exact filterMap_rebuild?_alike alike _ _ _

/-- **Scans whose leaves are planned alike** can both be fetched or neither, and then they post the
    same and bring the same records, whatever comes back over the transport. -/
theorem Scan.fetchWith_alike (schema : scan.schema = other.schema)
    (record : scan.record = other.record) (count : scan.leaves.length = other.leaves.length)
    (alike : ∀ layout, scan.schema.layoutOf scan.record = .ok layout →
      List.Forall₂ (scan.PlansAlike other layout connection.resolve.1) scan.leaves other.leaves) :
    SucceedAlike (fun run run' => run.posts = run'.posts ∧ run.records = run'.records)
      (scan.fetchWith connection options transport)
      (other.fetchWith connection options transport) := by
  exact (plan_alike schema record count alike).map fun plans others halike =>
    Fetch.posts_and_records_alike schema rfl rfl rfl halike

/-- One leaf can be put for another that is planned alike. -/
theorem Scan.fetchWith_replace (scan : Scan) (before after : List Leaf) {leaf leaf' : Leaf}
    (alike : ∀ layout, scan.schema.layoutOf scan.record = .ok layout →
      scan.PlansAlike scan layout connection.resolve.1 leaf leaf') :
    SucceedAlike (fun run run' => run.posts = run'.posts ∧ run.records = run'.records)
      ({ scan with leaves := before ++ leaf :: after }.fetchWith connection options transport)
      ({ scan with leaves := before ++ leaf' :: after }.fetchWith connection options
        transport) := by
  refine fetchWith_alike rfl rfl (by simp) fun layout laid => ?_
  have hsame : ∀ leaf : Leaf, scan.PlansAlike scan layout connection.resolve.1 leaf leaf :=
    fun leaf number => .refl .refl _
  exact List.rel_append (List.forall₂_same.mpr fun leaf _ => hsame leaf)
    (.cons (alike layout laid) (List.forall₂_same.mpr fun leaf _ => hsame leaf))

end Scans

end LedgerScan
