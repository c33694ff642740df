import LedgerScan.Proofs.Scan.Leaves
import LedgerScan.Scan.Tree

/-!
# Leaves that are set in any order

Whatever steps a scan is put together by, the list of nodes stays a root in front of its leaves
(`ScanTree.Holds`), so every number that the root lists is that of a leaf and the leaves come in the
order in which they were added. A leaf is what its own settings make of it: those for other leaves,
in between, before or after, change nothing (`Scan.getElem?_steps`). `ScanTree.run_isolated` says so
of the nodes and of the plans.

What the settings of a leaf amount to is said without going through them: the last selection, the
last conditions and the last request stay, and what is attached is put together from left to right
(`Leaf.settled`).
-/

namespace LedgerScan

open Fallible

/-! ## 1. What settings amount to -/

namespace Leaf.Setting

/-- The selection that is set. -/
def selection? : Leaf.Setting → Option Selection
  | .select names => some (.fields names)
  | .selectNothing => some .nothing
  | _ => none

/-- The conditions that are set. -/
def conditions? : Leaf.Setting → Option Conditions
  | .filtered conditions => some conditions
  | _ => none

/-- The entries that are attached; only those of an object are. -/
def entries? : Leaf.Setting → Option (List (String × Json))
  | .metadata (.object entries) => some entries
  | _ => none

/-- The request that is set. -/
def requestId? : Leaf.Setting → Option Json
  | .requestId value => some value
  | _ => none

/-- **What one setting changes.** What it sets takes the place of what was there, entries are
    attached, and all else stays. -/
theorem apply_eq (setting : Leaf.Setting) (leaf : Leaf) :
    setting.apply leaf =
      { address := leaf.address
        selection := setting.selection?.getD leaf.selection
        conditions := setting.conditions?.getD leaf.conditions
        metadata := Entries.merge leaf.metadata (setting.entries?.getD [])
        requestId := setting.requestId?.or leaf.requestId } := by
  cases setting with
  | metadata value => cases value <;> rfl
  | _ => rfl

end Leaf.Setting

/-- The last of what settings set, if they set any. -/
def Leaf.lastSet {α : Type} (set? : Leaf.Setting → Option α) (settings : List Leaf.Setting) :
    Option α :=
  (settings.filterMap set?).getLast?

/-- **What settings make of a new leaf.** The last selection, the last conditions and the last
    request stay, and all entries are attached, the later ones in place of earlier ones. -/
def Leaf.settled (address : String) (settings : List Leaf.Setting) : Leaf where
  address
  selection := (Leaf.lastSet Leaf.Setting.selection? settings).getD .all
  conditions := (Leaf.lastSet Leaf.Setting.conditions? settings).getD .empty
  metadata := Entries.ofList (settings.filterMap Leaf.Setting.entries?).flatten
  requestId := Leaf.lastSet Leaf.Setting.requestId? settings

/-- The leaf after one setting after the other. -/
def Leaf.after (leaf : Leaf) (settings : List Leaf.Setting) : Leaf :=
  settings.foldl (fun leaf setting => setting.apply leaf) leaf

theorem Leaf.lastSet_cons {α : Type} (set? : Leaf.Setting → Option α) (setting : Leaf.Setting)
    (settings : List Leaf.Setting) :
    Leaf.lastSet set? (setting :: settings) = (Leaf.lastSet set? settings).or (set? setting) := by
  unfold Leaf.lastSet
  rw [List.filterMap_cons]
  cases set? setting with
  | none => rw [Option.or_none]
  | some value =>
    rw [List.getLast?_cons, Option.or_some]

/-- What each setting replaces is in the end what the last one set. -/
theorem Leaf.read_after {α : Type} (read : Leaf → Option α) (set? : Leaf.Setting → Option α)
    (replaces : ∀ setting leaf, read (setting.apply leaf) = (set? setting).or (read leaf)) :
    ∀ (settings : List Leaf.Setting) (leaf : Leaf),
      read (leaf.after settings) = (Leaf.lastSet set? settings).or (read leaf)
  | [], leaf => rfl
  | setting :: settings, leaf => by
      rw [Leaf.lastSet_cons, Option.or_assoc, ← replaces]
      exact read_after read set? replaces settings (setting.apply leaf)

theorem Leaf.metadata_after (settings : List Leaf.Setting) (leaf : Leaf) :
    (leaf.after settings).metadata
      = Entries.merge leaf.metadata (settings.filterMap Leaf.Setting.entries?).flatten := by
  induction settings generalizing leaf with
  | nil => rfl
  | cons setting settings ih =>
    show ((setting.apply leaf).after settings).metadata = _
    rw [ih, Leaf.Setting.apply_eq, List.filterMap_cons]
    cases setting.entries? with
    | none => rfl
    | some entries =>
      show Entries.merge (Entries.merge leaf.metadata entries) _ = Entries.merge _ (entries ++ _)
      unfold Entries.merge
      rw [List.foldl_append]

theorem Leaf.address_after (settings : List Leaf.Setting) (leaf : Leaf) :
    (leaf.after settings).address = leaf.address := by
  induction settings generalizing leaf with
  | nil => rfl
  | cons setting settings ih =>
    show ((setting.apply leaf).after settings).address = _
    rw [ih, Leaf.Setting.apply_eq]

/-- **A new leaf after its settings is what they amount to.** -/
theorem Leaf.after_ofAddress (address : String) (settings : List Leaf.Setting) :
    (Leaf.ofAddress address).after settings = Leaf.settled address settings := by
  have haddress := Leaf.address_after settings (Leaf.ofAddress address)
  have hselection := Leaf.read_after (fun leaf => some leaf.selection) Leaf.Setting.selection?
    (fun setting leaf => by rw [Leaf.Setting.apply_eq, Option.or_some]) settings
    (Leaf.ofAddress address)
  have hconditions := Leaf.read_after (fun leaf => some leaf.conditions) Leaf.Setting.conditions?
    (fun setting leaf => by rw [Leaf.Setting.apply_eq, Option.or_some]) settings
    (Leaf.ofAddress address)
  have hmetadata := Leaf.metadata_after settings (Leaf.ofAddress address)
  have hrequest := Leaf.read_after Leaf.requestId Leaf.Setting.requestId?
    (fun setting leaf => by rw [Leaf.Setting.apply_eq]) settings (Leaf.ofAddress address)
  rw [Option.or_some, Option.some.injEq] at hselection hconditions
  rw [show (Leaf.ofAddress address).requestId = none from rfl, Option.or_none] at hrequest
  generalize (Leaf.ofAddress address).after settings = leaf at *
  obtain ⟨_, _, _, _, _⟩ := leaf
  cases haddress
  cases hselection
  cases hconditions
  cases hmetadata
  cases hrequest
  rfl

/-! ## 2. A scan step by step -/

namespace ScanTree.Step

/-- The address for which a step adds a leaf. -/
def address? : Step → Option String
  | .add address => some address
  | .set _ _ => none

/-- The addresses for which steps add leaves. -/
def addresses (steps : List Step) : List String :=
  steps.filterMap address?

/-- What steps set on the leaf with a number, with so many nodes before them. A leaf that is not
    there yet cannot be reopened, and nothing is set on it. -/
def settingsOf (number : Nat) : (size : Nat) → List Step → List Leaf.Setting
  | _, [] => []
  | size, .add _ :: steps => settingsOf number (size + 1) steps
  | size, .set n setting :: steps =>
    if n = number ∧ n < size then setting :: settingsOf number size steps
    else settingsOf number size steps

end ScanTree.Step

section Scan

open ScanTree

variable {scan : Scan} {number : Nat}

/-- The scan after a step. -/
def Scan.step (scan : Scan) : Step → Scan
  | .add address => scan.add address
  | .set number setting => scan.change number setting.apply

/-- Something is set on one leaf of a scan and on no other. -/
theorem Scan.getElem?_change (more : List Leaf) (number : Nat) (f : Leaf → Leaf) (i : Nat) :
    ((scan.change number f).leaves ++ more)[i]?
      = if number = i + 1 ∧ number < scan.size then (scan.leaves ++ more)[i]?.map f
        else (scan.leaves ++ more)[i]? := by
  cases number with
  | zero => rfl
  | succ n =>
    show (scan.leaves.modify n f ++ more)[i]? = _
    have hsize : n + 1 < scan.size ↔ n < scan.leaves.length := Nat.succ_lt_succ_iff
    by_cases hi : i < scan.leaves.length
    · rw [List.getElem?_append_left (by rwa [List.length_modify]), List.getElem?_modify,
        List.getElem?_append_left hi, List.getElem?_eq_getElem hi]
      by_cases hn : n = i
      · subst hn
        rw [if_pos ⟨rfl, hsize.mpr hi⟩]
        exact congrArg some (if_pos rfl)
      · rw [if_neg fun h => hn (Nat.succ.inj h.1)]
        exact congrArg some (if_neg hn)
    · have hn : ¬ (n + 1 = i + 1 ∧ n + 1 < scan.size) := by omega
      rw [if_neg hn, List.getElem?_append_right (by rw [List.length_modify]; omega),
        List.getElem?_append_right (by omega), List.length_modify]

theorem Scan.size_change (number : Nat) (f : Leaf → Leaf) :
    (scan.change number f).size = scan.size := by
  cases number with
  | zero => rfl
  | succ n => exact congrArg (· + 1) (List.length_modify _ _ _)

/-- **A leaf is what its own settings make of it**, by induction on the steps. -/
theorem Scan.getElem?_steps (steps : List Step) (scan : Scan) (i : Nat) :
    (steps.foldl Scan.step scan).leaves[i]?
      = (scan.leaves ++ (Step.addresses steps).map Leaf.ofAddress)[i]?.map
          (Leaf.after · (Step.settingsOf (i + 1) scan.size steps)) := by
  induction steps generalizing scan with
  | nil =>
    rw [Step.addresses, List.filterMap_nil, List.map_nil, List.append_nil]
    exact Option.map_id'.symm
  | cons step steps ih =>
    rw [List.foldl_cons, ih]
    cases step with
    | add address =>
      have hsize : (scan.add address).size = scan.size + 1 := by
        show (scan.leaves ++ [_]).length + 1 = _
        rw [List.length_append]
        rfl
      show ((scan.leaves ++ [Leaf.ofAddress address]) ++ _)[i]?.map
        (Leaf.after · (Step.settingsOf (i + 1) (scan.add address).size steps)) = _
      rw [hsize, List.append_assoc]
      rfl
    | set number setting =>
      have hmore : Step.addresses (Step.set number setting :: steps) = Step.addresses steps := rfl
      show ((scan.change number setting.apply).leaves ++ _)[i]?.map
        (Leaf.after · (Step.settingsOf (i + 1) (scan.change number setting.apply).size steps)) = _
      rw [Scan.getElem?_change, Scan.size_change, hmore, Step.settingsOf]
      split
      · rw [Option.map_map]
        rfl
      · rfl

/-- Steps leave alone what is not of the leaves. -/
theorem Scan.schema_record_steps (steps : List Step) (scan : Scan) :
    (steps.foldl Scan.step scan).schema = scan.schema ∧
      (steps.foldl Scan.step scan).record = scan.record := by
  induction steps generalizing scan with
  | nil => exact ⟨rfl, rfl⟩
  | cons step steps ih =>
    obtain ⟨hschema, hrecord⟩ := ih (scan.step step)
    cases step with
    | add address => exact ⟨hschema, hrecord⟩
    | set number setting => cases number <;> exact ⟨hschema, hrecord⟩

/-- The leaves that are there in the end are those that were added, each with its own settings. -/
theorem Scan.leaves_steps (schema : Schema) (record : String) (steps : List Step) :
    (∀ i, (steps.foldl Scan.step (Scan.ofRecord schema record)).leaves[i]?
      = (Step.addresses steps)[i]?.map fun address =>
          Leaf.settled address (Step.settingsOf (i + 1) 1 steps)) ∧
    (steps.foldl Scan.step (Scan.ofRecord schema record)).leaves.length
      = (Step.addresses steps).length := by
  have hleaf : ∀ i, (steps.foldl Scan.step (Scan.ofRecord schema record)).leaves[i]?
      = (Step.addresses steps)[i]?.map fun address =>
          Leaf.settled address (Step.settingsOf (i + 1) 1 steps) := fun i => by
    rw [Scan.getElem?_steps]
    show ([] ++ (Step.addresses steps).map Leaf.ofAddress)[i]?.map _ = _
    rw [List.nil_append, List.getElem?_map, Option.map_map]
    refine congrArg (Option.map · _) (funext fun address => ?_)
    exact Leaf.after_ofAddress address _
  refine ⟨hleaf, Nat.le_antisymm ?_ ?_⟩
  · have hend := hleaf (Step.addresses steps).length
    rw [List.getElem?_eq_none (Nat.le_refl _)] at hend
    exact List.getElem?_eq_none_iff.mp hend
  · have hend := hleaf (steps.foldl Scan.step (Scan.ofRecord schema record)).leaves.length
    rw [List.getElem?_eq_none (Nat.le_refl _)] at hend
    exact List.getElem?_eq_none_iff.mp (Option.map_eq_none_iff.mp hend.symm)

end Scan

/-! ## 3. The list of nodes -/

namespace ScanTree

/-- **The nodes of a tree are a root in front of the leaves of a scan**: the root has no parent and
    lists all later numbers in their order, a leaf has the root as its parent and no children. -/
structure Holds (tree : ScanTree) (scan : Scan) : Prop where
  schema : tree.schema = scan.schema
  record : tree.record = scan.record
  config : tree.config = scan.config
  nodes : tree.nodes = ⟨none, scan.leafNumbers, none⟩ ::
    scan.leaves.map fun leaf => ⟨some 0, [], some leaf⟩

variable {tree : ScanTree} {scan : Scan}

theorem holds_ofRecord (schema : Schema) (record : String) :
    (ofRecord schema record).Holds (Scan.ofRecord schema record) :=
  ⟨rfl, rfl, rfl, rfl⟩

theorem Holds.size (h : tree.Holds scan) : tree.size = scan.size := by
  rw [ScanTree.size, h.nodes, List.length_cons, List.length_map]
  rfl

theorem Holds.isLeaf (h : tree.Holds scan) (number : Nat) :
    tree.isLeaf number = true ↔ 1 ≤ number ∧ number < scan.size := by
  unfold ScanTree.isLeaf
  rw [h.size, Bool.and_eq_true, decide_eq_true_eq, decide_eq_true_eq, Nat.one_le_iff_ne_zero]

theorem Holds.add (h : tree.Holds scan) (address : String) :
    (tree.add address).Holds (scan.add address) where
  schema := h.schema
  record := h.record
  config := h.config
  nodes := by
    have hnumbers : (scan.add address).leafNumbers = scan.leafNumbers ++ [scan.size] := by
      show List.range' 1 (scan.leaves ++ [_]).length = _
      rw [List.length_append, List.length_singleton, List.range'_concat, Nat.one_mul,
        Nat.add_comm 1]
      rfl
    have hleaves : (scan.add address).leaves = scan.leaves ++ [Leaf.ofAddress address] := rfl
    unfold ScanTree.add
    rw [hnumbers, hleaves, h.size, h.nodes, List.map_append]
    rfl

theorem Holds.set (h : tree.Holds scan) {number : Nat} (leaf : tree.isLeaf number = true)
    (setting : Leaf.Setting) :
    (tree.set number setting).Holds (scan.change number setting.apply) := by
  obtain ⟨n, rfl⟩ := Nat.exists_eq_succ_of_ne_zero (Nat.one_le_iff_ne_zero.mp
    ((h.isLeaf number).mp leaf).1)
  refine ⟨h.schema, h.record, h.config, ?_⟩
  have hnumbers : (scan.change (n + 1) setting.apply).leafNumbers = scan.leafNumbers :=
    congrArg (List.range' 1) (List.length_modify _ _ _)
  rw [hnumbers]
  unfold ScanTree.set
  rw [h.nodes]
  show _ :: List.modify (scan.leaves.map _) n _ = _ :: List.map _ (scan.leaves.modify n _)
  refine congrArg (List.cons _) (List.ext_getElem? fun i => ?_)
  rw [List.getElem?_modify, List.getElem?_map, List.getElem?_map, List.getElem?_modify]
  cases scan.leaves[i]? with
  | none => rfl
  | some leaf =>
    by_cases hi : n = i
    · simp [hi]
    · simp [hi]

/-- **Every step keeps the root in front of the leaves.** -/
theorem Holds.step (h : tree.Holds scan) (step : Step) :
    (tree.step step).Holds (scan.step step) := by
  cases step with
  | add address => exact h.add address
  | set number setting =>
    show Holds (if tree.isLeaf number then tree.set number setting else tree) _
    split
    · next leaf => exact h.set leaf setting
    · next leaf =>
      have hsame : scan.change number setting.apply = scan := by
        rw [h.isLeaf] at leaf
        cases number with
        | zero => rfl
        | succ n =>
          have hn : scan.leaves.length ≤ n := by
            unfold Scan.size at leaf
            omega
          show { scan with leaves := scan.leaves.modify n _ } = scan
          rw [List.modify_eq_self hn]
      show tree.Holds (scan.change number setting.apply)
      rw [hsame]
      exact h

theorem Holds.run (h : tree.Holds scan) (steps : List Step) :
    (tree.run steps).Holds (steps.foldl Scan.step scan) := by
  induction steps generalizing tree scan with
  | nil => exact h
  | cons step steps ih => exact ih (h.step step)

/-! ## 4. What is seen of the nodes -/

theorem Holds.node? (h : tree.Holds scan) : tree.node? = scan.node? := by
  funext number
  unfold ScanTree.node? Scan.node?
  rw [h.nodes]
  cases number with
  | zero => rfl
  | succ n =>
    rw [List.getElem?_cons_succ, List.getElem?_map, Option.map_map]
    rfl

/-- Every number that the root lists is that of a leaf. -/
theorem Holds.leaves? (h : tree.Holds scan) :
    tree.leaves? = some (scan.leafNumbers.zip scan.leaves) := by
  have hlength : scan.leafNumbers.length = scan.leaves.length := List.length_range'
  have hnumbers : tree.leafNumbers = (scan.leafNumbers.zip scan.leaves).map Prod.fst := by
    rw [List.map_fst_zip hlength.le, ScanTree.leafNumbers, h.nodes]
    rfl
  have hfound : ∀ entry ∈ scan.leafNumbers.zip scan.leaves,
      (do
        let node ← tree.nodes[entry.1]?
        return (entry.1, ← node.leaf)) = some (id entry) := by
    rintro ⟨number, leaf⟩ hmem
    obtain ⟨i, hi⟩ := List.mem_iff_getElem?.mp hmem
    obtain ⟨hnumber, hleaf⟩ := List.getElem?_zip_eq_some.mp hi
    obtain ⟨hi, _⟩ := List.getElem?_eq_some_iff.mp hleaf
    rw [Scan.leafNumbers, List.getElem?_range' hi, Nat.one_mul, Nat.add_comm] at hnumber
    cases hnumber
    rw [h.nodes, List.getElem?_cons_succ, List.getElem?_map, hleaf]
    rfl
  unfold ScanTree.leaves?
  rw [hnumbers, mapM_map_eq_some hfound, List.map_id]

theorem Holds.scanOf (h : tree.Holds scan) :
    tree.scanOf (scan.leafNumbers.zip scan.leaves) = scan := by
  have hleaves : (scan.leafNumbers.zip scan.leaves).map Prod.snd = scan.leaves :=
    List.map_snd_zip (List.length_range'.ge)
  show Scan.mk tree.schema tree.record tree.config (List.map Prod.snd _) = scan
  rw [hleaves, h.schema, h.record, h.config]

/-- The scan that is fetched is the one whose leaves the tree holds. -/
theorem Holds.scan? (h : tree.Holds scan) : tree.scan? = some scan := by
  rw [ScanTree.scan?, h.leaves?, Option.map_some, h.scanOf]

theorem planLeaves_eq_mapM (layout : RecordLayout) (commitment : Commitment) (leaves : List Leaf)
    (number : Nat) :
    scan.planLeaves layout commitment leaves number
      = ((List.range' number leaves.length).zip leaves).mapM fun leaf =>
          scan.planLeaf layout commitment leaf.2 leaf.1 := by
  induction leaves generalizing number with
  | nil => rfl
  | cons leaf leaves ih =>
    rw [List.length_cons, List.range'_succ, List.zip_cons_cons, List.mapM_cons, ← ih]
    rfl

/-- No number of the root is without a leaf, and the leaves are planned as those of the scan. -/
theorem Holds.plan? (h : tree.Holds scan) (commitment : Commitment) :
    tree.plan? commitment = some (scan.plan commitment) := by
  have hempty : (scan.leafNumbers.zip scan.leaves).isEmpty = scan.leaves.isEmpty := by
    unfold Scan.leafNumbers
    cases scan.leaves <;> rfl
  unfold ScanTree.plan? Scan.plan
  rw [h.leaves?, h.schema, h.record]
  simp only [Option.bind_eq_bind, Option.bind_some, h.scanOf, hempty, planLeaves_eq_mapM]
  cases scan.leaves.isEmpty with
  | true => rfl
  | false =>
    cases scan.schema.layoutOf scan.record <;> rfl

/-- A plan that comes at some place is that of the leaf at this place, under its number. -/
theorem planLeaf_of_plan {commitment : Commitment} {plans : List LeafPlan}
    (planned : scan.plan commitment = .ok plans) :
    plans.length = scan.leaves.length ∧ ∀ i plan, plans[i]? = some plan →
      ∃ layout leaf, scan.schema.layoutOf scan.record = .ok layout ∧ scan.leaves[i]? = some leaf ∧
        scan.planLeaf layout commitment leaf (i + 1) = .ok plan := by
  cases hleaves : scan.leaves with
  | nil =>
    rw [Scan.plan, hleaves] at planned
    cases planned
    exact ⟨rfl, nofun⟩
  | cons =>
    cases laid : scan.schema.layoutOf scan.record with
    | error e =>
      rw [Scan.plan, hleaves, laid] at planned
      cases planned
    | ok layout =>
      rw [Scan.plan_of_layout laid, planLeaves_eq_mapM] at planned
      have hplans := (mapM_eq_ok_iff.mp planned).symm
      rw [← hleaves]
      refine ⟨?_, fun i plan hplan => ?_⟩
      · simpa using congrArg List.length hplans
      · have hi := congrArg (·[i]?) hplans
        simp only [List.getElem?_map, hplan, Option.map_some] at hi
        obtain ⟨⟨number, leaf⟩, hentry, hleaf⟩ := Option.map_eq_some_iff.mp hi.symm
        obtain ⟨hnumber, hfound⟩ := List.getElem?_zip_eq_some.mp hentry
        obtain ⟨hsize, _⟩ := List.getElem?_eq_some_iff.mp hfound
        rw [List.getElem?_range' hsize, Nat.one_mul, Nat.add_comm] at hnumber
        cases hnumber
        exact ⟨layout, leaf, rfl, hfound, hleaf⟩

end ScanTree

/-! ## 5. Runs -/

/-- **Leaves are isolated under any interleaving of steps.** Whatever leaves are added and reopened,
    the root stays without parent and address and lists the numbers of all leaves in the order in
    which they were added, every other node is a childless child of the root, and just the numbers
    of the leaves can be reopened. All numbers that the root lists are found when the scan is
    planned. The plan at some place is for the leaf that was added there, and it has what was last
    set on this leaf, and everything that was attached to it, put together from left to right. -/
theorem ScanTree.run_isolated (schema : Schema) (record : String) (steps : List Step) :
    let tree := (ofRecord schema record).run steps
    let addresses := Step.addresses steps
    let settings (number : Nat) : List Leaf.Setting := Step.settingsOf number 1 steps
    tree.size = addresses.length + 1 ∧
    tree.node? 0 = some ⟨none, none, List.range' 1 addresses.length, .all⟩ ∧
    (∀ i address, addresses[i]? = some address →
      tree.node? (i + 1) = some ⟨some address, some 0, [],
        (Leaf.lastSet Leaf.Setting.selection? (settings (i + 1))).getD .all⟩) ∧
    (∀ number, tree.isLeaf number = true ↔ 1 ≤ number ∧ number < tree.size) ∧
    ∃ scan, tree.scan? = some scan ∧
      ∀ commitment, tree.plan? commitment = some (scan.plan commitment) ∧
        ∀ plans, scan.plan commitment = .ok plans → plans.length = addresses.length ∧
          ∀ i plan, plans[i]? = some plan →
            plan.node = i + 1 ∧ addresses[i]? = some plan.address ∧
            plan.selection
              = (Leaf.lastSet Leaf.Setting.selection? (settings (i + 1))).getD .all ∧
            (∃ layout, schema.layoutOf record = .ok layout ∧
              layout.pushDown
                ((Leaf.lastSet Leaf.Setting.conditions? (settings (i + 1))).getD .empty)
                plan.selection (schema.discriminator record) = .ok plan.pushdown) ∧
            plan.metadata
              = Entries.ofList ((settings (i + 1)).filterMap Leaf.Setting.entries?).flatten ∧
            plan.requestId
              = (Leaf.lastSet Leaf.Setting.requestId? (settings (i + 1))).getD (.int 1) := by
  intro tree addresses settings
  have holds : tree.Holds (steps.foldl Scan.step (Scan.ofRecord schema record)) :=
    (holds_ofRecord schema record).run steps
  obtain ⟨hleaf, hlength⟩ := Scan.leaves_steps schema record steps
  obtain ⟨hschema, hrecord⟩ := Scan.schema_record_steps steps (Scan.ofRecord schema record)
  generalize steps.foldl Scan.step (Scan.ofRecord schema record) = scan at *
  have hsize : tree.size = addresses.length + 1 := by
    rw [holds.size, Scan.size, hlength]
  refine ⟨hsize, ?_, fun i address haddress => ?_, fun number => ?_, scan, holds.scan?,
    fun commitment => ⟨holds.plan? commitment, fun plans planned => ?_⟩⟩
  · rw [holds.node?, Scan.node?, Scan.leafNumbers, hlength]
  · rw [holds.node?, Scan.node?, hleaf i]
    show (addresses[i]?.map _).map _ = _
    rw [haddress]
    rfl
  · rw [holds.isLeaf, holds.size]
  · obtain ⟨hcount, hplans⟩ := planLeaf_of_plan planned
    refine ⟨hcount.trans hlength, fun i plan hplan => ?_⟩
    obtain ⟨layout, leaf, laid, hfound, hleafPlan⟩ := hplans i plan hplan
    obtain ⟨_, pushdown, hpushdown, rfl⟩ := Scan.planLeaf_eq_ok.mp hleafPlan
    rw [hleaf i] at hfound
    obtain ⟨address, haddress, rfl⟩ := Option.map_eq_some_iff.mp hfound
    rw [hschema, hrecord] at laid hpushdown
    exact ⟨rfl, haddress, rfl, ⟨layout, laid, hpushdown⟩, rfl, rfl⟩

/-- Two leaves that are set in turns, one of them also before it is there. -/
def ScanTree.turns : List Step :=
  [.set 2 (.select ["size"]), .add "book", .set 1 (.metadata (.object [("a", .nat 1)])),
    .add "fair", .set 2 (.select ["price"]), .set 1 (.metadata (.text "no object")),
    .set 2 .selectNothing, .set 1 (.metadata (.object [("a", .nat 2), ("b", .nat 3)])),
    .set 2 (.requestId (.text "r")), .set 3 .selectNothing]

/-- Each of them has what was set on it last. -/
theorem ScanTree.run_turns :
    ∃ plans, ((ofRecord Schema.orders "Order").run turns).plan? .confirmed = some (.ok plans) ∧
      plans.length = 2 ∧
      (∀ plan, plans[0]? = some plan → plan.node = 1 ∧ plan.selection = .all ∧
        plan.metadata = [("a", .nat 2), ("b", .nat 3)] ∧ plan.requestId = .int 1) ∧
      ∀ plan, plans[1]? = some plan → plan.node = 2 ∧ plan.selection = .nothing ∧
        plan.metadata = [] ∧ plan.requestId = .text "r" := by
  obtain ⟨_, _, _, _, scan, _, hplans⟩ := run_isolated Schema.orders "Order" turns
  obtain ⟨hsame, heach⟩ := hplans .confirmed
  obtain ⟨plans, hplan⟩ : ∃ plans,
      ((ofRecord Schema.orders "Order").run turns).plan? .confirmed = some (.ok plans) := ⟨_, rfl⟩
  obtain ⟨hcount, heach⟩ := heach plans (Option.some.inj (hsame.symm.trans hplan))
  refine ⟨plans, hplan, hcount, fun plan h => ?_, fun plan h => ?_⟩
  · obtain ⟨hnode, _, hselection, _, hmetadata, hrequest⟩ := heach 0 plan h
    exact ⟨hnode, hselection, hmetadata, hrequest⟩
  · obtain ⟨hnode, _, hselection, _, hmetadata, hrequest⟩ := heach 1 plan h
    exact ⟨hnode, hselection, hmetadata, hrequest⟩

end LedgerScan
