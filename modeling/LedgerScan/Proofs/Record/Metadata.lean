import LedgerScan.Proofs.Borsh.Yields
import LedgerScan.Proofs.Scan.Tree

/-!
# Metadata in the JSON of a record

A record is shown as its fields with the metadata among them, and the metadata as what was attached
with the address and the request among it. The keys of both are for others to choose: a field may be
called `$metadata`, and what is attached may have a `pubkey` of its own. So twice the outcome
depends on who wins.

* Of the metadata nothing is lost or made up: what a rebuilt record has attached is never under the
  two keys that are taken (`Metadata.Proper`), and so the block is known by its lookups
  (`Metadata.get?_entries`) and tells the metadata (`Metadata.toJson_inj`);
* a field under `$metadata` is hidden, every other field is shown as it is
  (`Record.erase_entries`);
* `ScanTree.Rebuilds` is a record that some scan makes of an account, and `toJson_of_rebuilds` says
  all of it for these.
-/

namespace LedgerScan

open Decoder Fallible

/-! ## 1. The block -/

namespace Metadata

variable {m n : Metadata} {key : String}

/-- Metadata as they are attached to records: in order, and with nothing under the keys of the
    address and of the request. -/
structure Proper (m : Metadata) : Prop where
  sorted : Entries.Sorted m.extra
  pubkey : pubkeyKey ∉ Entries.keys m.extra
  request : requestKey ∉ Entries.keys m.extra

/-- The entries of the block. -/
def entries (m : Metadata) : Entries Json :=
  Entries.insert requestKey m.requestId
    (Entries.insert pubkeyKey (.text m.pubkey) (Entries.ofList m.extra))

theorem sorted_entries (m : Metadata) : Entries.Sorted m.entries :=
  Entries.sorted_insert (Entries.sorted_insert (Entries.sorted_ofList m.extra))

/-- The address and the request win over what was attached, and all else is what was attached. -/
theorem get?_entries (sorted : Entries.Sorted m.extra) (key : String) :
    Entries.get? key m.entries
      = if key = requestKey then some m.requestId
        else if key = pubkeyKey then some (.text m.pubkey) else Entries.get? key m.extra := by
  unfold entries
  rw [Entries.get?_insert, Entries.get?_insert, sorted.ofList_eq]
  simp only [eq_comm]

/-- **The block tells the metadata.** -/
theorem toJson_inj (hm : m.Proper) (hn : n.Proper) (h : m.toJson = n.toJson) : m = n := by
  have hentries : m.entries = n.entries := Json.object.inj h
  have hsame : ∀ key, Entries.get? key m.entries = Entries.get? key n.entries :=
    fun key => congrArg (Entries.get? key) hentries
  simp only [get?_entries hm.sorted, get?_entries hn.sorted] at hsame
  have hrequest : m.requestId = n.requestId := by simpa using hsame requestKey
  have hpubkey : m.pubkey = n.pubkey := by
    simpa [show pubkeyKey ≠ requestKey by decide] using hsame pubkeyKey
  have hextra : m.extra = n.extra := by
    refine Entries.ext_of_sorted hm.sorted hn.sorted fun key => ?_
    by_cases hkey : key = requestKey
    · rw [hkey, Entries.get?_eq_none hm.request, Entries.get?_eq_none hn.request]
    by_cases hkey' : key = pubkeyKey
    · rw [hkey', Entries.get?_eq_none hm.pubkey, Entries.get?_eq_none hn.pubkey]
    · simpa [hkey, hkey'] using hsame key
  cases m
  cases n
  cases hrequest
  cases hpubkey
  cases hextra
  rfl

end Metadata

/-! ## 2. The record -/

namespace Record

variable {r r' : Record} {key : String}

/-- The entries of the record as JSON. -/
def entries (r : Record) : Entries Json :=
  match r.metadata with
  | none => r.fields
  | some m => Entries.insert metadataKey m.toJson r.fields

theorem toJson_eq (r : Record) : r.toJson = .object r.entries := by
  unfold toJson entries
  cases r.metadata <;> rfl

theorem sorted_entries (h : Entries.Sorted r.fields) : Entries.Sorted r.entries := by
  unfold entries
  cases r.metadata with
  | none => exact h
  | some m => exact Entries.sorted_insert h

/-- Only what is under the key of the metadata differs from the fields. -/
theorem erase_entries (r : Record) :
    Entries.erase metadataKey r.entries = Entries.erase metadataKey r.fields := by
  unfold entries
  cases r.metadata with
  | none => rfl
  | some m => exact Entries.erase_insert_self _ _ _

theorem get?_entries_of_ne (h : key ≠ metadataKey) :
    Entries.get? key r.entries = Entries.get? key r.fields := by
  unfold entries
  cases r.metadata with
  | none => rfl
  | some m => exact Entries.get?_insert_of_ne h.symm _ _

/-- The fields come back exactly if none of them is under the key of the metadata. -/
theorem erase_entries_eq_fields :
    Entries.erase metadataKey r.entries = r.fields ↔ metadataKey ∉ Entries.keys r.fields := by
  rw [erase_entries, Entries.erase_eq_self]

/-- Where no field is under its key, what is there is the metadata. -/
theorem get?_metadataKey (h : metadataKey ∉ Entries.keys r.fields) :
    Entries.get? metadataKey r.entries = r.metadata.map Metadata.toJson := by
  unfold entries
  cases r.metadata with
  | none => exact Entries.get?_eq_none h
  | some m => exact Entries.get?_insert_self _ _ _

/-- **Records without such a field are known by their JSON.** -/
theorem toJson_inj (hr : ∀ m, r.metadata = some m → m.Proper)
    (hr' : ∀ m, r'.metadata = some m → m.Proper) (free : metadataKey ∉ Entries.keys r.fields)
    (free' : metadataKey ∉ Entries.keys r'.fields) (h : r.toJson = r'.toJson) : r = r' := by
  rw [toJson_eq, toJson_eq] at h
  have hentries : r.entries = r'.entries := Json.object.inj h
  have hfields : r.fields = r'.fields := by
    rw [← erase_entries_eq_fields.mpr free, ← erase_entries_eq_fields.mpr free', hentries]
  have hblock : r.metadata.map Metadata.toJson = r'.metadata.map Metadata.toJson := by
    rw [← get?_metadataKey free, ← get?_metadataKey free', hentries]
  have hmetadata : r.metadata = r'.metadata := by
    cases hm : r.metadata with
    | none =>
      rw [hm] at hblock
      exact (Option.map_eq_none_iff.mp hblock.symm).symm
    | some m =>
      rw [hm] at hblock
      obtain ⟨n, hn, hsame⟩ := Option.map_eq_some_iff.mp hblock.symm
      rw [hn, Metadata.toJson_inj (hr m hm) (hr' n hn) hsame.symm]
  cases r
  cases r'
  cases hfields
  cases hmetadata
  rfl

end Record

/-! ## 3. Rebuilt records -/

namespace LeafPlan

variable {plan : LeafPlan} {schema : Schema} {options : FetchOptions} {account : RawAccount}
  {r : Record}

/-- What a record is made of. -/
theorem parts_of_rebuild? (h : plan.rebuild? schema options account = some r) :
    plan.shown? schema options account = some r.fields ∧
      r.metadata = if options.metadata then some (plan.metadataFor account) else none := by
  unfold rebuild? at h
  split at h
  · cases h
  · rename_i fields hshown
    split at h
    · cases h
      exact ⟨hshown, rfl⟩
    · cases h

/-- The wanted fields of an account are in order. -/
theorem sorted_of_fields {shown : Entries Json} (h : plan.fields schema account = .ok shown) :
    Entries.Sorted shown := by
  unfold fields at h
  split at h
  · cases h
    exact List.Pairwise.nil
  split at h
  · cases h
  split at h
  · cases h
  · rename_i decoded hdecoded
    cases h
    exact (Schema.sorted_of_decodeRecord hdecoded).filter _

theorem sorted_of_rebuild? (h : plan.rebuild? schema options account = some r) :
    Entries.Sorted r.fields := by
  have hshown := (parts_of_rebuild? h).1
  unfold shown? at hshown
  split at hshown
  · rename_i hfields
    rw [← Option.some.inj hshown]
    exact sorted_of_fields hfields
  split at hshown
  · rw [← Option.some.inj hshown]
    exact List.Pairwise.nil
  · cases hshown

/-- What is attached to a record is the patch without the two keys that are taken. -/
theorem get?_metadataFor (plan : LeafPlan) (account : RawAccount) (key : String) :
    Entries.get? key (plan.metadataFor account).extra
      = if key = Metadata.requestKey then none
        else if key = Metadata.pubkeyKey then none else Entries.get? key plan.metadata := by
  show Entries.get? key (Entries.erase _ (Entries.erase _ plan.metadata)) = _
  rw [Entries.get?_erase, Entries.get?_erase]

theorem proper_metadataFor (sorted : Entries.Sorted plan.metadata) (account : RawAccount) :
    (plan.metadataFor account).Proper := by
  have hnone : ∀ key, Entries.get? key (plan.metadataFor account).extra = none →
      key ∉ Entries.keys (plan.metadataFor account).extra := by
    intro key hkey hmem
    obtain ⟨value, hvalue⟩ := Entries.exists_get?_iff.mpr hmem
    rw [hkey] at hvalue
    cases hvalue
  refine ⟨(sorted.filter _).filter _, hnone _ ?_, hnone _ ?_⟩
  · rw [get?_metadataFor]
    rfl
  · rw [get?_metadataFor]
    rfl

end LeafPlan

/-! ## 4. Records of a scan -/

open ScanTree

/-- **A record that a scan makes of an account**: the scan is put together by steps and planned, and
    the plan at some place rebuilds the record from what came back for the account. -/
def ScanTree.Rebuilds (schema : Schema) (record : String) (steps : List Step) (i : Nat)
    (options : FetchOptions) (account : RawAccount) (r : Record) : Prop :=
  ∃ commitment plans plan,
    ((ofRecord schema record).run steps).plan? commitment = some (.ok plans) ∧
      plans[i]? = some plan ∧ plan.rebuild? schema options account = some r

/-- Everything that was attached to a leaf by steps, put together from left to right. -/
def ScanTree.Step.patch (number : Nat) (steps : List Step) : Entries Json :=
  Entries.ofList ((settingsOf number 1 steps).filterMap Leaf.Setting.entries?).flatten

/-- The request that was last set on a leaf by steps, the first one if none was. -/
def ScanTree.Step.requestId (number : Nat) (steps : List Step) : Json :=
  (Leaf.lastSet Leaf.Setting.requestId? (settingsOf number 1 steps)).getD (.int 1)

section Rebuilds

variable {schema : Schema} {record : String} {steps : List Step} {i : Nat}
  {options : FetchOptions} {account : RawAccount} {r : Record}

/-- The metadata of a record are what the steps made of its leaf. -/
theorem ScanTree.Rebuilds.metadata_eq (h : Rebuilds schema record steps i options account r) :
    Entries.Sorted r.fields ∧ ∃ m : Metadata,
      r.metadata = (if options.metadata then some m else none) ∧ m.Proper ∧
      m.pubkey = account.pubkey ∧ m.requestId = Step.requestId (i + 1) steps ∧
      ∀ key, Entries.get? key m.extra = if key = Metadata.requestKey then none
        else if key = Metadata.pubkeyKey then none
        else Entries.get? key (Step.patch (i + 1) steps) := by
  obtain ⟨commitment, plans, plan, planned, hplan, hrebuilt⟩ := h
  obtain ⟨_, _, _, _, scan, _, hscan⟩ := run_isolated schema record steps
  obtain ⟨hsame, heach⟩ := hscan commitment
  obtain ⟨_, heach⟩ := heach plans (Option.some.inj (hsame.symm.trans planned))
  obtain ⟨_, _, _, _, hpatch, hrequest⟩ := heach i plan hplan
  have sorted : Entries.Sorted plan.metadata := hpatch ▸ Entries.sorted_ofList _
  refine ⟨LeafPlan.sorted_of_rebuild? hrebuilt, plan.metadataFor account,
    (LeafPlan.parts_of_rebuild? hrebuilt).2, LeafPlan.proper_metadataFor sorted account, rfl,
    hrequest, fun key => ?_⟩
  rw [LeafPlan.get?_metadataFor, hpatch]
  rfl

theorem ScanTree.Rebuilds.proper (h : Rebuilds schema record steps i options account r) :
    ∀ m, r.metadata = some m → m.Proper := by
  intro m hm
  obtain ⟨_, n, hn, proper, _⟩ := h.metadata_eq
  rw [hm] at hn
  split at hn
  · rw [Option.some.inj hn]
    exact proper
  · cases hn

/-- **The JSON of a record neither makes up metadata nor loses any.** It is an object in order. With
    metadata there is a block under `$metadata`: the address of the account and the request of the
    leaf, and besides them just what was attached to the leaf, other than under these two keys.
    Without metadata there are the fields and nothing else. All other fields are shown as they are,
    and the fields come back by removing what is under `$metadata` exactly if none of them is called
    that. So two records without such a field are the same if they have the same JSON, whatever
    scans, accounts and options they come from. -/
theorem ScanTree.toJson_of_rebuilds (h : Rebuilds schema record steps i options account r) :
    (∃ entries, r.toJson = .object entries ∧ Entries.Sorted entries ∧
      (∀ key, key ≠ "$metadata" → Entries.get? key entries = r.get? key) ∧
      (Entries.erase "$metadata" entries = r.fields ↔ "$metadata" ∉ Entries.keys r.fields)) ∧
    (options.metadata = true → ∃ block, r.toJson.get? "$metadata" = some (.object block) ∧
      Entries.Sorted block ∧
      ∀ key, Entries.get? key block
        = if key = "requestId" then some (Step.requestId (i + 1) steps)
          else if key = "pubkey" then some (.text account.pubkey)
          else Entries.get? key (Step.patch (i + 1) steps)) ∧
    (options.metadata = false → r.metadata = none ∧ r.toJson = .object r.fields) ∧
    ∀ {schema' record' steps' i' options' account' r'},
      Rebuilds schema' record' steps' i' options' account' r' →
      "$metadata" ∉ Entries.keys r.fields → "$metadata" ∉ Entries.keys r'.fields →
      (r.toJson = r'.toJson ↔ r = r') := by
  obtain ⟨sorted, m, hm, proper, hpubkey, hrequest, hextra⟩ := h.metadata_eq
  refine ⟨⟨r.entries, r.toJson_eq, r.sorted_entries sorted, fun key hkey => ?_, ?_⟩, fun hon => ?_,
    fun hoff => ?_, fun h' free free' => ⟨fun hsame => ?_, fun hsame => by rw [hsame]⟩⟩
  · exact Record.get?_entries_of_ne hkey
  · exact Record.erase_entries_eq_fields
  · rw [hon, if_pos rfl] at hm
    refine ⟨m.entries, ?_, m.sorted_entries, fun key => ?_⟩
    · unfold Record.toJson
      rw [hm]
      exact Entries.get?_insert_self _ _ _
    · rw [Metadata.get?_entries proper.sorted, hpubkey, hrequest, hextra]
      by_cases hkey : key = Metadata.requestKey
      · rw [if_pos hkey]
        exact (if_pos hkey).symm
      by_cases hkey' : key = Metadata.pubkeyKey
      · rw [if_neg hkey, if_pos hkey']
        exact ((if_neg hkey).trans (if_pos hkey')).symm
      · simp only [if_neg hkey, if_neg hkey']
        exact ((if_neg hkey).trans (if_neg hkey')).symm
  · rw [hoff] at hm
    refine ⟨hm, ?_⟩
    unfold Record.toJson
    rw [hm]
    rfl
  · exact Record.toJson_inj h.proper h'.proper free free' hsame

end Rebuilds

/-- A leaf to which a label and an address are attached. -/
def ScanTree.vault : List Step :=
  [.add "123",
    .set 1 (.metadata (.object [("label", .text "vault"), ("pubkey", .text "ignored")])),
    .set 1 (.requestId (.text "req-7"))]

/-- An order comes back for it. -/
def ScanTree.vaultAccount : RawAccount := ⟨"acct1", "BwEFAAk="⟩

theorem ScanTree.rebuilds_vault (options : FetchOptions) :
    ∃ r, Rebuilds Schema.orders "Order" vault 0 options vaultAccount r ∧
      r.fields = [("price", .nat 5), ("side", .text "Ask"), ("size", .nat 9)] := by
  have came : Base64.decode (Utf8.encode vaultAccount.data) = .ok [7, 1, 5, 0, 9] := by
    decide +kernel
  obtain ⟨plan, planned, hselection, hrecord, hpushdown⟩ : ∃ plan,
      ((ofRecord Schema.orders "Order").run vault).plan? .confirmed = some (.ok [plan]) ∧
        plan.selection = .all ∧ plan.record = "Order" ∧ plan.pushdown.predicates = [] :=
    ⟨_, rfl, rfl, rfl, rfl⟩
  have hfields : plan.fields Schema.orders vaultAccount
      = .ok [("price", .nat 5), ("side", .text "Ask"), ("size", .nat 9)] := by
    unfold LeafPlan.fields LeafPlan.wholeData
    rw [hselection, hrecord, came]
    rfl
  have hrebuilt : plan.rebuild? Schema.orders options vaultAccount
      = some ⟨[("price", .nat 5), ("side", .text "Ask"), ("size", .nat 9)],
          if options.metadata then some (plan.metadataFor vaultAccount) else none⟩ := by
    unfold LeafPlan.rebuild? LeafPlan.shown?
    rw [hfields, hpushdown]
    rfl
  exact ⟨_, ⟨.confirmed, [plan], plan, planned, rfl, hrebuilt⟩, rfl⟩

/-- The label is there, the address is that of the account, and without metadata the same account
    has another JSON. -/
theorem ScanTree.toJson_vault : ∃ r r',
    Rebuilds Schema.orders "Order" vault 0 .standard vaultAccount r ∧
    Rebuilds Schema.orders "Order" vault 0 { FetchOptions.standard with metadata := false }
      vaultAccount r' ∧
    (∃ block, r.toJson.get? "$metadata" = some (.object block) ∧
      Entries.get? "label" block = some (.text "vault") ∧
      Entries.get? "pubkey" block = some (.text "acct1") ∧
      Entries.get? "requestId" block = some (.text "req-7")) ∧
    (∃ entries, r.toJson = .object entries ∧ Entries.erase "$metadata" entries
      = [("price", .nat 5), ("side", .text "Ask"), ("size", .nat 9)]) ∧
    r'.toJson = .object [("price", .nat 5), ("side", .text "Ask"), ("size", .nat 9)] ∧
    r.toJson ≠ r'.toJson := by
  obtain ⟨r, h, hfields⟩ := rebuilds_vault .standard
  obtain ⟨r', h', hfields'⟩ := rebuilds_vault { FetchOptions.standard with metadata := false }
  have free : "$metadata" ∉ Entries.keys r.fields := by
    rw [hfields]
    decide
  have free' : "$metadata" ∉ Entries.keys r'.fields := by
    rw [hfields']
    decide
  obtain ⟨⟨entries, hentries, _, _, herase⟩, hon, _, hinj⟩ := toJson_of_rebuilds h
  obtain ⟨hnone, hjson⟩ := (toJson_of_rebuilds h').2.2.1 rfl
  obtain ⟨block, hblock, _, hget⟩ := hon rfl
  refine ⟨r, r', h, h', ⟨block, hblock, (hget "label").trans rfl, (hget "pubkey").trans rfl,
    (hget "requestId").trans rfl⟩, ⟨entries, hentries, (herase.mpr free).trans hfields⟩,
    hjson.trans (congrArg Json.object hfields'), fun hsame => ?_⟩
  have hsome := h.metadata_eq.2
  rw [(hinj h' free free').mp hsame, hnone] at hsome
  obtain ⟨_, hsome, _⟩ := hsome
  cases hsome

end LedgerScan
