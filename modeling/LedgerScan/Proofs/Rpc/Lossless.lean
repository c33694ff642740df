import LedgerScan.Proofs.Rpc.Ledger

/-!
# Requests lose nothing

A request holds the compared bytes as texts, the length of the record only if there is any, and the
window only along with the length. All of it can be read back, and nothing else stands there:

* `tests_inj`: the tests that are read tell the bytes, their order and the length;
* `filterEntries_eq_nil`: there is no list of filters exactly if there is nothing to test;
* `Pushdown.request_eq_of`: what is not in a request does not change it.

`Pushdown.request_lossless` puts this together: two requests are the same exactly if they are for
the same program, commitment, bytes and length and, where there is a length, the same window.
-/

namespace LedgerScan

theorem Commitment.word_inj {a b : Commitment} (h : a.word = b.word) : a = b := by
  cases a <;> cases b <;> first | rfl | exact absurd h (by decide)

namespace NodeTest

/-- The bytes that a test compares, with their offset. -/
def literal? : NodeTest → Option (Nat × List UInt8)
  | .memcmp offset bytes => some (offset, bytes)
  | .dataSize _ => none

/-- The length that a test asks for. -/
def size? : NodeTest → Option Nat
  | .memcmp _ _ => none
  | .dataSize size => some size

end NodeTest

namespace Pushdown

variable {pushdown other : Pushdown}

/-! ## 1. What the tests tell -/

theorem filterMap_literal?_tests (pushdown : Pushdown) :
    pushdown.tests.filterMap NodeTest.literal? = pushdown.literals := by
  simp [tests, NodeTest.literal?, List.filterMap_map, Function.comp_def]

theorem filterMap_size?_tests (pushdown : Pushdown) :
    pushdown.tests.filterMap NodeTest.size? = pushdown.dataSize?.toList := by
  simp [tests, NodeTest.size?, List.filterMap_map, Function.comp_def]

/-- No size is asked for only of a record without bytes. -/
theorem dataSize?_getD (pushdown : Pushdown) :
    pushdown.dataSize?.getD 0 = pushdown.totalLength := by
  unfold dataSize?
  split
  · rfl
  · next h => exact (Nat.eq_zero_of_not_pos h).symm

theorem tests_inj (h : pushdown.tests = other.tests) :
    pushdown.literals = other.literals ∧ pushdown.totalLength = other.totalLength := by
  have hliterals := congrArg (List.filterMap NodeTest.literal?) h
  have hsizes := congrArg (List.filterMap NodeTest.size?) h
  rw [filterMap_literal?_tests, filterMap_literal?_tests] at hliterals
  rw [filterMap_size?_tests, filterMap_size?_tests] at hsizes
  have hsize := congrArg List.head? hsizes
  rw [Option.head?_toList, Option.head?_toList] at hsize
  refine ⟨hliterals, ?_⟩
  rw [← dataSize?_getD, hsize, dataSize?_getD]

theorem tests_eq (pushdown : Pushdown) :
    pushdown.tests = pushdown.literals.map (fun literal => .memcmp literal.1 literal.2)
      ++ if 0 < pushdown.totalLength then [.dataSize pushdown.totalLength] else [] := by
  unfold tests dataSize?
  split <;> rfl

/-! ## 2. What stands in the options -/

theorem filterEntries_eq_nil :
    pushdown.filterEntries = [] ↔ pushdown.literals = [] ∧ pushdown.totalLength = 0 := by
  unfold filterEntries dataSize?
  rw [List.append_eq_nil_iff, List.map_eq_nil_iff]
  refine and_congr_right fun _ => ?_
  split
  · next h => exact ⟨nofun, fun hzero => absurd hzero (Nat.ne_of_gt h)⟩
  · next h => exact ⟨fun _ => Nat.eq_zero_of_not_pos h, fun _ => rfl⟩

/-- Every filter is an object of one key. -/
theorem exists_of_mem_filterEntries {entry : Json} (h : entry ∈ pushdown.filterEntries) :
    ∃ key value, entry = .object [(key, value)] := by
  rcases List.mem_append.mp h with h | h
  · obtain ⟨literal, _, rfl⟩ := List.mem_map.mp h
    exact ⟨_, _, rfl⟩
  · obtain ⟨size, _, rfl⟩ := List.mem_map.mp h
    exact ⟨_, _, rfl⟩

theorem asked_eq_none : pushdown.asked = none ↔
    pushdown.window = none ∨ pushdown.totalLength = 0 := by
  unfold asked
  split
  · next h => exact ⟨.inl, fun hnone => hnone.resolve_right (Nat.ne_of_gt h)⟩
  · next h => exact ⟨fun _ => .inr (Nat.eq_zero_of_not_pos h), fun _ => rfl⟩

theorem get?_commitment_requestOptions (pushdown : Pushdown) (commitment : Commitment) :
    (pushdown.requestOptions commitment).get? "commitment" = some (.text commitment.word) := by
  unfold requestOptions
  split <;> cases h : pushdown.filterEntries.isEmpty <;> simp [Json.get?_ofPairs, h]

/-! ## 3. Requests -/

/-- **A request depends on the bytes, the length and the window alone**, and on the window only if
    there is a length. -/
theorem request_eq_of (literals : pushdown.literals = other.literals)
    (total : pushdown.totalLength = other.totalLength)
    (window : 0 < pushdown.totalLength → pushdown.window = other.window) (address : String)
    (commitment : Commitment) :
    pushdown.request address commitment = other.request address commitment := by
  have hsize : pushdown.dataSize? = other.dataSize? := by rw [dataSize?, total, dataSize?]
  have hentries : pushdown.filterEntries = other.filterEntries := by
    rw [filterEntries, literals, hsize, filterEntries]
  have hoptions : pushdown.requestOptions commitment = other.requestOptions commitment := by
    unfold requestOptions
    rw [hentries, hsize]
    by_cases positive : 0 < pushdown.totalLength
    · rw [window positive]
    · have hnone : other.dataSize? = none := by rw [dataSize?, ← total, if_neg positive]
      rw [hnone]
      cases pushdown.window <;> cases other.window <;> rfl
  rw [request, hoptions, request]

/-- **A request loses nothing.** Its second parameter can be read back: the tests that are read are
    the compared bytes with their offsets, in their order, and behind them the length of the record
    if there is any, with nothing else in the filters and no filters at all if there is nothing to
    test. The window stands there if there is one and the record has any bytes. So two requests are
    the same exactly if program, commitment, bytes and length are, and for records with any bytes
    also the window. -/
theorem request_lossless (pushdown : Pushdown) (address : String) (commitment : Commitment) :
    (∃ options,
      (pushdown.request address commitment).get? "params"
        = some (.list [.text address, options]) ∧
      NodeQuery.tests? options = some
        (pushdown.literals.map (fun literal => .memcmp literal.1 literal.2)
          ++ if 0 < pushdown.totalLength then [.dataSize pushdown.totalLength] else []) ∧
      (options.get? "filters" = none ↔ pushdown.literals = [] ∧ pushdown.totalLength = 0) ∧
      (∀ entries, options.get? "filters" = some (.list entries) →
        ∀ entry ∈ entries, ∃ key value, entry = .object [(key, value)]) ∧
      NodeQuery.window? options
        = some (if 0 < pushdown.totalLength then pushdown.window else none) ∧
      (options.get? "dataSlice" = none ↔
        pushdown.window = none ∨ pushdown.totalLength = 0)) ∧
    ∀ (other : Pushdown) (otherAddress : String) (otherCommitment : Commitment),
      pushdown.request address commitment = other.request otherAddress otherCommitment ↔
        address = otherAddress ∧ commitment = otherCommitment ∧
        pushdown.literals = other.literals ∧ pushdown.totalLength = other.totalLength ∧
        (0 < pushdown.totalLength → pushdown.window = other.window) := by
  refine ⟨⟨pushdown.requestOptions commitment, get?_params_request _ _ _, ?_, ?_,
    fun entries h => ?_, window?_requestOptions _ _, ?_⟩,
    fun other otherAddress otherCommitment => ⟨fun h => ?_, ?_⟩⟩
  · rw [tests?_requestOptions, tests_eq]
  · rw [get?_filters_requestOptions, ← filterEntries_eq_nil, ← List.isEmpty_iff]
    cases pushdown.filterEntries.isEmpty <;> simp
  · rw [get?_filters_requestOptions] at h
    split at h
    · cases h
    · cases h
      exact fun entry => exists_of_mem_filterEntries
  · rw [get?_dataSlice_requestOptions, Option.map_eq_none_iff, asked_eq_none]
  · -- the node reads address, tests and window; the commitment it does not look at
    have hparams := congrArg (Json.get? "params") h
    rw [get?_params_request, get?_params_request] at hparams
    have hquery := congrArg NodeQuery.ofJson? h
    rw [ofJson?_request, ofJson?_request] at hquery
    obtain ⟨haddress, htests, hasked⟩ := NodeQuery.mk.inj (Option.some.inj hquery)
    obtain ⟨hliterals, htotal⟩ := tests_inj htests
    have hoptions : pushdown.requestOptions commitment = other.requestOptions otherCommitment := by
      simpa [haddress] using hparams
    have hword := congrArg (Json.get? "commitment") hoptions
    rw [get?_commitment_requestOptions, get?_commitment_requestOptions] at hword
    refine ⟨haddress, Commitment.word_inj (Json.text.inj (Option.some.inj hword)), hliterals,
      htotal, fun positive => ?_⟩
    rwa [asked, asked, if_pos positive, if_pos (htotal ▸ positive)] at hasked
  · rintro ⟨rfl, rfl, hliterals, htotal, hwindow⟩
    exact request_eq_of hliterals htotal hwindow _ _

/-- Bytes with zeros in front, no bytes at all and a predicate between them. -/
def zeros : Pushdown where
  filters := [.bytes 0 [], .predicate "side" (fun _ _ => true), .bytes 4 [0, 0, 7]]
  window := some ⟨4, 3⟩
  totalLength := 9

/-- The bytes are read with their zeros, and one zero less makes another request. -/
theorem request_zeros :
    (∃ options, (zeros.request "book" .confirmed).get? "params"
        = some (.list [.text "book", options]) ∧
      NodeQuery.tests? options = some [.memcmp 0 [], .memcmp 4 [0, 0, 7], .dataSize 9] ∧
      NodeQuery.window? options = some (some ⟨4, 3⟩)) ∧
    zeros.request "book" .confirmed
      ≠ { zeros with filters := [.bytes 0 [], .bytes 4 [0, 7]] }.request "book" .confirmed := by
  obtain ⟨⟨options, hparams, htests, _, _, hwindow, _⟩, hsame⟩ :=
    zeros.request_lossless "book" .confirmed
  refine ⟨⟨options, hparams, htests, hwindow⟩, fun h => ?_⟩
  have hliterals := ((hsame _ _ _).mp h).2.2.1
  exact absurd hliterals (by decide)

end Pushdown

end LedgerScan
