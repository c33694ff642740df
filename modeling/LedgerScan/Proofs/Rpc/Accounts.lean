import LedgerScan.Proofs.Rpc.Ledger
import LedgerScan.Rpc.Account
import Mathlib.Data.List.Forall2

/-!
# What an answer gives

An answer is whatever the endpoint sends, of any shape at every level. Three things are said of it
on its own terms: that it lists values (`Rpc.Lists`, in either of two forms), that a value
describes an account (`RawAccount.Describes`) and that one value restates another
(`RawAccount.Restated`: the text of its data stands alone or at the head of a list). The reader
agrees with each: `accounts_of_lists`, `ofJson?_eq_some` and `ofJson?_of_restated`.

Values are read one by one, so the accounts of an answer are those of its values in order, and a
value that describes no account leaves nothing behind and takes nothing with it:
`accounts_exact`.
-/

namespace LedgerScan

/-! ## 1. The data of an account value -/

namespace Json

/-- Puts a value under a key of an object; nothing else has keys. -/
def put (target : Json) (key : String) (value : Json) : Json :=
  match target with
  | .object entries => .object (Entries.insert key value entries)
  | other => other

/-- The data of an account value, in whatever form. -/
def accountData? (value : Json) : Option Json :=
  (value.get? "account").bind (get? "data")

/-- An account value with other data; all else in it stays. -/
def withAccountData (value data : Json) : Json :=
  match value.get? "account" with
  | some account => value.put "account" (account.put "data" data)
  | none => value

theorem get?_put_self {target old : Json} {key : String} (value : Json)
    (h : target.get? key = some old) : (target.put key value).get? key = some value := by
  cases target with
  | object entries => exact Entries.get?_insert_self key value entries
  | null | bool | number | text | list => cases h

theorem get?_put_of_ne {key other : String} (h : key ≠ other) (target value : Json) :
    (target.put key value).get? other = target.get? other := by
  cases target with
  | object entries => exact Entries.get?_insert_of_ne h value entries
  | null | bool | number | text | list => rfl

theorem accountData?_withAccountData {value old : Json} (data : Json)
    (h : value.accountData? = some old) :
    (value.withAccountData data).accountData? = some data := by
  obtain ⟨account, haccount, hold⟩ := Option.bind_eq_some_iff.mp h
  unfold withAccountData accountData?
  rw [haccount]
  dsimp only
  rw [get?_put_self _ haccount]
  exact get?_put_self data hold

theorem get?_withAccountData_of_ne {key : String} (h : "account" ≠ key) (value data : Json) :
    (value.withAccountData data).get? key = value.get? key := by
  unfold withAccountData
  split
  · exact get?_put_of_ne h value _
  · rfl

end Json

/-! ## 2. One value -/

namespace RawAccount

/-- The two forms in which data hold a text: alone or at the head of a list. -/
inductive Holds : Json → String → Prop
  | alone (text : String) : Holds (.text text) text
  | listed (text : String) (more : List Json) : Holds (.list (.text text :: more)) text

/-- A value describes an account: its address is a text and its data hold one. -/
structure Describes (value : Json) (account : RawAccount) : Prop where
  address : value.get? "pubkey" = some (.text account.pubkey)
  held : ∃ data, value.accountData? = some data ∧ Holds data account.data

/-- A value is the same as another or has the text of its data in the other form. -/
inductive Restated : Json → Json → Prop
  | same (value : Json) : Restated value value
  | data {value old new : Json} {text : String} (found : value.accountData? = some old)
      (before : Holds old text) (after : Holds new text) :
      Restated value (value.withAccountData new)

theorem dataText?_eq_some {data : Json} {text : String} :
    dataText? data = some text ↔ Holds data text := by
  constructor
  · intro h
    unfold dataText? at h
    split at h
    next blob =>
      cases h
      exact .alone text
    next first rest =>
      rw [Json.asText?_eq_some.mp h]
      exact .listed text rest
    next => cases h
  · intro h
    cases h <;> rfl

/-- **An account is read exactly from a value that describes it.** -/
theorem ofJson?_eq_some {value : Json} {account : RawAccount} :
    ofJson? value = some account ↔ Describes value account := by
  constructor
  · intro h
    simp only [ofJson?, Option.bind_eq_bind, Option.bind_eq_some_iff, Option.pure_def] at h
    obtain ⟨address, haddress, pubkey, hpubkey, owner, howner, data, hdata, text, htext, h⟩ := h
    cases h
    exact ⟨Json.asText?_eq_some.mp hpubkey ▸ haddress, data,
      Option.bind_eq_some_iff.mpr ⟨owner, howner, hdata⟩, dataText?_eq_some.mp htext⟩
  · rintro ⟨address, data, found, held⟩
    obtain ⟨owner, howner, hdata⟩ := Option.bind_eq_some_iff.mp found
    simp only [ofJson?, Option.bind_eq_bind, Option.bind_some, address, howner, hdata,
      dataText?_eq_some.mpr held, Json.asText?_eq_some.mpr rfl]
    rfl

theorem Holds.unique {data : Json} {text other : String} (h : Holds data text)
    (hother : Holds data other) : text = other := by
  cases h <;> cases hother <;> rfl

/-- A value and one that restates it describe the same account, if any. -/
theorem describes_restated {value other : Json} {account : RawAccount}
    (h : Restated value other) : Describes other account ↔ Describes value account := by
  cases h with
  | same => exact Iff.rfl
  | @data old new text found before after =>
    have haddress : (value.withAccountData new).get? "pubkey" = value.get? "pubkey" :=
      Json.get?_withAccountData_of_ne (by decide) value new
    have hnew := Json.accountData?_withAccountData new found
    constructor
    · rintro ⟨address, data, hdata, held⟩
      cases hnew.symm.trans hdata
      exact ⟨haddress ▸ address, old, found, held.unique after ▸ before⟩
    · rintro ⟨address, data, hdata, held⟩
      cases found.symm.trans hdata
      exact ⟨haddress.trans address, new, hnew, held.unique before ▸ after⟩

/-- **Restating a value changes nothing that is read from it.** -/
theorem ofJson?_of_restated {value other : Json} (h : Restated value other) :
    ofJson? other = ofJson? value :=
  Option.ext fun account => by
    rw [ofJson?_eq_some, ofJson?_eq_some, describes_restated h]

end RawAccount

/-! ## 3. One answer -/

namespace Rpc

/-- The two forms in which an answer lists values: as its result or as the value of its result,
whatever else stands beside them. An answer with an error lists nothing. -/
inductive Lists (answer : Json) (values : List Json) : Prop
  | bare (sound : answer.get? "error" = none)
      (result : answer.get? "result" = some (.list values))
  | enveloped {envelope : Json} (sound : answer.get? "error" = none)
      (result : answer.get? "result" = some envelope)
      (value : envelope.get? "value" = some (.list values))

/-- An answer with nothing but a list of values. -/
def bare (values : List Json) : Json :=
  .ofPairs [("result", .list values)]

theorem lists_bare (values : List Json) : Lists (bare values) values :=
  .bare rfl rfl

variable {answer : Json} {values : List Json}

/-- **An answer is read as a list of values exactly if it lists them.** -/
theorem Answer.ofJson_eq_accounts :
    Answer.ofJson answer = .accounts values ↔ Lists answer values := by
  constructor
  · intro h
    unfold Answer.ofJson at h
    split at h
    next => cases h
    next sound =>
      split at h
      next items hresult =>
        cases h
        exact .bare sound hresult
      next entries hresult =>
        split at h
        next items hvalue =>
          cases h
          exact .enveloped sound hresult hvalue
        next => cases h
      next => cases h
  · intro h
    unfold Answer.ofJson
    cases h with
    | bare sound result => rw [sound, result]
    | @enveloped envelope sound result value =>
      rw [sound, result]
      cases envelope with
      | object entries =>
        have hvalue : Entries.get? "value" entries = some (.list values) := value
        simp only [hvalue]
      | null | bool | number | text | list => cases value

theorem accounts_of_lists (h : Lists answer values) :
    accounts answer = values.filterMap RawAccount.ofJson? := by
  unfold accounts
  rw [Answer.ofJson_eq_accounts.mpr h]

theorem accounts_of_not_lists (h : ∀ values, ¬ Lists answer values) : accounts answer = [] := by
  unfold accounts
  split
  next values hvalues => exact absurd (Answer.ofJson_eq_accounts.mp hvalues) (h values)
  next => rfl

theorem accounts_bare_singleton (value : Json) :
    accounts (bare [value]) = (RawAccount.ofJson? value).toList := by
  rw [accounts_of_lists (lists_bare [value]), List.filterMap_eq_flatMap_toList,
    List.flatMap_singleton]

/-- **The accounts of an answer are those of its values, one after the other.** -/
theorem accounts_eq_flatMap (h : Lists answer values) :
    accounts answer = values.flatMap fun value => accounts (bare [value]) := by
  simp only [accounts_bare_singleton]
  rw [accounts_of_lists h, List.filterMap_eq_flatMap_toList]

theorem filterMap_restated {others : List Json}
    (h : List.Forall₂ RawAccount.Restated values others) :
    others.filterMap RawAccount.ofJson? = values.filterMap RawAccount.ofJson? := by
  induction h with
  | nil => rfl
  | cons first rest ih =>
    rw [List.filterMap_cons, List.filterMap_cons, RawAccount.ofJson?_of_restated first, ih]

/-- **What an answer gives.** An answer with an error, whatever its value, and one that lists
nothing give no accounts. All answers that list the same values give the same accounts: what each
value gives alone, in order. That is at most one account, and there is one exactly if the value
describes it. Values whose data texts take the other form give the same again. -/
theorem accounts_exact (answer : Json) :
    (∀ error, answer.get? "error" = some error → accounts answer = []) ∧
    ((∀ values, ¬ Lists answer values) → accounts answer = []) ∧
    ∀ values, Lists answer values →
      (∀ other, Lists other values → accounts other = accounts answer) ∧
      accounts answer = values.flatMap (fun value => accounts (bare [value])) ∧
      (∀ value, (accounts (bare [value])).length ≤ 1 ∧
        ∀ account, account ∈ accounts (bare [value]) ↔ RawAccount.Describes value account) ∧
      ∀ others, List.Forall₂ RawAccount.Restated values others →
        ∀ other, Lists other others → accounts other = accounts answer := by
  refine ⟨fun error failed => accounts_of_not_lists fun values h => ?_, accounts_of_not_lists,
    fun values h => ⟨fun other hother => ?_, accounts_eq_flatMap h, fun value => ?_,
      fun others restated other hother => ?_⟩⟩
  · cases h with
    | bare sound | enveloped sound => cases sound.symm.trans failed
  · rw [accounts_of_lists hother, accounts_of_lists h]
  · rw [accounts_bare_singleton]
    refine ⟨?_, fun account => ?_⟩
    · exact Option.length_toList_le
    · rw [Option.mem_toList, RawAccount.ofJson?_eq_some]
  · rw [accounts_of_lists hother, accounts_of_lists h, filterMap_restated restated]

/-- A value with an address and data. -/
def holding (pubkey : String) (data : Json) : Json :=
  .ofPairs [("pubkey", .text pubkey), ("account", .ofPairs [("data", data)])]

/-- Three values of an answer: the data in a list, no data, the data as a text. -/
def mixed : List Json :=
  [holding "A" (.list [.text "AQI=", .text "base64"]), .ofPairs [("pubkey", .text "B")],
    holding "C" (.text "AwQ=")]

/-- The same values with each text of data in its other form. -/
def mixedRestated : List Json :=
  [(holding "A" (.list [.text "AQI=", .text "base64"])).withAccountData (.text "AQI="),
    .ofPairs [("pubkey", .text "B")],
    (holding "C" (.text "AwQ=")).withAccountData (.list [.text "AwQ=", .null])]

/-- An answer that lists values beside a context. -/
def withContext (values : List Json) : Json :=
  .ofPairs [("jsonrpc", .text "2.0"),
    ("result", .ofPairs [("context", .ofPairs [("slot", .nat 1)]), ("value", .list values)])]

/-- An answer with an error beside its values, one that lists nothing, and one whose values are
an account, a gap and an account, in either form of the answer and of the data. -/
theorem accounts_mixed :
    accounts (.ofPairs [("error", .null), ("result", .list mixed)]) = [] ∧
    accounts (.ofPairs [("result", .null)]) = [] ∧
    accounts (withContext mixed) = [⟨"A", "AQI="⟩, ⟨"C", "AwQ="⟩] ∧
    accounts (bare mixed) = accounts (withContext mixed) ∧
    accounts (withContext mixed) = mixed.flatMap (fun value => accounts (bare [value])) ∧
    accounts (bare mixedRestated) = accounts (withContext mixed) := by
  have listed : Lists (withContext mixed) mixed := .enveloped rfl rfl rfl
  have restated : List.Forall₂ RawAccount.Restated mixed mixedRestated :=
    .cons (.data rfl (.listed _ _) (.alone _)) <| .cons (.same _) <|
      .cons (.data rfl (.alone _) (.listed _ _)) .nil
  have none_listed : ∀ values, ¬ Lists (.ofPairs [("result", .null)]) values := by
    intro values h
    cases h with
    | bare _ result => cases result
    | enveloped _ result value =>
      cases result
      cases value
  obtain ⟨same, inOrder, -, other⟩ := (accounts_exact (withContext mixed)).2.2 mixed listed
  exact ⟨(accounts_exact _).1 .null rfl, (accounts_exact _).2.1 none_listed, rfl,
    same _ (lists_bare mixed), inOrder, other _ restated _ (lists_bare mixedRestated)⟩

end Rpc

end LedgerScan
