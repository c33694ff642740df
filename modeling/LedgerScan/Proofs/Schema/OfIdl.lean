import LedgerScan.Proofs.Entries
import LedgerScan.Proofs.Schema.Meaning

/-!
# The schema that a description means

Declarations and accounts may share names, and then the order decides: an account that embeds a
body comes before every declaration, the last one of a kind before those in front of it. What a
name means is said by looking through the whole description (`bodyNamed?`, `accountNamed?`), while
a schema is built item after item. `Represents` holds between the items that were taken in and the
schema so far; every step keeps it (`addDeclaration_keeps`, `addAccount_keeps`). So there is a
schema exactly for the descriptions whose items all mean something where they stand, it is the one
they mean, and in every other case the first item without a meaning decides the error
(`ofIdl_exact`).
-/

namespace LedgerScan.Idl

open Fallible

/-! ## 1. What a description says about a name -/

/-- The last account with a name. -/
def accountNamed? (accounts : List Account) (name : String) : Option Account :=
  (accounts.filter (·.name = name)).getLast?

/-- The last body that an account embeds under a name. -/
def embedded? (accounts : List Account) (name : String) : Option Body :=
  ((accounts.filter (·.name = name)).filterMap (·.body)).getLast?

/-- The body of the last declaration with a name. -/
def declared? (types : List Declaration) (name : String) : Option Body :=
  ((types.filter (·.name = name)).map (·.body)).getLast?

/-- The body of a name: the last one that an account embeds, else the last declared one. -/
def bodyNamed? (types : List Declaration) (accounts : List Account) (name : String) :
    Option Body :=
  (embedded? accounts name).or (declared? types name)

/-- A declaration means something. -/
def Declaration.IsDefined (d : Declaration) : Prop :=
  ∃ definition, d.body.Means definition

/-- An account means something behind some declarations and accounts: the body it embeds does, or
    it embeds none and one of those has its name. -/
def Account.IsDefined (types : List Declaration) (before : List Account) (a : Account) : Prop :=
  match a.body with
  | some body => ∃ definition, body.Means definition
  | none => a.name ∈ types.map (·.name) ∨ a.name ∈ before.map (·.name)

/-- What is wrong with an account behind some declarations and accounts. -/
inductive Account.Fails (types : List Declaration) (before : List Account) (a : Account) :
    SchemaError → Prop where
  | embedded {body : Body} {e : SchemaError} (embeds : a.body = some body)
      (fails : body.Fails a.name e) : Fails types before a e
  | missing (embedsNone : a.body = none) (undeclared : a.name ∉ types.map (·.name))
      (first : a.name ∉ before.map (·.name)) : Fails types before a (.missingDefinition a.name)

/-- **The first item without a meaning**, declarations before accounts. -/
inductive Fails (idl : Idl) : SchemaError → Prop where
  | type {e : SchemaError}
      (fails : FirstFailsBehind (fun _ => Declaration.IsDefined) (fun _ d => d.body.Fails d.name)
        idl.types e) : Fails idl e
  | account {e : SchemaError} (types : ∀ d ∈ idl.types, d.IsDefined)
      (fails : FirstFailsBehind (Account.IsDefined idl.types) (Account.Fails idl.types)
        idl.accounts e) : Fails idl e

section Named

variable {types : List Declaration} {accounts : List Account} {name : String}

theorem accountNamed?_concat (a : Account) :
    accountNamed? (accounts ++ [a]) name
      = if a.name = name then some a else accountNamed? accounts name := by
  unfold accountNamed?
  by_cases h : a.name = name <;> simp [List.filter_append, h]

theorem embedded?_concat (a : Account) :
    embedded? (accounts ++ [a]) name
      = if a.name = name then a.body.or (embedded? accounts name) else embedded? accounts name := by
  unfold embedded?
  by_cases h : a.name = name
  · cases hbody : a.body <;> simp [List.filter_append, List.filterMap_append, h, hbody]
  · simp [List.filter_append, h]

theorem declared?_concat (d : Declaration) :
    declared? (types ++ [d]) name
      = if d.name = name then some d.body else declared? types name := by
  unfold declared?
  by_cases h : d.name = name <;> simp [List.filter_append, h]

/-- A name has a declared body if a declaration has it. -/
theorem declared?_isSome : (declared? types name).isSome ↔ name ∈ types.map (·.name) := by
  simp [declared?]

theorem embedded?_eq_none (h : name ∉ accounts.map (·.name)) : embedded? accounts name = none := by
  have hfilter : accounts.filter (·.name = name) = [] := by
    simpa [List.filter_eq_nil_iff] using h
  rw [embedded?, hfilter]
  rfl

theorem mem_of_accountNamed? {a : Account} (h : accountNamed? accounts name = some a) :
    a ∈ accounts ∧ a.name = name := by
  simpa using List.mem_filter.mp (List.mem_of_getLast? h)

/-- There is a last account with the name of an account. -/
theorem exists_accountNamed? {a : Account} (h : a ∈ accounts) :
    ∃ last, accountNamed? accounts a.name = some last := by
  have hfilter : a ∈ accounts.filter (·.name = a.name) := by simpa using h
  exact ⟨_, List.getLast?_eq_some_getLast (List.ne_nil_of_mem hfilter)⟩

end Named

end LedgerScan.Idl

namespace LedgerScan.Schema

open Fallible Idl

/-! ## 2. Taking in one item -/

/-- **A schema of the items so far.** Every name means what they say about it, and every account
    among them is defined. -/
structure Represents (types : List Declaration) (accounts : List Account) (schema : Schema) :
    Prop where
  definition : ∀ name, Option.Rel Body.Means (bodyNamed? types accounts name) (schema.find? name)
  header : ∀ name,
    Entries.get? name schema.discriminators = (accountNamed? accounts name).map (·.header)
  defined : ∀ a ∈ accounts, ∃ definition, schema.find? a.name = some definition

section Steps

variable {types : List Declaration} {accounts : List Account} {schema : Schema}

theorem find?_define (schema : Schema) (name other : String) (definition : TypeDef) :
    (schema.define name definition).find? other
      = if name = other then some definition else schema.find? other :=
  Entries.get?_insert name other definition schema.types

theorem represents_empty : Represents [] [] empty :=
  ⟨fun _ => .none, fun _ => rfl, nofun⟩

/-- **Taking in a declaration that means something.** -/
theorem addDeclaration_keeps (types : List Declaration) (d : Declaration) (schema : Schema)
    (h : Represents types [] schema) (means : d.IsDefined) :
    ∃ schema', schema.addDeclaration d = .ok schema' ∧ Represents (types ++ [d]) [] schema' := by
  obtain ⟨definition, means⟩ := means
  refine ⟨schema.define d.name definition,
    except_bind_eq_ok.mpr ⟨_, Body.toTypeDef_eq_ok.mpr means, rfl⟩, fun name => ?_, h.header, nofun⟩
  show Option.Rel Body.Means (declared? (types ++ [d]) name) _
  rw [declared?_concat, find?_define]
  by_cases hname : d.name = name
  · rw [if_pos hname, if_pos hname]
    exact .some means
  · rw [if_neg hname, if_neg hname]
    exact h.definition name

/-- A name is defined if a declaration or an account so far has it. -/
theorem Represents.contains_iff (h : Represents types accounts schema) (name : String) :
    Entries.contains name schema.types = true ↔
      name ∈ types.map (·.name) ∨ name ∈ accounts.map (·.name) := by
  have hrel := h.definition name
  show (schema.find? name).isSome = true ↔ _
  generalize hfound : schema.find? name = found at hrel
  constructor
  · intro hsome
    by_cases haccount : name ∈ accounts.map (·.name)
    · exact .inr haccount
    · refine .inl (declared?_isSome.mp ?_)
      rw [bodyNamed?, embedded?_eq_none haccount, Option.none_or] at hrel
      generalize declared? types name = body at hrel
      cases hrel with
      | some _ => rfl
      | none => cases hsome
  · rintro (htype | haccount)
    · have hbody : (bodyNamed? types accounts name).isSome := by
        rw [bodyNamed?, Option.isSome_or, declared?_isSome.mpr htype, Bool.or_true]
      generalize bodyNamed? types accounts name = body at hrel hbody
      cases hrel with
      | some _ => rfl
      | none => cases hbody
    · obtain ⟨a, ha, rfl⟩ := List.mem_map.mp haccount
      obtain ⟨definition, hdefined⟩ := h.defined a ha
      rw [← hfound, hdefined]
      rfl

theorem addAccount_of_body {a : Account} {body : Body} (h : a.body = some body) :
    schema.addAccount a = body.toTypeDef a.name >>= fun definition =>
      .ok ((schema.define a.name definition).withDiscriminator a.name a.header) := by
  unfold addAccount
  rw [h]
  rfl

theorem addAccount_of_none {a : Account} (h : a.body = none) :
    schema.addAccount a = if Entries.contains a.name schema.types
      then .ok (schema.withDiscriminator a.name a.header)
      else .error (.missingDefinition a.name) := by
  unfold addAccount
  rw [h]
  by_cases hcontains : Entries.contains a.name schema.types
  · rw [if_pos hcontains]
    exact if_pos hcontains
  · rw [if_neg hcontains]
    exact if_neg hcontains

/-- **Taking in an account that means something**, with the body it embeds or without one. -/
theorem addAccount_keeps (types : List Declaration) (before : List Account) (a : Account)
    (schema : Schema) (h : Represents types before schema) (means : a.IsDefined types before) :
    ∃ schema', schema.addAccount a = .ok schema' ∧ Represents types (before ++ [a]) schema' := by
  have hheader : ∀ name,
      Entries.get? name (Entries.insert a.name a.header schema.discriminators)
        = (accountNamed? (before ++ [a]) name).map (·.header) := by
    intro name
    rw [Entries.get?_insert, accountNamed?_concat, h.header, apply_ite (Option.map _)]
    rfl
  unfold Account.IsDefined at means
  cases hbody : a.body with
  | some body =>
    rw [hbody] at means
    obtain ⟨definition, means⟩ := means
    have hfind : ∀ name, ((schema.define a.name definition).withDiscriminator a.name a.header).find?
        name = if a.name = name then some definition else schema.find? name :=
      fun name => find?_define schema a.name name definition
    refine ⟨(schema.define a.name definition).withDiscriminator a.name a.header, ?_, fun name => ?_,
      hheader, fun b hb => ?_⟩
    · rw [addAccount_of_body hbody]
      exact except_bind_eq_ok.mpr ⟨_, Body.toTypeDef_eq_ok.mpr means, rfl⟩
    · rw [hfind, bodyNamed?, embedded?_concat, hbody]
      by_cases hname : a.name = name
      · rw [if_pos hname, if_pos hname]
        exact .some means
      · rw [if_neg hname, if_neg hname]
        exact h.definition name
    · rw [hfind]
      by_cases hname : a.name = b.name
      · exact ⟨definition, if_pos hname⟩
      · rw [if_neg hname]
        rcases List.mem_append.mp hb with hb | hb
        · exact h.defined b hb
        · exact absurd (List.mem_singleton.mp hb ▸ rfl) hname
  | none =>
    rw [hbody] at means
    have hcontains : Entries.contains a.name schema.types = true :=
      (h.contains_iff a.name).mpr means
    refine ⟨schema.withDiscriminator a.name a.header, ?_, fun name => ?_, hheader, fun b hb => ?_⟩
    · rw [addAccount_of_none hbody, if_pos hcontains]
    · rw [bodyNamed?, embedded?_concat, hbody, Option.none_or, ite_self]
      exact h.definition name
    · rcases List.mem_append.mp hb with hb | hb
      · exact h.defined b hb
      · rw [List.mem_singleton.mp hb]
        exact Option.isSome_iff_exists.mp hcontains

/-- **An account without a meaning is not taken in**, and the error says what is wrong with it. -/
theorem addAccount_stops (types : List Declaration) (before : List Account) (a : Account)
    (schema : Schema) (e : SchemaError) (h : Represents types before schema)
    (fails : a.Fails types before e) : schema.addAccount a = .error e := by
  cases fails with
  | embedded embeds fails =>
    rw [addAccount_of_body embeds]
    exact except_bind_of_error (Body.toTypeDef_eq_error.mpr fails)
  | missing embedsNone undeclared first =>
    have hcontains : ¬ Entries.contains a.name schema.types = true :=
      fun hcontains => ((h.contains_iff a.name).mp hcontains).elim undeclared first
    rw [addAccount_of_none embedsNone, if_neg hcontains]

end Steps

/-! ## 3. A whole description -/

theorem isDefined_or_fails (d : Declaration) : d.IsDefined ∨ ∃ e, d.body.Fails d.name e := by
  cases h : d.body.toTypeDef d.name with
  | ok definition => exact .inl ⟨definition, Body.toTypeDef_eq_ok.mp h⟩
  | error e => exact .inr ⟨e, Body.toTypeDef_eq_error.mp h⟩

theorem account_isDefined_or_fails (types : List Declaration) (before : List Account)
    (a : Account) : a.IsDefined types before ∨ ∃ e, a.Fails types before e := by
  unfold Account.IsDefined
  cases hbody : a.body with
  | some body =>
    cases h : body.toTypeDef a.name with
    | ok definition => exact .inl ⟨definition, Body.toTypeDef_eq_ok.mp h⟩
    | error e => exact .inr ⟨e, .embedded hbody (Body.toTypeDef_eq_error.mp h)⟩
  | none =>
    by_cases htypes : a.name ∈ types.map (·.name)
    · exact .inl (.inl htypes)
    by_cases hbefore : a.name ∈ before.map (·.name)
    · exact .inl (.inr hbefore)
    · exact .inr ⟨_, .missing hbody htypes hbefore⟩

section Whole

variable {idl : Idl} {e : SchemaError}

theorem eachBehind_of_forall {types : List Declaration} :
    EachBehind (fun _ => Declaration.IsDefined) types ↔ ∀ d ∈ types, d.IsDefined := by
  constructor
  · intro h d hd
    obtain ⟨before, after, hsplit⟩ := List.append_of_mem hd
    exact h before d after hsplit
  · rintro h before d after rfl
    exact h d (List.mem_append_right _ List.mem_cons_self)

/-- The schema of the declarations alone. -/
theorem exists_declared (types : ∀ d ∈ idl.types, d.IsDefined) :
    ∃ schema, idl.types.foldlM addDeclaration empty = .ok schema ∧ Represents idl.types [] schema :=
  foldlM_of_eachBehind (fun types => Represents types []) represents_empty
    addDeclaration_keeps (eachBehind_of_forall.mpr types)

/-- **A description whose items all mean something has a schema**, which represents it. -/
theorem exists_represents (types : ∀ d ∈ idl.types, d.IsDefined)
    (accounts : EachBehind (Account.IsDefined idl.types) idl.accounts) :
    ∃ schema, ofIdl idl = .ok schema ∧ Represents idl.types idl.accounts schema := by
  obtain ⟨declared, hdeclared, hholds⟩ := exists_declared types
  obtain ⟨schema, hschema, hrepresents⟩ :=
    foldlM_of_eachBehind (Represents idl.types) hholds (addAccount_keeps idl.types) accounts
  exact ⟨schema, except_bind_eq_ok.mpr ⟨declared, hdeclared, hschema⟩, hrepresents⟩

/-- **Else the first item without a meaning decides the error.** -/
theorem ofIdl_of_fails (h : idl.Fails e) : ofIdl idl = .error e := by
  cases h with
  | type fails =>
    exact except_bind_of_error <|
      foldlM_of_firstFails (fun types => Represents types []) represents_empty
        addDeclaration_keeps
        (fun _ d _ _ _ hd => except_bind_of_error (Body.toTypeDef_eq_error.mpr hd)) fails
  | account types fails =>
    obtain ⟨declared, hdeclared, hholds⟩ := exists_declared types
    show (idl.types.foldlM addDeclaration empty >>= _) = _
    rw [hdeclared]
    exact foldlM_of_firstFails (Represents idl.types) hholds (addAccount_keeps idl.types)
      (addAccount_stops idl.types) fails

/-- The items of a description all mean something, or there is a first one that does not. -/
theorem defined_or_fails (idl : Idl) :
    ((∀ d ∈ idl.types, d.IsDefined) ∧ EachBehind (Account.IsDefined idl.types) idl.accounts) ∨
      ∃ e, idl.Fails e := by
  obtain htypes | ⟨e, htypes⟩ :=
    eachBehind_or_firstFails (fun _ => isDefined_or_fails) idl.types
  · rw [eachBehind_of_forall] at htypes
    obtain haccounts | ⟨e, haccounts⟩ :=
      eachBehind_or_firstFails (account_isDefined_or_fails idl.types) idl.accounts
    · exact .inl ⟨htypes, haccounts⟩
    · exact .inr ⟨e, .account htypes haccounts⟩
  · exact .inr ⟨e, .type htypes⟩

/-- An account without bytes of its own has a header all the same. -/
theorem header_ne_nil (a : Account) : a.header ≠ [] := by
  unfold Account.header
  split
  · intro h
    have hlength := congrArg List.length h
    rw [List.length_take, Sha256.length_digest] at hlength
    cases hlength
  · rename_i hbytes
    simpa using hbytes

theorem Represents.discriminator {types : List Declaration} {accounts : List Account}
    {schema : Schema} (h : Represents types accounts schema) (name : String) :
    schema.discriminator name = ((accountNamed? accounts name).map (·.header)).getD [] := by
  rw [Schema.discriminator, h.header]

theorem eachBehind_isDefined_iff {types : List Declaration} {accounts : List Account} :
    EachBehind (Account.IsDefined types) accounts ↔
      (∀ a ∈ accounts, ∀ body ∈ a.body, ∃ definition, body.Means definition) ∧
      ∀ before a after, accounts = before ++ a :: after → a.body = none →
        a.name ∈ types.map (·.name) ∨ a.name ∈ before.map (·.name) := by
  constructor
  · intro h
    refine ⟨fun a ha body hbody => ?_, fun before a after hsplit hnone => ?_⟩
    · obtain ⟨before, after, hsplit⟩ := List.append_of_mem ha
      have hdefined := h before a after hsplit
      rw [Account.IsDefined, Option.mem_def.mp hbody] at hdefined
      exact hdefined
    · have hdefined := h before a after hsplit
      rw [Account.IsDefined, hnone] at hdefined
      exact hdefined
  · rintro ⟨hbodies, hnames⟩ before a after hsplit
    unfold Account.IsDefined
    cases hbody : a.body with
    | some body => exact hbodies a (hsplit ▸ List.mem_append_right _ List.mem_cons_self) body hbody
    | none => exact hnames before a after hsplit hbody

/-- **The schema of a description is exactly what the description means.** There is one if and only
    if every declared and every embedded body means something and every account without a body has
    the name of a declaration or of an account before it. It gives every name the meaning of the
    last body that an account embeds under it, else of the last one declared, else none; its
    discriminator is the header of the last account with that name, and empty for other names; so
    every account is defined and has a discriminator. The error of a description without a schema is
    that of the first item without a meaning, and of the first part of it. -/
theorem ofIdl_exact (idl : Idl) :
    ((∃ schema, ofIdl idl = .ok schema) ↔
      (∀ d ∈ idl.types, ∃ definition, d.body.Means definition) ∧
      (∀ a ∈ idl.accounts, ∀ body ∈ a.body, ∃ definition, body.Means definition) ∧
      ∀ before a after, idl.accounts = before ++ a :: after → a.body = none →
        a.name ∈ idl.types.map (·.name) ∨ a.name ∈ before.map (·.name)) ∧
    (∀ schema, ofIdl idl = .ok schema →
      (∀ name,
        Option.Rel Body.Means (bodyNamed? idl.types idl.accounts name) (schema.find? name)) ∧
      (∀ name, schema.discriminator name = match accountNamed? idl.accounts name with
        | none => []
        | some a =>
          if a.discriminator ≠ [] then a.discriminator
          else (Sha256.digest (Utf8.encode ("account:" ++ name))).take 8) ∧
      ∀ a ∈ idl.accounts,
        (∃ definition, schema.find? a.name = some definition) ∧ schema.discriminator a.name ≠ []) ∧
    ∀ e, ofIdl idl = .error e ↔ idl.Fails e := by
  obtain ⟨htypes, haccounts⟩ | ⟨e, hfails⟩ := defined_or_fails idl
  · obtain ⟨schema, hschema, hrepresents⟩ := exists_represents htypes haccounts
    refine ⟨⟨fun _ => ⟨htypes, eachBehind_isDefined_iff.mp haccounts⟩, fun _ => ⟨schema, hschema⟩⟩,
      fun schema' hschema' => ?_, fun e => ⟨fun h => ?_, fun h => ofIdl_of_fails h⟩⟩
    · cases hschema.symm.trans hschema'
      refine ⟨hrepresents.definition, fun name => ?_, fun a ha => ⟨hrepresents.defined a ha, ?_⟩⟩
      · rw [hrepresents.discriminator]
        cases hnamed : accountNamed? idl.accounts name with
        | none => rfl
        | some a =>
          obtain ⟨-, rfl⟩ := mem_of_accountNamed? hnamed
          show a.header = _
          unfold Account.header
          by_cases hbytes : a.discriminator = [] <;> simp [hbytes]
      · obtain ⟨last, hlast⟩ := exists_accountNamed? ha
        rw [hrepresents.discriminator, hlast]
        exact header_ne_nil last
    · cases hschema.symm.trans h
  · have herror := ofIdl_of_fails hfails
    refine ⟨⟨fun ⟨schema, h⟩ => ?_, fun ⟨htypes, haccounts⟩ => ?_⟩, fun schema h => ?_,
      fun e' => ⟨fun h => ?_, fun h => ofIdl_of_fails h⟩⟩
    · cases herror.symm.trans h
    · obtain ⟨schema, hschema, -⟩ :=
        exists_represents htypes (eachBehind_isDefined_iff.mpr haccounts)
      exact ⟨schema, hschema⟩
    · cases herror.symm.trans h
    · cases herror.symm.trans h
      exact hfails

end Whole

/-! ## 4. Names that meet -/

/-- A field with the type of a name. -/
def price (type : String) : Body := .struct "struct" [⟨"price", .simple type⟩]

/-- A name that is declared twice and that two accounts have, one of which embeds a body. -/
def books (last : String) : Idl where
  version := none
  name := none
  address := none
  accounts := [⟨"Book", [7], some (price "u8")⟩, ⟨last, [8, 9], none⟩]
  types := [⟨"Book", none, price "u32"⟩, ⟨"Book", none, price "u16"⟩]
  metadata := none

/-- The body that is embedded hides the two that are declared, and the account behind it decides
    the discriminator. Under another name that account is the first item without a meaning. -/
theorem ofIdl_books :
    (∃ schema, ofIdl (books "Book") = .ok schema ∧
      schema.find? "Book" = some (.struct [⟨"price", .primitive .u8⟩]) ∧
      schema.discriminator "Book" = [8, 9]) ∧
    (books "Desk").Fails (.missingDefinition "Desk") := by
  constructor
  · obtain ⟨schema, hschema⟩ : ∃ schema, ofIdl (books "Book") = .ok schema := ⟨_, rfl⟩
    obtain ⟨hdefinition, hdiscriminator, -⟩ := (ofIdl_exact (books "Book")).2.1 schema hschema
    refine ⟨schema, hschema, ?_, hdiscriminator "Book"⟩
    have hrel : Option.Rel Body.Means (some (price "u8")) (schema.find? "Book") :=
      hdefinition "Book"
    generalize schema.find? "Book" = found at hrel
    cases hrel with
    | @some _ definition means =>
      have hconverts : (price "u8").toTypeDef "Book" = .ok definition :=
        Body.toTypeDef_eq_ok.mpr means
      cases hconverts
      rfl
  · exact ((ofIdl_exact (books "Desk")).2.2 _).mp rfl

end LedgerScan.Schema
