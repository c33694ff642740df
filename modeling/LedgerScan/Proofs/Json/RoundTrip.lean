import LedgerScan.Json.Printer
import LedgerScan.Proofs.Entries
import LedgerScan.Proofs.Json.Number
import LedgerScan.Proofs.Json.Quoted

/-!
# Values are read back from their text

A value is a document in which every number and text has a value and no key is repeated
(`Json.toDocument`). The compact text of a plain value is read as that document (`parse?_render`). A
value is plain if its numbers are integers of 64 bits and the keys of its objects are in order.
Doubles are left out: the reader rounds twice and may miss the double that was written.

Reading is bounded by steps. Each bracket, comma and colon is a character of the text and costs at
most two steps, so twice the length of what is read is enough at every level.
-/

namespace LedgerScan

namespace Json

mutual

/-- The document that says a value. -/
def toDocument : Json → Document
  | .null => .null
  | .bool b => .bool b
  | .number n => .number (some n)
  | .text s => .text (some s)
  | .list items => .list (toDocuments items)
  | .object entries => .object (toMembers entries)

/-- The documents that say the items of a list. -/
def toDocuments : List Json → List Document
  | [] => []
  | item :: items => item.toDocument :: toDocuments items

/-- The members that say the entries of an object. -/
def toMembers : List (String × Json) → List (Option String × Document)
  | [] => []
  | (key, value) :: entries => (some key, value.toDocument) :: toMembers entries

end

/-- **A plain value.** Its numbers are integers of 64 bits, and the entries of its objects are in
    the order of their keys. -/
inductive Plain : Json → Prop where
  | null : Plain .null
  | bool (b : Bool) : Plain (.bool b)
  | number {n : Number} (fits : n.IsInteger) : Plain (.number n)
  | text (s : String) : Plain (.text s)
  | list {items : List Json} (each : ∀ item ∈ items, item.Plain) : Plain (.list items)
  | object {entries : List (String × Json)} (sorted : Entries.Sorted entries)
      (each : ∀ entry ∈ entries, entry.2.Plain) : Plain (.object entries)

theorem Plain.isInteger {n : Number} (h : Plain (.number n)) : n.IsInteger := by
  cases h with | number fits => exact fits

theorem Plain.items {items : List Json} (h : Plain (.list items)) : ∀ item ∈ items, item.Plain := by
  cases h with | list each => exact each

theorem Plain.entries {entries : List (String × Json)} (h : Plain (.object entries)) :
    ∀ entry ∈ entries, entry.2.Plain := by
  cases h with | object _ each => exact each

end Json

namespace Document

open Json NumberText

/-! ## 1. Where a value begins -/

/-- Neither a blank nor a character that closes a bracket. -/
def Begins (text : List Char) : Prop :=
  ∃ c rest, text = c :: rest ∧ isBlank c = false ∧ c ≠ ']' ∧ c ≠ '}'

theorem Begins.append {text : List Char} (h : Begins text) (rest : List Char) :
    Begins (text ++ rest) := by
  obtain ⟨c, cs, rfl, hc⟩ := h
  exact ⟨c, cs ++ rest, rfl, hc⟩

theorem Begins.skipBlanks {text : List Char} (h : Begins text) : skipBlanks text = text := by
  obtain ⟨c, cs, rfl, hblank, -⟩ := h
  rw [Document.skipBlanks, List.dropWhile_cons, hblank]
  rfl

/-- An integer begins with a digit or a minus, so with nothing that begins another value. -/
theorem exists_first (i : Int) : ∃ c cs, (Number.int i).encode = c :: cs ∧
    isBlank c = false ∧ ∀ other ∈ [']', '}', '[', '{', '"', 'n', 't', 'f'], c ≠ other := by
  unfold Number.encode
  dsimp only
  split
  · exact ⟨'-', _, rfl, rfl, by simp⟩
  · obtain ⟨c, cs, hdigits⟩ : ∃ c cs, Binary64.digitChars i.toNat = c :: cs :=
      List.exists_cons_of_ne_nil Nat.toDigits_ne_nil
    have hc : c.isDigit = true := isDigit_of_mem_digitChars (hdigits ▸ List.mem_cons_self)
    have hne : ∀ other : Char, other.isDigit = false → c ≠ other := by
      rintro other hother rfl
      rw [hc] at hother
      cases hother
    refine ⟨c, cs, hdigits, ?_, fun other hother => hne other ?_⟩
    · simp [isBlank, hne]
    · simp only [List.mem_cons, List.not_mem_nil, or_false] at hother
      rcases hother with rfl | rfl | rfl | rfl | rfl | rfl | rfl | rfl <;> rfl

theorem begins_encode {v : Json} (h : v.Plain) : Begins v.encode := by
  match v, h with
  | .null, _ => exact ⟨'n', _, by rw [encode], rfl, by decide, by decide⟩
  | .bool true, _ => exact ⟨'t', _, by rw [encode], rfl, by decide, by decide⟩
  | .bool false, _ => exact ⟨'f', _, by rw [encode], rfl, by decide, by decide⟩
  | .text s, _ => exact ⟨'"', _, by rw [encode, Quoted.encode], rfl, by decide, by decide⟩
  | .list [], _ | .list (_ :: _), _ =>
    exact ⟨'[', _, by rw [encode], rfl, by decide, by decide⟩
  | .object [], _ | .object ((_, _) :: _), _ =>
    exact ⟨'{', _, by rw [encode], rfl, by decide, by decide⟩
  | .number (.int i), _ =>
    obtain ⟨c, cs, hfirst, hblank, hother⟩ := exists_first i
    exact ⟨c, cs, by rw [encode, hfirst], hblank, hother _ (by decide), hother _ (by decide)⟩
  | .number (.float _), h => exact h.isInteger.elim

/-! ## 2. One bracket, text or number -/

section Steps

variable {steps : Nat} {text rest : List Char}

theorem read?_list (h : Begins text) :
    read? (steps + 1) ('[' :: text)
      = (readItems? steps text).map fun (items, rest) => (.list items, rest) := by
  have hskip := h.skipBlanks
  obtain ⟨c, cs, rfl, -, hc, -⟩ := h
  rw [read?, show skipBlanks ('[' :: c :: cs) = '[' :: c :: cs from rfl]
  dsimp only
  rw [if_pos rfl, hskip]
  split
  · rename_i heq
    exact absurd (List.cons.inj heq).1 hc
  · rfl

theorem read?_object (key : String) (text : List Char) :
    read? (steps + 1) ('{' :: (Quoted.encode key ++ text))
      = (readMembers? steps (Quoted.encode key ++ text)).map
          fun (members, rest) => (.object members, rest) := by
  rw [Quoted.encode, read?]
  rfl

theorem read?_text (s : String) (rest : List Char) :
    read? (steps + 1) (Quoted.encode s ++ rest) = some (.text (some s), rest) := by
  have hquoted := Quoted.readQuoted?_encode s rest
  rw [Quoted.encode, List.cons_append, List.append_assoc, List.singleton_append, read?,
    show ∀ text, skipBlanks ('"' :: text) = '"' :: text from fun _ => rfl]
  show (readQuoted? _).map _ = _
  rw [hquoted]
  rfl

theorem read?_number {i : Int} (h : (Number.int i).IsInteger) (hrest : Ends rest) :
    read? (steps + 1) ((Number.int i).encode ++ rest) = some (.number (some (.int i)), rest) := by
  have hread := NumberText.read?_encode i hrest
  obtain ⟨c, cs, hfirst, hblank, hother⟩ := exists_first i
  have hskip : skipBlanks (c :: (cs ++ rest)) = c :: (cs ++ rest) := by
    rw [skipBlanks, List.dropWhile_cons, hblank]
    rfl
  rw [hfirst, List.cons_append] at hread
  rw [hfirst, List.cons_append, read?, hskip]
  dsimp only
  rw [if_neg (hother '[' (by decide)), if_neg (hother '{' (by decide)),
    if_neg (hother '"' (by decide)), if_neg (hother 'n' (by decide)),
    if_neg (hother 't' (by decide)), if_neg (hother 'f' (by decide)), hread, Option.map_some,
    value?_ofInt h]

theorem readItems?_comma {item : Document} {items : List Document} {input : List Char}
    (hitem : read? steps input = some (item, ',' :: text))
    (hitems : readItems? steps text = some (items, rest)) :
    readItems? (steps + 1) input = some (item :: items, rest) := by
  rw [readItems?, hitem]
  show (readItems? steps text >>= _) = _
  rw [hitems]
  rfl

theorem readItems?_last {item : Document} {input : List Char}
    (hitem : read? steps input = some (item, ']' :: rest)) :
    readItems? (steps + 1) input = some ([item], rest) := by
  rw [readItems?, hitem]
  rfl

/-- A member is a key, a colon and a value; what stands behind the value decides how it goes on. -/
theorem readMembers?_member {key : String} {value : Document} {input after : List Char}
    (hvalue : read? steps input = some (value, after)) :
    readMembers? (steps + 1) (Quoted.encode key ++ ':' :: input)
      = match skipBlanks after with
        | ',' :: text => (readMembers? steps text).bind fun (members, rest) =>
            some ((some key, value) :: members, rest)
        | '}' :: rest => some ([(some key, value)], rest)
        | _ => none := by
  have hquoted := Quoted.readQuoted?_encode key (':' :: input)
  rw [Quoted.encode, List.cons_append, List.append_assoc, List.singleton_append, readMembers?]
  show (readQuoted? _ >>= _) = _
  rw [hquoted]
  show (read? steps input >>= _) = _
  rw [hvalue]
  rfl

theorem readMembers?_comma {key : String} {value : Document}
    {members : List (Option String × Document)} {input : List Char}
    (hvalue : read? steps input = some (value, ',' :: text))
    (hmembers : readMembers? steps text = some (members, rest)) :
    readMembers? (steps + 1) (Quoted.encode key ++ ':' :: input)
      = some ((some key, value) :: members, rest) := by
  rw [readMembers?_member hvalue]
  show (readMembers? steps text).bind _ = _
  rw [hmembers]
  rfl

theorem readMembers?_last {key : String} {value : Document} {input : List Char}
    (hvalue : read? steps input = some (value, '}' :: rest)) :
    readMembers? (steps + 1) (Quoted.encode key ++ ':' :: input)
      = some ([(some key, value)], rest) := by
  rw [readMembers?_member hvalue]
  rfl

end Steps

/-! ## 3. Whole values -/

theorem ends_cons {c : Char} (h : c ∈ [',', ']', '}']) (rest : List Char) : Ends (c :: rest) := by
  intro d hd
  cases hd
  exact h

mutual

/-- **A value is read back from its text**, in as many steps as two for each character. -/
theorem read?_encode : ∀ (v : Json) (steps : Nat) (rest : List Char), v.Plain →
    2 * v.encode.length ≤ steps → Ends rest →
    read? steps (v.encode ++ rest) = some (v.toDocument, rest)
  | .null, steps + 1, rest, _, _, _ => by
    rw [encode, read?]
    rfl
  | .bool true, steps + 1, rest, _, _, _ => by
    rw [encode, read?]
    rfl
  | .bool false, steps + 1, rest, _, _, _ => by
    rw [encode, read?]
    rfl
  | .number (.int i), steps + 1, rest, h, _, hrest => by
    rw [encode]
    exact read?_number h.isInteger hrest
  | .number (.float _), _, _, h, _, _ => h.isInteger.elim
  | .text s, steps + 1, rest, _, _, _ => by
    rw [encode]
    exact read?_text s rest
  | .list [], steps + 1, rest, _, _, _ => by
    rw [encode, read?]
    rfl
  | .list (item :: items), steps + 1, rest, h, hsteps, _ => by
    rw [encode, List.length_cons] at hsteps
    have hitem := begins_encode (h.items item List.mem_cons_self)
    have hitems := readItems?_encode item items steps rest h.items (by omega)
    rw [encode, List.cons_append, read?_list ((hitem.append _).append rest), hitems]
    rfl
  | .object [], steps + 1, rest, _, _, _ => by
    rw [encode, read?]
    rfl
  | .object ((key, value) :: entries), steps + 1, rest, h, hsteps, _ => by
    rw [encode, List.length_cons] at hsteps
    have hentries := readMembers?_encode key value entries steps rest h.entries (by omega)
    rw [encode, List.cons_append, List.append_assoc, List.cons_append, read?_object, hentries]
    rfl
  | v, 0, rest, h, hsteps, _ => by
    obtain ⟨c, cs, hfirst, -⟩ := begins_encode h
    rw [hfirst] at hsteps
    simp at hsteps

/-- The items of a list. -/
theorem readItems?_encode : ∀ (item : Json) (items : List Json) (steps : Nat) (rest : List Char),
    (∀ v ∈ item :: items, v.Plain) →
    2 * (item.encode ++ encodeItems items).length ≤ steps →
    readItems? steps (item.encode ++ encodeItems items ++ rest)
      = some (toDocuments (item :: items), rest)
  | item, [], steps + 1, rest, h, hsteps => by
    rw [encodeItems] at hsteps ⊢
    rw [List.length_append, List.length_singleton] at hsteps
    have hitem := read?_encode item steps (']' :: rest) (h item List.mem_cons_self) (by omega)
      (ends_cons (by decide) rest)
    rw [List.append_assoc]
    exact readItems?_last hitem
  | item, next :: items, steps + 1, rest, h, hsteps => by
    rw [encodeItems] at hsteps ⊢
    rw [List.length_append, List.length_cons] at hsteps
    have hitem := read?_encode item steps (',' :: (next.encode ++ encodeItems items ++ rest))
      (h item List.mem_cons_self) (by omega) (ends_cons (by decide) _)
    have hitems := readItems?_encode next items steps rest
      (List.forall_mem_cons.mp h).2 (by omega)
    rw [List.append_assoc, List.cons_append]
    exact readItems?_comma hitem hitems
  | item, items, 0, rest, _, hsteps => by
    cases items <;> simp [encodeItems] at hsteps

/-- The entries of an object. -/
theorem readMembers?_encode : ∀ (key : String) (value : Json) (entries : List (String × Json))
    (steps : Nat) (rest : List Char),
    (∀ entry ∈ (key, value) :: entries, entry.2.Plain) →
    2 * (Quoted.encode key ++ ':' :: (value.encode ++ encodeEntries entries)).length ≤ steps →
    readMembers? steps (Quoted.encode key ++ ':' :: (value.encode ++ encodeEntries entries ++ rest))
      = some (toMembers ((key, value) :: entries), rest)
  | key, value, [], steps + 1, rest, h, hsteps => by
    rw [encodeEntries] at hsteps ⊢
    rw [List.length_append, List.length_cons, List.length_append, List.length_singleton] at hsteps
    have hvalue := read?_encode value steps ('}' :: rest) (h _ List.mem_cons_self) (by omega)
      (ends_cons (by decide) rest)
    rw [List.append_assoc]
    exact readMembers?_last hvalue
  | key, value, (next, nextValue) :: entries, steps + 1, rest, h, hsteps => by
    rw [encodeEntries] at hsteps ⊢
    rw [List.length_append, List.length_cons, List.length_append, List.length_cons] at hsteps
    have hvalue := read?_encode value steps
      (',' :: (Quoted.encode next ++ ':' :: (nextValue.encode ++ encodeEntries entries ++ rest)))
      (h _ List.mem_cons_self) (by omega) (ends_cons (by decide) _)
    have hentries := readMembers?_encode next nextValue entries steps rest
      (List.forall_mem_cons.mp h).2 (by omega)
    rw [List.append_assoc, List.cons_append, List.append_assoc, List.cons_append]
    exact readMembers?_comma hvalue hentries
  | key, value, entries, 0, rest, _, hsteps => by
    simp at hsteps

end

/-- **The compact text of a plain value says the value.** -/
theorem parse?_render {v : Json} (h : v.Plain) : parse? v.render = some v.toDocument := by
  have hread := read?_encode v (2 * v.encode.length + 2) [] h (by omega) nofun
  rw [List.append_nil] at hread
  unfold parse? Json.render
  rw [String.toList_ofList]
  dsimp only
  rw [hread]
  rfl

end Document

end LedgerScan
