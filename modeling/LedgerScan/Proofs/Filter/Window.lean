import LedgerScan.Filter.Window
import LedgerScan.Proofs.Layout.Placed

/-!
# Windows and the places in them

A window that reaches from the first of some fields to the last starts where a field starts and
stops where a field stops. So it is the least one (`Spans.least`), and it cuts no other field: every
field lies inside it or apart from it (`Spans.covers_or_apart`). Where a field lies inside, padding
puts its bytes back in place (`slice_pad_of_covers`); where it lies apart, padding leaves zeros
(`slice_pad_of_apart`). Byte by byte this is said by `getElem?_pad`, of any bytes and any length
that can be counted: `pad_exact`.
-/

namespace LedgerScan

namespace Window

variable {window : Window} {place : Placement} {data bytes : List UInt8} {total : Nat}

/-- The bytes of a window. -/
def cut (window : Window) (data : List UInt8) : List UInt8 :=
  (data.drop window.offset).take window.length

/-- A place lies inside a window. -/
def Covers (window : Window) (place : Placement) : Prop :=
  window.offset ≤ place.offset ∧ place.stop ≤ window.offset + window.length

instance (window : Window) (place : Placement) : Decidable (window.Covers place) :=
  inferInstanceAs (Decidable (_ ∧ _))

/-- A place lies before a window or after it. -/
def Apart (window : Window) (place : Placement) : Prop :=
  place.stop ≤ window.offset ∨ window.offset + window.length ≤ place.offset

/-! ## 1. The least window -/

/-- **A window spans places**: it covers them all, starts where one of them starts and stops where
    one of them stops. -/
structure Spans (window : Window) (places : List Placement) : Prop where
  covers : ∀ p ∈ places, window.Covers p
  start : ∃ p ∈ places, window.offset = p.offset
  stop : ∃ p ∈ places, window.offset + window.length = p.stop

theorem spans_singleton (place : Placement) :
    Spans ⟨place.offset, place.stop - place.offset⟩ [place] := by
  have h : place.offset + (place.stop - place.offset) = place.stop :=
    Nat.add_sub_cancel' (Nat.le_add_right _ _)
  refine ⟨fun p hp => ?_, ⟨place, List.mem_singleton.mpr rfl, rfl⟩,
    ⟨place, List.mem_singleton.mpr rfl, h⟩⟩
  obtain rfl := List.mem_singleton.mp hp
  exact ⟨Nat.le_refl _, h.ge⟩

/-- One more place makes the window as wide as is needed. -/
theorem Spans.widen {start stop : Nat} {places : List Placement}
    (h : Spans ⟨start, stop - start⟩ places) (hle : start ≤ stop) (place : Placement) :
    Spans ⟨min start place.offset, max stop place.stop - min start place.offset⟩
      (places ++ [place]) := by
  have hplace : place.offset ≤ place.stop := Nat.le_add_right _ _
  have hstop : start + (stop - start) = stop := by omega
  have hwide : min start place.offset + (max stop place.stop - min start place.offset)
      = max stop place.stop := by omega
  obtain ⟨hcovers, ⟨first, hfirst, hstart⟩, ⟨last, hlast, hend⟩⟩ := h
  simp only [hstop] at hend
  refine ⟨fun p hp => ?_, ?_, ?_⟩
  · simp only [Covers, hwide]
    rcases List.mem_append.mp hp with hp | hp
    · obtain ⟨hfrom, hto⟩ := hcovers p hp
      simp only [hstop] at hfrom hto
      omega
    · obtain rfl := List.mem_singleton.mp hp
      omega
  · rcases Nat.le_total start place.offset with hmin | hmin
    · exact ⟨first, List.mem_append_left _ hfirst, (Nat.min_eq_left hmin).trans hstart⟩
    · exact ⟨place, List.mem_append_right _ (List.mem_singleton.mpr rfl), Nat.min_eq_right hmin⟩
  · simp only [hwide]
    rcases Nat.le_total stop place.stop with hmax | hmax
    · exact ⟨place, List.mem_append_right _ (List.mem_singleton.mpr rfl), Nat.max_eq_right hmax⟩
    · exact ⟨last, List.mem_append_left _ hlast, (Nat.max_eq_left hmax).trans hend⟩

theorem Spans.cover : ∀ (more : List Placement) {start stop : Nat} {places : List Placement},
    Spans ⟨start, stop - start⟩ places → start ≤ stop →
    Spans (Window.cover start stop more) (places ++ more)
  | [], _, _, places, h, _ => by
      rw [List.append_nil]
      exact h
  | place :: more, start, stop, places, h, hle => by
      rw [List.append_cons]
      exact Spans.cover more (h.widen hle place) (by omega)

/-- **The least window of some places spans them.** -/
theorem spans_cover (place : Placement) (places : List Placement) :
    Spans (Window.cover place.offset place.stop places) (place :: places) :=
  (spans_singleton place).cover places (Nat.le_add_right _ _)

/-- **A window that spans places is the least one**: no other reaches from before all of them to
    behind them and leaves out some of it. -/
theorem Spans.least {places : List Placement} (h : window.Spans places) {start stop : Nat}
    (wide : ∀ p ∈ places, start ≤ p.offset ∧ p.stop ≤ stop) :
    start ≤ window.offset ∧ window.offset + window.length ≤ stop := by
  obtain ⟨first, hfirst, hstart⟩ := h.start
  obtain ⟨last, hlast, hstop⟩ := h.stop
  rw [hstop, hstart]
  exact ⟨(wide first hfirst).1, (wide last hlast).2⟩

/-- Which window spans places depends only on which places these are. -/
theorem Spans.unique {other : Window} {places others : List Placement} (h : window.Spans places)
    (h' : other.Spans others) (same : ∀ p, p ∈ places ↔ p ∈ others) : window = other := by
  obtain ⟨hfrom, hto⟩ := h.least fun p hp => h'.covers p ((same p).mp hp)
  obtain ⟨hfrom', hto'⟩ := h'.least fun p hp => h.covers p ((same p).mpr hp)
  obtain ⟨offset, length⟩ := window
  obtain ⟨offset', length'⟩ := other
  simp only at hfrom hto hfrom' hto'
  obtain rfl : offset = offset' := by omega
  obtain rfl : length = length' := by omega
  rfl

/-- A window that spans some fields of a record cuts no field of it. -/
theorem Spans.covers_or_apart {schema : Schema} {fields : List Field} {offset : Nat}
    {placed : List (String × Placement)} {places : List Placement} (h : window.Spans places)
    (laid : schema.Placed fields offset placed total)
    (hplaces : ∀ p ∈ places, ∃ name, (name, p) ∈ placed) :
    ∀ q ∈ placed, window.Covers q.2 ∨ window.Apart q.2 := by
  intro q hq
  obtain ⟨first, hfirst, hstart⟩ := h.start
  obtain ⟨last, hlast, hstop⟩ := h.stop
  obtain ⟨_, hfirst⟩ := hplaces first hfirst
  obtain ⟨_, hlast⟩ := hplaces last hlast
  have hq' : q.2.offset ≤ q.2.stop := Nat.le_add_right _ _
  have hfrom : q.2.stop ≤ window.offset ∨ window.offset ≤ q.2.offset := by
    rw [hstart]
    rcases laid.apart _ hfirst q hq with rfl | hbefore | hafter
    · exact .inr (Nat.le_refl _)
    · exact .inr ((Nat.le_add_right _ _).trans hbefore)
    · exact .inl hafter
  have hto : window.offset + window.length ≤ q.2.offset ∨
      q.2.stop ≤ window.offset + window.length := by
    rw [hstop]
    rcases laid.apart _ hlast q hq with rfl | hbefore | hafter
    · exact .inr (Nat.le_refl _)
    · exact .inl hbefore
    · exact .inr (hafter.trans (Nat.le_add_right _ _))
  rcases hfrom with hbefore | hfrom
  · exact .inr (.inl hbefore)
  · exact hto.elim (fun hafter => .inr (.inr hafter)) (fun hto => .inl ⟨hfrom, hto⟩)

/-! ## 2. Putting the bytes back -/

theorem length_cut (h : window.offset + window.length ≤ data.length) :
    (window.cut data).length = window.length := by
  rw [cut, List.length_take, List.length_drop]
  omega

/-- A window inside the first bytes cuts the same out of them as out of all. -/
theorem cut_take (inside : window.offset + window.length ≤ total) :
    window.cut (data.take total) = window.cut data := by
  rw [cut, List.drop_take, List.take_take, Nat.min_eq_left (by omega), cut]

/-- What 64 bits can count they count as it is. -/
theorem mod_eq_of_counted {n : Nat} (h : n ≤ maxLength) : n % 0x10000000000000000 = n :=
  Nat.mod_eq_of_lt (Nat.lt_succ_of_le h)

theorem stop_eq (h : window.offset + window.length ≤ maxLength) :
    window.stop = window.offset + window.length :=
  mod_eq_of_counted h

theorem length_resize (size : Nat) (bytes : List UInt8) : (resize size bytes).length = size := by
  rw [resize, List.length_append, List.length_take, List.length_replicate]
  omega

/-- However long the data are to be, as many bytes are made as 64 bits can count. -/
theorem length_pad_eq (window : Window) (total : Nat) (bytes : List UInt8) :
    (window.pad total bytes).length
      = (window.offset + bytes.length + (total - window.stop)) % 0x10000000000000000 := by
  rw [pad, length_resize, List.length_append, List.length_replicate]

/-- Where the length can be counted, padding adds zeros and takes nothing away, whether the bytes
    are as many as the window has or not. -/
theorem pad_eq (counted : window.offset + bytes.length + (total - window.stop) ≤ maxLength) :
    window.pad total bytes
      = List.replicate window.offset 0 ++ bytes ++ List.replicate (total - window.stop) 0 := by
  have hfront : (List.replicate window.offset (0 : UInt8) ++ bytes).length
      = window.offset + bytes.length := by
    rw [List.length_append, List.length_replicate]
  rw [pad, resize, hfront, mod_eq_of_counted counted,
    List.take_of_length_le (hfront.trans_le (Nat.le_add_right _ _)), Nat.add_sub_cancel_left]

/-- A window inside a record that has no more bytes than can be counted. -/
structure Inside (window : Window) (total : Nat) : Prop where
  within : window.offset + window.length ≤ total
  counted : total ≤ maxLength

theorem Inside.stop_eq (inside : window.Inside total) :
    window.stop = window.offset + window.length :=
  Window.stop_eq (inside.within.trans inside.counted)

/-- In a window of a record there are no more bytes than fit behind the zeros and before them. -/
theorem Inside.pad_eq (inside : window.Inside total) (short : bytes.length ≤ window.length) :
    window.pad total bytes = List.replicate window.offset 0 ++ bytes
      ++ List.replicate (total - (window.offset + window.length)) 0 := by
  obtain ⟨within, counted⟩ := inside
  have hstop := Window.stop_eq (within.trans counted)
  rw [Window.pad_eq (by rw [hstop]; omega), hstop]

/-- What a window lacks is lacking after padding. -/
theorem Inside.length_pad (inside : window.Inside total) (short : bytes.length ≤ window.length) :
    (window.pad total bytes).length = total - (window.length - bytes.length) := by
  have := inside.within
  rw [inside.pad_eq short, List.length_append, List.length_append, List.length_replicate,
    List.length_replicate]
  omega

theorem Inside.length_pad_cut (inside : window.Inside total)
    (hdata : window.offset + window.length ≤ data.length) :
    (window.pad total (window.cut data)).length = total := by
  have hcut : (window.cut data).length = window.length := length_cut hdata
  rw [inside.length_pad hcut.le, hcut, Nat.sub_self, Nat.sub_zero]

/-- Inside the window the bytes are back in their place. -/
theorem slice_pad_of_covers (h : window.Covers place) (inside : window.Inside total)
    (hdata : window.offset + window.length ≤ data.length) :
    place.slice (window.pad total (window.cut data)) = place.slice data := by
  obtain ⟨hfrom, hto⟩ := h
  unfold Placement.stop at hto
  have hcut : (window.cut data).length = window.length := length_cut hdata
  have hskip : place.offset - window.offset ≤ (window.cut data).length := by omega
  have hkeep : place.length ≤ ((window.cut data).drop (place.offset - window.offset)).length := by
    rw [List.length_drop]
    omega
  rw [inside.pad_eq hcut.le]
  unfold Placement.slice
  rw [List.append_assoc, List.drop_append, List.length_replicate,
    List.drop_eq_nil_of_le (by rw [List.length_replicate]; omega), List.nil_append,
    List.drop_append_of_le_length hskip, List.take_append_of_le_length hkeep, cut, List.drop_take,
    List.take_take, List.drop_drop, Nat.add_sub_cancel' hfrom, Nat.min_eq_left (by omega)]

/-- Apart from the window there are zeros. -/
theorem slice_pad_of_apart (h : window.Apart place) (inside : window.Inside total)
    (hbytes : bytes.length = window.length) (hplace : place.stop ≤ total) :
    place.slice (window.pad total bytes) = List.replicate place.length 0 := by
  unfold Placement.stop at hplace
  rw [inside.pad_eq hbytes.le]
  unfold Placement.slice
  rcases h with hbefore | hafter
  · unfold Placement.stop at hbefore
    rw [List.append_assoc, List.drop_append_of_le_length (by rw [List.length_replicate]; omega),
      List.drop_replicate, List.take_append_of_le_length (by rw [List.length_replicate]; omega),
      List.take_replicate, Nat.min_eq_left (by omega)]
  · rw [List.drop_append, List.drop_eq_nil_of_le
      (by rw [List.length_append, List.length_replicate, hbytes]; exact hafter), List.nil_append,
      List.drop_replicate, List.take_replicate]
    rw [List.length_append, List.length_replicate, hbytes, Nat.min_eq_left (by omega)]

/-! ## 3. Byte by byte -/

theorem getElem?_cut (i : Nat) :
    (window.cut data)[i]? = if i < window.length then data[window.offset + i]? else none := by
  rw [cut, List.getElem?_take, List.getElem?_drop]

section Counted

variable (counted : window.offset + bytes.length + (total - window.stop) ≤ maxLength)

include counted

/-- The zeros in front, the bytes, the zeros behind. -/
theorem getElem?_pad (i : Nat) :
    (window.pad total bytes)[i]?
      = if i < window.offset then some 0
        else if i < window.offset + bytes.length then bytes[i - window.offset]?
        else if i < window.offset + bytes.length + (total - window.stop) then some 0
        else none := by
  rw [pad_eq counted, List.getElem?_append, List.getElem?_append, List.getElem?_replicate,
    List.getElem?_replicate, List.length_append, List.length_replicate]
  split_ifs <;> first | rfl | omega

/-- The bytes are found again where the window starts. -/
theorem take_drop_pad :
    ((window.pad total bytes).drop window.offset).take bytes.length = bytes := by
  rw [pad_eq counted, List.append_assoc, List.drop_left' List.length_replicate, List.take_left]

/-- Beside the bytes there are zeros only. -/
theorem getElem?_pad_of_beside {i : Nat} (inside : i < (window.pad total bytes).length)
    (beside : i < window.offset ∨ window.offset + bytes.length ≤ i) :
    (window.pad total bytes)[i]? = some 0 := by
  rw [length_pad_eq, mod_eq_of_counted counted] at inside
  rw [getElem?_pad counted]
  rcases beside with hbefore | hbehind
  · rw [if_pos hbefore]
  · rw [if_neg (by omega), if_neg (by omega), if_pos inside]

end Counted

/-- **Padding undoes cutting.** Let a window lie inside data whose length can be counted in 64 bits.
    The bytes that it cuts out of them, padded to the length of the data, have that length again;
    they are the data in the window and zeros outside of it. Any bytes, more or fewer than the
    window has, stand after padding at the offset of the window, and beside them are zeros: as many
    in front as the offset, and behind as many as the asked length goes beyond the window. For this
    the end of the window and the length that is reached must be such that 64 bits can count
    them. -/
theorem pad_exact (window : Window) :
    (∀ data : List UInt8, data.length ≤ maxLength →
      window.offset + window.length ≤ data.length →
      let padded := window.pad data.length (window.cut data)
      padded.length = data.length ∧
      (∀ i, window.offset ≤ i → i < window.offset + window.length → padded[i]? = data[i]?) ∧
      ∀ i < data.length, i < window.offset ∨ window.offset + window.length ≤ i →
        padded[i]? = some 0) ∧
    ∀ (total : Nat) (bytes : List UInt8), window.offset + window.length ≤ maxLength →
      window.offset + bytes.length + (total - (window.offset + window.length)) ≤ maxLength →
      let padded := window.pad total bytes
      padded.length
        = window.offset + bytes.length + (total - (window.offset + window.length)) ∧
      (padded.drop window.offset).take bytes.length = bytes ∧
      ∀ i < padded.length, i < window.offset ∨ window.offset + bytes.length ≤ i →
        padded[i]? = some 0 := by
  refine ⟨fun data counted within => ?_, fun total bytes fits counted => ?_⟩
  · have inside : window.Inside data.length := ⟨within, counted⟩
    have hcut : (window.cut data).length = window.length := length_cut within
    have hlength := inside.length_pad_cut within
    have hcounted : window.offset + (window.cut data).length + (data.length - window.stop)
        ≤ maxLength := by
      rw [hcut, inside.stop_eq]
      omega
    refine ⟨hlength, fun i hfrom hto => ?_, fun i hi hbeside => ?_⟩
    · rw [getElem?_pad hcounted, if_neg (by omega), if_pos (by omega), getElem?_cut,
        if_pos (by omega), Nat.add_sub_cancel' hfrom]
    · exact getElem?_pad_of_beside hcounted (hlength.symm ▸ hi) (by rw [hcut]; exact hbeside)
  · rw [← stop_eq fits] at counted ⊢
    refine ⟨?_, take_drop_pad counted, fun i hi hbeside =>
      getElem?_pad_of_beside counted hi hbeside⟩
    rw [length_pad_eq, mod_eq_of_counted counted]

/-- Three bytes from the middle of seven, and five bytes in place of the three. -/
theorem pad_middle :
    let window : Window := ⟨2, 3⟩
    window.offset + window.length ≤ maxLength ∧
      (window.pad 7 (window.cut [1, 2, 3, 4, 5, 6, 7]))[4]? = some 5 ∧
      (window.pad 7 (window.cut [1, 2, 3, 4, 5, 6, 7]))[5]? = some 0 ∧
      (window.pad 7 [9, 9, 9, 9, 9]).length = 9 ∧
      (window.pad 7 [9, 9, 9, 9, 9])[8]? = some 0 := by
  intro window
  have fits : window.offset + window.length ≤ maxLength := by decide
  obtain ⟨hcut, hany⟩ := pad_exact window
  obtain ⟨_, hinside, houtside⟩ := hcut [1, 2, 3, 4, 5, 6, 7] (by decide) (by decide)
  obtain ⟨hlength, _, hbeside⟩ := hany 7 [9, 9, 9, 9, 9] fits (by decide)
  exact ⟨fits, hinside 4 (by decide) (by decide), houtside 5 (by decide) (by decide), hlength,
    hbeside 8 (by decide) (by decide)⟩

/-- The greatest length there is, behind a window that is empty: with two bytes in it the length
    that is to be reached is beyond 64 bits, and one of the bytes is lost. -/
theorem pad_uncounted :
    let window : Window := ⟨0, 0⟩
    window.offset + window.length ≤ maxLength ∧
      window.pad maxLength [1, 2] = [1] ∧
      (window.pad maxLength [1, 2]).length
        ≠ window.offset + 2 + (maxLength - (window.offset + window.length)) := by
  decide +kernel

end Window

end LedgerScan
