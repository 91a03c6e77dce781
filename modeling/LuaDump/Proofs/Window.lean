import LuaDump.Decoder

/-! # Windows and the bytes they hold

A sound window lies inside its file. Two windows agree between two positions when
their files hold the same bytes there, and a window holds a string of bytes at a
position when it has exactly these bytes from there on.
-/

namespace LuaDump.Window

/-- The window ends inside its file. -/
structure Sound (w : Window) : Prop where
  nonneg : 0 ≤ w.stop
  inFile : w.stop ≤ w.data.size

theorem whole_sound (data : Array UInt8) : (whole data).Sound :=
  ⟨Int.natCast_nonneg _, Int.le_refl _⟩

/-- The files of two windows hold the same bytes from `start` to `stop`. -/
def Agree (w w' : Window) (start stop : Int) : Prop :=
  ∀ i : Nat, start ≤ i → (i : Int) < stop → w.data[i]? = w'.data[i]?

namespace Agree

variable {w w' : Window} {start stop : Int}

theorem symm (hagree : w.Agree w' start stop) : w'.Agree w start stop := by
  intro i hstart hstop
  exact (hagree i hstart hstop).symm

theorem mono (hagree : w.Agree w' start stop) {start' stop' : Int} (hstart : start ≤ start')
    (hstop : stop' ≤ stop) : w.Agree w' start' stop' := by
  intro i hi hi'
  exact hagree i (by omega) (by omega)

end Agree

@[simp] theorem place_of_nonneg (w : Window) {pos : Int} (hpos : 0 ≤ pos) : w.place pos = pos := by
  simp [place, Int.not_lt.mpr hpos]

theorem byteAt?_of_nonneg (w : Window) {pos : Int} (hpos : 0 ≤ pos) :
    w.byteAt? pos = w.data[pos.toNat]? := by
  simp [byteAt?, hpos]

/-- A slice of a sound window, byte by byte. -/
theorem getElem?_slice {w : Window} (hw : w.Sound) {pos stop : Int} (hpos : 0 ≤ pos)
    (hle : pos ≤ stop) (hstop : stop ≤ w.stop) (i : Nat) :
    (w.slice pos stop)[i]? = if pos + i < stop then w.data[pos.toNat + i]? else none := by
  have hfile := hw.inFile
  have hbound : i < min stop.toNat w.data.size - pos.toNat ↔ pos + i < stop := by omega
  rw [slice, place_of_nonneg w hpos, place_of_nonneg w (by omega), Array.getElem?_toList,
    Array.getElem?_extract]
  simp only [hbound]

theorem length_slice {w : Window} (hw : w.Sound) {pos stop : Int} (hpos : 0 ≤ pos)
    (hle : pos ≤ stop) (hstop : stop ≤ w.stop) :
    ((w.slice pos stop).length : Int) = stop - pos := by
  have hfile := hw.inFile
  rw [slice, place_of_nonneg w hpos, place_of_nonneg w (by omega), Array.length_toList,
    Array.size_extract]
  omega

theorem slice_eq_of_agree {w w' : Window} (hw : w.Sound) (hw' : w'.Sound) {pos stop : Int}
    (hpos : 0 ≤ pos) (hle : pos ≤ stop) (hstop : stop ≤ w.stop) (hstop' : stop ≤ w'.stop)
    (hagree : w.Agree w' pos stop) : w.slice pos stop = w'.slice pos stop := by
  apply List.ext_getElem?
  intro i
  rw [getElem?_slice hw hpos hle hstop, getElem?_slice hw' hpos hle hstop']
  split
  next hi => exact hagree _ (by omega) (by omega)
  next => rfl

theorem reach_eq {w : Window} (hw : w.Sound) {pos : Int} (hpos : 0 ≤ pos) (hstop : pos ≤ w.stop) :
    (w.reach (w.place pos).toNat : Int) = w.stop - pos := by
  have hfile := hw.inFile
  rw [reach, place_of_nonneg w hpos, place_of_nonneg w hw.nonneg]
  omega

/-- The search stops at a terminator or goes on behind another byte. -/
theorem before?_succ_eq_some_iff {w : Window} {target : UInt8} {count start : Nat}
    {bytes : Bytes} :
    w.before? target (count + 1) start = some bytes ↔
      (w.data[start]? = some target ∧ bytes = []) ∨
        ∃ b rest, w.data[start]? = some b ∧ b ≠ target ∧
          w.before? target count (start + 1) = some rest ∧ bytes = b :: rest := by
  rw [before?]
  cases hbyte : w.data[start]? with
  | none => simp
  | some b =>
      by_cases htarget : b = target
      · simp [htarget, eq_comm]
      · cases w.before? target count (start + 1) <;> simp [Ne.symm htarget, eq_comm]

theorem length_before?_lt {w : Window} {target : UInt8} {count start : Nat} {bytes : Bytes}
    (hsome : w.before? target count start = some bytes) : bytes.length < count := by
  induction count generalizing start bytes with
  | zero => simp [before?] at hsome
  | succ count ih =>
      rcases before?_succ_eq_some_iff.mp hsome with ⟨-, rfl⟩ | ⟨b, rest, -, -, hrest, rfl⟩
      · exact Nat.succ_pos count
      · exact Nat.succ_lt_succ (ih hrest)

theorem notMem_before? {w : Window} {target : UInt8} {count start : Nat} {bytes : Bytes}
    (hsome : w.before? target count start = some bytes) : target ∉ bytes := by
  induction count generalizing start bytes with
  | zero => simp [before?] at hsome
  | succ count ih =>
      rcases before?_succ_eq_some_iff.mp hsome with ⟨-, rfl⟩ | ⟨b, rest, -, hother, hrest, rfl⟩
      · exact List.not_mem_nil
      · exact List.not_mem_cons_of_ne_of_not_mem hother.symm (ih hrest)

/-- The search finds the same bytes in every file that agrees up to the terminator. -/
theorem before?_eq_some_of_agree {w w' : Window} {target : UInt8} {count count' start : Nat}
    {bytes : Bytes} (hsome : w.before? target count start = some bytes)
    (hagree : w.Agree w' start (start + bytes.length + 1)) (hcount : bytes.length < count') :
    w'.before? target count' start = some bytes := by
  induction count generalizing start bytes count' with
  | zero => simp [before?] at hsome
  | succ count ih =>
      obtain ⟨count', rfl⟩ : ∃ n, count' = n + 1 := ⟨count' - 1, by omega⟩
      have hsame := hagree start (Int.le_refl _) (by omega)
      apply before?_succ_eq_some_iff.mpr
      rcases before?_succ_eq_some_iff.mp hsome with
        ⟨hbyte, rfl⟩ | ⟨b, rest, hbyte, hother, hrest, rfl⟩
      · exact .inl ⟨hsame ▸ hbyte, rfl⟩
      · rw [List.length_cons] at hagree hcount
        have hfound := ih hrest (hagree.mono (by omega) (by omega)) (by omega : _ < count')
        exact .inr ⟨b, rest, hsame ▸ hbyte, hother, hfound, rfl⟩

/-- The search finds nothing in a file that ends before the terminator. -/
theorem before?_eq_none_of_agree {w w' : Window} {target : UInt8} {count count' start : Nat}
    {bytes : Bytes} (hsome : w.before? target count start = some bytes)
    (hagree : w.Agree w' start (start + count')) (hcount : count' ≤ bytes.length) :
    w'.before? target count' start = none := by
  cases hfound : w'.before? target count' start with
  | none => rfl
  | some found =>
      -- What the shorter file holds would have been found in the longer one as well.
      have hlength := length_before?_lt hsome
      have hlength' := length_before?_lt hfound
      have hback := before?_eq_some_of_agree hfound (hagree.symm.mono (Int.le_refl _) (by omega))
        (by omega : found.length < count)
      obtain rfl := Option.some.inj (hsome.symm.trans hback)
      omega

/-- The part of a window that ends at a given position. -/
theorem Sound.narrow {w : Window} (hw : w.Sound) {stop : Int} (hstop : 0 ≤ stop)
    (hle : stop ≤ w.stop) : (⟨w.data, stop⟩ : Window).Sound :=
  ⟨hstop, Int.le_trans hle hw.inFile⟩

/-- The window has the given bytes from a position on. -/
structure Holds (w : Window) (pos : Int) (bytes : Bytes) : Prop where
  nonneg : 0 ≤ pos
  inside : pos + bytes.length ≤ w.stop
  starts : bytes <+: w.data.toList.drop pos.toNat

theorem whole_holds (bytes trailing : Bytes) :
    (whole (bytes ++ trailing).toArray).Holds 0 bytes := by
  refine ⟨Int.le_refl 0, ?_, by simp [whole]⟩
  simp only [whole, List.size_toArray, List.length_append]
  omega

namespace Holds

variable {w : Window} {pos : Int} {bytes more : Bytes} {b : UInt8}

theorem left (hholds : w.Holds pos (bytes ++ more)) : w.Holds pos bytes := by
  refine ⟨hholds.nonneg, ?_, (List.prefix_append bytes more).trans hholds.starts⟩
  have hinside := hholds.inside
  rw [List.length_append] at hinside
  omega

theorem right (hholds : w.Holds pos (bytes ++ more)) : w.Holds (pos + bytes.length) more := by
  have hnonneg := hholds.nonneg
  refine ⟨by omega, ?_, ?_⟩
  · have hinside := hholds.inside
    rw [List.length_append] at hinside
    omega
  · obtain ⟨rest, hrest⟩ := hholds.starts
    have hplace : (pos + bytes.length).toNat = pos.toNat + bytes.length := by omega
    rw [hplace, ← List.drop_drop, ← hrest, List.append_assoc, List.drop_left]
    exact List.prefix_append more rest

theorem slice_eq (hholds : w.Holds pos bytes) : w.slice pos (pos + bytes.length) = bytes := by
  have hnonneg := hholds.nonneg
  have hsize : (pos + bytes.length).toNat - pos.toNat = bytes.length := by omega
  rw [slice, place_of_nonneg w hnonneg, place_of_nonneg w (by omega), Array.toList_extract,
    List.extract_eq_take_drop, hsize]
  exact (List.prefix_iff_eq_take.mp hholds.starts).symm

theorem narrow (hholds : w.Holds pos bytes) :
    (⟨w.data, pos + bytes.length⟩ : Window).Holds pos bytes :=
  ⟨hholds.nonneg, Int.le_refl _, hholds.starts⟩

theorem getElem?_eq (hholds : w.Holds pos (b :: bytes)) : w.data[pos.toNat]? = some b := by
  obtain ⟨rest, hrest⟩ := hholds.starts
  rw [← Array.getElem?_toList, ← List.head?_drop, ← hrest]
  rfl

/-- The search finds the bytes before a terminator. -/
theorem before?_eq {target : UInt8} {count : Nat} (hholds : w.Holds pos (bytes ++ [target]))
    (hbytes : target ∉ bytes) (hcount : bytes.length < count) :
    w.before? target count pos.toNat = some bytes := by
  induction bytes generalizing pos count with
  | nil =>
      obtain ⟨count, rfl⟩ : ∃ n, count = n + 1 := ⟨count - 1, by omega⟩
      exact before?_succ_eq_some_iff.mpr (.inl ⟨hholds.getElem?_eq, rfl⟩)
  | cons first rest ih =>
      obtain ⟨count, rfl⟩ : ∃ n, count = n + 1 := ⟨count - 1, by omega⟩
      rw [List.length_cons] at hcount
      have hnonneg := hholds.nonneg
      have hplace : (pos + 1).toNat = pos.toNat + 1 := by omega
      have hholds : w.Holds pos ([first] ++ (rest ++ [target])) := hholds
      have hrest := ih hholds.right (List.not_mem_of_not_mem_cons hbytes) (by omega : _ < count)
      rw [List.length_singleton, Int.natCast_one, hplace] at hrest
      exact before?_succ_eq_some_iff.mpr
        (.inr ⟨first, rest, hholds.getElem?_eq, Ne.symm (List.ne_of_not_mem_cons hbytes), hrest,
          rfl⟩)

end Holds

/-- A sound window has the given bytes from a position on, and ends behind them. -/
structure EndsWith (w : Window) (pos : Int) (bytes : Bytes) : Prop where
  sound : w.Sound
  holds : w.Holds pos bytes
  stop_eq : w.stop = pos + bytes.length

theorem whole_endsWith (data : Array UInt8) : (whole data).EndsWith 0 data.toList where
  sound := whole_sound data
  holds := ⟨Int.le_refl 0, by simp [whole], by simp [whole]⟩
  stop_eq := by simp [whole]

theorem EndsWith.right {w : Window} {pos : Int} {bytes more : Bytes}
    (hbytes : w.EndsWith pos (bytes ++ more)) : w.EndsWith (pos + bytes.length) more where
  sound := hbytes.sound
  holds := hbytes.holds.right
  stop_eq := by
    rw [hbytes.stop_eq, List.length_append]
    omega

end LuaDump.Window
