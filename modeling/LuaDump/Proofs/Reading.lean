import LuaDump.Proofs.Loop
import LuaDump.Proofs.Settling.Field

/-! # Reading what was written

A decoder reads a string of bytes as a value if it yields the value and stops behind the
bytes, wherever a window holds them and whatever comes after them. A compound decoder reads
what its parts read, one after the other.
-/

namespace LuaDump.Decoder

variable {α β σ : Type} {d : Decoder α} {bytes more : Bytes} {value : α}

/-- The decoder takes the given bytes, wherever they stand, for the given value. -/
def Reads (d : Decoder α) (bytes : Bytes) (value : α) : Prop :=
  ∀ (w : Window) (pos : Int), w.Sound → w.Holds pos bytes →
    ∃ trace, d w pos = .done value (pos + bytes.length) trace

namespace Reads

theorem pure (value : α) : (Pure.pure value : Decoder α).Reads [] value :=
  fun _ pos _ _ => ⟨[], by simp [pure_apply]⟩

theorem bind {next : α → Decoder β} {result : β} (hd : d.Reads bytes value)
    (hnext : (next value).Reads more result) : (d >>= next).Reads (bytes ++ more) result := by
  intro w pos hw hholds
  obtain ⟨first, hfirst⟩ := hd w pos hw hholds.left
  obtain ⟨second, hsecond⟩ := hnext w _ hw hholds.right
  refine ⟨first ++ second, ?_⟩
  rw [bind_of_done hfirst, hsecond, List.length_append, Int.natCast_add, Int.add_assoc]
  rfl

/-- What follows a decoder may take no bytes. -/
theorem bind_nil {next : α → Decoder β} {result : β} (hd : d.Reads bytes value)
    (hnext : (next value).Reads [] result) : (d >>= next).Reads bytes result := by
  have hboth := hd.bind hnext
  rwa [List.append_nil] at hboth

/-- What comes before a decoder may take no bytes. -/
theorem nil_bind {next : α → Decoder β} {result : β} (hd : d.Reads [] value)
    (hnext : (next value).Reads bytes result) : (d >>= next).Reads bytes result :=
  hd.bind hnext

theorem map {next : α → β} (hd : d.Reads bytes value) :
    (d >>= fun found => Pure.pure (next found)).Reads bytes (next value) :=
  hd.bind_nil (pure (next value))

theorem within (label : Label) (hd : d.Reads bytes value) :
    (Decoder.within label d).Reads bytes value := by
  intro w pos hw hholds
  obtain ⟨trace, hdone⟩ := hd w pos hw hholds
  exact ⟨trace, within_eq_done_iff.mpr hdone⟩

theorem named (name : String) (hd : d.Reads bytes value) :
    (Decoder.named name d).Reads bytes value :=
  hd.within _

theorem position_bind {next : Int → Decoder β} {result : β}
    (hnext : ∀ pos, (next pos).Reads bytes result) : (position >>= next).Reads bytes result := by
  intro w pos hw hholds
  obtain ⟨trace, hdone⟩ := hnext pos w pos hw hholds
  exact ⟨trace, by rw [bind_of_done (d := position) rfl, hdone]; rfl⟩

theorem emit_bind {event : Event} {next : Unit → Decoder β} {result : β}
    (hnext : (next ()).Reads bytes result) : (emit event >>= next).Reads bytes result := by
  intro w pos hw hholds
  obtain ⟨trace, hdone⟩ := hnext w pos hw hholds
  exact ⟨[event] ++ trace, by rw [bind_of_done (d := emit event) rfl, hdone]; rfl⟩

/-- A count of items that the following bytes can hold. -/
theorem checkCount_bind {count : Int} {next : Unit → Decoder β} {result : β}
    (hcount : count ≤ bytes.length) (hnext : (next ()).Reads bytes result) :
    (checkCount count >>= next).Reads bytes result := by
  intro w pos hw hholds
  obtain ⟨trace, hdone⟩ := hnext w pos hw hholds
  have hinside := hholds.inside
  have hcheck : checkCount count w pos = .done () pos [] := by
    rw [checkCount, if_pos (by simp only [Window.remaining]; omega)]
  exact ⟨trace, by rw [bind_of_done hcheck, hdone]; rfl⟩

theorem peekByte_bind {b : UInt8} {next : UInt8 → Decoder β} {result : β}
    (hnext : (next b).Reads (b :: bytes) result) :
    (peekByte >>= next).Reads (b :: bytes) result := by
  intro w pos hw hholds
  obtain ⟨trace, hdone⟩ := hnext w pos hw hholds
  have hinside := hholds.inside
  rw [List.length_cons] at hinside
  have hpeek : peekByte w pos = .done b pos [] := by
    simp only [peekByte, if_pos (by omega : pos + 1 ≤ w.stop),
      Window.byteAt?_of_nonneg w hholds.nonneg, hholds.getElem?_eq]
  exact ⟨trace, by rw [bind_of_done hpeek, hdone]; rfl⟩

/-- The last step of a loop. -/
theorem iterate_last {step : α → Decoder (α ⊕ β)} {state : α} {result : β}
    (hstep : ∀ state, (step state).Settles 1) (hlast : (step state).Reads bytes (.inr result)) :
    (iterate step state).Reads bytes result := by
  intro w pos hw hholds
  have hinside := hholds.inside
  obtain ⟨trace, hdone⟩ := hlast w pos hw hholds
  refine ⟨trace, ?_⟩
  rw [iterate_eq_bind hstep hw state hholds.nonneg (by omega), bind_of_done hdone]
  simp [continueWith, pure_apply, Outcome.after]

/-- A step of a loop and the rest of the loop. -/
theorem iterate_next {step : α → Decoder (α ⊕ β)} {state next : α} {result : β}
    (hstep : ∀ state, (step state).Settles 1) (hfirst : (step state).Reads bytes (.inl next))
    (hrest : (iterate step next).Reads more result) :
    (iterate step state).Reads (bytes ++ more) result := by
  intro w pos hw hholds
  have hinside := hholds.inside
  have hboth : (step state >>= continueWith (iterate step)).Reads (bytes ++ more) result :=
    hfirst.bind hrest
  rw [iterate_eq_bind hstep hw state hholds.nonneg (by omega)]
  exact hboth w pos hw hholds

/-- What a decoder that passes a byte reads is not empty. -/
theorem one_le_length (hsettles : d.Settles 1) (hd : d.Reads bytes value) : 1 ≤ bytes.length := by
  obtain ⟨trace, hdone⟩ := hd _ 0 (Window.whole_sound _) (Window.whole_holds bytes [])
  have hlast := (hsettles _ 0 (Window.whole_sound _) (Int.le_refl 0)
    (Window.whole_sound _).nonneg).done hdone
  omega

end Reads

theorem reads_nextByte (b : UInt8) : nextByte.Reads [b] b := by
  intro w pos hw hholds
  refine ⟨[], ?_⟩
  rw [nextByte_of_le hw hholds.nonneg hholds.inside, ← Int.natCast_one,
    ← List.length_singleton (a := b), hholds.slice_eq]
  rfl

theorem reads_field (what : String) {size : Nat} (hsize : bytes.length = size) :
    (field what size).Reads bytes bytes := by
  intro w pos hw hholds
  subst hsize
  exact ⟨[], by rw [field_of_le hw what hholds.nonneg hholds.inside, hholds.slice_eq]⟩

theorem reads_take {count : Int} (hcount : count = bytes.length) :
    (take count).Reads bytes bytes := by
  intro w pos hw hholds
  subst hcount
  exact ⟨[], by rw [take_of_le hholds.inside, hholds.slice_eq]⟩

theorem reads_takeUntil {terminator : UInt8} (hbytes : terminator ∉ bytes) :
    (takeUntil terminator).Reads (bytes ++ [terminator]) bytes := by
  intro w pos hw hholds
  have hnonneg := hholds.nonneg
  have hinside := hholds.inside
  rw [List.length_append, List.length_singleton] at hinside
  have hreach := Window.reach_eq hw hnonneg (by omega)
  have hfound : w.before? terminator (w.reach (w.place pos).toNat) (w.place pos).toNat =
      some bytes := by
    rw [Window.place_of_nonneg w hnonneg] at hreach ⊢
    exact hholds.before?_eq hbytes (by omega)
  refine ⟨[], ?_⟩
  rw [takeUntil_of_some hnonneg hfound, List.length_append, List.length_singleton,
    Int.natCast_add, Int.natCast_one, Int.add_assoc]

/-- A block whose bytes are read in a window of their own and passed afterwards. -/
theorem reads_block {next : α × Int → Decoder β} {size : Nat} {result : β}
    (hsize : bytes.length = size) (hd : d.Reads bytes value)
    (hnext : ∀ reached, (next (value, reached)).Reads bytes result) :
    (do
      let block ← limit size
      let found ← inWindow block d
      next found).Reads bytes result := by
  intro w pos hw hholds
  subst hsize
  have hlimit : limit bytes.length w pos = .done ⟨w.data, pos + bytes.length⟩ pos [] :=
    if_pos hholds.inside
  have hinner : (⟨w.data, pos + bytes.length⟩ : Window).Sound :=
    hw.narrow (by have := hholds.nonneg; omega) hholds.inside
  obtain ⟨first, hfirst⟩ := hd _ pos hinner hholds.narrow
  obtain ⟨second, hsecond⟩ := hnext (pos + bytes.length) w pos hw hholds
  refine ⟨first ++ second, ?_⟩
  rw [bind_of_done hlimit, bind_of_done (inWindow_eq_done_iff.mpr ⟨hfirst, rfl⟩), hsecond]
  rfl

theorem reads_skip {count : Nat} (hcount : bytes.length = count) :
    (skip count).Reads bytes () := by
  intro w pos hw hholds
  subst hcount
  exact ⟨[], skip_of_le hholds.inside⟩

section Sequences

variable {γ : Type} {write : γ → Bytes} {found : γ → α} {sources : List γ}

theorem reads_collect_map {item : Nat → Decoder α}
    (hitem : ∀ index, ∀ source ∈ sources, (item index).Reads (write source) (found source))
    (index : Nat) :
    (collect item sources.length index).Reads (sources.flatMap write) (sources.map found) := by
  induction sources generalizing index with
  | nil => exact .pure []
  | cons first rest ih =>
      obtain ⟨hfirst, hrest⟩ :
          (∀ index, (item index).Reads (write first) (found first)) ∧
            ∀ index, ∀ source ∈ rest, (item index).Reads (write source) (found source) :=
        ⟨fun index => hitem index first (List.mem_cons_self ..),
          fun index source hsource => hitem index source (List.mem_cons_of_mem _ hsource)⟩
      exact (hfirst index).bind (ih hrest (index + 1)).map

theorem length_le_flatMap (hwrite : ∀ source ∈ sources, 1 ≤ (write source).length) :
    sources.length ≤ (sources.flatMap write).length := by
  induction sources with
  | nil => simp
  | cons first rest ih =>
      have hfirst := hwrite first (List.mem_cons_self ..)
      have hrest := ih fun source hsource => hwrite source (List.mem_cons_of_mem _ hsource)
      rw [List.flatMap_cons, List.length_append, List.length_cons]
      omega

theorem length_le_flatMap_of_mem {source : γ} (hsource : source ∈ sources) :
    (write source).length ≤ (sources.flatMap write).length := by
  rw [List.flatMap_def]
  exact (List.sublist_flatten_of_mem (List.mem_map_of_mem hsource)).length_le

/-- A checked count of items, each of which takes at least one byte. -/
theorem reads_checkedCollect {item : Nat → Decoder α} {count : Int}
    (hcount : count = sources.length) (hwrite : ∀ source ∈ sources, 1 ≤ (write source).length)
    (hitem : ∀ index, ∀ source ∈ sources, (item index).Reads (write source) (found source)) :
    (do
      checkCount count
      collect item count.toNat 0).Reads (sources.flatMap write) (sources.map found) := by
  subst hcount
  have hlength := length_le_flatMap hwrite
  exact .checkCount_bind (by omega) (reads_collect_map hitem 0)

theorem reads_items_map {item : Decoder α} {count : Int} (hcount : count = sources.length)
    (hwrite : ∀ source ∈ sources, 1 ≤ (write source).length)
    (hitem : ∀ source ∈ sources, item.Reads (write source) (found source)) :
    (items count item).Reads (sources.flatMap write) (sources.map found) :=
  reads_checkedCollect hcount hwrite fun _ => hitem

theorem reads_labelledItems_map {label : String} {item : Decoder α} {count : Int}
    (hcount : count = sources.length) (hwrite : ∀ source ∈ sources, 1 ≤ (write source).length)
    (hitem : ∀ source ∈ sources, item.Reads (write source) (found source)) :
    (labelledItems label count item).Reads (sources.flatMap write) (sources.map found) :=
  reads_checkedCollect hcount hwrite fun index source hsource =>
    (hitem source hsource).within (.item label index)

/-- Items that change a state, of which it is known what it is behind every item. -/
theorem reads_fold {step : Nat → σ → Decoder σ} (state : List γ → σ)
    (hstep : ∀ earlier source later, sources = earlier ++ source :: later →
      (step earlier.length (state earlier)).Reads (write source) (state (earlier ++ [source]))) :
    (fold step sources.length 0 (state [])).Reads (sources.flatMap write) (state sources) := by
  -- The induction is on the items that are left, over the items before them.
  have hrest : ∀ later earlier, sources = earlier ++ later →
      (fold step later.length earlier.length (state earlier)).Reads (later.flatMap write)
        (state sources) := by
    intro later
    induction later with
    | nil =>
        intro earlier hsources
        rw [hsources, List.append_nil]
        exact .pure (state earlier)
    | cons first rest ih =>
        intro earlier hsources
        have hnext := ih (earlier ++ [first]) (by simpa using hsources)
        rw [List.length_append] at hnext
        exact (hstep earlier first rest hsources).bind hnext
  exact hrest sources [] rfl

end Sequences

section Values

variable {write : α → Bytes} {values : List α}

theorem reads_collect {item : Nat → Decoder α}
    (hitem : ∀ index, ∀ value ∈ values, (item index).Reads (write value) value) (index : Nat) :
    (collect item values.length index).Reads (values.flatMap write) values := by
  simpa using reads_collect_map hitem index

theorem reads_items {item : Decoder α} {count : Int} (hcount : count = values.length)
    (hwrite : ∀ value ∈ values, 1 ≤ (write value).length)
    (hitem : ∀ value ∈ values, item.Reads (write value) value) :
    (items count item).Reads (values.flatMap write) values := by
  simpa using reads_items_map hcount hwrite hitem

theorem reads_labelledItems {label : String} {item : Decoder α} {count : Int}
    (hcount : count = values.length) (hwrite : ∀ value ∈ values, 1 ≤ (write value).length)
    (hitem : ∀ value ∈ values, item.Reads (write value) value) :
    (labelledItems label count item).Reads (values.flatMap write) values := by
  simpa using reads_labelledItems_map hcount hwrite hitem

end Values

end LuaDump.Decoder
