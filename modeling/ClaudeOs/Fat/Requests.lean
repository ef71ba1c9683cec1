import ClaudeOs.Fat.Flat

/-!
# Requests to the cache as those to a flat array

A request goes in turns, each within one block or over whole blocks.  A turn of a read gives the
array's bytes and keeps it; a turn of a write puts its bytes into the array.

* `Reached`  the states between the turns of requests, with the array;
* `cache_is_flat`  the requests, the index and the slots in every such state.
-/

namespace ClaudeOs.Fat
open Bytes List Nat Cache
variable {D : Type}

variable {block left n pos within : Nat} {data part : List Byte}

namespace Cache
variable {c c' : Cache D} {B : Blocks D} {held : D → Nat → Byte} {flat : Nat → Byte}

/-! ## reading -/

lemma slice_of_sectors {f g : Nat → Byte}
    (h : ∀ b, block ≤ b → b < block + n → sector f b = sector g b) :
    slice f (block * BLOCK) (n * BLOCK) = slice g (block * BLOCK) (n * BLOCK) := by
  induction n generalizing block with
  | zero => rw [zero_mul, slice_zero, slice_zero]
  | succ n ih =>
    have hrest := @ih (block + 1) fun b hlo hhi => h b (by omega) (by omega)
    have hfirst : slice f (block * BLOCK) BLOCK = slice g (block * BLOCK) BLOCK :=
      h block (le_refl _) (by omega)
    rw [succ_mul] at hrest
    rw [succ_mul, add_comm, ← slice_append, ← slice_append, hfirst, hrest]

lemma mem_cachedIn {count : Nat} {e : Nat × Nat} :
    e ∈ c.cachedIn block count ↔ c.index[e.1]? = some e.2 ∧ block ≤ e.1 ∧ e.1 < block + count := by
  rw [cachedIn, mem_filter, Std.TreeMap.mem_toList_iff_getElem?_eq_some, Bool.and_eq_true,
    decide_eq_true_iff, decide_eq_true_iff]

lemma Sound.overlay (S : Sound B held c flat) (block n : Nat) :
    c.overlay block n (slice (held c.blocks) (block * BLOCK) (n * BLOCK)) =
      slice flat (block * BLOCK) (n * BLOCK) := by
  -- a block is as in the array already, or its dirty slot is still to come
  have hstart : ∀ b, block ≤ b → b < block + n → sector (held c.blocks) b = sector flat b ∨
      ∃ p, (b, p) ∈ c.cachedIn block n ∧ ∃ s : Slot, c.slots[p]? = some s ∧ s.dirty = true := by
    intro b hlo hhi
    by_cases hclean : ∀ (p : Nat) (s : Slot), c.slots[p]? = some s → s.block = b → s.dirty = false
    · exact .inl (S.device b hclean)
    · push Not at hclean
      obtain ⟨p, s, hs, rfl, hd⟩ := hclean
      exact .inr ⟨p, mem_cachedIn.mpr ⟨S.slot_index p s hs, hlo, hhi⟩, s, hs, by simpa using hd⟩
  have hin : ∀ e ∈ c.cachedIn block n, c.index[e.1]? = some e.2 ∧ block ≤ e.1 ∧ e.1 < block + n :=
    fun e he => mem_cachedIn.mp he
  rw [Cache.overlay]
  generalize c.cachedIn block n = entries at hstart hin
  generalize held c.blocks = f at hstart
  induction entries generalizing f with
  | nil =>
    refine slice_of_sectors fun b hlo hhi => ?_
    rcases hstart b hlo hhi with h | ⟨p, hp, -⟩
    · exact h
    · exact absurd hp not_mem_nil
  | cons e entries ih =>
    obtain ⟨hindex, hlo, hhi⟩ := hin e mem_cons_self
    obtain ⟨s, hs, hb⟩ := S.index_slot e.1 e.2 hindex
    have hin' := fun x hx => hin x (mem_cons_of_mem e hx)
    rw [foldl_cons, hs]
    by_cases hd : s.dirty = true
    · have hpos : block * BLOCK + (e.1 - block) * BLOCK = e.1 * BLOCK := by
        rw [← Nat.add_mul, Nat.add_sub_cancel' hlo]
      have hfits : (e.1 - block) * BLOCK + BLOCK ≤ n * BLOCK := by
        rw [← Nat.succ_mul]
        exact Nat.mul_le_mul_right _ (by omega)
      have hdata : s.data = slice flat (e.1 * BLOCK) (1 * BLOCK) := by
        rw [S.data e.2 s hs, hb, sector, Nat.one_mul]
      have hlen : s.data.length = BLOCK := by rw [hdata, length_slice, Nat.one_mul]
      simp only [hd, length_slice, hfits, and_self, if_true]
      rw [copyInto_slice _ _ (by rw [hlen]; exact hfits), hpos, hdata]
      refine ih hin' _ fun b hlo' hhi' => ?_
      rw [sector_store_slice]
      split
      · exact .inl rfl
      · next hne =>
        rcases hstart b hlo' hhi' with h | ⟨p, hp, hdirty⟩
        · exact .inl h
        · rcases mem_cons.mp hp with heq | hp
          · rw [← heq] at hne
            exact absurd ⟨Nat.le_refl b, Nat.lt_succ_self b⟩ hne
          · exact .inr ⟨p, hp, hdirty⟩
    · simp only [hd]
      refine ih hin' _ fun b hlo' hhi' => ?_
      rcases hstart b hlo' hhi' with h | ⟨p, hp, t, ht, hdt⟩
      · exact .inl h
      · rcases mem_cons.mp hp with heq | hp
        · rw [← heq, ht] at hs
          cases hs
          exact absurd hdt hd
        · exact .inr ⟨p, hp, t, ht, hdt⟩

structure Kept (B : Blocks D) (held : D → Nat → Byte) (flat : Nat → Byte) (c c' : Cache D) :
    Prop where
  sound : Sound B held c' flat
  count : B.count c'.blocks = B.count c.blocks
  writable : c'.writable = c.writable

section
variable (R : Reliable B held)
include R

section
variable (S : Sound B held c flat)
include S

lemma Sound.readDirect (h : block + n ≤ B.count c.blocks) :
    ∃ c', c.readDirect B block n = (c', .ok (slice flat (block * BLOCK) (n * BLOCK))) ∧
      Kept B held flat c c' := by
  obtain ⟨c1, hread, -, Q⟩ := deviceRead_spec R c h
  have S1 := Q.sound S
  refine ⟨c1, ?_, S1, Q.alike.count, Q.alike.writable⟩
  rw [Cache.readDirect, hread]
  simp only [← Q.device, S1.overlay]

lemma Sound.readSlot (hblock : block < B.count c.blocks) (hn : within + n ≤ BLOCK) :
    ∃ c', c.readSlot B block within n = (c', .ok (slice flat (block * BLOCK + within) n)) ∧
      Kept B held flat c c' := by
  obtain ⟨c1, place, hslot, T⟩ := S.slot R hblock
  obtain ⟨s, hs, rfl⟩ := T.slot
  have hdata := T.sound.data place s hs
  refine ⟨c1, ?_, T.sound, T.count, T.writable⟩
  rw [readSlot, hslot]
  simp only [hs, hdata, length_sector, hn, if_true]
  rw [sector, slice_slice _ _ hn]

omit S R in
lemma chunk_direct (h : pos % BLOCK = 0 ∧ BLOCK ≤ left) :
    chunk pos left = min (left / BLOCK) DIRECT_MAX * BLOCK ∧ pos / BLOCK * BLOCK = pos ∧
      ∀ n, pos + left ≤ n * BLOCK → pos / BLOCK + min (left / BLOCK) DIRECT_MAX ≤ n := by
  refine ⟨if_pos h, ?_, fun n hn => ?_⟩ <;> simp only [BLOCK, DIRECT_MAX] at * <;> omega

omit S R in
lemma chunk_slot (h : ¬ (pos % BLOCK = 0 ∧ BLOCK ≤ left)) (hpos : 0 < left) :
    pos % BLOCK + chunk pos left ≤ BLOCK ∧ pos / BLOCK * BLOCK + pos % BLOCK = pos ∧
      ∀ n, pos + left ≤ n * BLOCK → pos / BLOCK < n := by
  rw [chunk, if_neg h]
  refine ⟨?_, ?_, fun n hn => ?_⟩ <;> simp only [BLOCK] at * <;> omega

lemma Sound.readPart (hpos : 0 < left) (hin : pos + left ≤ B.count c.blocks * BLOCK) :
    ∃ c', c.readPart B pos left = (c', .ok (slice flat pos (chunk pos left))) ∧
      Kept B held flat c c' := by
  rw [Cache.readPart]
  by_cases h : pos % BLOCK = 0 ∧ BLOCK ≤ left
  · obtain ⟨hchunk, hblock, hbound⟩ := chunk_direct h
    obtain ⟨c', hrun, K⟩ := S.readDirect R (hbound _ hin)
    rw [hblock] at hrun
    exact ⟨c', by rw [if_pos h, hrun, hchunk], K⟩
  · obtain ⟨hwithin, hblock, hbound⟩ := chunk_slot h hpos
    obtain ⟨c', hrun, K⟩ := S.readSlot R (hbound _ hin) hwithin
    rw [hblock] at hrun
    exact ⟨c', by rw [if_neg h, hrun], K⟩

/-! ## writing -/

omit R in
lemma Sound.refresh_slots (block n : Nat) (hlen : part.length = n * BLOCK) {p : Nat} {s : Slot}
    (hs : c.slots[p]? = some s) : (c.refresh block n part).slots[p]? = some
      (if block ≤ s.block ∧ s.block < block + n then
        { s with data := (part.drop ((s.block - block) * BLOCK)).take BLOCK, dirty := false }
      else s) := by
  have hkey : ∀ e ∈ c.cachedIn block n, (e.1 - block) * BLOCK + BLOCK ≤ part.length ∧
      (e.2 = p → e.1 = s.block) := by
    intro e he
    obtain ⟨hindex, hlo, hhi⟩ := mem_cachedIn.mp he
    refine ⟨?_, fun hp => ?_⟩
    · rw [hlen, ← succ_mul]
      exact mul_le_mul_right _ (by omega)
    · obtain ⟨t, ht, hb⟩ := S.index_slot e.1 e.2 hindex
      rw [hp, hs] at ht
      cases ht
      exact hb.symm
  have hin : p ∈ (c.cachedIn block n).map Prod.snd ↔ block ≤ s.block ∧ s.block < block + n := by
    constructor
    · intro hp
      obtain ⟨e, he, hep⟩ := mem_map.mp hp
      rw [← (hkey e he).2 hep]
      exact (mem_cachedIn.mp he).2
    · intro h
      exact mem_map.mpr ⟨(s.block, p), mem_cachedIn.mpr ⟨S.slot_index p s hs, h⟩, rfl⟩
  have hfold : ∀ (entries : List (Nat × Nat)) (slots : List Slot) (t : Slot),
      (∀ e ∈ entries, (e.1 - block) * BLOCK + BLOCK ≤ part.length ∧ (e.2 = p → e.1 = s.block)) →
      slots[p]? = some t → (entries.foldl (fun slots e =>
        if (e.1 - block) * BLOCK + BLOCK ≤ part.length then
          slots.modify e.2 fun s =>
            { s with data := (part.drop ((e.1 - block) * BLOCK)).take BLOCK, dirty := false }
        else slots) slots)[p]? = some
          (if p ∈ entries.map Prod.snd then
            { t with data := (part.drop ((s.block - block) * BLOCK)).take BLOCK, dirty := false }
          else t) := by
    intro entries
    induction entries with
    | nil => exact fun slots t _ ht => ht
    | cons e entries ih =>
      intro slots t he ht
      obtain ⟨hfits, hblock⟩ := he e mem_cons_self
      rw [foldl_cons, if_pos hfits, map_cons]
      by_cases hp : e.2 = p
      · rw [ih _ { t with
            data := (part.drop ((s.block - block) * BLOCK)).take BLOCK, dirty := false }
          (fun x hx => he x (mem_cons_of_mem _ hx))
          (by rw [getElem?_modify, ht, hblock hp]; simp [hp]),
          if_pos (mem_cons.mpr (.inl hp.symm)), ite_self]
      · rw [ih _ t (fun x hx => he x (mem_cons_of_mem _ hx))
          (by rw [getElem?_modify, ht]; simp [hp])]
        have hiff : p ∈ e.2 :: entries.map Prod.snd ↔ p ∈ entries.map Prod.snd :=
          mem_cons.trans (or_iff_right fun h => hp h.symm)
        by_cases h : p ∈ entries.map Prod.snd
        · rw [if_pos h, if_pos (hiff.mpr h)]
        · rw [if_neg h, if_neg fun h' => h (hiff.mp h')]
  rw [refresh]
  refine (hfold _ _ s hkey hs).trans ?_
  by_cases h : p ∈ (c.cachedIn block n).map Prod.snd
  · rw [if_pos h, if_pos (hin.mp h)]
  · rw [if_neg h, if_neg fun h' => h (hin.mpr h')]

omit S R in
lemma refresh_length (c : Cache D) (block n : Nat) (part : List Byte) :
    (c.refresh block n part).slots.length = c.slots.length := by
  rw [refresh]
  generalize c.slots = slots
  generalize c.cachedIn block n = entries
  induction entries generalizing slots with
  | nil => rfl
  | cons e entries ih =>
    rw [foldl_cons, ih]
    split
    · exact length_modify ..
    · rfl

lemma Sound.writeDirect (hlen : part.length = n * BLOCK) (h : block + n ≤ B.count c.blocks) :
    ∃ c', c.writeDirect B block part = (c', .ok ()) ∧
      Kept B held (store flat (block * BLOCK) part) c c' := by
  obtain ⟨d, hwrite, hheld, hcount⟩ := deviceWrite_spec R c hlen h
  have hdiv : part.length / BLOCK = n := by rw [hlen, Nat.mul_div_cancel _ (by decide)]
  generalize hflat : store flat (block * BLOCK) part = flat'
  have hpart : slice flat' (block * BLOCK) (n * BLOCK) = part := by
    rw [← hflat, ← hlen, slice_store]
  -- the blocks of the range are those of the new array on both sides, the others are not touched
  have hnew : ∀ f b, sector (store f (block * BLOCK) part) b =
      if block ≤ b ∧ b < block + n then sector flat' b else sector f b := by
    intro f b
    rw [← hpart, sector_store_slice]
  have hslot : ∀ (p : Nat) (s s' : Slot), c.slots[p]? = some s →
      (c.refresh block n part).slots[p]? = some s' →
      s'.block = s.block ∧ s'.data = sector flat' s.block := by
    intro p s s' hs hs'
    rw [S.refresh_slots block n hlen hs] at hs'
    obtain rfl := Option.some.inj hs'
    by_cases hin : block ≤ s.block ∧ s.block < block + n
    · rw [if_pos hin]
      refine ⟨rfl, ?_⟩
      have hfits : (s.block - block) * BLOCK + BLOCK ≤ n * BLOCK := by
        rw [← Nat.succ_mul]
        exact Nat.mul_le_mul_right _ (by omega)
      show (part.drop _).take BLOCK = _
      rw [← hpart, slice_slice _ _ hfits, ← Nat.add_mul, Nat.add_sub_cancel' hin.1, sector]
    · rw [if_neg hin]
      refine ⟨rfl, ?_⟩
      rw [S.data p s hs, ← hflat, hnew, if_neg hin]
  refine ⟨Cache.refresh { c with blocks := d } block n part, ?_, ?_, hcount, rfl⟩
  · rw [Cache.writeDirect, hwrite]
    simp only [hdiv]
  · refine S.rewrite rfl (refresh_length c block n part) hcount (fun p s s' hs hs' => ?_)
      fun b hb => ?_
    · exact hslot p s s' hs hs'
    · show sector (held d) b = _
      rw [hheld, hnew]
      split
      · rfl
      · next hout =>
        rw [← hflat, hnew, if_neg hout]
        refine S.device b fun p s hs hsb => ?_
        have hclean := hb p s _ hs (S.refresh_slots block n hlen hs) hsb
        rw [hsb, if_neg hout] at hclean
        exact hclean

lemma Sound.writeSlot {source : List Byte} (hblock : block < B.count c.blocks)
    (hn : within + source.length ≤ BLOCK) : ∃ c', c.writeSlot B block within source = (c', .ok ()) ∧
      Kept B held (store flat (block * BLOCK + within) source) c c' := by
  obtain ⟨c1, place, hrun, T⟩ := S.slot R hblock
  obtain ⟨s, hs, rfl⟩ := T.slot
  have S1 := T.sound
  have hdata := S1.data place s hs
  have hlt : place < c1.slots.length := (List.getElem?_eq_some_iff.mp hs).1
  generalize hflat : store flat (s.block * BLOCK + within) source = flat'
  have hother : ∀ b, b ≠ s.block → sector flat' b = sector flat b := by
    intro b hb
    rw [← hflat, sector_store flat s.block hn hb]
  have hput : (s.put within source).data = sector flat' s.block := by
    rw [Slot.put, ← hflat, sector, ← copyInto_slice _ _ hn, hdata, sector]
  have hne : ∀ (p : Nat) (t : Slot), place ≠ p → c1.slots[p]? = some t → t.block ≠ s.block :=
    fun p t hp ht heq => hp (S1.unique hs ht heq.symm)
  refine ⟨{ c1 with slots := c1.slots.set place (s.put within source) }, ?_, ?_, T.count, T.writable⟩
  · rw [writeSlot, hrun]
    simp only [hs, hdata, length_sector, hn, if_true]
  · refine S1.rewrite rfl List.length_set rfl (fun p t t' ht ht' => ?_) fun b hb => ?_
    · rcases getElem?_set_some ht' with ⟨rfl, rfl⟩ | ⟨hp, ht'⟩
      · rw [hs] at ht
        cases ht
        exact ⟨rfl, hput⟩
      · rw [ht] at ht'
        cases ht'
        exact ⟨rfl, by rw [S1.data p t ht, hother _ (hne p t hp ht)]⟩
    · have hbs : b ≠ s.block := by
        rintro rfl
        exact Bool.noConfusion (hb place s _ hs (List.getElem?_set_self hlt) rfl)
      rw [hother b hbs]
      refine S1.device b fun p t ht htb => ?_
      by_cases hp : place = p
      · subst hp
        rw [hs] at ht
        cases ht
        exact absurd htb.symm hbs
      · exact hb p t t ht (by rw [List.getElem?_set_ne hp, ht]) htb

lemma Sound.writePart (hpos : 0 < data.length)
    (hin : pos + data.length ≤ B.count c.blocks * BLOCK) :
    ∃ c', c.writePart B pos data = (c', .ok ()) ∧
      Kept B held (store flat pos (data.take (chunk pos data.length))) c c' := by
  have hlen : (data.take (chunk pos data.length)).length = chunk pos data.length := by
    rw [length_take]
    exact min_eq_left (chunk_le pos data.length)
  rw [Cache.writePart]
  by_cases h : pos % BLOCK = 0 ∧ BLOCK ≤ data.length
  · obtain ⟨hchunk, hblock, hbound⟩ := chunk_direct h
    obtain ⟨c', hrun, K⟩ := S.writeDirect R (hlen.trans hchunk) (hbound _ hin)
    rw [hblock] at K
    exact ⟨c', by rw [if_pos h, hrun], K⟩
  · obtain ⟨hwithin, hblock, hbound⟩ := chunk_slot h hpos
    rw [← hlen] at hwithin
    obtain ⟨c', hrun, K⟩ := S.writeSlot R (hbound _ hin) hwithin
    rw [hblock] at K
    exact ⟨c', by rw [if_neg h, hrun], K⟩

end

/-! ## requests -/

omit R in
lemma bytes_le (B : Blocks D) (c : Cache D) : c.bytes B ≤ B.count c.blocks * BLOCK := min_le_left ..

omit R in
lemma check_iff (B : Blocks D) (c : Cache D) (offset len : Nat) :
    c.check B offset len = true ↔ offset + len ≤ c.bytes B := by
  rw [check, Bool.and_eq_true, decide_eq_true_iff, decide_eq_true_iff, and_iff_right_iff_imp]
  intro h
  have : c.bytes B ≤ U64 - 1 := min_le_right ..
  have : 0 < U64 := by decide
  omega

/-- the states between the turns of requests, and the array with what was written -/
inductive Reached (B : Blocks D) (held : D → Nat → Byte) : Cache D → (Nat → Byte) → Prop
  | new (d : D) : Reached B held (new d) (held d)
  | setWritable {c : Cache D} {flat : Nat → Byte} (on : Bool) : Reached B held c flat →
      Reached B held (c.setWritable on) flat
  | read {c : Cache D} {flat : Nat → Byte} (pos left : Nat) : Reached B held c flat → 0 < left →
      pos + left ≤ c.bytes B → Reached B held (c.readPart B pos left).1 flat
  | write {c : Cache D} {flat : Nat → Byte} (pos : Nat) (data : List Byte) :
      Reached B held c flat → c.writable = true → 0 < data.length → pos + data.length ≤ c.bytes B →
      Reached B held (c.writePart B pos data).1
        (store flat pos (data.take (chunk pos data.length)))
  | flush {c : Cache D} {flat : Nat → Byte} : Reached B held c flat → Reached B held (c.flush B).1 flat

lemma Reached.sound (H : Reached B held c flat) : Sound B held c flat := by
  induction H with
  | new d => exact Sound.new held d
  | setWritable on _ S => exact { S with }
  | @read c _ pos left _ hpos hin S =>
    obtain ⟨c', hrun, K⟩ := S.readPart R hpos (le_trans hin (bytes_le B c))
    rw [hrun]
    exact K.sound
  | @write c _ pos data _ _ hpos hin S =>
    obtain ⟨c', hrun, K⟩ := S.writePart R hpos (le_trans hin (bytes_le B c))
    rw [hrun]
    exact K.sound
  | flush _ S =>
    obtain ⟨c', hrun, S', -⟩ := S.flush R
    rw [hrun]
    exact S'

omit R in
lemma Kept.bytes (K : Kept B held flat c c') : c'.bytes B = c.bytes B := by
  rw [Cache.bytes, Cache.bytes, K.count]

lemma Reached.readFrom (H : Reached B held c flat) (hin : pos + left ≤ c.bytes B) :
    ∃ c', c.readFrom B pos left = (c', .ok (slice flat pos left)) ∧ Reached B held c' flat := by
  induction hn : left using Nat.strongRecOn generalizing c pos left with
  | _ n ih =>
    subst hn
    rw [readFrom]
    by_cases hzero : left = 0
    · exact ⟨c, by rw [if_pos hzero, hzero, slice_zero], H⟩
    · have hpos := Nat.pos_of_ne_zero hzero
      have hchunk := chunk_pos pos hpos
      have hle := chunk_le pos left
      obtain ⟨c1, hrun, K⟩ := (H.sound R).readPart R hpos (Nat.le_trans hin (bytes_le B c))
      have H1 : Reached B held c1 flat := by
        have := H.read pos left hpos hin
        rwa [hrun] at this
      have hrest : pos + chunk pos left + (left - chunk pos left) ≤ c1.bytes B := by
        rw [K.bytes]
        omega
      obtain ⟨c2, hrest, H2⟩ := ih (left - chunk pos left) (by omega) H1 hrest rfl
      refine ⟨c2, ?_, H2⟩
      rw [if_neg hzero, hrun]
      simp only [hrest, slice_append, Nat.add_sub_cancel' hle]

lemma Reached.writeFrom (H : Reached B held c flat) (hw : c.writable = true)
    (hin : pos + data.length ≤ c.bytes B) :
    ∃ c', c.writeFrom B pos data = (c', .ok ()) ∧ Reached B held c' (store flat pos data) := by
  induction hn : data.length using Nat.strongRecOn generalizing c flat pos data with
  | _ n ih =>
    subst hn
    rw [writeFrom]
    by_cases hzero : data.length = 0
    · rw [if_pos hzero, length_eq_zero_iff.mp hzero, store_nil]
      exact ⟨c, rfl, H⟩
    · have hpos := Nat.pos_of_ne_zero hzero
      have hchunk := chunk_pos pos hpos
      have hle := chunk_le pos data.length
      obtain ⟨c1, hrun, K⟩ := (H.sound R).writePart R hpos (Nat.le_trans hin (bytes_le B c))
      have H1 : Reached B held c1 (store flat pos (data.take (chunk pos data.length))) := by
        have := H.write pos data hw hpos hin
        rwa [hrun] at this
      have hdrop : (data.drop (chunk pos data.length)).length =
          data.length - chunk pos data.length := length_drop
      have htake : (data.take (chunk pos data.length)).length = chunk pos data.length := by
        rw [length_take]
        exact Nat.min_eq_left hle
      have hmore : pos + chunk pos data.length + (data.drop (chunk pos data.length)).length ≤
          c1.bytes B := by
        rw [K.bytes]
        omega
      obtain ⟨c2, hrest, H2⟩ := ih (data.length - chunk pos data.length) (by omega) H1
        (K.writable.trans hw) hmore hdrop
      refine ⟨c2, ?_, ?_⟩
      · rw [if_neg hzero, hrun]
        exact hrest
      · have hstore := store_append flat pos (data.take (chunk pos data.length))
          (data.drop (chunk pos data.length))
        rw [htake, take_append_drop] at hstore
        exact hstore ▸ H2

end

/-- **the cache is a flat array** over a device that never fails: reads and writes are the array's,
a flush makes the device equal to it, and no dirty slot is lost -/
theorem cache_is_flat (R : Reliable B held) (H : Reached B held c flat) :
    (∀ offset len, if offset + len ≤ c.bytes B then
        ∃ c', c.readAt B offset len = (c', .ok (slice flat offset len)) ∧ Reached B held c' flat
      else c.readAt B offset len = (c, .error .outOfRange)) ∧
    (∀ offset data, if c.writable = true ∧ offset + data.length ≤ c.bytes B then
        ∃ c', c.writeAt B offset data = (c', .ok ()) ∧ Reached B held c' (store flat offset data)
      else ∃ err, c.writeAt B offset data = (c, .error err)) ∧
    (∃ c', c.flush B = (c', .ok ()) ∧ Reached B held c' flat ∧ held c'.blocks = flat) ∧
    (∀ block place : Nat, c.index[block]? = some place ↔
      ∃ s : Slot, c.slots[place]? = some s ∧ s.block = block) ∧
    ∀ block < B.count c.blocks, ∃ c' place, c.slot B block = (c', .ok place) ∧ Spared held c c' := by
  have S := H.sound R
  refine ⟨fun offset len => ?_, fun offset data => ?_, ?_, fun block place => ?_,
    fun block hblock => ?_⟩
  · rw [readAt]
    split
    · next hin =>
      rw [if_pos ((check_iff B c offset len).mpr hin)]
      exact H.readFrom R hin
    · next hout => rw [if_neg fun h => hout ((check_iff B c offset len).mp h)]
  · rw [writeAt]
    split
    · next hin =>
      obtain ⟨c', hrun, H'⟩ := H.writeFrom R hin.1 hin.2
      refine ⟨c', ?_, H'⟩
      rw [if_neg (by simp [hin.1]), if_pos ((check_iff B c offset _).mpr hin.2), hrun]
    · next hout =>
      by_cases hw : c.writable = true
      · refine ⟨.outOfRange, ?_⟩
        rw [if_neg (by simp [hw]), if_neg fun h => hout ⟨hw, (check_iff B c offset _).mp h⟩]
      · exact ⟨.readOnly, by rw [if_pos (by simpa using hw)]⟩
  · obtain ⟨c', hrun, -, -, -, hheld⟩ := S.flush R
    have H' := H.flush
    rw [hrun] at H'
    exact ⟨c', hrun, H', hheld⟩
  · constructor
    · exact S.index_slot block place
    · rintro ⟨s, hs, rfl⟩
      exact S.slot_index place s hs
  · obtain ⟨c', place, hrun, T⟩ := S.slot R hblock
    exact ⟨c', place, hrun, T.spared⟩

end Cache

/-! ## a disk in memory -/

structure Disk where
  count : Nat
  bytes : Nat → Byte
  count_lt : count < U64

def diskBlocks : Blocks Disk where
  count := Disk.count
  read d block n := (d, some (slice d.bytes (block * BLOCK) (n * BLOCK)))
  write d block data := ({ d with bytes := store d.bytes (block * BLOCK) data }, true)

lemma disk_reliable : Reliable diskBlocks Disk.bytes where
  count_lt d := d.count_lt
  read d _ _ _ := ⟨d, rfl, rfl, rfl⟩
  write d block _ data _ _ :=
    ⟨{ d with bytes := store d.bytes (block * BLOCK) data }, rfl, rfl, rfl⟩

def fourBlocks : Disk := ⟨4, fun _ => 0, by decide⟩

/-- three bytes over the edge of two blocks -/
theorem cache_is_flat_fourBlocks :
    ∃ c', ((new fourBlocks).setWritable true).writeAt diskBlocks 510 [1, 2, 3] =
        (c', .ok ()) ∧
      Cache.Reached diskBlocks Disk.bytes c' (store fourBlocks.bytes 510 [1, 2, 3]) := by
  have H : Cache.Reached diskBlocks Disk.bytes ((new fourBlocks).setWritable true)
      fourBlocks.bytes := .setWritable true (.new fourBlocks)
  have h := (cache_is_flat disk_reliable H).2.1 510 [1, 2, 3]
  rwa [if_pos (by decide)] at h

end ClaudeOs.Fat
