import CudaProfile.Proofs.AddressSet.Packing
/-!
# Runs of equal bits

One pass over the bits of a bitmap finds the runs of a value: it keeps the place
where a run began, and ends the run where the bit changes or the bits end. A
second pass, which never lets go of a stretch before the next one begins, cuts
the whole range into tiles whose bits alternate; the runs of a value are the
tiles of that value. Hence both lists of runs together tile the range.
-/

namespace CudaProfile

open RangeList

namespace RangeList

theorem Spaced.mono {lo low hi : Nat} {ranges : List AddressRange}
    (h : Spaced lo hi ranges) (hle : low ≤ lo) : Spaced low hi ranges := by
  cases ranges with
  | nil =>
      trivial
  | cons r rest =>
      rcases h with ⟨hlo, hrest⟩
      exact ⟨Nat.le_trans hle hlo, hrest⟩

theorem Canonical.eq_of_contains {ranges : List AddressRange}
    (h : Canonical ranges) {r s : AddressRange} (hr : r ∈ ranges)
    (hs : s ∈ ranges) {x : Address} (hrx : r.contains x = true)
    (hsx : s.contains x = true) : r = s := by
  rw [Interval.contains_iff, UInt64.le_iff_toNat_le,
    UInt64.le_iff_toNat_le] at hrx hsx
  induction ranges with
  | nil =>
      cases hr
  | cons first rest ih =>
      rcases canonical_cons_iff.mp h with ⟨_, hfar, hrest⟩
      rcases List.mem_cons.mp hr with hfirst | hrlater
      · rcases List.mem_cons.mp hs with hfirst' | hslater
        · exact hfirst.trans hfirst'.symm
        · have hlater := hfar s hslater
          rw [hfirst] at hrx
          omega
      · rcases List.mem_cons.mp hs with hfirst | hslater
        · have hlater := hfar r hrlater
          rw [hfirst] at hsx
          omega
        · exact ih hrest hrlater hslater

end RangeList

namespace Bitmap

/-! ## The pass that finds the runs of a value -/

theorem lo_le_hi_run {origin : Address} {first place : Nat}
    (hlt : first < place) (h : origin.toNat + place ≤ 2 ^ 64) :
    origin + UInt64.ofNat first ≤ origin + UInt64.ofNat place - 1 := by
  rcases toNat_run hlt h with ⟨hlo, hhi⟩
  rw [UInt64.le_iff_toNat_le]
  omega

theorem spaced_runsFrom {bit : Nat → Bool} {origin : Address}
    {begun : Option Nat} {place count : Nat}
    (hbegun : ∀ first, begun = some first → first < place)
    (h : origin.toNat + place + count ≤ 2 ^ 64) :
    Spaced (origin.toNat + begun.getD place)
      (origin.toNat + place + count - 1)
      (runsFrom bit origin begun place count) := by
  -- A run ends before the place whose bit ended it, and the next one begins
  -- after that place.
  induction count generalizing begun place with
  | zero =>
      cases begun with
      | none =>
          trivial
      | some first =>
          have hlt := hbegun first rfl
          rcases toNat_run hlt h with ⟨hlo, hhi⟩
          exact ⟨Nat.le_of_eq hlo.symm, lo_le_hi_run hlt h, Nat.le_of_eq hhi,
            trivial⟩
  | succ count ih =>
      have hend : origin.toNat + place + (count + 1) - 1 =
          origin.toNat + (place + 1) + count - 1 := by omega
      have hfits : origin.toNat + (place + 1) + count ≤ 2 ^ 64 := by omega
      have hnone := @ih none (place + 1) (fun _ heq => by cases heq) hfits
      rw [hend]
      unfold runsFrom
      split
      · have hgoes := ih (lt_of_begun_or hbegun) hfits
        cases begun with
        | none =>
            exact hgoes
        | some first =>
            exact hgoes
      · cases begun with
        | none =>
            exact hnone.mono (Nat.add_le_add_left (Nat.le_succ place) _)
        | some first =>
            have hlt := hbegun first rfl
            have hplace : origin.toNat + place ≤ 2 ^ 64 := by omega
            rcases toNat_run hlt hplace with ⟨hlo, hhi⟩
            refine ⟨Nat.le_of_eq hlo.symm, lo_le_hi_run hlt hplace, ?_,
              hnone.mono ?_⟩
            · dsimp only
              omega
            · dsimp only [Option.getD_none]
              omega

def bit (b : Bitmap) (i : Nat) : Bool :=
  bitOf b.toRecord.data.toArray i

theorem contains_runs (b : Bitmap) (value : Bool) (x : Address) :
    contains (b.runs value) x =
      (b.range.contains x && b.member x == value) := by
  unfold runs
  cases value with
  | true =>
      rw [if_pos rfl, beq_true]
      change b.member x = _
      cases hx : b.member x with
      | false =>
          rw [Bool.and_false]
      | true =>
          rw [range_contains hx, Bool.true_and]
  | false =>
      rw [if_neg Bool.false_ne_true, beq_false,
        contains_difference b.spaced.canonical, contains_cons, contains_nil,
        Bool.or_false]
      rfl

theorem canonical_runs (b : Bitmap) (value : Bool) :
    Canonical (b.runs value) := by
  unfold runs
  split
  · exact b.spaced.canonical
  · exact canonical_difference _ _

theorem runs_eq_scan {b : Bitmap} (h : b.range.isEmpty = false)
    (value : Bool) :
    b.runs value =
      runsFrom (fun i => b.bit i == value) b.range.lo none 0 b.range.size := by
  rcases Interval.toNat_lo_add_size h with ⟨hle, hsize⟩
  have hend := b.range.hi.toNat_lt
  have hbegun : ∀ first, (none : Option Nat) = some first → first < 0 :=
    fun _ heq => by cases heq
  apply eq_of_contains_eq (canonical_runs b value)
    (spaced_runsFrom hbegun (by omega)).canonical
  intro x
  rw [contains_runs, Bool.eq_iff_iff, contains_runsFrom hbegun (by omega),
    Bool.and_eq_true, Interval.contains_iff, UInt64.le_iff_toNat_le,
    UInt64.le_iff_toNat_le]
  constructor
  · intro hx
    rcases hx with ⟨⟨hlo, hhi⟩, hvalue⟩
    have hplace : b.range.lo.toNat + (x.toNat - b.range.lo.toNat) = x.toNat :=
      Nat.add_sub_cancel' hlo
    refine ⟨x.toNat - b.range.lo.toNat, hplace.symm,
      Or.inr ⟨Nat.zero_le _, by omega, ?_⟩⟩
    change (bitOf b.toRecord.data.toArray _ == value) = true
    rw [bitOf_toRecord b (by omega), hplace, covers_toNat]
    exact hvalue
  · intro hx
    rcases hx with ⟨i, hx, ⟨_, hnone, _⟩ | ⟨_, hi, hvalue⟩⟩
    · cases hnone
    · change (bitOf b.toRecord.data.toArray i == value) = true at hvalue
      rw [bitOf_toRecord b (by omega), ← hx, covers_toNat] at hvalue
      exact ⟨⟨by omega, by omega⟩, hvalue⟩

/-! ## The pass that cuts the range into tiles -/

/-- A stretch of neighbouring addresses and the bit that all of them have. -/
structure Tile where
  range : AddressRange
  value : Bool

/-- The tiles of a number of bits from `place` on, where a tile of a value has
begun at an earlier place; bit zero is that of `origin`. -/
def tilesFrom (bit : Nat → Bool) (origin : Address) (value : Bool)
    (first place : Nat) : Nat → List Tile
  | 0 =>
      [⟨⟨origin + UInt64.ofNat first, origin + UInt64.ofNat place - 1⟩, value⟩]
  | count + 1 =>
      if bit place = value then
        tilesFrom bit origin value first (place + 1) count
      else
        ⟨⟨origin + UInt64.ofNat first, origin + UInt64.ofNat place - 1⟩,
            value⟩ ::
          tilesFrom bit origin (bit place) place (place + 1) count

def tiles (b : Bitmap) : List Tile :=
  tilesFrom b.bit b.range.lo (b.bit 0) 0 1 (b.range.size - 1)

def ofValue (value : Bool) (tiles : List Tile) : List AddressRange :=
  (tiles.filter fun t => t.value == value).map Tile.range

/-- A run of a value has begun exactly if the tile that goes on is of that
value. -/
theorem runsFrom_eq_ofValue (bit : Nat → Bool) (origin : Address)
    (value current : Bool) (first place count : Nat) :
    runsFrom (fun i => bit i == value) origin
        (if current = value then some first else none) place count =
      ofValue value (tilesFrom bit origin current first place count) := by
  induction count generalizing current first place with
  | zero =>
      by_cases hcurrent : current = value
      · simp [runsFrom, tilesFrom, ofValue, hcurrent]
      · simp [runsFrom, tilesFrom, ofValue, hcurrent]
  | succ count ih =>
      unfold runsFrom tilesFrom
      by_cases hcurrent : current = value
      · subst hcurrent
        by_cases hbit : bit place = current
        · have hgoes := ih current first (place + 1)
          rw [if_pos rfl] at hgoes ⊢
          rw [if_pos hbit, if_pos (beq_iff_eq.mpr hbit), ← hgoes]
          rfl
        · have hnext := ih (bit place) place (place + 1)
          rw [if_neg hbit] at hnext
          rw [if_neg hbit, if_neg (fun heq => hbit (beq_iff_eq.mp heq)),
            if_pos rfl, hnext]
          simp [ofValue]
      · by_cases hbit : bit place = current
        · have hgoes := ih current first (place + 1)
          rw [if_neg hcurrent] at hgoes ⊢
          rw [if_pos hbit, hbit,
            if_neg (fun heq => hcurrent (beq_iff_eq.mp heq)), ← hgoes]
        · have hturned : bit place = value := by
            cases hb : bit place <;> cases value <;> simp_all
          have hnext := ih (bit place) place (place + 1)
          rw [if_pos hturned] at hnext
          rw [if_neg hbit, if_neg hcurrent, if_pos (beq_iff_eq.mpr hturned)]
          change runsFrom _ _ (some place) _ _ = _
          rw [hnext]
          simp [ofValue, hcurrent]

theorem runs_eq_ofValue {b : Bitmap} (h : b.range.isEmpty = false)
    (value : Bool) : b.runs value = ofValue value b.tiles := by
  have hsize : b.range.size = b.range.size - 1 + 1 := by
    simp [Interval.size, h]
  rw [runs_eq_scan h, hsize]
  unfold tiles
  rw [← runsFrom_eq_ofValue, runsFrom]
  by_cases hbit : b.bit 0 = value
  · rw [if_pos (beq_iff_eq.mpr hbit), if_pos hbit]
    rfl
  · rw [if_neg (fun heq => hbit (beq_iff_eq.mp heq)), if_neg hbit]

/-! ## Tiles cover the range -/

/-- Tiles that begin and end with a range, follow each other without an address
left out or covered twice, and alternate in their bits. -/
structure Tiling (range : AddressRange) (tiles : List Tile) : Prop where
  begins : tiles.head?.map (fun t => t.range.lo) = some range.lo
  ends : tiles.getLast?.map (fun t => t.range.hi) = some range.hi
  nonempty : ∀ t ∈ tiles, t.range.lo ≤ t.range.hi
  follows : tiles.IsChain fun t u =>
    u.range.lo.toNat = t.range.hi.toNat + 1 ∧ u.value = !t.value

theorem head_tilesFrom (bit : Nat → Bool) (origin : Address) (value : Bool)
    (first place count : Nat) :
    ∃ hi, (tilesFrom bit origin value first place count).head? =
      some ⟨⟨origin + UInt64.ofNat first, hi⟩, value⟩ := by
  induction count generalizing place with
  | zero =>
      exact ⟨_, rfl⟩
  | succ count ih =>
      unfold tilesFrom
      split
      · exact ih (place + 1)
      · exact ⟨_, rfl⟩

theorem tiling_tilesFrom {bit : Nat → Bool} {origin : Address} {value : Bool}
    {first place count : Nat} (hlt : first < place)
    (h : origin.toNat + place + count ≤ 2 ^ 64) :
    Tiling ⟨origin + UInt64.ofNat first,
        origin + UInt64.ofNat (place + count) - 1⟩
      (tilesFrom bit origin value first place count) := by
  induction count generalizing value first place with
  | zero =>
      refine ⟨rfl, rfl, ?_, .singleton _⟩
      intro t ht
      rw [List.mem_singleton.mp ht]
      exact lo_le_hi_run hlt h
  | succ count ih =>
      have hend : place + (count + 1) = place + 1 + count := by omega
      have hfits : origin.toNat + (place + 1) + count ≤ 2 ^ 64 := by omega
      rw [hend]
      unfold tilesFrom
      split
      · exact ih (Nat.lt_succ_of_lt hlt) hfits
      · next hbit =>
        have hrest := @ih (bit place) _ _ (Nat.lt_succ_self place) hfits
        have hplace : origin.toNat + place ≤ 2 ^ 64 := by omega
        rcases toNat_run hlt hplace with ⟨_, hhi⟩
        have hnext : (origin + UInt64.ofNat place).toNat =
            origin.toNat + place := toNat_add_ofNat (by omega)
        rcases head_tilesFrom bit origin (bit place) place (place + 1) count
          with ⟨hi, hhead⟩
        rcases List.head?_eq_some_iff.mp hhead with ⟨others, hothers⟩
        rw [hothers] at hrest ⊢
        refine ⟨rfl, ?_, ?_, ?_⟩
        · rw [List.getLast?_cons_cons]
          exact hrest.ends
        · intro t ht
          rcases List.mem_cons.mp ht with rfl | ht
          · exact lo_le_hi_run hlt hplace
          · exact hrest.nonempty t ht
        · refine List.isChain_cons_cons.mpr ⟨⟨?_, ?_⟩, hrest.follows⟩
          · dsimp only
            omega
          · exact Bool.eq_not.mpr hbit

theorem tiling_tiles {b : Bitmap} (h : b.range.isEmpty = false) :
    Tiling b.range b.tiles := by
  rcases Interval.toNat_lo_add_size h with ⟨hle, hsize⟩
  have hend := b.range.hi.toNat_lt
  have hcount : 1 + (b.range.size - 1) = b.range.size := by omega
  have htiles := @tiling_tilesFrom b.bit b.range.lo (b.bit 0) 0 1
    (b.range.size - 1) Nat.one_pos (by omega)
  rcases @toNat_run b.range.lo 0 b.range.size (by omega) (by omega) with
    ⟨hlo, hhi⟩
  have hrange : (⟨b.range.lo + UInt64.ofNat 0,
      b.range.lo + UInt64.ofNat b.range.size - 1⟩ : AddressRange) =
        b.range := by
    have hfirst := UInt64.toNat_inj.mp (hlo.trans (Nat.add_zero _))
    have hlast : b.range.lo + UInt64.ofNat b.range.size - 1 = b.range.hi :=
      UInt64.toNat_inj.mp (by omega)
    rw [hfirst, hlast]
  rw [hcount, hrange] at htiles
  exact htiles

/-! ## Runs partition a bitmap -/

theorem get_eq_ok_iff (b : Bitmap) (x : Address) (value : Bool) :
    b.get x = .ok value ↔ contains (b.runs value) x = true := by
  rw [contains_runs]
  unfold get
  split
  · next hin =>
    rw [hin, Bool.true_and, beq_iff_eq]
    constructor
    · intro heq
      cases heq
      rfl
    · intro heq
      rw [heq]
  · next hout =>
    rw [Bool.eq_false_iff.mpr hout, Bool.false_and]
    constructor
    · intro heq
      cases heq
    · intro heq
      cases heq

/-- The runs of a value are what one pass over the bits finds. They ascend with
at least one address between neighbours, all their addresses have the value, and
every address that has it is in exactly one of them. The runs of both values
together cover the range, tile after tile with alternating values. -/
theorem runs_tile_the_range {b : Bitmap} (h : b.Obtainable) :
    (∀ value,
      b.runs value =
        runsFrom (fun i => b.bit i == value) b.range.lo none 0 b.range.size ∧
      (∀ r ∈ b.runs value, r.isEmpty = false) ∧
      ((b.runs value).Pairwise fun r s => r.hi.toNat + 1 < s.lo.toNat) ∧
      (∀ r ∈ b.runs value, ∀ x, r.contains x = true → b.get x = .ok value) ∧
      ∀ x, b.get x = .ok value →
        ∃! r, r ∈ b.runs value ∧ r.contains x = true) ∧
    Tiling b.range b.tiles ∧
    ∀ value, b.runs value = ofValue value b.tiles := by
  have hfull := h.legal.1
  refine ⟨?_, tiling_tiles hfull, runs_eq_ofValue hfull⟩
  intro value
  have hcanonical := canonical_runs b value
  rcases canonical_iff.mp hcanonical with ⟨hsome, hfar⟩
  refine ⟨runs_eq_scan hfull value, ?_, hfar, ?_, ?_⟩
  · intro r hr
    exact Interval.isEmpty_eq_false_iff.mpr (hsome r hr)
  · intro r hr x hx
    exact (get_eq_ok_iff b x value).mpr (List.any_eq_true.mpr ⟨r, hr, hx⟩)
  · intro x hx
    rcases List.any_eq_true.mp ((get_eq_ok_iff b x value).mp hx) with
      ⟨r, hr, hrx⟩
    refine ⟨r, ⟨hr, hrx⟩, ?_⟩
    intro s hs
    exact hcanonical.eq_of_contains hs.1 hr hs.2 hrx

/-- The last eleven addresses, with a change of bits between the two bytes and
the last bit set. -/
theorem runs_tile_the_range_up_to_last_address :
    ∃ b, ofRecord ⟨⟨0xFFFFFFFFFFFFFFF5, 0⟩, [0x7E, 0x06]⟩ = .ok b ∧
      b.Obtainable ∧
      b.runs true = [⟨0xFFFFFFFFFFFFFFF6, 0xFFFFFFFFFFFFFFFB⟩,
        ⟨0xFFFFFFFFFFFFFFFE, 0xFFFFFFFFFFFFFFFF⟩] ∧
      b.runs false = [⟨0xFFFFFFFFFFFFFFF5, 0xFFFFFFFFFFFFFFF5⟩,
        ⟨0xFFFFFFFFFFFFFFFC, 0xFFFFFFFFFFFFFFFD⟩] ∧
      Tiling b.range b.tiles := by
  rcases (ofRecord_ok_iff ⟨⟨0xFFFFFFFFFFFFFFF5, 0⟩, [0x7E, 0x06]⟩).mpr
    ⟨by decide, by decide, by decide, by decide⟩ with ⟨b, hb⟩
  have hmade : b.Obtainable := .ofRecord hb
  rcases runs_tile_the_range hmade with ⟨_, htiling, _⟩
  refine ⟨b, hb, hmade, ?_, ?_, htiling⟩
  · rw [(ofRecord_eq_ok hb).2]
    cbv
  · rw [(ofRecord_eq_ok hb).2]
    cbv

end Bitmap
end CudaProfile
