import Mathlib.Logic.Function.Basic
import CudaProfile.Wire.Record
/-!
# Thread names in records

In a record a negative number in the place of the rank says that the thread has
none. The bits of a rank are written as they are, and those of the greater half
of the ranks are the bits of a negative number: such a rank is read back as no
rank, and the last of them is written like no rank. All other parts of a name
survive, whatever their values.
-/

namespace CudaProfile
namespace ThreadRecord

/-! ## Ranks -/

/-- The first rank with the bits of a negative number. -/
def firstLostRank : UInt32 :=
  0x80000000

def lastRank : UInt32 :=
  0xFFFFFFFF

theorem toInt32_nonneg_iff (rank : UInt32) :
    rank.toInt32 ≥ 0 ↔ rank < firstLostRank := by
  have hbound : firstLostRank.toNat = 2147483648 := rfl
  have hbits : rank.toInt32.toInt = rank.toBitVec.toInt := rfl
  rw [ge_iff_le, Int32.le_iff_toInt_le, hbits, UInt32.lt_iff_toNat_lt, hbound]
  show 0 ≤ rank.toBitVec.toInt ↔ rank.toBitVec.toNat < 2147483648
  rw [BitVec.toInt_pos_iff]
  omega

theorem toInt32_injective : Function.Injective UInt32.toInt32 :=
  Function.LeftInverse.injective UInt32.toUInt32_toInt32

variable {t u : ThreadName}

theorem rank_ofName (t : ThreadName) :
    (ofName t).rank = (t.rank.getD lastRank).toInt32 := by
  unfold ofName
  cases t.rank with
  | none =>
      rfl
  | some rank =>
      rfl

/-! ## Read back -/

theorem tid_name_ofName (t : ThreadName) : (ofName t).name.tid = t.tid := by
  unfold ofName name
  cases t.tid with
  | none =>
      rfl
  | some tid =>
      exact congrArg some tid.toUInt64_toInt64

theorem rank_name_ofName (t : ThreadName) :
    (ofName t).name.rank =
      t.rank.filter fun rank => rank < firstLostRank := by
  show (if (ofName t).rank ≥ 0 then some (ofName t).rank.toUInt32 else none) = _
  rw [rank_ofName]
  cases t.rank with
  | none =>
      rfl
  | some rank =>
      simp only [Option.getD_some, toInt32_nonneg_iff,
        UInt32.toUInt32_toInt32, Option.filter_some, decide_eq_true_eq]

theorem name_ofName_eq (t : ThreadName) :
    (ofName t).name =
      { t with rank := t.rank.filter fun rank => rank < firstLostRank } := by
  have hpid : (ofName t).name.pid = t.pid := t.pid.toUInt64_toInt64
  show ThreadName.mk _ _ _ _ = ThreadName.mk _ _ _ _
  rw [ThreadName.mk.injEq]
  exact ⟨rfl, hpid, tid_name_ofName t, rank_name_ofName t⟩

theorem name_ofName_eq_self_iff :
    (ofName t).name = t ↔ ∀ rank ∈ t.rank, rank < firstLostRank := by
  rw [name_ofName_eq]
  rcases t with ⟨host, pid, tid, rank⟩
  cases rank with
  | none =>
      simp
  | some rank =>
      simp

/-! ## One record for two names -/

/-- Names that differ only in that one has no rank and the other the last. -/
def Confused (t u : ThreadName) : Prop :=
  { t with rank := none } = { u with rank := none } ∧
    (t.rank = none ∧ u.rank = some lastRank ∨
      t.rank = some lastRank ∧ u.rank = none)

theorem getD_lastRank_eq_iff {rank other : Option UInt32} :
    rank.getD lastRank = other.getD lastRank ↔
      rank = other ∨ rank = none ∧ other = some lastRank ∨
        rank = some lastRank ∧ other = none := by
  cases rank with
  | none =>
      cases other with
      | none =>
          simp
      | some other =>
          simp [eq_comm]
  | some rank =>
      cases other with
      | none =>
          simp
      | some other =>
          simp

theorem ofName_eq_ofName_iff : ofName t = ofName u ↔ t = u ∨ Confused t u := by
  have hranks : (ofName t).rank = (ofName u).rank ↔
      t.rank.getD lastRank = u.rank.getD lastRank := by
    rw [rank_ofName, rank_ofName, toInt32_injective.eq_iff]
  constructor
  · intro h
    have hrank := getD_lastRank_eq_iff.mp (hranks.mp (congrArg rank h))
    have hrest : { t with rank := none } = { u with rank := none } := by
      have hname := congrArg name h
      rw [name_ofName_eq, name_ofName_eq] at hname
      exact congrArg (fun name => { name with rank := none }) hname
    rcases hrank with hsame | hconfused
    · left
      rcases t with ⟨host, pid, tid, rank⟩
      rcases u with ⟨host', pid', tid', rank'⟩
      rw [ThreadName.mk.injEq] at hrest ⊢
      exact ⟨hrest.1, hrest.2.1, hrest.2.2.1, hsame⟩
    · exact .inr ⟨hrest, hconfused⟩
  · intro h
    rcases h with rfl | ⟨hrest, hconfused⟩
    · rfl
    · have hrank := hranks.mpr (getD_lastRank_eq_iff.mpr (.inr hconfused))
      rcases t with ⟨host, pid, tid, rank⟩
      rcases u with ⟨host', pid', tid', rank'⟩
      rw [ThreadName.mk.injEq] at hrest
      rcases hrest with ⟨rfl, rfl, rfl, _⟩
      exact congrArg (ThreadRecord.mk _ _ _ _ _) hrank

/-- A thread name survives its record exactly if its rank, if it has one, has
the bits of a number that is not negative; else all but the rank survives. Two
names share a record only if one has no rank and the other the last. -/
theorem name_survives_record_iff (t u : ThreadName) :
    (ofName t).name =
        { t with rank := t.rank.filter fun rank => rank < firstLostRank } ∧
      ((ofName t).name = t ↔ ∀ rank ∈ t.rank, rank < firstLostRank) ∧
      (ofName t = ofName u ↔ t = u ∨ Confused t u) :=
  ⟨name_ofName_eq t, name_ofName_eq_self_iff, ofName_eq_ofName_iff⟩

/-- The first rank that is lost, and the one that is written like no rank. -/
theorem great_ranks_are_lost :
    (ofName ⟨"a", 1, none, some 0x80000000⟩).name ≠
        ⟨"a", 1, none, some 0x80000000⟩ ∧
      ofName ⟨"a", 1, none, some 0xFFFFFFFF⟩ = ofName ⟨"a", 1, none, none⟩ := by
  decide

end ThreadRecord
end CudaProfile
