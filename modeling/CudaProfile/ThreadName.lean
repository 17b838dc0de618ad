import CudaProfile.Order.Pairs
import CudaProfile.Order.OrderedMap
/-!
# Thread names

A thread is named by its host, its process, its number within the process and
its rank in a parallel job, and threads are ordered in this way. A missing part
comes before any that is there.
-/

namespace CudaProfile

open Std Lexicographic

structure ThreadName where
  host : String
  pid : UInt64
  tid : Option UInt64
  rank : Option UInt32
deriving DecidableEq

namespace ThreadName

def key (t : ThreadName) :
    String × UInt64 × Option UInt64 × Option UInt32 :=
  (t.host, t.pid, t.tid, t.rank)

theorem key_injective {a b : ThreadName} (h : a.key = b.key) : a = b := by
  cases a
  cases b
  simp_all [key]

instance : Ord ThreadName where
  compare := fun a b => compare a.key b.key

instance : TransOrd ThreadName :=
  inferInstanceAs (TransCmp (compareOn key))

instance : LawfulEqOrd ThreadName where
  eq_of_compare h := key_injective (LawfulEqOrd.eq_of_compare h)
  compare_self {t} := (ReflCmp.compare_self : compare t.key t.key = .eq)

def text (t : ThreadName) : String :=
  let tid := match t.tid with
    | some tid => ":" ++ toString tid
    | none => ""
  let rank := match t.rank with
    | some rank => " (rank " ++ toString rank ++ ")"
    | none => ""
  t.host ++ ":" ++ toString t.pid ++ tid ++ rank

end ThreadName
end CudaProfile
