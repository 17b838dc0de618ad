import CudaProfile.Order.Pairs
import CudaProfile.Order.OrderedMap
import CudaProfile.Text.Utf8
/-!
# File paths

A path is a text that is read by its components: repeated and trailing
separators and inner single dots do not count, so differently spelled paths may
be the same. Paths compare by their components and keep their spelling.
-/

namespace CudaProfile

open Std Lexicographic

namespace Path

inductive Component where
  /-- The separator at the front of an absolute path. -/
  | root
  | here
  | up
  | name (text : String)
deriving DecidableEq

def Component.key : Component → Nat × String
  | root => (0, "")
  | here => (1, "")
  | up => (2, "")
  | name text => (3, text)

theorem Component.key_injective {a b : Component} (h : a.key = b.key) :
    a = b := by
  cases a <;> cases b <;> simp_all [Component.key]

instance : Ord Component where
  compare := fun a b => compare a.key b.key

instance : TransOrd Component :=
  inferInstanceAs (TransCmp (compareOn Component.key))

instance : LawfulEqOrd Component where
  eq_of_compare h := Component.key_injective (LawfulEqOrd.eq_of_compare h)
  compare_self {c} := (ReflCmp.compare_self : compare c.key c.key = .eq)

def segmentsFrom : List Char → List Char → List String
  | part, [] => [String.ofList part.reverse]
  | part, c :: rest =>
      if c = '/' then String.ofList part.reverse :: segmentsFrom [] rest
      else segmentsFrom (c :: part) rest

def segments (path : String) : List String :=
  segmentsFrom [] path.toList

def isAbsolute (path : String) : Bool :=
  path.toList.head? = some '/'

/-- The component that a part stands for; empty parts and single dots stand for
none. -/
def component? (segment : String) : Option Component :=
  if segment = "" || segment = "." then none
  else if segment = ".." then some .up
  else some (.name segment)

def components (path : String) : List Component :=
  let parts := segments path
  let front :=
    if isAbsolute path then [Component.root]
    else if parts.head? = some "." then [Component.here]
    else []
  front ++ parts.filterMap component?

def same (a b : String) : Bool :=
  components a = components b

def Component.text? : Component → Option String
  | root => none
  | here => some "."
  | up => some ".."
  | name text => some text

/-- What a path is hashed by: the bytes of its components, one after the other,
and a word that mixes their lengths. One path has one key however it is
spelled, but a path with the root in front has the key of that without. -/
def hashKey (path : String) : List UInt8 × UInt64 :=
  let parts := ((components path).filterMap Component.text?).map Utf8.encode
  (parts.flatten, parts.foldl (fun mixed part =>
    let sum := mixed + UInt64.ofNat part.length
    (sum >>> 2) ||| (sum <<< 62)) 0)

def order (a b : String) : Ordering :=
  compare (components a) (components b)

end Path
end CudaProfile
