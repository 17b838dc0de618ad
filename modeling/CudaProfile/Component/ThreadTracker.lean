import CudaProfile.Wire.Record
/-!
# Tracking threads

Which threads were attached to, what state each is in, and when the last of
them has terminated.
-/

namespace CudaProfile

structure ThreadTracker where
  threads : OrderedMap ThreadName ThreadState
  finished : Bool
deriving DecidableEq

namespace ThreadTracker

def empty : ThreadTracker :=
  ⟨∅, false⟩

instance : EmptyCollection ThreadTracker :=
  ⟨empty⟩

/-- Track a thread as running; one that is known keeps its state. -/
def attach (t : ThreadTracker) (r : ThreadRecord) : ThreadTracker :=
  { t with
    threads := t.threads.alter r.name fun known => known.getD .running }

def attachAll (t : ThreadTracker) (rs : List ThreadRecord) : ThreadTracker :=
  rs.foldl attach t

def change (state : ThreadState) (t : ThreadTracker) (r : ThreadRecord) :
    ThreadTracker :=
  if t.threads.contains r.name then
    { t with threads := t.threads.insert r.name state }
  else t

def allTerminated (t : ThreadTracker) : Bool :=
  !t.threads.isEmpty &&
    t.threads.values.all fun state => state = .terminated

/-- Threads change to a state. Tells whether this finds all of them terminated
for the first time. -/
def update (t : ThreadTracker) (r : StateChangeRecord) : ThreadTracker × Bool :=
  let t := r.threads.foldl (change r.state) t
  if r.state = .terminated && !t.finished && t.allTerminated then
    ({ t with finished := true }, true)
  else (t, false)

def state? (t : ThreadTracker) (thread : ThreadName) : Option ThreadState :=
  t.threads.get? thread

end ThreadTracker
end CudaProfile
