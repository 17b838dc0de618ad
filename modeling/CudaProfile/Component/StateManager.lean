import CudaProfile.AddressSpaces.Application
import CudaProfile.Component.Basic
import CudaProfile.Component.ThreadTracker
/-!
# The state manager

Follows the threads of an application and what they have loaded. When the last
thread has terminated it asks for the data and tells what it knows.
-/

namespace CudaProfile

structure StateManager where
  application : Application
  tracker : ThreadTracker
deriving DecidableEq

namespace StateManager

def empty : StateManager :=
  ⟨∅, ∅⟩

instance : EmptyCollection StateManager :=
  ⟨empty⟩

/-- The messages at the end. Which threads they name depends on what is loaded
where, and not on what was attached to. -/
def terminalMessages (s : StateManager) : List Message :=
  let spaces := s.application.spaces
  [.triggerData true, .attachedToThreads spaces.attachedRecord,
      .triggerAddressBuffer true] ++
    spaces.groupRecords.map Message.linkedObjectGroup ++
    [.threadsFinished true]

def applyInitial (s : StateManager) (group : ObjectGroupRecord) :
    StateManager :=
  ⟨s.application.applyGroup group, s.tracker.attach group.thread⟩

def ofOutcome (s : StateManager) (o : Outcome Application) :
    Reply StateManager :=
  .ofOutcome (o.map fun application => { s with application := application })

instance : Component StateManager where
  name _ := "StateManager"
  accepts _
    | .attachedToThreads _ | .initialLinkedObjects _ | .loadedLinkedObject _
    | .unloadedLinkedObject _ | .threadsStateChanged _ | .symbolTable _ => true
    | _ => false
  handle s
    | .attachedToThreads r =>
        .quiet { s with tracker := s.tracker.attachAll r.threads }
    | .initialLinkedObjects groups => .quiet (groups.foldl applyInitial s)
    | .loadedLinkedObject r =>
        .quiet { s with application := s.application.applyLoaded r }
    | .unloadedLinkedObject r => s.ofOutcome (s.application.applyUnloaded r)
    | .symbolTable r => s.ofOutcome (s.application.applySymbolTable r)
    | .threadsStateChanged r =>
        let (tracker, isLast) := s.tracker.update r
        let s := { s with tracker := tracker }
        if isLast then .send s s.terminalMessages else .quiet s
    | _ => .quiet s

end StateManager
end CudaProfile
