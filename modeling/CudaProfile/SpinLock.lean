/-!
# A lock

A lock that is held or free, as one thread at a time sees it.
-/

namespace CudaProfile

structure SpinLock where
  held : Bool
deriving DecidableEq

namespace SpinLock

def free : SpinLock :=
  ⟨false⟩

def tryAcquire (l : SpinLock) : SpinLock × Bool :=
  (⟨true⟩, !l.held)

def acquire (_ : SpinLock) : SpinLock :=
  ⟨true⟩

def release (_ : SpinLock) : SpinLock :=
  ⟨false⟩

def guarded {α : Type} (l : SpinLock) (action : SpinLock → α) : SpinLock × α :=
  let taken := l.acquire
  let result := action taken
  (taken.release, result)

end SpinLock
end CudaProfile
