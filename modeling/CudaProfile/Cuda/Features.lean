import CudaProfile.Cuda.PerformanceData
import CudaProfile.Feature
/-!
# Features of CUDA performance data

How many kernels a thread had executed and how much memory it had copied, and
how long it took.
-/

namespace CudaProfile
namespace Cuda
namespace Features

def vectorName : String :=
  "cuda"

/-- A sum of words; what is no word counts as the greatest one. -/
def boundedSum (words : List UInt64) : UInt64 :=
  words.foldl
    (fun sum word =>
      if word > Interval.maxWord - sum then Interval.maxWord else sum + word)
    0

def precision : Nat :=
  53

def mean (sum : UInt64) (count : Nat) : Single :=
  if count = 0 then .zero
  else
    let round := Number.roundToBits precision
    let quotient := round (round sum.toNat / round count)
    .ofFraction quotient.num.natAbs quotient.den

def ofThread (p : PerformanceData) (thread : ThreadName) :
    Except Error FeatureVector :=
  let kernels := p.kernelsIn thread .full
  let transfers := p.transfersIn thread .full
  let kernelTime := boundedSum (kernels.map KernelExecution.duration)
  let bytes := boundedSum (transfers.map DataTransfer.size)
  let transferTime :=
    boundedSum (transfers.map fun t => Time.elapsed t.timeBegin t.timeEnd)
  (FeatureVector.new vectorName thread).addAll
    [.named "kernel_count" (.ofNat kernels.length),
      .named "kernel_time" (.ofNat kernelTime.toNat),
      .named "transfer_count" (.ofNat transfers.length),
      .named "transfer_bytes" (.ofNat bytes.toNat),
      .named "transfer_time" (.ofNat transferTime.toNat),
      .named "mean_kernel_time" (mean kernelTime kernels.length)]

end Features
end Cuda
end CudaProfile
