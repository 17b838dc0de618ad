/-!
# Names of hardware counters

Counters are identified by the names of their presets, events and metrics. The
known ones have a name for the head of a column and a descriptive one.
-/

namespace CudaProfile
namespace Counter

structure Entry where
  identifier : String
  short : String
  long : String

def known : List Entry :=
  [
    ⟨"PAPI_TOT_CYC", "Cycles",
      "Total cycles"⟩,
    ⟨"PAPI_TOT_INS", "Instructions",
      "Instructions completed"⟩,
    ⟨"PAPI_FP_OPS", "FP Ops",
      "Floating point operations"⟩,
    ⟨"PAPI_FP_INS", "FP Instructions",
      "Floating point instructions"⟩,
    ⟨"PAPI_SP_OPS", "SP FLOPs",
      "Single precision floating point operations"⟩,
    ⟨"PAPI_DP_OPS", "DP FLOPs",
      "Double precision floating point operations"⟩,
    ⟨"PAPI_LD_INS", "Loads",
      "Load instructions"⟩,
    ⟨"PAPI_SR_INS", "Stores",
      "Store instructions"⟩,
    ⟨"PAPI_BR_INS", "Branches",
      "Branch instructions"⟩,
    ⟨"PAPI_BR_MSP", "Branch Misses",
      "Conditional branch instructions mispredicted"⟩,
    ⟨"PAPI_L1_DCM", "L1 D-Misses",
      "Level 1 data cache misses"⟩,
    ⟨"PAPI_L1_ICM", "L1 I-Misses",
      "Level 1 instruction cache misses"⟩,
    ⟨"PAPI_L1_TCM", "L1 Misses",
      "Level 1 cache misses"⟩,
    ⟨"PAPI_L2_DCM", "L2 D-Misses",
      "Level 2 data cache misses"⟩,
    ⟨"PAPI_L2_TCM", "L2 Misses",
      "Level 2 cache misses"⟩,
    ⟨"PAPI_L3_TCM", "L3 Misses",
      "Level 3 cache misses"⟩,
    ⟨"PAPI_L3_TCA", "L3 Accesses",
      "Level 3 total cache accesses"⟩,
    ⟨"PAPI_TLB_DM", "D-TLB Misses",
      "Data translation lookaside buffer misses"⟩,
    ⟨"PAPI_TLB_IM", "I-TLB Misses",
      "Instruction translation lookaside buffer misses"⟩,
    ⟨"PAPI_RES_STL", "Stalls",
      "Cycles stalled on any resource"⟩,
    ⟨"PAPI_VEC_INS", "Vector Instructions",
      "Vector/SIMD instructions"⟩,
    ⟨"inst_executed", "Instructions",
      "Instructions executed"⟩,
    ⟨"threads_launched", "Threads",
      "Threads launched"⟩,
    ⟨"warps_launched", "Warps",
      "Warps launched"⟩,
    ⟨"active_cycles", "Active Cycles",
      "Cycles a multiprocessor has at least one active warp"⟩,
    ⟨"active_warps", "Active Warps",
      "Accumulated active warps per cycle"⟩,
    ⟨"branch", "Branches",
      "Branch instructions executed"⟩,
    ⟨"divergent_branch", "Divergent Branches",
      "Divergent branch instructions executed"⟩,
    ⟨"global_load", "Global Loads",
      "Global memory load instructions"⟩,
    ⟨"global_store", "Global Stores",
      "Global memory store instructions"⟩,
    ⟨"shared_load", "Shared Loads",
      "Shared memory load instructions"⟩,
    ⟨"shared_store", "Shared Stores",
      "Shared memory store instructions"⟩,
    ⟨"local_load", "Local Loads",
      "Local memory load instructions"⟩,
    ⟨"local_store", "Local Stores",
      "Local memory store instructions"⟩,
    ⟨"elapsed_cycles_sm", "SM Cycles",
      "Elapsed clocks on a multiprocessor"⟩,
    ⟨"achieved_occupancy", "Occupancy",
      "Achieved occupancy"⟩,
    ⟨"ipc", "IPC",
      "Instructions executed per cycle"⟩,
    ⟨"branch_efficiency", "Branch Efficiency",
      "Ratio of non-divergent branches to total branches"⟩,
    ⟨"gld_efficiency", "Load Efficiency",
      "Global memory load efficiency"⟩,
    ⟨"gst_efficiency", "Store Efficiency",
      "Global memory store efficiency"⟩,
    ⟨"dram_utilization", "DRAM Utilization",
      "Device memory utilization level"⟩,
    ⟨"flop_count_sp", "SP FLOPs",
      "Single precision floating point operations"⟩,
    ⟨"flop_count_dp", "DP FLOPs",
      "Double precision floating point operations"⟩]

def find? (counter : String) : Option Entry :=
  known.find? fun e => e.identifier = counter

def shortName (counter : String) : String :=
  match find? counter with
  | some e => e.short
  | none => counter

def longName (counter : String) : String :=
  match find? counter with
  | some e => e.long
  | none => counter

def presetStart : String :=
  "PAPI_"

def isPreset (counter : String) : Bool :=
  presetStart.toList.isPrefixOf counter.toList

end Counter
end CudaProfile
