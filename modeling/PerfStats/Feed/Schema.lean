import PerfStats.Lib.Dict
import PerfStats.Num

namespace PerfStats.Feed

open Lib Text

inductive ParseError where
  | valueError
  | keyError
  | indexError
  | overflowError
  deriving DecidableEq, Repr

def hostProcKeys : List Str :=
  [lit "uid", lit "vm_peak", lit "vm_size", lit "vm_lck", lit "vm_hwm", lit "vm_rss",
    lit "vm_data", lit "vm_stk", lit "vm_exe", lit "vm_lib", lit "vm_pte", lit "vm_swap",
    lit "threads"]

def hostProcPeakKeys : List Str :=
  [lit "vm_peak", lit "vm_hwm", lit "vm_stk", lit "vm_exe", lit "vm_lib"]

def excludeTypes : List Str :=
  [lit "intel_x86_uncore_cha_skx", lit "host_ps", lit "host_sysv_shm", lit "host_tmpfs",
    lit "host_vfs", lit "ib", lit "ib_sw", lit "intel_skx_cha", lit "ps", lit "sysv_shm",
    lit "tmpfs", lit "vfs"]

def gpuStatsTypes : List Str := [lit "nvidia_gpu", lit "amd_gpu", lit "intel_gpu"]

def hostMemJobType : Str := lit "host_mem_job"

def jobStampDevSep : Char := Char.ofNat 0x1f

def maxSampleTime : ℚ := 253402300800

def schemaTokenIsSlowTier (token : Str) : Bool :=
  decide (lit "R=S" ∈ (splitOn ',' token).tail)

def fastSchemaKeys (events : List Str) : List Str := events.filter (!schemaTokenIsSlowTier ·)

def lstripChars (chars s : Str) : Str := s.dropWhile fun c => decide (c ∈ chars)

section Tokens

variable [Interpreter]

def allDigits (s : Str) : Bool := !s.isEmpty && s.all isDigit

def decimal (digits : Str) : Option Nat :=
  match digitPart digits with
  | some (value, _, []) => some value
  | _ => none

structure SchemaKey where
  event : Str
  wid : Nat
  mult : ℚ
  unit : Str
  deriving DecidableEq, Repr

def SchemaKey.option (k : SchemaKey) (ele : Str) : SchemaKey :=
  let k :=
    if contains (lit "W=") ele && allDigits (lstripChars (lit "W=") ele) then
      { k with wid := (decimal (lstripChars (lit "W=") ele)).getD k.wid }
    else k
  if contains (lit "U=") ele then
    let ele := lstripChars (lit "U=") ele
    { k with
      mult := (decimal (ele.filter isDigit)).elim k.mult fun value => (value : ℚ)
      unit := ele.filter isAlpha }
  else k

def compileSchemaToken (token : Str) : SchemaKey :=
  let parts := splitOn ',' token
  parts.tail.foldl SchemaKey.option ⟨parts.headD [], 64, 1, lit "#"⟩

/-- `int` refuses the width, which `isdigit` let through. -/
def unreadWidth (ele : Str) : Bool :=
  contains (lit "W=") ele && allDigits (lstripChars (lit "W=") ele) &&
    (parseInt (lstripChars (lit "W=") ele)).isNone

def schemaTokenUnread (token : Str) : Bool := (splitOn ',' token).tail.any unreadWidth

def compileSchemaTokens (tokens : List Str) : List SchemaKey := tokens.map compileSchemaToken

end Tokens

def schemaKeyBasename (token : Str) : Str := (splitOn ',' token).headD []

def compileSchemaBareNames (tokens : List Str) : List Str := tokens.map schemaKeyBasename

section Legacy

variable [Interpreter]

def legacyHardwareDecodeTypes : List Str :=
  [lit "amd64_pmc", lit "amd64_df", lit "intel_8pmc3", lit "intel_4pmc3", lit "intel_snb_imc",
    lit "intel_ivb_imc", lit "intel_hsw_imc", lit "intel_bdw_imc", lit "intel_knl_mc_dclk",
    lit "intel_knl_mc", lit "intel_skx_imc"]

def removedLegacySymbols : List Str :=
  [lit "host_ib_ext", lit "host_ib_sw", lit "host_mic", lit "intel_knl", lit "intel_knl_edc",
    lit "intel_knl_mc", lit "intel_x86_pmc_knl", lit "intel_x86_uncore_edc_knl",
    lit "intel_x86_uncore_mc_knl", lit "amd_x86_pmc", lit "amd_x86_uncore_df", lit "CTL0",
    lit "CTL1", lit "CTL2", lit "CTL3", lit "CTL4", lit "CTL5", lit "CTL6", lit "CTL7",
    lit "CTR0", lit "CTR1", lit "CTR2", lit "CTR3", lit "CTR4", lit "CTR5", lit "CTR6",
    lit "CTR7", lit "FIXED_CTR", lit "FIXED_CTR0", lit "FIXED_CTR1", lit "FIXED_CTR2"]

def tokenNeedsLegacyDecode (token : Str) : Bool :=
  let base := schemaKeyBasename token
  decide (base ∈ removedLegacySymbols) || contains (lit "CTL") base ||
    contains (lit "CTR") base || contains (lit "FIXED_CTR") base

def schemaNeedsLegacyHardwareDecode (type : Str) (events : List Str) : Bool :=
  events.any tokenNeedsLegacyDecode || decide (type ∈ legacyHardwareDecodeTypes)

structure EventMap where
  codes : List (Int × Str)
  fixed : List (Str × Str)

def amd64PmcEventmap : EventMap :=
  ⟨[(0x43FF03, lit "FLOPS,W=48"), (0x4300C2, lit "BRANCH_INST_RETIRED,W=48"),
    (0x4300C3, lit "BRANCH_INST_RETIRED_MISS,W=48"), (0x4308AF, lit "DISPATCH_STALL_CYCLES1,W=48"),
    (0x43FFAE, lit "DISPATCH_STALL_CYCLES0,W=48")], []⟩

def amd64DfEventmap : EventMap :=
  ⟨[(0x403807, lit "MBW_CHANNEL_0,W=48,U=64B"), (0x403847, lit "MBW_CHANNEL_1,W=48,U=64B"),
    (0x403887, lit "MBW_CHANNEL_2,W=48,U=64B"), (0x4038C7, lit "MBW_CHANNEL_3,W=48,U=64B"),
    (0x433907, lit "MBW_CHANNEL_4,W=48,U=64B"), (0x433947, lit "MBW_CHANNEL_5,W=48,U=64B"),
    (0x433987, lit "MBW_CHANNEL_6,W=48,U=64B"), (0x4339C7, lit "MBW_CHANNEL_7,W=48,U=64B")], []⟩

def intel8pmc3Eventmap : EventMap :=
  ⟨[(0x4301C7, lit "FP_ARITH_INST_RETIRED_SCALAR_DOUBLE,W=48,U=1"),
    (0x4302C7, lit "FP_ARITH_INST_RETIRED_SCALAR_SINGLE,W=48,U=1"),
    (0x4304C7, lit "FP_ARITH_INST_RETIRED_128B_PACKED_DOUBLE,W=48,U=2"),
    (0x4308C7, lit "FP_ARITH_INST_RETIRED_128B_PACKED_SINGLE,W=48,U=4"),
    (0x4310C7, lit "FP_ARITH_INST_RETIRED_256B_PACKED_DOUBLE,W=48,U=4"),
    (0x4320C7, lit "FP_ARITH_INST_RETIRED_256B_PACKED_SINGLE,W=48,U=8"),
    (0x4340C7, lit "FP_ARITH_INST_RETIRED_512B_PACKED_DOUBLE,W=48,U=8"),
    (0x4380C7, lit "FP_ARITH_INST_RETIRED_512B_PACKED_SINGLE,W=48,U=16"),
    (0x438010, lit "SSE_DOUBLE_SCALAR,W=48,U=1"), (0x431010, lit "SSE_DOUBLE_PACKED,W=48,U=2"),
    (0x430211, lit "SIMD_DOUBLE_256,W=48,U=4"), (0x439010, lit "SSE_DOUBLE_ALL,W=48,U=1")],
   [(lit "FIXED_CTR0", lit "INST_RETIRED,W=48"), (lit "FIXED_CTR1", lit "APERF,W=48"),
    (lit "FIXED_CTR2", lit "MPERF,W=48")]⟩

def intelSkxImcEventmap : EventMap :=
  ⟨[(0x400304, lit "CAS_READS,W=48"), (0x400C04, lit "CAS_WRITES,W=48"),
    (0x400B01, lit "ACT_COUNT,W=48"), (0x400102, lit "PRE_COUNT_MISS,W=48")], []⟩

def intelSnbImcEventmap : EventMap :=
  ⟨[(0x400304, lit "CAS_READS,W=48"), (0x400B04, lit "CAS_WRITES,W=48")], []⟩

def intelIvbImcEventmap : EventMap := intelSnbImcEventmap

def intelHswImcEventmap : EventMap :=
  ⟨[(0x400304, lit "CAS_READS,W=48"), (0x400B04, lit "CAS_WRITES,W=48")], []⟩

def intelBdwImcEventmap : EventMap := intelHswImcEventmap

def intelKnlMcDclkEventmap : EventMap :=
  ⟨[(0x300301, lit "CAS_READS,W=48"), (0x300309, lit "CAS_WRITES,W=48")], []⟩

def eventmapsByType : List (Str × EventMap) :=
  [(lit "amd64_pmc", amd64PmcEventmap), (lit "amd64_df", amd64DfEventmap),
    (lit "intel_8pmc3", intel8pmc3Eventmap), (lit "intel_4pmc3", intel8pmc3Eventmap),
    (lit "intel_snb_imc", intelSnbImcEventmap), (lit "intel_ivb_imc", intelIvbImcEventmap),
    (lit "intel_hsw_imc", intelHswImcEventmap), (lit "intel_bdw_imc", intelBdwImcEventmap),
    (lit "intel_knl_mc_dclk", intelKnlMcDclkEventmap),
    (lit "intel_knl_mc", intelKnlMcDclkEventmap), (lit "intel_skx_imc", intelSkxImcEventmap)]

/-- The loop of `map_hardware_counter_vals`: control registers name the counters. -/
structure CounterScan where
  names : Dict Str Str
  removed : List Nat
  events : List Str

def CounterScan.step (eventmap : EventMap) (vals : List Str) (scan : CounterScan)
    (idx : Nat) (token : Str) : Except ParseError CounterScan :=
  let eve := schemaKeyBasename token
  if contains (lit "CTL") eve then
    let code := (vals[idx]?.bind parseInt).bind fun n => eventmap.codes.lookup n
    .ok { scan with
      names := scan.names.set (lstripChars (lit "CTL") eve) (code.getD (lit "OTHER"))
      removed := scan.removed ++ [idx] }
  else if contains (lit "FIXED_CTR") eve then
    match eventmap.fixed.lookup eve with
    | some event => .ok { scan with events := scan.events ++ [event] }
    | none => .error .keyError
  else if contains (lit "CTR") eve then
    match scan.names.get? (lstripChars (lit "CTR") eve) with
    | some event => .ok { scan with events := scan.events ++ [event] }
    | none => .error .keyError
  else .ok { scan with events := scan.events ++ [eve] }

def CounterScan.run (eventmap : EventMap) (vals : List Str) :
    CounterScan → Nat → List Str → Except ParseError CounterScan
  | scan, _, [] => .ok scan
  | scan, idx, token :: rest => do
      let next ← scan.step eventmap vals idx token
      run eventmap vals next (idx + 1) rest

def deleteIndices : List Nat → List Str → Except ParseError (List Str)
  | [], vals => .ok vals
  | idx :: rest, vals =>
    if idx < vals.length then deleteIndices rest (vals.eraseIdx idx) else .error .indexError

def mapHardwareCounterVals (events vals : List Str) (eventmap : EventMap) :
    Except ParseError (Dict Str Str) := do
  let scan ← CounterScan.run eventmap vals ⟨.empty, [], []⟩ 0 events
  let vals ← deleteIndices scan.removed.reverse vals
  return (scan.events.zip vals).foldl (fun d (event, value) => d.set event value) .empty

def legacyOutputType (type : Str) : Str :=
  if type = lit "intel_knl_mc" then lit "intel_knl_mc_dclk" else type

/-- The decoded events of a counter line; `none` skips the line. -/
def decodeCounterLine (type : Str) (events vals : List Str) :
    Except ParseError (Option (Dict Str Str)) :=
  match eventmapsByType.lookup type with
  | none => .ok none
  | some eventmap => (mapHardwareCounterVals events vals eventmap).map some

end Legacy

end PerfStats.Feed
