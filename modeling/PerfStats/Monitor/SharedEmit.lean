import PerfStats.Monitor.EmitFilter

namespace PerfStats.Monitor

open Text

section Burst

/-- What `sched_getaffinity` says of a process; `gone` where `errno` is `EPERM` or `ESRCH`. -/
inductive Affinity where
  | cpus (mask : Finset Nat)
  | gone
  | failed

/-- A node at one tick: its online CPUs, the affinities of its processes, and its GPUs, each a type
and a device. -/
structure Node where
  online : List (Nat × Nat)
  readable : PiecesReadable online
  some_online : online ≠ []
  short : (listText online ++ ['\n']).length < 4096
  conf : Nat
  affinity : Int → Affinity
  masks_online : ∀ pid mask, affinity pid = .cpus mask → ∀ c ∈ mask, Covers online c
  sampleLimit : Int
  nrCpus : Nat
  nr_small : nrCpus < 2 ^ 31
  nvidia : Option Int
  gpus : List (Str × Str)
  gpu_types : ∀ row ∈ gpus, isGpuType row.1 = true

structure Discovered where
  entries : List JidEntry
  nodup : (entries.map (·.jid)).Nodup
  few : entries.length ≤ 128

inductive CpuCoverage where
  | unknown
  | part
  | exactAll
deriving DecidableEq

def Node.onlineFile (node : Node) : Str := listText node.online ++ ['\n']

def Node.ncpus (node : Node) : Nat := max 1024 node.conf

/-- `job_sched_affinity_read_online`. -/
def readOnline (node : Node) : Option (Finset Nat) := parseCpulistInto node.ncpus node.onlineFile

def sampleMasks (affinity : Int → Affinity) : Nat → List Int → Option (List (Finset Nat))
  | 0, _ => some []
  | _ + 1, [] => some []
  | limit + 1, pid :: pids =>
    match affinity pid with
    | .cpus mask => (sampleMasks affinity limit pids).map (mask :: ·)
    | .gone => sampleMasks affinity (limit + 1) pids
    | .failed => none

def sampledUnion (node : Node) (pids : List Int) (sampleLimit : Int) : Option (Finset Nat) :=
  let limit := if sampleLimit ≤ 0 then 8 else sampleLimit.toNat
  match sampleMasks node.affinity limit pids with
  | some (mask :: masks) => some ((mask :: masks).foldl (· ∪ ·) ∅)
  | _ => none

structure UnionCpulist where
  out : Str
  cov : CpuCoverage
  ok : Bool

/-- `job_sched_affinity_union_cpulist`. -/
def unionCpulist (node : Node) (pids : List Int) (sampleLimit : Int) (cap : Nat) : UnionCpulist :=
  match readOnline node, sampledUnion node pids sampleLimit with
  | some online, some sampled =>
    let union := sampled.filter (· < node.ncpus)
    let written := formatCpulist union node.ncpus cap
    if written.2 then ⟨written.1, if union = online then .exactAll else .part, true⟩
    else ⟨written.1, .unknown, false⟩
  | _, _ => ⟨[], .unknown, false⟩

def entryCpulist (node : Node) (entry : JidEntry) (cap : Nat) : UnionCpulist :=
  if 0 < entry.stepdPid then
    let stepd := unionCpulist node [entry.stepdPid] 1 cap
    if stepd.ok then stepd else unionCpulist node entry.pids node.sampleLimit cap
  else unionCpulist node entry.pids node.sampleLimit cap

def jobEmitSoleCtx (entry : JidEntry) (cov : CpuCoverage) (available : GpuSet) :
    Option EmitFilterCtx :=
  if !entry.emitsAffinity || (decide (cov = .exactAll) && available.inventoryKnown) then
    some ⟨some entry, some available, none, true, true, true⟩
  else none

/-- What is inserted into the ring: the `jobid` of the header, the marks and the row filter. -/
structure BurstPayload where
  jobid : Str
  mark1 : Option Str
  mark2 : Option Str
  ctx : EmitFilterCtx

def BurstPayload.emits (payload : BurstPayload) (row : Str × Str) : Bool :=
  jobEmitRowFilter payload.ctx row.1 row.2

def formatJobsCsv (entries : List JidEntry) : Str :=
  (joinInto (128 * (32 + 1)) [] (entries.map (·.jid))).getD []

def jobsMark (entries : List JidEntry) : Str :=
  (lit "jobs jids=" ++ formatJobsCsv entries).take 255

def JidEntry.gpuUnion (entry : JidEntry) : GpuSet :=
  if entry.emitsAffinity then gpuSetUnion entry.granted entry.inUse else ⟨[], false⟩

def jobCpulist (node : Node) (entry : JidEntry) : Str :=
  if entry.emitsAffinity then (entryCpulist node entry 512).out else []

def affinityMark (node : Node) (entry : JidEntry) : Option Str :=
  if jobCpulist node entry = [] then none
  else
    some ((lit "affinity jid=" ++ entry.jid ++ lit " cpus=" ++ jobCpulist node entry ++
      lit " gpus=" ++ gpuSetFormatWire entry.gpuUnion ++ lit " cg=sched").take 767)

def claimedGpus (entries : List JidEntry) : GpuSet :=
  entries.foldl
    (fun claimed entry =>
      if entry.emitsAffinity then gpuSetUnion claimed entry.gpuUnion else claimed) ⟨[], false⟩

def jobPayload (node : Node) (entries : List JidEntry) (entry : JidEntry) : BurstPayload :=
  ⟨entry.jid, some (jobsMark entries), affinityMark node entry,
    jobEmitMultiCtx entry entry.gpuUnion (jobCpulist node entry)⟩

def remainderPayload (node : Node) (entries : List JidEntry) : BurstPayload :=
  let available := fillAvailableGpus node.nvidia
  let cpuPtrs := (entries.map (jobCpulist node)).filter fun list => decide (list ≠ [])
  let remCpus := (cpulistSubtract node.onlineFile cpuPtrs 512).1
  ⟨lit "-", none, none, jobEmitRemainderCtx (gpuSetDiff available (claimedGpus entries))
    (some remCpus) available.inventoryKnown⟩

def markedBurst (node : Node) (entries : List JidEntry) : List BurstPayload :=
  entries.map (jobPayload node entries) ++ [remainderPayload node entries]

/-- `job_shared_emit_sample_burst`: the payloads of one tick. -/
def sampleBurst (node : Node) (disc : Discovered) : List BurstPayload :=
  let available := fillAvailableGpus node.nvidia
  match disc.entries with
  | [] => [⟨lit "-", none, none, jobEmitRemainderCtx available none available.inventoryKnown⟩]
  | [entry] =>
    let cov := if entry.emitsAffinity then (entryCpulist node entry 512).cov else .unknown
    match jobEmitSoleCtx entry cov available with
    | some ctx => [⟨entry.jid, none, none, ctx⟩]
    | none => markedBurst node [entry]
  | entries => markedBurst node entries

end Burst

section Purpose

def jobCpus (node : Node) (entry : JidEntry) : Finset Nat :=
  let tasks := (sampledUnion node entry.pids node.sampleLimit).getD ∅
  if 0 < entry.stepdPid then (sampledUnion node [entry.stepdPid] 1).getD tasks else tasks

/-- A row that a node collects: node-wide ones, one for each online CPU and each index below the
number of CPUs, and its GPUs. -/
def Collected (node : Node) (row : Str × Str) : Prop :=
  NodeWideType row.1 ∨
    (row.1 = lit "host_cpu" ∧ ∃ c, Covers node.online c ∧ row.2 = decimalText c) ∨
    (row.1 = lit "host_cpu_hw" ∧ ∃ c < node.nrCpus, row.2 = decimalText c) ∨
    row ∈ node.gpus

def OwnsCpu (node : Node) (disc : Discovered) (entry : JidEntry) (c : Nat) : Prop :=
  if entry.emitsAffinity then c ∈ jobCpus node entry else disc.entries.length = 1

structure BurstSound (node : Node) (disc : Discovered) : Prop where
  kept : ∀ row, Collected node row → ∃ payload ∈ sampleBurst node disc, payload.emits row = true
  apart : ∀ row, Collected node row → isCpuType row.1 = true ∨ isGpuType row.1 = true →
    ∀ rest ∈ sampleBurst node disc, rest.jobid = lit "-" → rest.emits row = true →
      ∀ job ∈ sampleBurst node disc, job.jobid ≠ lit "-" → job.emits row = false
  owned : ∀ entry ∈ disc.entries, ∀ job ∈ sampleBurst node disc, job.jobid = entry.jid →
    ∀ row c, Collected node row → isCpuType row.1 = true → row.2 = decimalText c →
      (job.emits row = true ↔ OwnsCpu node disc entry c)
  marks : ∀ payload ∈ sampleBurst node disc, ∀ mark, payload.mark1 = some mark →
    ∃ csv, mark = lit "jobs jids=" ++ csv ∧ ∀ entry ∈ disc.entries, entry.jid ∈ splitOn ',' csv

end Purpose

section Condition

def OnlineRead (node : Node) : Prop := ∀ p ∈ node.online, p.2 < node.ncpus

/-- The list of a job's CPUs can be written: it is empty, or the online CPUs are read and its
text has fewer than 512 characters. -/
def ListFits (node : Node) (entry : JidEntry) : Prop :=
  jobCpus node entry = ∅ ∨ OnlineRead node ∧ (cpuText (jobCpus node entry)).length < 512

def WholeNode (node : Node) (disc : Discovered) : Prop :=
  disc.entries = [] ∨ ∃ entry, disc.entries = [entry] ∧
    (entry.emitsAffinity = true → ∀ c, c ∈ jobCpus node entry ↔ Covers node.online c)

def Node.onlineSet (node : Node) : Finset Nat :=
  node.online.toFinset.biUnion fun p => Finset.Icc p.1 p.2

def freeCpus (node : Node) (disc : Discovered) : Finset Nat :=
  node.onlineSet.filter fun c =>
    ∀ entry ∈ disc.entries, entry.emitsAffinity = true → c ∉ jobCpus node entry

def jobGpuNames (entries : List JidEntry) : List GpuDev := entries.flatMap (·.gpuUnion.devs)

/-- A whole node: every GPU is an NVIDIA one of the first 64, and a job that has all online CPUs
has all whose counters are read. -/
structure WholeFits (node : Node) (disc : Discovered) : Prop where
  gpus : ∀ row ∈ node.gpus, ∃ d ∈ (fillAvailableGpus node.nvidia).devs, d.val = row.2
  indices : (∃ entry ∈ disc.entries, entry.emitsAffinity = true) →
    ∀ i < node.nrCpus, Covers node.online i

/-- A marked tick: every GPU is known or a job's, one that is both is among the first 64 of the
jobs', and the lists of free CPUs and jobs fit their buffers. -/
structure MarkedFits (node : Node) (disc : Discovered) : Prop where
  gpus : ∀ row ∈ node.gpus, ∃ d : GpuDev, d.val = row.2 ∧
    (d ∈ (fillAvailableGpus node.nvidia).devs ∨ ∃ entry ∈ disc.entries, d ∈ entry.gpuUnion.devs)
  claims : ∀ row ∈ node.gpus, ∀ d ∈ (fillAvailableGpus node.nvidia).devs, d.val = row.2 →
    d ∈ jobGpuNames disc.entries → FirstNames (jobGpuNames disc.entries) d
  free : (cpuText (freeCpus node disc)).length < 512
  indices : ∀ i < node.nrCpus, Covers node.online i
  jids : (disc.entries.map fun entry => entry.jid.length + 1).sum ≤ 246
  commas : ∀ entry ∈ disc.entries, ',' ∉ entry.jid

structure BurstFits (node : Node) (disc : Discovered) : Prop where
  lists : ∀ entry ∈ disc.entries, entry.emitsAffinity = true → ListFits node entry
  whole : WholeNode node disc → WholeFits node disc
  marked : ¬ WholeNode node disc → MarkedFits node disc

end Condition

section Lists

variable {node : Node} {ps : List (Nat × Nat)}

theorem onlineFile_ends : Ends ['\n'] := .inr rfl

theorem mem_onlineSet {c : Nat} : c ∈ node.onlineSet ↔ Covers node.online c := by
  simp [Node.onlineSet, Covers]

theorem readOnline_some (read : OnlineRead node) : readOnline node = some node.onlineSet := by
  obtain ⟨parsed, result, members⟩ := parseCpulistInto_list onlineFile_ends node.readable read
  have same : parsed = node.onlineSet := by
    ext c
    rw [members, mem_onlineSet]
  rw [readOnline, Node.onlineFile, result, same]

theorem readOnline_none (unread : ¬ OnlineRead node) : readOnline node = none := by
  have large : ∃ p ∈ node.online, node.ncpus ≤ p.2 := by simpa [OnlineRead] using unread
  exact parseCpulistInto_over onlineFile_ends node.readable large

theorem onlineSet_lt (read : OnlineRead node) {c : Nat} (member : c ∈ node.onlineSet) :
    c < node.ncpus := by
  obtain ⟨p, listed, _, high⟩ := mem_onlineSet.mp member
  exact high.trans_lt (read p listed)

variable {set : Finset Nat} {pids : List Int}

theorem sampleMasks_online {limit : Nat} {masks : List (Finset Nat)}
    (sampled : sampleMasks node.affinity limit pids = some masks) :
    ∀ mask ∈ masks, ∀ c ∈ mask, c ∈ node.onlineSet := by
  induction limit, pids using sampleMasks.induct node.affinity generalizing masks with
  | case1 pids =>
    rw [sampleMasks, Option.some.injEq] at sampled
    simp [← sampled]
  | case2 limit =>
    rw [sampleMasks, Option.some.injEq] at sampled
    simp [← sampled]
  | case3 limit pid pids mask found ih =>
    rw [sampleMasks, found] at sampled
    obtain ⟨rest, later, rfl⟩ := Option.map_eq_some_iff.mp sampled
    rw [List.forall_mem_cons]
    exact ⟨fun c member => mem_onlineSet.mpr (node.masks_online pid mask found c member), ih later⟩
  | case4 limit pid pids gone ih =>
    rw [sampleMasks, gone] at sampled
    exact ih sampled
  | case5 limit pid pids failed =>
    rw [sampleMasks, failed] at sampled
    cases sampled

theorem sampledUnion_online {limit : Int} {sampled : Finset Nat}
    (found : sampledUnion node pids limit = some sampled) : ∀ c ∈ sampled, c ∈ node.onlineSet := by
  unfold sampledUnion at found
  dsimp only at found
  split at found
  · next mask masks read =>
      cases found
      intro c member
      rw [mem_foldl_union] at member
      obtain none_here | ⟨set, listed, inside⟩ := member
      · simp at none_here
      · exact sampleMasks_online read set listed c inside
  · cases found

theorem jobCpus_online (entry : JidEntry) : ∀ c ∈ jobCpus node entry, c ∈ node.onlineSet := by
  have tasks : ∀ c ∈ (sampledUnion node entry.pids node.sampleLimit).getD ∅, c ∈ node.onlineSet := by
    cases found : sampledUnion node entry.pids node.sampleLimit with
    | none => simp
    | some sampled => exact sampledUnion_online found
  rw [jobCpus]
  split
  · cases found : sampledUnion node [entry.stepdPid] 1 with
    | none => exact tasks
    | some sampled => exact sampledUnion_online found
  · exact tasks

structure Written (node : Node) (r : UnionCpulist) (ps : List (Nat × Nat)) : Prop where
  text : r.out = listText ps
  runs : Runs ps
  short : (listText ps).length < 512
  inside : ∀ c, Covers ps c → c ∈ node.onlineSet
  exact_all : r.cov = .exactAll → ∀ c, Covers ps c ↔ c ∈ node.onlineSet

theorem written_nothing : Written node ⟨[], .unknown, false⟩ [] :=
  ⟨rfl, ⟨by simp, .nil⟩, by decide, by simp [Covers], by simp⟩

theorem unionCpulist_none {limit : Int} {cap : Nat}
    (absent : ¬ OnlineRead node ∨ sampledUnion node pids limit = none) :
    unionCpulist node pids limit cap = ⟨[], .unknown, false⟩ := by
  unfold unionCpulist
  obtain unread | failed := absent
  · rw [readOnline_none unread]
  · rw [failed]
    cases readOnline node <;> rfl

theorem unionCpulist_some {pids : List Int} {limit : Int} {sampled : Finset Nat}
    (read : OnlineRead node) (found : sampledUnion node pids limit = some sampled) :
    ∃ ps, Written node (unionCpulist node pids limit 512) ps ∧
      ((unionCpulist node pids limit 512).ok = true ↔ (cpuText sampled).length < 512) ∧
      ((unionCpulist node pids limit 512).ok = true →
        (∀ c, Covers ps c ↔ c ∈ sampled) ∧
        ((unionCpulist node pids limit 512).cov = .exactAll ↔ sampled = node.onlineSet)) := by
  have online := sampledUnion_online found
  have small : ∀ c ∈ sampled, c < node.ncpus := fun c member => onlineSet_lt read (online c member)
  have kept : sampled.filter (· < node.ncpus) = sampled := by
    rw [Finset.filter_eq_self]
    exact small
  obtain ⟨ps, text, runs, short, covers, whole, fits⟩ :=
    @formatCpulist_spec sampled node.ncpus 512 small (by omega)
  have result : unionCpulist node pids limit 512 =
      if (formatCpulist sampled node.ncpus 512).2 then
        ⟨(formatCpulist sampled node.ncpus 512).1,
          if sampled = node.onlineSet then .exactAll else .part, true⟩
      else ⟨(formatCpulist sampled node.ncpus 512).1, .unknown, false⟩ := by
    unfold unionCpulist
    rw [readOnline_some read, found]
    dsimp only
    rw [kept]
  rw [result]
  by_cases room : (formatCpulist sampled node.ncpus 512).2 = true
  · rw [if_pos room]
    have same : ∀ c, Covers ps c ↔ c ∈ sampled := fun c => ⟨covers c, whole room c⟩
    refine ⟨ps, ⟨text, runs, short, fun c covered => online c (covers c covered), ?_⟩, ?_, ?_⟩
    · intro all c
      rw [same]
      by_cases equal : sampled = node.onlineSet
      · rw [equal]
      · simp [equal] at all
    · simp [fits.mp room]
    · intro _
      refine ⟨same, ?_⟩
      by_cases equal : sampled = node.onlineSet <;> simp [equal]
  · rw [if_neg room]
    refine ⟨ps, ⟨text, runs, short, fun c covered => online c (covers c covered), by simp⟩, ?_, by simp⟩
    rw [← fits]
    simp [room]

theorem unionCpulist_written (pids : List Int) (limit : Int) :
    ∃ ps, Written node (unionCpulist node pids limit 512) ps := by
  by_cases read : OnlineRead node
  · cases found : sampledUnion node pids limit with
    | none =>
      rw [unionCpulist_none (.inr found)]
      exact ⟨[], written_nothing⟩
    | some sampled =>
      obtain ⟨ps, written, _⟩ := @unionCpulist_some node pids limit sampled read found
      exact ⟨ps, written⟩
  · rw [unionCpulist_none (.inl read)]
    exact ⟨[], written_nothing⟩

theorem cpuText_empty : cpuText ∅ = [] := by decide

theorem online_some : ∃ c, c ∈ node.onlineSet := by
  obtain ⟨p, rest, shape⟩ := List.exists_cons_of_ne_nil node.some_online
  have listed : p ∈ node.online := by
    rw [shape]
    exact List.mem_cons_self
  exact ⟨p.1, mem_onlineSet.mpr ⟨p, listed, le_rfl, (node.readable p listed).1⟩⟩

structure ListOf (node : Node) (r : UnionCpulist) (set : Finset Nat) (ps : List (Nat × Nat)) :
    Prop where
  written : Written node r ps
  whole : (∀ c, Covers ps c ↔ c ∈ set) ↔
    set = ∅ ∨ OnlineRead node ∧ (cpuText set).length < 512
  cov : (∀ c, Covers ps c ↔ c ∈ set) → (r.cov = .exactAll ↔ set = node.onlineSet)

theorem listOf_nothing (absent : set = ∅ ∨ ¬ OnlineRead node) :
    ListOf node ⟨[], .unknown, false⟩ set [] := by
  have empty : (∀ c, Covers [] c ↔ c ∈ set) ↔ set = ∅ := by
    simp [Covers, Finset.eq_empty_iff_forall_notMem]
  refine ⟨written_nothing, ?_, fun same => ?_⟩
  · rw [empty]
    constructor
    · exact .inl
    · intro fits
      obtain none_here | ⟨read, _⟩ := fits
      · exact none_here
      · exact absent.resolve_right fun unread => unread read
  · obtain ⟨c, member⟩ := @online_some node
    rw [empty.mp same]
    simp only [reduceCtorEq, false_iff]
    intro none_online
    rw [← none_online] at member
    simp at member

theorem listOf_unfit {r : UnionCpulist}
    (written : Written node r ps) (unfit : ¬ (cpuText set).length < 512) : ListOf node r set ps := by
  have never : ¬ ∀ c, Covers ps c ↔ c ∈ set := fun same =>
    unfit (cpuText_short written.runs written.short same)
  refine ⟨written, ?_, fun same => absurd same never⟩
  constructor
  · exact fun same => absurd same never
  · intro fits
    obtain rfl | ⟨_, short⟩ := fits
    · rw [cpuText_empty] at unfit
      exact absurd (by decide) unfit
    · exact absurd short unfit

theorem listOf_fit {r : UnionCpulist}
    (written : Written node r ps) (read : OnlineRead node) (fits : (cpuText set).length < 512)
    (same : ∀ c, Covers ps c ↔ c ∈ set) (cov : r.cov = .exactAll ↔ set = node.onlineSet) :
    ListOf node r set ps :=
  ⟨written, ⟨fun _ => .inr ⟨read, fits⟩, fun _ => same⟩, fun _ => cov⟩

theorem tasks_listOf (pids : List Int) (limit : Int) :
    ∃ ps, ListOf node (unionCpulist node pids limit 512) ((sampledUnion node pids limit).getD ∅) ps := by
  by_cases read : OnlineRead node
  · cases found : sampledUnion node pids limit with
    | none =>
      rw [unionCpulist_none (.inr found)]
      exact ⟨[], listOf_nothing (.inl rfl)⟩
    | some sampled =>
      obtain ⟨ps, written, fits, whole⟩ := @unionCpulist_some node pids limit sampled read found
      by_cases room : (cpuText sampled).length < 512
      · obtain ⟨same, cov⟩ := whole (fits.mpr room)
        exact ⟨ps, listOf_fit written read room same cov⟩
      · exact ⟨ps, listOf_unfit written room⟩
  · rw [unionCpulist_none (.inl read)]
    exact ⟨[], listOf_nothing (.inr read)⟩

theorem entryCpulist_listOf (entry : JidEntry) :
    ∃ ps, ListOf node (entryCpulist node entry 512) (jobCpus node entry) ps := by
  rw [entryCpulist, jobCpus]
  by_cases known : 0 < entry.stepdPid
  · rw [if_pos known, if_pos known]
    cases found : sampledUnion node [entry.stepdPid] 1 with
    | none =>
      rw [unionCpulist_none (.inr found)]
      exact tasks_listOf entry.pids node.sampleLimit
    | some mask =>
      by_cases read : OnlineRead node
      · obtain ⟨ps, written, fits, whole⟩ := @unionCpulist_some node _ _ mask read found
        by_cases room : (cpuText mask).length < 512
        · obtain ⟨same, cov⟩ := whole (fits.mpr room)
          rw [if_pos (fits.mpr room)]
          exact ⟨ps, listOf_fit written read room same cov⟩
        · obtain ⟨others, tasks⟩ := @unionCpulist_written node entry.pids node.sampleLimit
          rw [if_neg (mt fits.mp room)]
          exact ⟨others, listOf_unfit tasks room⟩
      · rw [unionCpulist_none (.inl read), unionCpulist_none (.inl read)]
        exact ⟨[], listOf_nothing (.inr read)⟩
  · rw [if_neg known, if_neg known]
    exact tasks_listOf entry.pids node.sampleLimit

structure JobList (node : Node) (entry : JidEntry) (ps : List (Nat × Nat)) : Prop where
  text : jobCpulist node entry = listText ps
  runs : Runs ps
  inside : ∀ c, Covers ps c → c ∈ node.onlineSet
  titled : entry.emitsAffinity = false → ps = []
  whole : entry.emitsAffinity = true →
    ((∀ c, Covers ps c ↔ c ∈ jobCpus node entry) ↔ ListFits node entry)

theorem jobList_exists (node : Node) (entry : JidEntry) : ∃ ps, JobList node entry ps := by
  cases named : entry.emitsAffinity with
  | false =>
    refine ⟨[], ?_, ⟨by simp, .nil⟩, by simp [Covers], fun _ => rfl, by simp [named]⟩
    simp [jobCpulist, named, listText]
  | true =>
    obtain ⟨ps, list⟩ := @entryCpulist_listOf node entry
    refine ⟨ps, ?_, list.written.runs, list.written.inside, by simp [named], fun _ => list.whole⟩
    rw [jobCpulist, if_pos named]
    exact list.written.text

theorem readable_of_online (runs : Runs ps)
    (inside : ∀ c, Covers ps c → c ∈ node.onlineSet) : PiecesReadable ps := by
  intro p member
  have order := runs.ordered p member
  obtain ⟨q, listed, _, high⟩ := mem_onlineSet.mp (inside p.2 ⟨p, member, order, le_rfl⟩)
  exact ⟨order, high.trans_lt (node.readable q listed).2⟩

end Lists

section Marks

variable {entries : List JidEntry}

theorem jid_facts (entry : JidEntry) :
    entry.jid ≠ [] ∧ entry.jid ≠ lit "-" ∧ entry.jid.length ≤ 32 := by
  have acceptable := entry.acceptable
  simp only [jidAcceptable, Bool.and_eq_true, decide_eq_true_iff] at acceptable
  exact ⟨acceptable.1.1.1.1, acceptable.1.1.2, acceptable.1.2⟩

theorem joinInto_behind {cap : Nat} {out : Str} {texts : List Str} (some_out : out ≠ [])
    (fits : (out ++ texts.flatMap (fun text => ',' :: text)).length < cap) :
    joinInto cap out texts = some (out ++ texts.flatMap (fun text => ',' :: text)) := by
  induction texts generalizing out with
  | nil => simp [joinInto]
  | cons text texts ih =>
    have regroup : out ++ (text :: texts).flatMap (fun text => ',' :: text) =
        (out ++ ([','] ++ text)) ++ texts.flatMap (fun text => ',' :: text) := by simp
    have room : ¬ cap ≤ out.length + ([','] ++ text).length := by
      rw [regroup, List.length_append, List.length_append] at fits
      omega
    rw [joinInto]
    simp only [if_neg some_out]
    rw [if_neg room, regroup]
    rw [regroup] at fits
    exact ih (by simp [some_out]) fits

theorem optionToken_length (first : Str) (rest : List Str) :
    (optionToken first rest).length + 1 = ((first :: rest).map fun text => text.length + 1).sum := by
  have tail : ((rest.flatMap fun text => ',' :: text).length) =
      (rest.map fun text => text.length + 1).sum := by
    simp [List.length_flatMap]
  rw [optionToken, List.length_append, tail, List.map_cons, List.sum_cons]
  omega

theorem jids_length (entries : List JidEntry) :
    (entries.map fun entry => entry.jid.length + 1).sum ≤ entries.length * 33 := by
  induction entries with
  | nil => simp
  | cons entry entries ih =>
    have short := (jid_facts entry).2.2
    rw [List.map_cons, List.sum_cons, List.length_cons]
    omega

theorem csv_length (entry : JidEntry) (entries : List JidEntry) :
    (optionToken entry.jid (entries.map (·.jid))).length + 1 =
      ((entry :: entries).map fun entry => entry.jid.length + 1).sum := by
  rw [optionToken_length]
  simp [List.map_map, Function.comp_def]

theorem formatJobsCsv_cons {entry : JidEntry}
    (few : (entry :: entries).length ≤ 128) :
    formatJobsCsv (entry :: entries) = optionToken entry.jid (entries.map (·.jid)) := by
  have some_jid := (jid_facts entry).1
  have long := csv_length entry entries
  have bound := jids_length (entry :: entries)
  have fits : (optionToken entry.jid (entries.map (·.jid))).length < 128 * (32 + 1) := by omega
  have room : ¬ 128 * (32 + 1) ≤ ([] : Str).length + ([] ++ entry.jid).length := by
    rw [optionToken, List.length_append] at fits
    simp only [List.length_nil, List.nil_append]
    omega
  have rest := joinInto_behind some_jid fits
  rw [formatJobsCsv, List.map_cons, joinInto]
  simp only [if_true]
  rw [if_neg room, List.nil_append, List.nil_append, rest, Option.getD_some, optionToken]

theorem splitOn_weight (sep : Char) (s : Str) :
    ((splitOn sep s).map fun piece => piece.length + 1).sum = s.length + 1 := by
  induction s with
  | nil => simp [splitOn]
  | cons c s ih =>
    rw [splitOn]
    split
    · rw [List.map_cons, List.sum_cons, ih, List.length_nil, List.length_cons]
      omega
    · cases pieces : splitOn sep s with
      | nil => simp [pieces] at ih
      | cons first rest =>
        rw [pieces, List.map_cons, List.sum_cons] at ih
        simp only [List.map_cons, List.sum_cons, List.length_cons]
        omega

theorem sum_le_of_subset {jids pieces : List Str} (nodup : jids.Nodup) (subset : jids ⊆ pieces) :
    (jids.map fun jid => jid.length + 1).sum ≤ (pieces.map fun piece => piece.length + 1).sum := by
  obtain ⟨sub, perm, sublist⟩ := List.subperm_of_subset nodup subset
  calc
    (jids.map fun jid => jid.length + 1).sum = (sub.map fun jid => jid.length + 1).sum :=
      (perm.map _).sum_eq.symm
    _ ≤ (pieces.map fun piece => piece.length + 1).sum := (sublist.map _).sum_le_sum (by simp)

theorem jobsMark_lists (nodup : (entries.map (·.jid)).Nodup)
    (few : entries.length ≤ 128) (some_entry : entries ≠ []) :
    (∃ csv, jobsMark entries = lit "jobs jids=" ++ csv ∧
        ∀ entry ∈ entries, entry.jid ∈ splitOn ',' csv) ↔
      (entries.map fun entry => entry.jid.length + 1).sum ≤ 246 ∧
        ∀ entry ∈ entries, ',' ∉ entry.jid := by
  obtain ⟨entry, rest, rfl⟩ := List.exists_cons_of_ne_nil some_entry
  have text := formatJobsCsv_cons few
  have long := csv_length entry rest
  have mark : jobsMark (entry :: rest) =
      lit "jobs jids=" ++ (optionToken entry.jid (rest.map (·.jid))).take 245 := by
    rw [jobsMark, text, List.take_append]
    rfl
  rw [mark]
  constructor
  · intro ⟨csv, same, listed⟩
    obtain rfl := List.append_cancel_left same
    constructor
    · have subset : (entry :: rest).map (·.jid) ⊆
          splitOn ',' ((optionToken entry.jid (rest.map (·.jid))).take 245) := by
        intro jid member
        obtain ⟨e, chosen, rfl⟩ := List.mem_map.mp member
        exact listed e chosen
      have bound := sum_le_of_subset nodup subset
      rw [splitOn_weight, List.length_take, List.map_map] at bound
      have same : ((entry :: rest).map ((fun jid : Str => jid.length + 1) ∘ (·.jid))).sum =
          ((entry :: rest).map fun entry => entry.jid.length + 1).sum := rfl
      omega
    · intro e member
      exact splitOn_pieces (listed e member)
  · intro ⟨short, commas⟩
    refine ⟨_, rfl, fun e member => ?_⟩
    have whole : (optionToken entry.jid (rest.map (·.jid))).take 245 =
        optionToken entry.jid (rest.map (·.jid)) := List.take_of_length_le (by omega)
    rw [whole, splitOn_optionToken (commas entry List.mem_cons_self)]
    · exact List.mem_map_of_mem (f := (·.jid)) member
    · intro jid listed
      obtain ⟨other, chosen, rfl⟩ := List.mem_map.mp listed
      exact commas other (List.mem_cons_of_mem entry chosen)

end Marks

section Gpus

variable {entries : List JidEntry}

theorem gpuUnion_titled {entry : JidEntry} (titled : entry.emitsAffinity = false) :
    entry.gpuUnion.devs = [] := by
  simp [JidEntry.gpuUnion, titled]

theorem claimed_fold (entries : List JidEntry) {names : List GpuDev} {claimed : GpuSet}
    (slots : Slots names claimed.devs) :
    Slots (names ++ jobGpuNames entries)
      (entries.foldl (fun claimed entry =>
        if entry.emitsAffinity then gpuSetUnion claimed entry.gpuUnion else claimed) claimed).devs := by
  induction entries generalizing names claimed with
  | nil => simpa [jobGpuNames] using slots
  | cons entry entries ih =>
    have regroup : names ++ jobGpuNames (entry :: entries) =
        (names ++ entry.gpuUnion.devs) ++ jobGpuNames entries := by
      simp [jobGpuNames]
    rw [regroup, List.foldl_cons]
    refine ih ?_
    cases named : entry.emitsAffinity with
    | true => exact slots.union entry.gpuUnion
    | false => simpa [gpuUnion_titled named] using slots

theorem mem_claimedGpus (d : GpuDev) :
    d ∈ (claimedGpus entries).devs ↔ FirstNames (jobGpuNames entries) d := by
  have slots := @claimed_fold entries [] ⟨[], false⟩ Slots.nil
  exact slots.mem d

theorem mem_remainder {node : Node} (d : GpuDev) :
    d ∈ (gpuSetDiff (fillAvailableGpus node.nvidia) (claimedGpus entries)).devs ↔
      d ∈ (fillAvailableGpus node.nvidia).devs ∧ ¬ FirstNames (jobGpuNames entries) d := by
  rw [mem_gpuSetDiff (fillAvailableGpus_nodup node.nvidia) (fillAvailableGpus_few node.nvidia),
    mem_claimedGpus]

end Gpus

end PerfStats.Monitor
