import Mathlib.Data.List.Destutter
import PerfStats.Monitor.CpuList

namespace PerfStats.Monitor

open Text

section GpuSets

abbrev GpuDev := {dev : Str // dev ≠ [] ∧ dev.length ≤ 15}

structure GpuSet where
  devs : List GpuDev
  inventoryKnown : Bool

/-- A set has 64 slots, and a name that finds none free is left out. -/
def setAddDev (devs : List GpuDev) (dev : GpuDev) : List GpuDev :=
  if dev ∈ devs then devs
  else if 64 ≤ devs.length then devs
  else devs ++ [dev]

def setSortUnique (devs : List GpuDev) : List GpuDev :=
  (devs.mergeSort fun a b => decide (a.val ≤ b.val)).destutter (· ≠ ·)

def gpuSetUnion (a b : GpuSet) : GpuSet :=
  ⟨setSortUnique ((a.devs ++ b.devs).foldl setAddDev []), false⟩

def gpuSetDiff (all subtract : GpuSet) : GpuSet :=
  ⟨setSortUnique ((all.devs.filter fun dev => decide (dev ∉ subtract.devs)).foldl setAddDev []),
    all.inventoryKnown⟩

theorem gpuIndex_fits (i : Nat) :
    (decimalText i).take 15 ≠ [] ∧ ((decimalText i).take 15).length ≤ 15 := by
  obtain ⟨first, more, shape⟩ := List.exists_cons_of_ne_nil (decimalText_word i).1
  rw [shape]
  simp

def gpuIndex (i : Nat) : GpuDev := ⟨(decimalText i).take 15, gpuIndex_fits i⟩

def fillAvailableGpus (nvidia : Option Int) : GpuSet :=
  match nvidia with
  | some ndev =>
    if 0 < ndev then ⟨(List.range (min ndev.toNat 64)).map gpuIndex, true⟩ else ⟨[], true⟩
  | none => ⟨[], true⟩

theorem gpuIndex_val {i : Nat} (small : i < 64) : (gpuIndex i).val = decimalText i := by
  refine List.take_of_length_le ?_
  have digits := (Nat.length_toDigits_le_iff (by decide) (by decide)).mpr (show i < 10 ^ 15 by omega)
  exact digits

variable {names devs : List GpuDev} (nvidia : Option Int)

theorem fillAvailableGpus_nodup : (fillAvailableGpus nvidia).devs.Nodup := by
  unfold fillAvailableGpus
  split
  · split
    · refine List.Nodup.map_on ?_ List.nodup_range
      intro i inside j other same
      have text := congrArg Subtype.val same
      rw [List.mem_range] at inside other
      rw [gpuIndex_val (by omega), gpuIndex_val (by omega)] at text
      have value := congrArg (fun s => Nat.ofDigitChars 10 s 0) text
      simpa [decimalText, Nat.ofDigitChars_ten_toDigits] using value
    · exact .nil
  · exact .nil

theorem fillAvailableGpus_few : (fillAvailableGpus nvidia).devs.length ≤ 64 := by
  unfold fillAvailableGpus
  split
  · split
    · simp
    · exact Nat.zero_le 64
  · exact Nat.zero_le 64

theorem fillAvailableGpus_known : (fillAvailableGpus nvidia).inventoryKnown = true := by
  unfold fillAvailableGpus
  split
  · split <;> rfl
  · rfl

def joinInto (cap : Nat) : Str → List Str → Option Str
  | out, [] => some out
  | out, text :: rest =>
    let piece := (if out = [] then [] else [',']) ++ text
    if cap ≤ out.length + piece.length then none else joinInto cap (out ++ piece) rest

/-- `job_gpu_set_format_wire`, into a buffer of 256. -/
def gpuSetFormatWire (set : GpuSet) : Str :=
  if set.devs = [] then lit "-"
  else (joinInto 256 [] (set.devs.map (·.val))).getD (lit "-")

def FirstNames (names : List GpuDev) (dev : GpuDev) : Prop :=
  ∃ front back, names = front ++ dev :: back ∧ dev ∉ front ∧ front.toFinset.card < 64

theorem first_names_snoc (names : List GpuDev) (dev d : GpuDev) :
    FirstNames (names ++ [dev]) d ↔
      FirstNames names d ∨ d = dev ∧ dev ∉ names ∧ names.toFinset.card < 64 := by
  constructor
  · intro ⟨front, back, cut, fresh, few⟩
    obtain rfl | ⟨last, behind, rfl⟩ : back = [] ∨ ∃ behind last, back = last ++ [behind] := by
      obtain rfl | ⟨last, behind, shape⟩ := List.eq_nil_or_concat back
      · exact .inl rfl
      · exact .inr ⟨behind, last, by simpa using shape⟩
    · obtain ⟨same, last⟩ := List.append_inj' cut rfl
      obtain rfl : dev = d := by simpa using last
      subst same
      exact .inr ⟨rfl, fresh, few⟩
    · have regroup : names ++ [dev] = (front ++ d :: behind) ++ [last] := by simpa using cut
      obtain ⟨same, _⟩ := List.append_inj' regroup rfl
      exact .inl ⟨front, behind, same, fresh, few⟩
  · intro found
    obtain ⟨front, back, cut, fresh, few⟩ | ⟨rfl, fresh, few⟩ := found
    · exact ⟨front, back ++ [dev], by simp [cut], fresh, few⟩
    · exact ⟨names, [], rfl, fresh, few⟩

structure Slots (names devs : List GpuDev) : Prop where
  nodup : devs.Nodup
  few : devs.length ≤ 64
  mem : ∀ d, d ∈ devs ↔ FirstNames names d
  all : devs.length < 64 → ∀ d ∈ names, d ∈ devs

theorem FirstNames.mem {d : GpuDev} (first : FirstNames names d) : d ∈ names := by
  obtain ⟨front, back, rfl, _⟩ := first
  simp

theorem Slots.nil : Slots [] [] where
  nodup := .nil
  few := by simp
  mem := by
    intro d
    constructor
    · nofun
    · intro first
      exact first.mem
  all := by simp

theorem Slots.names_card (slots : Slots names devs)
    (full : 64 ≤ devs.length) : 64 ≤ names.toFinset.card := by
  have subset : devs.toFinset ⊆ names.toFinset := by
    intro d member
    rw [List.mem_toFinset] at member ⊢
    exact ((slots.mem d).mp member).mem
  calc
    64 ≤ devs.length := full
    _ = devs.toFinset.card := (List.toFinset_card_of_nodup slots.nodup).symm
    _ ≤ names.toFinset.card := Finset.card_le_card subset

theorem Slots.card_names (slots : Slots names devs)
    (free : devs.length < 64) : names.toFinset.card < 64 := by
  have subset : names.toFinset ⊆ devs.toFinset := by
    intro d member
    rw [List.mem_toFinset] at member ⊢
    exact slots.all free d member
  calc
    names.toFinset.card ≤ devs.toFinset.card := Finset.card_le_card subset
    _ = devs.length := List.toFinset_card_of_nodup slots.nodup
    _ < 64 := free

theorem Slots.add (slots : Slots names devs) (dev : GpuDev) :
    Slots (names ++ [dev]) (setAddDev devs dev) := by
  rw [setAddDev]
  by_cases member : dev ∈ devs
  · rw [if_pos member]
    have known := ((slots.mem dev).mp member).mem
    refine ⟨slots.nodup, slots.few, fun d => ?_, fun free d listed => ?_⟩
    · rw [first_names_snoc, slots.mem]
      simp [known]
    · obtain before | same := List.mem_append.mp listed
      · exact slots.all free d before
      · obtain rfl : d = dev := by simpa using same
        exact member
  · rw [if_neg member]
    by_cases full : 64 ≤ devs.length
    · rw [if_pos full]
      have many := slots.names_card full
      refine ⟨slots.nodup, slots.few, fun d => ?_, fun free => absurd full (by omega)⟩
      rw [first_names_snoc, slots.mem]
      constructor
      · exact .inl
      · intro found
        obtain first | ⟨_, _, few⟩ := found
        · exact first
        · omega
    · rw [if_neg full]
      have free : devs.length < 64 := by omega
      have few := slots.card_names free
      have fresh : dev ∉ names := fun listed => member (slots.all free dev listed)
      refine ⟨?_, ?_, fun d => ?_, fun _ d listed => ?_⟩
      · exact List.nodup_append.mpr ⟨slots.nodup, by simp, by
          intro a inside b last same
          obtain rfl : b = dev := by simpa using last
          exact member (same ▸ inside)⟩
      · rw [List.length_append]
        exact free
      · rw [first_names_snoc, List.mem_append, slots.mem]
        simp [fresh, few]
      · obtain before | same := List.mem_append.mp listed
        · exact List.mem_append_left _ (slots.all free d before)
        · exact List.mem_append_right _ same

theorem Slots.fold (slots : Slots names devs) (more : List GpuDev) :
    Slots (names ++ more) (more.foldl setAddDev devs) := by
  induction more generalizing names devs with
  | nil => rwa [List.append_nil]
  | cons dev more ih =>
    have next := ih (slots.add dev)
    rwa [List.append_assoc] at next

theorem fold_nodup {devs front : List GpuDev} (nodup : (front ++ devs).Nodup)
    (few : (front ++ devs).length ≤ 64) : devs.foldl setAddDev front = front ++ devs := by
  induction devs generalizing front with
  | nil => simp
  | cons dev devs ih =>
    have fresh : dev ∉ front := by
      intro member
      exact (List.nodup_append.mp nodup).2.2 dev member dev (.head _) rfl
    have free : ¬ 64 ≤ front.length := by
      rw [List.length_append, List.length_cons] at few
      omega
    have regroup : front ++ dev :: devs = (front ++ [dev]) ++ devs := by simp
    rw [List.foldl_cons, setAddDev, if_neg fresh, if_neg free, regroup]
    rw [regroup] at nodup few
    exact ih nodup few

theorem setSortUnique_perm (nodup : devs.Nodup) : (setSortUnique devs).Perm devs := by
  have perm := List.mergeSort_perm devs fun a b => decide (a.val ≤ b.val)
  have chain : (devs.mergeSort fun a b => decide (a.val ≤ b.val)).IsChain (· ≠ ·) :=
    (perm.nodup_iff.mpr nodup).isChain
  rw [setSortUnique, List.destutter_of_isChain _ _ chain]
  exact perm

theorem Slots.sorted (slots : Slots names devs) : Slots names (setSortUnique devs) := by
  have perm := setSortUnique_perm slots.nodup
  refine ⟨perm.nodup_iff.mpr slots.nodup, by rw [perm.length_eq]; exact slots.few,
    fun d => by rw [perm.mem_iff, slots.mem], fun free d listed => ?_⟩
  rw [perm.length_eq] at free
  exact perm.mem_iff.mpr (slots.all free d listed)

theorem Slots.union {a : GpuSet} (slots : Slots names a.devs) (b : GpuSet) :
    Slots (names ++ b.devs) (gpuSetUnion a b).devs := by
  have kept : a.devs.foldl setAddDev [] = a.devs := by
    have same := @fold_nodup a.devs [] (by simpa using slots.nodup) (by simpa using slots.few)
    simpa using same
  have fold := (slots.fold b.devs).sorted
  rwa [gpuSetUnion, List.foldl_append, kept]

theorem mem_gpuSetDiff {all subtract : GpuSet} (nodup : all.devs.Nodup) (few : all.devs.length ≤ 64)
    (d : GpuDev) : d ∈ (gpuSetDiff all subtract).devs ↔ d ∈ all.devs ∧ d ∉ subtract.devs := by
  have left : (all.devs.filter fun dev => decide (dev ∉ subtract.devs)).Nodup := nodup.filter _
  have short : (all.devs.filter fun dev => decide (dev ∉ subtract.devs)).length ≤ 64 :=
    (List.length_filter_le _ _).trans few
  have kept := @fold_nodup (all.devs.filter fun dev => decide (dev ∉ subtract.devs)) []
    (by rw [List.nil_append]; exact left) (by rw [List.nil_append]; exact short)
  rw [gpuSetDiff, kept, List.nil_append, (setSortUnique_perm left).mem_iff, List.mem_filter,
    decide_eq_true_iff]

end GpuSets

section RowFilter

def jidAcceptable (jid : Str) : Bool :=
  decide (jid ≠ []) && decide (jid ≠ lit "0") && decide (jid ≠ lit "-") &&
    decide (jid.length ≤ 32) && jid.all fun c => !isCSpace c

structure JidEntry where
  jid : Str
  acceptable : jidAcceptable jid = true
  pids : List Int
  namedFromTitle : Bool
  stepdPid : Int
  granted : GpuSet
  inUse : GpuSet

structure EmitFilterCtx where
  entry : Option JidEntry
  gpus : Option GpuSet
  cpulist : Option Str
  includeNodeWide : Bool
  includeProc : Bool
  includeGpu : Bool

def isGpuType (stName : Str) : Bool :=
  stName = lit "nvidia_gpu" || stName = lit "amd_gpu" || stName = lit "intel_gpu"

def isProcType (stName : Str) : Bool := stName = lit "host_proc"

def isJobMemType (stName : Str) : Bool := stName = lit "host_mem_job"

def isCpuType (stName : Str) : Bool := stName = lit "host_cpu" || stName = lit "host_cpu_hw"

/-- `proc_dev_pid`, of a device `name/pid/cmask/mmask`; the number is cut to an `int`. -/
def procDevPid (dev : Str) : Option Int :=
  match dev.dropWhile (· ≠ '/') with
  | [] => none
  | _ :: p =>
    match strtol p with
    | none => none
    | some (pid, _, behind) =>
      match behind.head? with
      | none => some (Int.bmod pid (2 ^ 32))
      | some c => if c = '/' then some (Int.bmod pid (2 ^ 32)) else none

def pidInEntry (entry : JidEntry) (pid : Int) : Bool := entry.pids.contains pid

def gpuDevInSet (set : Option GpuSet) (dev : Str) : Bool :=
  match set with
  | none => false
  | some set => set.devs.any fun d => decide (d.val = dev)

/-- `job_cgroup_mem_keep_dev`. -/
def jobMemKeepDev (jid dev : Str) : Bool := decide (jid ≠ []) && decide (dev = lit "j:" ++ jid)

def jobEmitRowFilter (ctx : EmitFilterCtx) (stName dev : Str) : Bool :=
  if isProcType stName then
    match ctx.includeProc, ctx.entry, procDevPid dev with
    | true, some entry, some pid => pidInEntry entry pid
    | _, _, _ => false
  else if isGpuType stName then ctx.includeGpu && gpuDevInSet ctx.gpus dev
  else if isCpuType stName then
    match ctx.cpulist with
    | some cpulist => cpuDevInList cpulist dev
    | none => ctx.includeNodeWide
  else if isJobMemType stName then
    match ctx.entry with
    | none => false
    | some entry => jobMemKeepDev entry.jid dev
  else ctx.includeNodeWide

def JidEntry.emitsAffinity (entry : JidEntry) : Bool := !entry.namedFromTitle

def jobEmitMultiCtx (entry : JidEntry) (gpus : GpuSet) (cpulist : Str) : EmitFilterCtx :=
  let split := entry.emitsAffinity
  { entry := some entry
    gpus := if split then some gpus else none
    cpulist := if split then some cpulist else none
    includeNodeWide := false
    includeProc := split
    includeGpu := split }

def jobEmitRemainderCtx (remainder : GpuSet) (remCpus : Option Str) (inventoryKnown : Bool) :
    EmitFilterCtx :=
  { entry := none
    gpus := some remainder
    cpulist := remCpus
    includeNodeWide := true
    includeProc := false
    includeGpu := inventoryKnown }

def NodeWideType (stName : Str) : Prop :=
  isProcType stName = false ∧ isGpuType stName = false ∧ isCpuType stName = false ∧
    isJobMemType stName = false

variable {ctx : EmitFilterCtx} {stName : Str}

theorem rowFilter_nodeWide (wide : NodeWideType stName) (dev : Str) :
    jobEmitRowFilter ctx stName dev = ctx.includeNodeWide := by
  obtain ⟨proc, gpu, cpu, mem⟩ := wide
  simp [jobEmitRowFilter, proc, gpu, cpu, mem]

theorem rowFilter_gpu (gpu : isGpuType stName = true) (dev : Str) :
    jobEmitRowFilter ctx stName dev = (ctx.includeGpu && gpuDevInSet ctx.gpus dev) := by
  have other : isProcType stName = false := by
    simp only [isGpuType, Bool.or_eq_true, decide_eq_true_iff] at gpu
    obtain (rfl | rfl) | rfl := gpu <;> simp [isProcType, lit]
  simp [jobEmitRowFilter, other, gpu]

theorem rowFilter_cpu (cpu : isCpuType stName = true) (dev : Str) :
    jobEmitRowFilter ctx stName dev =
      (ctx.cpulist.map fun cpulist => cpuDevInList cpulist dev).getD ctx.includeNodeWide := by
  have other : isProcType stName = false ∧ isGpuType stName = false := by
    simp only [isCpuType, Bool.or_eq_true, decide_eq_true_iff] at cpu
    obtain rfl | rfl := cpu <;> simp [isProcType, isGpuType, lit]
  cases list : ctx.cpulist <;> simp [jobEmitRowFilter, other, cpu, list]

theorem gpuDevInSet_iff {set : GpuSet} {dev : Str} :
    gpuDevInSet (some set) dev = true ↔ ∃ d ∈ set.devs, d.val = dev := by
  simp [gpuDevInSet]

end RowFilter

end PerfStats.Monitor
