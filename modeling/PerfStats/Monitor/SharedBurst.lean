import PerfStats.Monitor.SharedEmit

namespace PerfStats.Monitor

open Text

variable {node : Node} {disc : Discovered}

section Rows

theorem decimalText_inj {m n : Nat} (same : decimalText m = decimalText n) : m = n := by
  have value := congrArg (fun s => Nat.ofDigitChars 10 s 0) same
  simpa [decimalText, Nat.ofDigitChars_ten_toDigits] using value

theorem cpu_type_host_cpu : isCpuType (lit "host_cpu") = true := by simp [isCpuType]

theorem cpu_type_host_cpu_hw : isCpuType (lit "host_cpu_hw") = true := by simp [isCpuType]

theorem gpu_type_not_cpu {stName : Str} (gpu : isGpuType stName = true) :
    isCpuType stName = false := by
  simp only [isGpuType, Bool.or_eq_true, decide_eq_true_iff] at gpu
  obtain (rfl | rfl) | rfl := gpu <;> simp [isCpuType, lit]

theorem host_cpu_collected {c : Nat} (online : Covers node.online c) :
    Collected node (lit "host_cpu", decimalText c) :=
  .inr (.inl ⟨rfl, c, online, rfl⟩)

theorem host_cpu_hw_collected {i : Nat} (inside : i < node.nrCpus) :
    Collected node (lit "host_cpu_hw", decimalText i) :=
  .inr (.inr (.inl ⟨rfl, i, inside, rfl⟩))

theorem online_small {c : Nat} (online : Covers node.online c) : c < 2 ^ 63 := by
  obtain ⟨p, listed, _, high⟩ := online
  exact high.trans_lt (node.readable p listed).2

variable {row : Str × Str}

theorem collected_cpu (collected : Collected node row) (cpu : isCpuType row.1 = true) :
    ∃ c, row.2 = decimalText c ∧ c < 2 ^ 63 ∧ (Covers node.online c ∨ c < node.nrCpus) := by
  obtain wide | ⟨_, c, online, dev⟩ | ⟨_, c, inside, dev⟩ | gpu := collected
  · rw [wide.2.2.1] at cpu
    cases cpu
  · exact ⟨c, dev, online_small online, .inl online⟩
  · have small := node.nr_small
    exact ⟨c, dev, by omega, .inr inside⟩
  · rw [gpu_type_not_cpu (node.gpu_types row gpu)] at cpu
    cases cpu

theorem collected_gpu (collected : Collected node row)
    (gpu : isGpuType row.1 = true) : row ∈ node.gpus := by
  obtain wide | ⟨name, _⟩ | ⟨name, _⟩ | member := collected
  · rw [wide.2.1] at gpu
    cases gpu
  · have cpu := gpu_type_not_cpu gpu
    rw [name, cpu_type_host_cpu] at cpu
    cases cpu
  · have cpu := gpu_type_not_cpu gpu
    rw [name, cpu_type_host_cpu_hw] at cpu
    cases cpu
  · exact member

theorem collected_kinds (collected : Collected node row) :
    NodeWideType row.1 ∨ isCpuType row.1 = true ∨ isGpuType row.1 = true := by
  obtain wide | ⟨name, _⟩ | ⟨name, _⟩ | member := collected
  · exact .inl wide
  · exact .inr (.inl (by rw [name]; exact cpu_type_host_cpu))
  · exact .inr (.inl (by rw [name]; exact cpu_type_host_cpu_hw))
  · exact .inr (.inr (node.gpu_types row member))

end Rows

section Shape

theorem sampleBurst_shape (node : Node) (disc : Discovered) :
    (disc.entries = [] ∧ sampleBurst node disc = [⟨lit "-", none, none,
      ⟨none, some (fillAvailableGpus node.nvidia), none, true, false, true⟩⟩]) ∨
    (∃ entry, disc.entries = [entry] ∧
      (entry.emitsAffinity = true → (entryCpulist node entry 512).cov = .exactAll) ∧
      sampleBurst node disc = [⟨entry.jid, none, none,
        ⟨some entry, some (fillAvailableGpus node.nvidia), none, true, true, true⟩⟩]) ∨
    (disc.entries ≠ [] ∧
      (∀ entry, disc.entries = [entry] →
        entry.emitsAffinity = true ∧ (entryCpulist node entry 512).cov ≠ .exactAll) ∧
      sampleBurst node disc = markedBurst node disc.entries) := by
  have known := fillAvailableGpus_known node.nvidia
  unfold sampleBurst
  dsimp only
  split
  · next none_found =>
      refine .inl ⟨none_found, ?_⟩
      rw [jobEmitRemainderCtx, known]
  · next entry sole =>
      rw [sole]
      cases named : entry.emitsAffinity with
      | false => simp [jobEmitSoleCtx, named]
      | true =>
        by_cases all : (entryCpulist node entry 512).cov = .exactAll
        · refine .inr (.inl ⟨entry, rfl, fun _ => all, ?_⟩)
          simp [jobEmitSoleCtx, named, all, known]
        · refine .inr (.inr ⟨by simp, ?_, ?_⟩)
          · intro other same
            obtain rfl : entry = other := by simpa using same
            exact ⟨named, all⟩
          · simp [jobEmitSoleCtx, named, all]
  · next some_found not_sole =>
      exact .inr (.inr ⟨some_found, fun entry same => absurd same (not_sole entry), rfl⟩)

theorem cov_iff {entry : JidEntry} (fits : ListFits node entry) :
    (entryCpulist node entry 512).cov = .exactAll ↔ jobCpus node entry = node.onlineSet := by
  obtain ⟨ps, list⟩ := @entryCpulist_listOf node entry
  exact list.cov (list.whole.mpr fits)

theorem all_online_iff {entry : JidEntry} :
    (∀ c, c ∈ jobCpus node entry ↔ Covers node.online c) ↔ jobCpus node entry = node.onlineSet := by
  rw [Finset.ext_iff]
  simp only [mem_onlineSet]

theorem not_whole_of_marked (fits : ∀ entry ∈ disc.entries, entry.emitsAffinity = true →
      ListFits node entry) (some_found : disc.entries ≠ [])
    (sole : ∀ entry, disc.entries = [entry] →
      entry.emitsAffinity = true ∧ (entryCpulist node entry 512).cov ≠ .exactAll) :
    ¬ WholeNode node disc := by
  intro whole
  obtain none_found | ⟨entry, same, all⟩ := whole
  · exact some_found none_found
  · obtain ⟨named, part⟩ := sole entry same
    have member : entry ∈ disc.entries := by simp [same]
    rw [ne_eq, cov_iff (fits entry member named), ← all_online_iff] at part
    exact part (all named)

end Shape

section Whole

variable {payload : BurstPayload}

theorem single_sound (burst : sampleBurst node disc = [payload])
    (gpus : payload.ctx.gpus = some (fillAvailableGpus node.nvidia))
    (cpulist : payload.ctx.cpulist = none) (wide : payload.ctx.includeNodeWide = true)
    (gpu : payload.ctx.includeGpu = true) (unmarked : payload.mark1 = none)
    (owner : ∀ entry ∈ disc.entries, payload.jobid = entry.jid ∧ disc.entries.length = 1 ∧
      (entry.emitsAffinity = true → jobCpus node entry = node.onlineSet)) :
    BurstSound node disc ↔ WholeFits node disc := by
  have cpu_row : ∀ row, isCpuType row.1 = true → payload.emits row = true := by
    intro row cpu
    rw [BurstPayload.emits, rowFilter_cpu cpu, cpulist]
    exact wide
  have gpu_row : ∀ row, isGpuType row.1 = true →
      (payload.emits row = true ↔ ∃ d ∈ (fillAvailableGpus node.nvidia).devs, d.val = row.2) := by
    intro row kind
    rw [BurstPayload.emits, rowFilter_gpu kind, gpu, gpus, Bool.true_and, gpuDevInSet_iff]
  constructor
  · intro sound
    refine ⟨fun row member => ?_, fun some_named i inside => ?_⟩
    · obtain ⟨other, listed, emits⟩ := sound.kept row (.inr (.inr (.inr member)))
      obtain rfl : other = payload := by simpa [burst] using listed
      exact (gpu_row row (node.gpu_types row member)).mp emits
    · obtain ⟨entry, listed, named⟩ := some_named
      obtain ⟨same, _, all⟩ := owner entry listed
      have owns := (sound.owned entry listed payload (by simp [burst]) same _ i
        (host_cpu_hw_collected inside) cpu_type_host_cpu_hw rfl).mp (cpu_row _ cpu_type_host_cpu_hw)
      rw [OwnsCpu, if_pos named, all named] at owns
      exact mem_onlineSet.mp owns
  · intro fits
    refine ⟨fun row collected => ⟨payload, by simp [burst], ?_⟩, ?_, ?_, ?_⟩
    · obtain kind | kind | kind := collected_kinds collected
      · rw [BurstPayload.emits, rowFilter_nodeWide kind]
        exact wide
      · exact cpu_row row kind
      · exact (gpu_row row kind).mpr (fits.gpus row (collected_gpu collected kind))
    · intro row _ _ rest listed rest_id _ job inside job_id
      obtain rfl : rest = payload := by simpa [burst] using listed
      obtain rfl : job = rest := by simpa [burst] using inside
      exact absurd rest_id job_id
    · intro entry listed job inside _ row c collected kind dev
      obtain rfl : job = payload := by simpa [burst] using inside
      obtain ⟨_, alone, all⟩ := owner entry listed
      simp only [cpu_row row kind, true_iff]
      rw [OwnsCpu]
      split
      · next named =>
          obtain ⟨other, text, _, place⟩ := collected_cpu collected kind
          obtain rfl : c = other := decimalText_inj (dev.symm.trans text)
          rw [all named, mem_onlineSet]
          obtain online | index := place
          · exact online
          · exact fits.indices ⟨entry, listed, named⟩ c index
      · exact alone
    · intro other listed mark marked
      obtain rfl : other = payload := by simpa [burst] using listed
      rw [unmarked] at marked
      cases marked

end Whole

section Marked

variable {pieces : JidEntry → List (Nat × Nat)} {entry : JidEntry}

variable {row : Str × Str}

theorem job_emits_cpu (lists : ∀ entry, JobList node entry (pieces entry)) {c : Nat}
    (cpu : isCpuType row.1 = true) (dev : row.2 = decimalText c) (small : c < 2 ^ 63)
    (entries : List JidEntry) :
    (jobPayload node entries entry).emits row = true ↔ Covers (pieces entry) c := by
  have list := lists entry
  rw [BurstPayload.emits, rowFilter_cpu cpu, jobPayload, jobEmitMultiCtx]
  cases named : entry.emitsAffinity with
  | false => simp [list.titled named, Covers]
  | true =>
    have found := cpuDevInList_list (readable_of_online list.runs list.inside) small
    simpa [dev, list.text] using found

theorem job_emits_gpu (gpu : isGpuType row.1 = true) (entries : List JidEntry) :
    (jobPayload node entries entry).emits row = true ↔ ∃ d ∈ entry.gpuUnion.devs, d.val = row.2 := by
  rw [BurstPayload.emits, rowFilter_gpu gpu, jobPayload, jobEmitMultiCtx]
  cases named : entry.emitsAffinity with
  | false => simp [gpuUnion_titled named]
  | true => simp [gpuDevInSet]

theorem remainder_list (lists : ∀ entry, JobList node entry (pieces entry))
    (entries : List JidEntry) {left : Finset Nat}
    (left_iff : ∀ c, c ∈ left ↔ Covers node.online c ∧ ∀ entry ∈ entries, ¬ Covers (pieces entry) c) :
    ∃ ps, (remainderPayload node entries).ctx.cpulist = some (listText ps) ∧ PiecesReadable ps ∧
      (∀ c, Covers ps c → c ∈ left) ∧ ((∀ c ∈ left, Covers ps c) ↔ (cpuText left).length < 512) := by
  have ptrs : ((entries.map (jobCpulist node)).filter fun list => decide (list ≠ [])) =
      ((entries.map pieces).filter fun ps => decide (ps ≠ [])).map listText := by
    rw [List.filter_map, List.filter_map, List.map_map]
    have same : ∀ entry ∈ entries, (((fun list : Str => decide (list ≠ [])) ∘ jobCpulist node) entry) =
        ((fun ps : List (Nat × Nat) => decide (ps ≠ [])) ∘ pieces) entry := by
      intro entry _
      simp [(lists entry).text, listText_nil_iff]
    rw [List.filter_congr same]
    exact List.map_congr_left fun entry _ => (lists entry).text
  have claims_iff : ∀ c, (∀ ps ∈ (entries.map pieces).filter (fun ps => decide (ps ≠ [])),
      ¬ Covers ps c) ↔ ∀ entry ∈ entries, ¬ Covers (pieces entry) c := by
    intro c
    constructor
    · intro free entry member covered
      have some_piece : pieces entry ≠ [] := by
        obtain ⟨p, listed, _⟩ := covered
        exact List.ne_nil_of_mem listed
      exact free (pieces entry) (List.mem_filter.mpr
        ⟨List.mem_map_of_mem member, by simpa using some_piece⟩) covered
    · intro free ps member
      obtain ⟨entry, chosen, rfl⟩ := List.mem_map.mp (List.mem_filter.mp member).1
      exact free entry chosen
  have claims_readable : ∀ ps ∈ (entries.map pieces).filter (fun ps => decide (ps ≠ [])),
      PiecesReadable ps := by
    intro ps member
    obtain ⟨entry, _, rfl⟩ := List.mem_map.mp (List.mem_filter.mp member).1
    exact readable_of_online (lists entry).runs (lists entry).inside
  obtain ⟨ps, text, runs, covers, fits⟩ := cpulistSubtract_spec onlineFile_ends node.some_online
    node.readable claims_readable (show 0 < 512 by omega) left fun c => by
      rw [left_iff, claims_iff]
  refine ⟨ps, ?_, ?_, covers, fits⟩
  · rw [remainderPayload, jobEmitRemainderCtx]
    simp only [Node.onlineFile, ptrs, text]
  · refine @readable_of_online node ps runs fun c covered => ?_
    exact mem_onlineSet.mpr ((left_iff c).mp (covers c covered)).1

theorem remainder_emits_gpu (gpu : isGpuType row.1 = true) (entries : List JidEntry) :
    (remainderPayload node entries).emits row = true ↔
      ∃ d ∈ (fillAvailableGpus node.nvidia).devs,
        ¬ FirstNames (jobGpuNames entries) d ∧ d.val = row.2 := by
  rw [BurstPayload.emits, rowFilter_gpu gpu, remainderPayload, jobEmitRemainderCtx]
  simp only [fillAvailableGpus_known, Bool.true_and]
  rw [gpuDevInSet_iff]
  simp only [mem_remainder, and_assoc]

theorem remainder_emits_wide (wide : NodeWideType row.1)
    (entries : List JidEntry) : (remainderPayload node entries).emits row = true := by
  rw [BurstPayload.emits, rowFilter_nodeWide wide]
  rfl

theorem mem_markedBurst {entries : List JidEntry} {payload : BurstPayload} :
    payload ∈ markedBurst node entries ↔
      (∃ entry ∈ entries, jobPayload node entries entry = payload) ∨
        payload = remainderPayload node entries := by
  simp [markedBurst]

theorem entry_of_jid (disc : Discovered) {entry other : JidEntry} (member : entry ∈ disc.entries)
    (listed : other ∈ disc.entries) (same : entry.jid = other.jid) : entry = other :=
  List.inj_on_of_nodup_map disc.nodup member listed same

theorem freeCpus_iff (lists : ∀ entry, JobList node entry (pieces entry))
    (fits : ∀ entry ∈ disc.entries, entry.emitsAffinity = true → ListFits node entry) (c : Nat) :
    c ∈ freeCpus node disc ↔
      Covers node.online c ∧ ∀ entry ∈ disc.entries, ¬ Covers (pieces entry) c := by
  rw [freeCpus, Finset.mem_filter, mem_onlineSet]
  have same : ∀ entry ∈ disc.entries,
      (entry.emitsAffinity = true → c ∉ jobCpus node entry) ↔ ¬ Covers (pieces entry) c := by
    intro entry member
    cases named : entry.emitsAffinity with
    | false => simp [(lists entry).titled named, Covers]
    | true =>
      rw [((lists entry).whole named).mpr (fits entry member named) c]
      simp
  refine and_congr_right fun _ => forall₂_congr same

theorem marked_sound (burst : sampleBurst node disc = markedBurst node disc.entries)
    (some_found : disc.entries ≠ []) (part : ¬ WholeNode node disc)
    (fits : ∀ entry ∈ disc.entries, entry.emitsAffinity = true → ListFits node entry) :
    BurstSound node disc ↔ MarkedFits node disc := by
  choose pieces lists using jobList_exists node
  have free := freeCpus_iff lists fits
  obtain ⟨ps, text, readable, covers, whole⟩ := remainder_list lists disc.entries free
  have rest_cpu : ∀ row c, isCpuType row.1 = true → row.2 = decimalText c → c < 2 ^ 63 →
      ((remainderPayload node disc.entries).emits row = true ↔ Covers ps c) := by
    intro row c cpu dev small
    rw [BurstPayload.emits, rowFilter_cpu cpu, text, Option.map_some, Option.getD_some, dev]
    exact cpuDevInList_list readable small
  have rest_id : (remainderPayload node disc.entries).jobid = lit "-" := rfl
  have in_rest : remainderPayload node disc.entries ∈ sampleBurst node disc := by
    rw [burst, mem_markedBurst]
    exact .inr rfl
  have in_jobs : ∀ entry ∈ disc.entries,
      jobPayload node disc.entries entry ∈ sampleBurst node disc := by
    intro entry member
    rw [burst, mem_markedBurst]
    exact .inl ⟨entry, member, rfl⟩
  have names : ∀ d, d ∈ jobGpuNames disc.entries ↔ ∃ entry ∈ disc.entries, d ∈ entry.gpuUnion.devs := by
    simp [jobGpuNames]
  constructor
  · intro sound
    have cpu_kept : ∀ row c, Collected node row → isCpuType row.1 = true → row.2 = decimalText c →
        c < 2 ^ 63 → (∃ entry ∈ disc.entries, Covers (pieces entry) c) ∨ Covers ps c := by
      intro row c collected kind dev small
      obtain ⟨payload, listed, emits⟩ := sound.kept row collected
      rw [burst, mem_markedBurst] at listed
      obtain ⟨entry, member, rfl⟩ | rfl := listed
      · exact .inl ⟨entry, member, (job_emits_cpu lists kind dev small _).mp emits⟩
      · exact .inr ((rest_cpu row c kind dev small).mp emits)
    have marks : (disc.entries.map fun entry => entry.jid.length + 1).sum ≤ 246 ∧
        ∀ entry ∈ disc.entries, ',' ∉ entry.jid := by
      obtain ⟨entry, more, shape⟩ := List.exists_cons_of_ne_nil some_found
      have member : entry ∈ disc.entries := by
        rw [shape]
        exact .head _
      exact (jobsMark_lists disc.nodup disc.few some_found).mp
        (sound.marks _ (in_jobs entry member) _ rfl)
    refine ⟨fun row member => ?_, fun row member d available dev claimed => ?_, ?_, ?_, marks.1, marks.2⟩
    · obtain ⟨payload, listed, emits⟩ := sound.kept row (.inr (.inr (.inr member)))
      rw [burst, mem_markedBurst] at listed
      obtain ⟨entry, chosen, rfl⟩ | rfl := listed
      · obtain ⟨d, inside, dev⟩ := (job_emits_gpu (node.gpu_types row member) _).mp emits
        exact ⟨d, dev, .inr ⟨entry, chosen, inside⟩⟩
      · obtain ⟨d, inside, _, dev⟩ := (remainder_emits_gpu (node.gpu_types row member) _).mp emits
        exact ⟨d, dev, .inl inside⟩
    · by_contra late
      have kind := node.gpu_types row member
      obtain ⟨entry, chosen, inside⟩ := (names d).mp claimed
      have twice := sound.apart row (.inr (.inr (.inr member))) (.inr kind) _ in_rest rest_id
        ((remainder_emits_gpu kind _).mpr ⟨d, available, late, dev⟩) _ (in_jobs entry chosen)
        (jid_facts entry).2.1
      rw [(job_emits_gpu kind _).mpr ⟨d, inside, dev⟩] at twice
      cases twice
    · refine whole.mp fun c member => ?_
      obtain ⟨online, none_has⟩ := (free c).mp member
      obtain ⟨entry, chosen, covered⟩ | covered := cpu_kept _ c (host_cpu_collected online)
        cpu_type_host_cpu rfl (online_small online)
      · exact absurd covered (none_has entry chosen)
      · exact covered
    · intro i inside
      have small := node.nr_small
      obtain ⟨entry, _, covered⟩ | covered := cpu_kept _ i (host_cpu_hw_collected inside)
        cpu_type_host_cpu_hw rfl (by omega)
      · exact mem_onlineSet.mp ((lists entry).inside i covered)
      · exact ((free i).mp (covers i covered)).1
  · intro marked
    refine ⟨fun row collected => ?_, fun row collected kinds rest listed rest_jid emits job inside job_id => ?_,
      fun entry chosen job inside same row c collected kind dev => ?_, fun payload listed mark marked_by => ?_⟩
    · obtain kind | kind | kind := collected_kinds collected
      · exact ⟨_, in_rest, remainder_emits_wide kind _⟩
      · obtain ⟨c, dev, small, place⟩ := collected_cpu collected kind
        have online : Covers node.online c := place.elim id (marked.indices c)
        by_cases owned : ∃ entry ∈ disc.entries, Covers (pieces entry) c
        · obtain ⟨entry, chosen, covered⟩ := owned
          exact ⟨_, in_jobs entry chosen, (job_emits_cpu lists kind dev small _).mpr covered⟩
        · have left : c ∈ freeCpus node disc := (free c).mpr
            ⟨online, fun entry chosen covered => owned ⟨entry, chosen, covered⟩⟩
          exact ⟨_, in_rest, (rest_cpu row c kind dev small).mpr (whole.mpr marked.free c left)⟩
      · have member := collected_gpu collected kind
        obtain ⟨d, dev, place⟩ := marked.gpus row member
        by_cases owned : d ∈ jobGpuNames disc.entries
        · obtain ⟨entry, chosen, has⟩ := (names d).mp owned
          exact ⟨_, in_jobs entry chosen, (job_emits_gpu kind _).mpr ⟨d, has, dev⟩⟩
        · have available := place.resolve_right fun has => owned ((names d).mpr has)
          exact ⟨_, in_rest, (remainder_emits_gpu kind _).mpr
            ⟨d, available, fun first => owned first.mem, dev⟩⟩
    · rw [burst, mem_markedBurst] at listed inside
      obtain ⟨other, _, rfl⟩ | rfl := listed
      · exact absurd rest_jid (jid_facts other).2.1
      · obtain ⟨entry, chosen, rfl⟩ | rfl := inside
        · rw [Bool.eq_false_iff]
          intro twice
          obtain kind | kind := kinds
          · obtain ⟨c, dev, small, _⟩ := collected_cpu collected kind
            have left := covers c ((rest_cpu row c kind dev small).mp emits)
            exact ((free c).mp left).2 entry chosen ((job_emits_cpu lists kind dev small _).mp twice)
          · obtain ⟨d, available, late, dev⟩ := (remainder_emits_gpu kind _).mp emits
            obtain ⟨e, has, other⟩ := (job_emits_gpu kind _).mp twice
            obtain rfl : d = e := Subtype.ext (dev.trans other.symm)
            exact late (marked.claims row (collected_gpu collected kind) d available dev
              ((names d).mpr ⟨entry, chosen, has⟩))
        · exact absurd rest_id job_id
    · rw [burst, mem_markedBurst] at inside
      obtain ⟨other, listed, rfl⟩ | rfl := inside
      · obtain rfl := entry_of_jid disc listed chosen same
        obtain ⟨number, value, small, _⟩ := collected_cpu collected kind
        obtain rfl : c = number := decimalText_inj (dev.symm.trans value)
        rw [job_emits_cpu lists kind dev small, OwnsCpu]
        cases named : other.emitsAffinity with
        | true => exact ((lists other).whole named).mpr (fits other chosen named) c
        | false =>
          have shared : disc.entries.length ≠ 1 := by
            intro alone
            obtain ⟨sole, only⟩ := List.length_eq_one_iff.mp alone
            obtain rfl : other = sole := by simpa [only] using chosen
            exact part (.inr ⟨other, only, by simp [named]⟩)
          simp [(lists other).titled named, Covers, shared]
      · exact absurd same.symm (jid_facts entry).2.1
    · rw [burst, mem_markedBurst] at listed
      obtain ⟨entry, chosen, rfl⟩ | rfl := listed
      · obtain rfl := Option.some.inj marked_by
        exact (jobsMark_lists disc.nodup disc.few some_found).mpr ⟨marked.jids, marked.commas⟩
      · cases marked_by

end Marked

section Result

theorem lists_of_sound (sound : BurstSound node disc) :
    ∀ entry ∈ disc.entries, entry.emitsAffinity = true → ListFits node entry := by
  intro entry member named
  have row_of : ∀ c, Covers node.online c → ∀ job ∈ sampleBurst node disc, job.jobid = entry.jid →
      (job.emits (lit "host_cpu", decimalText c) = true ↔ c ∈ jobCpus node entry) := by
    intro c online job listed same
    have owns := sound.owned entry member job listed same _ c (host_cpu_collected online)
      cpu_type_host_cpu rfl
    rwa [OwnsCpu, if_pos named] at owns
  obtain ⟨none_found, _⟩ | ⟨sole, only, all, burst⟩ | ⟨_, _, burst⟩ := sampleBurst_shape node disc
  · rw [none_found] at member
    cases member
  · obtain rfl : entry = sole := by simpa [only] using member
    obtain ⟨ps, list⟩ := @entryCpulist_listOf node entry
    refine list.whole.mp fun c => ?_
    rw [list.written.exact_all (all named)]
    constructor
    · intro online
      have row := row_of c (mem_onlineSet.mp online) _ (by rw [burst]; exact .head _) rfl
      refine row.mp ?_
      rfl
    · exact jobCpus_online entry c
  · choose pieces lists using jobList_exists node
    refine ((lists entry).whole named).mp fun c => ?_
    have in_jobs : jobPayload node disc.entries entry ∈ sampleBurst node disc := by
      rw [burst, mem_markedBurst]
      exact .inl ⟨entry, member, rfl⟩
    by_cases online : Covers node.online c
    · rw [← row_of c online _ in_jobs rfl]
      exact (job_emits_cpu lists cpu_type_host_cpu rfl (online_small online) _).symm
    · constructor
      · intro covered
        exact absurd (mem_onlineSet.mp ((lists entry).inside c covered)) online
      · intro owned
        exact absurd (mem_onlineSet.mp (jobCpus_online entry c owned)) online

/-- A tick loses no row and sends none twice just where its GPUs are known or a job's and its
lists fit their buffers. -/
theorem burst_sound_iff (node : Node) (disc : Discovered) :
    BurstSound node disc ↔ BurstFits node disc := by
  have under : (∀ entry ∈ disc.entries, entry.emitsAffinity = true → ListFits node entry) →
      (WholeNode node disc → (BurstSound node disc ↔ WholeFits node disc)) ∧
      (¬ WholeNode node disc → (BurstSound node disc ↔ MarkedFits node disc)) := by
    intro fits
    obtain ⟨none_found, burst⟩ | ⟨entry, only, all, burst⟩ | ⟨some_found, sole, burst⟩ :=
      sampleBurst_shape node disc
    · have whole : WholeNode node disc := .inl none_found
      refine ⟨fun _ => ?_, fun part => absurd whole part⟩
      exact single_sound burst rfl rfl rfl rfl rfl (by simp [none_found])
    · have member : entry ∈ disc.entries := by simp [only]
      have has_all : entry.emitsAffinity = true → jobCpus node entry = node.onlineSet :=
        fun named => (cov_iff (fits entry member named)).mp (all named)
      have whole : WholeNode node disc :=
        .inr ⟨entry, only, fun named => all_online_iff.mpr (has_all named)⟩
      refine ⟨fun _ => ?_, fun part => absurd whole part⟩
      refine single_sound burst rfl rfl rfl rfl rfl fun other listed => ?_
      obtain rfl : other = entry := by simpa [only] using listed
      exact ⟨rfl, by simp [only], has_all⟩
    · have part := not_whole_of_marked fits some_found sole
      exact ⟨fun whole => absurd whole part, fun _ => marked_sound burst some_found part fits⟩
  constructor
  · intro sound
    have fits := lists_of_sound sound
    obtain ⟨on_whole, on_part⟩ := under fits
    exact ⟨fits, fun whole => (on_whole whole).mp sound, fun part => (on_part part).mp sound⟩
  · intro fits
    obtain ⟨on_whole, on_part⟩ := under fits.lists
    by_cases whole : WholeNode node disc
    · exact (on_whole whole).mpr (fits.whole whole)
    · exact (on_part whole).mpr (fits.marked whole)

theorem intel_readable : PiecesReadable [(0, 1)] := by simp [PiecesReadable]

theorem intel_short : (listText [(0, 1)] ++ ['\n']).length < 4096 := by decide

theorem intel_masks (_ : Int) (mask : Finset Nat) (read : Affinity.gone = .cpus mask) :
    ∀ c ∈ mask, Covers [(0, 1)] c := by
  cases read

theorem intel_types : ∀ row ∈ [(lit "intel_gpu", lit "0")], isGpuType row.1 = true := by decide

def intelNode : Node where
  online := [(0, 1)]
  readable := intel_readable
  some_online := List.cons_ne_nil _ _
  short := intel_short
  conf := 2
  affinity := fun _ => .gone
  masks_online := intel_masks
  sampleLimit := 8
  nrCpus := 2
  nr_small := by decide
  nvidia := none
  gpus := [(lit "intel_gpu", lit "0")]
  gpu_types := intel_types

def idleTick : Discovered := ⟨[], .nil, Nat.zero_le 128⟩

theorem intel_gpu_lost : ¬ BurstSound intelNode idleTick := by
  intro sound
  obtain ⟨payload, listed, emits⟩ := sound.kept (lit "intel_gpu", lit "0")
    (.inr (.inr (.inr (.head _))))
  have burst : sampleBurst intelNode idleTick =
      [⟨lit "-", none, none, ⟨none, some ⟨[], true⟩, none, true, false, true⟩⟩] := rfl
  obtain rfl := List.mem_singleton.mp (burst ▸ listed)
  have dropped : BurstPayload.emits ⟨lit "-", none, none, ⟨none, some ⟨[], true⟩, none, true, false, true⟩⟩
      (lit "intel_gpu", lit "0") = false := by decide
  rw [dropped] at emits
  cases emits

end Result

end PerfStats.Monitor
