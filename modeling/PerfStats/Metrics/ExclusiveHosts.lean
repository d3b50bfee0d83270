import PerfStats.Metrics.HostData
import PerfStats.Metrics.HostNames

namespace PerfStats.Metrics

open Text

section Tables

/-- A row of `job_data`. -/
structure AcctJob where
  jid : Str
  hostList : List Str
  startTime : Int
  endTime : Int
deriving DecidableEq

/-- A row of `job_affinity`. -/
structure AffinityRow where
  jid : Str
  host : Str
  reportedAt : Int
deriving DecidableEq

structure Accounting where
  jobs : List AcctJob
  affinity : List AffinityRow
  jobKeys : (jobs.map AcctJob.jid).Nodup
  affinityKeys : (affinity.map fun row => (row.jid, row.host)).Nodup

def jobIsSharedNode (db : Accounting) (jid : Str) : Bool :=
  !(strip jid).isEmpty && db.affinity.any fun row => row.jid == strip jid

end Tables

section Names

structure HostNaming where
  ext : Str
  lower : Str → Str

variable (naming : HostNaming)

def hostDataSuffix : Str :=
  let ext := (strip naming.ext).dropWhile (· == '.')
  if ext.isEmpty then [] else '.' :: ext

def asHostDataFqdn (host : Str) : Str :=
  let name := strip host
  let suffix := hostDataSuffix naming
  if name.isEmpty then []
  else if suffix.isEmpty then name
  else if naming.lower suffix <:+ naming.lower name then name
  else name ++ suffix

def buildAcctHostFqdns (hostList : List Str) : List Str :=
  ((listifyAcctHosts hostList).map (asHostDataFqdn naming)).filter fun name => !name.isEmpty

end Names

section Exclusive

def overlaps (job : AcctJob) (start endTime : Int) : Bool :=
  decide (job.startTime < endTime) && decide (start < job.endTime)

def busyHosts (db : Accounting) (normalize : List Str → List Str) (jid : Str)
    (hostList : List Str) (start endTime : Int) : List Str :=
  (db.jobs.filter fun job => job.hostList.any hostList.contains && overlaps job start endTime &&
    job.jid != jid).flatMap fun job => normalize job.hostList

def liveBusyHosts (db : Accounting) (jid : Str) (fqdns : List Str) (start endTime : Int) :
    List Str :=
  (db.affinity.filter fun row => fqdns.contains row.host && decide (start ≤ row.reportedAt) &&
    row.jid != jid && (db.jobs.find? fun job => job.jid == row.jid).all
      fun job => overlaps job start endTime).map AffinityRow.host

/-- `failed`: a query raised `DatabaseError`. -/
def jobExclusiveHosts (db : Accounting) (failed : Bool) (normalize : List Str → List Str)
    (toHostData : Str → Str) (jid : Str) (hosts : List Str) (start endTime : Option Int)
    (shared : Bool) : List Str :=
  let hostList := hosts.filter fun host => !host.isEmpty
  if shared || (strip jid).isEmpty || hostList.isEmpty then []
  else match start, endTime with
    | some start, some endTime =>
      if failed then []
      else hostList.filter fun host =>
        !(busyHosts db normalize jid hostList start endTime).contains host &&
          !(liveBusyHosts db jid (hostList.map toHostData) start endTime).contains
            (toHostData host)
    | _, _ => []

variable (naming : HostNaming) (db : Accounting) (failed : Str → Bool)

/-- The host set `jid_table.__init__` keeps for a job of the accounting. -/
def exclusiveHosts (job : AcctJob) : List Str :=
  buildAcctHostFqdns naming (jobExclusiveHosts db (failed job.jid) listifyAcctHosts
    (asHostDataFqdn naming) job.jid (listifyAcctHosts job.hostList) (some job.startTime)
    (some job.endTime) (jobIsSharedNode db job.jid))

def AcctJob.contains (job : AcctJob) (time : Int) : Prop :=
  job.startTime ≤ time ∧ time ≤ job.endTime

instance (job : AcctJob) (time : Int) : Decidable (job.contains time) :=
  inferInstanceAs (Decidable (_ ∧ _))

def takesUntagged (job : AcctJob) (row : HostDataRow) : Prop :=
  job.contains row.time ∧ row.host.any (buildAcctHostFqdns naming job.hostList).contains = true ∧
    untaggedOn (exclusiveHosts naming db failed job) row = true

end Exclusive

instance (naming : HostNaming) (db : Accounting) (failed : Str → Bool) (job : AcctJob)
    (row : HostDataRow) : Decidable (takesUntagged naming db failed job row) :=
  inferInstanceAs (Decidable (_ ∧ _))

section Alone

variable {naming : HostNaming} {db : Accounting} {failed : Str → Bool}

theorem jobExclusiveHosts_sublist (db : Accounting) (error shared : Bool)
    (normalize : List Str → List Str) (toHostData : Str → Str) (jid : Str)
    (hosts : List Str) (start endTime : Option Int) :
    (jobExclusiveHosts db error normalize toHostData jid hosts start endTime shared).Sublist
      hosts := by
  simp only [jobExclusiveHosts]
  split
  · exact List.nil_sublist hosts
  · split
    · split
      · exact List.nil_sublist hosts
      · exact List.filter_sublist.trans List.filter_sublist
    · exact List.nil_sublist hosts

theorem not_busy {normalize : List Str → List Str} {toHostData : Str → Str} {error shared : Bool}
    {jid name : Str} {hosts : List Str} {start endTime : Int}
    (member : name ∈ jobExclusiveHosts db error normalize toHostData jid hosts (some start)
      (some endTime) shared) :
    name ∉ busyHosts db normalize jid (hosts.filter fun host => !host.isEmpty) start endTime := by
  simp only [jobExclusiveHosts] at member
  split at member
  · cases member
  · split at member
    · cases member
    · have alone := (List.mem_filter.mp member).2
      simp only [Bool.and_eq_true, Bool.not_eq_true', List.contains_eq_mem,
        decide_eq_false_iff_not] at alone
      exact alone.1

variable {job other : AcctJob} {host : Str}

theorem mem_exclusiveHosts (member : host ∈ exclusiveHosts naming db failed job) :
    ∃ name ∈ listifyAcctHosts job.hostList, asHostDataFqdn naming name = host ∧
      name ∉ busyHosts db listifyAcctHosts job.jid
        ((listifyAcctHosts job.hostList).filter fun host => !host.isEmpty)
        job.startTime job.endTime := by
  have part := jobExclusiveHosts_sublist db (failed job.jid)
    (jobIsSharedNode db job.jid) listifyAcctHosts (asHostDataFqdn naming) job.jid
    (listifyAcctHosts job.hostList) (some job.startTime) (some job.endTime)
  obtain ⟨mapped, -⟩ := List.mem_filter.mp member
  rw [listify_of_clean (fun _ inside => listify_clean (part.subset inside))
    (part.nodup (listify_nodup job.hostList))] at mapped
  obtain ⟨name, kept, same⟩ := List.mem_map.mp mapped
  exact ⟨name, part.subset kept, same, not_busy kept⟩

structure Comparable (naming : HostNaming) (job other : AcctJob) (host : Str) : Prop where
  found : ∃ cell ∈ other.hostList, cell ∈ listifyAcctHosts job.hostList
  spelled : ∀ name ∈ listifyAcctHosts job.hostList, asHostDataFqdn naming name = host →
    name ∈ listifyAcctHosts other.hostList

theorem held_apart (inside : other ∈ db.jobs)
    (distinct : other.jid ≠ job.jid) (comparable : Comparable naming job other host)
    (held : host ∈ exclusiveHosts naming db failed job) :
    overlaps other job.startTime job.endTime = false := by
  obtain ⟨name, listed, same, free⟩ := mem_exclusiveHosts held
  obtain ⟨cell, present, met⟩ := comparable.found
  by_contra meets
  have named : cell ≠ [] := (listify_clean met).named
  have query : (other.hostList.any
      ((listifyAcctHosts job.hostList).filter fun host => !host.isEmpty).contains) = true := by
    rw [List.any_eq_true]
    exact ⟨cell, present, by simp [met, named]⟩
  apply free
  apply List.mem_flatMap.mpr
  refine ⟨other, List.mem_filter.mpr ⟨inside, ?_⟩, comparable.spelled name listed same⟩
  simp only [Bool.not_eq_false] at meets
  simp [query, meets, distinct]

def Touch (job other : AcctJob) (time : Int) : Prop :=
  time = job.endTime ∧ time = other.startTime ∨ time = other.endTime ∧ time = job.startTime

theorem touch_of_apart {time : Int} (inJob : job.contains time) (inOther : other.contains time)
    (apart : overlaps other job.startTime job.endTime = false) : Touch job other time := by
  simp only [overlaps, Bool.and_eq_false_iff, decide_eq_false_iff_not, not_lt] at apart
  simp only [AcctJob.contains, Touch] at *
  omega

theorem held_touch {time : Int} (inJobs : job ∈ db.jobs)
    (inOthers : other ∈ db.jobs) (distinct : job.jid ≠ other.jid)
    (comparable : Comparable naming job other host ∨ Comparable naming other job host)
    (held : host ∈ exclusiveHosts naming db failed job)
    (heldToo : host ∈ exclusiveHosts naming db failed other) (inJob : job.contains time)
    (inOther : other.contains time) : Touch job other time := by
  rcases comparable with forth | back
  · exact touch_of_apart inJob inOther (held_apart inOthers distinct.symm forth held)
  · exact (touch_of_apart inOther inJob (held_apart inJobs distinct back heldToo)).symm

theorem untaggedOn_host {hosts : List Str} {row : HostDataRow}
    (taken : untaggedOn hosts row = true) : ∃ host ∈ hosts, row.host = some host := by
  simp only [untaggedOn, Bool.and_eq_true] at taken
  obtain ⟨⟨on, -⟩, -⟩ := taken
  cases named : row.host with
  | none => simp [named] at on
  | some host =>
    have inside : host ∈ hosts := by
      simp only [named, Option.any_some, List.contains_eq_mem, decide_eq_true_eq] at on
      exact (List.mem_filter.mp on).1
    exact ⟨host, inside, rfl⟩

/-- Two jobs that spell a host alike share no sample time on it but an instant at which one ends and
the other starts. -/
theorem untagged_once (naming : HostNaming) (db : Accounting) (failed : Str → Bool)
    {job other : AcctJob} (inJobs : job ∈ db.jobs) (inOthers : other ∈ db.jobs)
    (distinct : job ≠ other) {host : Str}
    (comparable : Comparable naming job other host ∨ Comparable naming other job host) :
    (∀ time, host ∈ exclusiveHosts naming db failed job →
      host ∈ exclusiveHosts naming db failed other → job.contains time → other.contains time →
      Touch job other time) ∧
    ∀ row : HostDataRow, row.host = some host → takesUntagged naming db failed job row →
      takesUntagged naming db failed other row → Touch job other row.time := by
  have keys : job.jid ≠ other.jid := fun same =>
    distinct (List.inj_on_of_nodup_map db.jobKeys inJobs inOthers same)
  constructor
  · intro time held heldToo inJob inOther
    exact held_touch inJobs inOthers keys comparable held heldToo inJob inOther
  · intro row named taken takenToo
    obtain ⟨inJob, -, untagged⟩ := taken
    obtain ⟨inOther, -, untaggedToo⟩ := takenToo
    obtain ⟨one, held, same⟩ := untaggedOn_host untagged
    obtain ⟨two, heldToo, sameToo⟩ := untaggedOn_host untaggedToo
    rw [named] at same sameToo
    cases same
    cases sameToo
    exact held_touch inJobs inOthers keys comparable held heldToo inJob inOther

end Alone

section BackToBack

def OneHolder (naming : HostNaming) (db : Accounting) (failed : Str → Bool) : Prop :=
  ∀ job ∈ db.jobs, ∀ other ∈ db.jobs,
    (∀ host time, host ∈ exclusiveHosts naming db failed job →
      host ∈ exclusiveHosts naming db failed other → job.contains time → other.contains time →
      job = other) ∧
    ∀ row, takesUntagged naming db failed job row → takesUntagged naming db failed other row →
      job = other

def siteNaming : HostNaming := ⟨lit "example.com", lower⟩

def early : AcctJob := ⟨lit "7", [lit "c1"], 0, 10⟩

def late : AcctJob := ⟨lit "8", [lit "c1"], 10, 20⟩

/-- As `early`, under the long name of the host. -/
def twin : AcctJob := ⟨lit "9", [lit "c1.example.com"], 0, 10⟩

def backToBack : Accounting := ⟨[early, late], [], by decide, by decide⟩

def twoSpellings : Accounting := ⟨[early, twin], [], by decide, by decide⟩

def idleRow : HostDataRow :=
  ⟨10, some (lit "c1.example.com"), none, some (lit "cpu"), some (lit "user"), none, none, none,
    none⟩

theorem backToBack_taken : ∀ job ∈ backToBack.jobs,
    takesUntagged siteNaming backToBack (fun _ => false) job idleRow := by
  decide

theorem twoSpellings_taken : ∀ job ∈ twoSpellings.jobs,
    takesUntagged siteNaming twoSpellings (fun _ => false) job idleRow := by
  decide

/-- The row at the instant between two jobs is read by both, and so is a row on a host whose two
names only meet in `host_data`. -/
theorem untagged_twice : ¬OneHolder siteNaming backToBack (fun _ => false) ∧
    ¬OneHolder siteNaming twoSpellings (fun _ => false) := by
  constructor
  · intro once
    have same := (once early (by decide) late (by decide)).2 idleRow
      (backToBack_taken early (by decide)) (backToBack_taken late (by decide))
    exact absurd same (by decide)
  · intro once
    have same := (once early (by decide) twin (by decide)).2 idleRow
      (twoSpellings_taken early (by decide)) (twoSpellings_taken twin (by decide))
    exact absurd same (by decide)

theorem backToBack_comparable :
    Comparable siteNaming early late (lit "c1.example.com") where
  found := ⟨lit "c1", by decide, by decide⟩
  spelled := by decide

theorem untagged_once_backToBack : Touch early late idleRow.time :=
  (untagged_once siteNaming backToBack (fun _ => false) (by decide) (by decide) (by decide)
    (.inl backToBack_comparable)).2 idleRow rfl (backToBack_taken early (by decide))
    (backToBack_taken late (by decide))

end BackToBack

end PerfStats.Metrics
