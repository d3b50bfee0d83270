import PerfStats.Text

namespace PerfStats.Metrics

open Text

/-- A row of `host_data`: the time in microseconds, the `real` columns by their bits. -/
structure HostDataRow where
  time : Int
  host : Option Str
  jid : Option Str
  type : Option Str
  event : Option Str
  dev : Option Str
  value : Option (BitVec 32)
  arc : Option (BitVec 32)
  delta : Option (BitVec 32)
deriving DecidableEq, Repr

def coalesce (cell : Option Str) : Str := cell.getD []

def strictScope (jid : Str) (row : HostDataRow) : Bool :=
  coalesce row.jid == jid || coalesce row.dev == lit "j:" ++ jid

def untaggedOn (hosts : List Str) (row : HostDataRow) : Bool :=
  row.host.any (fun host => (hosts.filter fun h => !h.isEmpty).contains host) &&
    (coalesce row.jid == [] || coalesce row.jid == lit "-") &&
    !startsWith (lit "j:") (coalesce row.dev)

/-- `job_host_data_scope_sql_params` with `coalesce=True`. -/
def jobHostDataScope (jid : Str) (exclusiveHosts : List Str) (row : HostDataRow) : Bool :=
  strictScope jid row || untaggedOn exclusiveHosts row

/-- `job_host_data_scope_sql_params` with `coalesce=False`, where it is true: a comparison with
`NULL` is not. -/
def jobHostDataOwned (jid : Str) (exclusiveHosts : List Str) (row : HostDataRow) : Bool :=
  row.jid == some jid || row.dev == some (lit "j:" ++ jid) || untaggedOn exclusiveHosts row

theorem untaggedOn_filter {hosts exclusive : List Str} {row : HostDataRow}
    (member : row.host.any hosts.contains = true) :
    untaggedOn (hosts.filter exclusive.contains) row = untaggedOn exclusive row := by
  cases named : row.host with
  | none => simp [untaggedOn, named]
  | some host =>
    have here : host ∈ hosts := by simpa [named] using member
    simp [untaggedOn, named, here, Bool.and_comm (decide (host ∈ exclusive))]

end PerfStats.Metrics
