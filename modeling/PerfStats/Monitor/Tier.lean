import PerfStats.Monitor.Scan

namespace PerfStats.Monitor

inductive CollectTier where
  | fast
  | slow
deriving DecidableEq, Repr

inductive CollectPhase where
  | fastOnly
  | full
deriving DecidableEq, Repr

inductive StatsRowTier where
  | legacy
  | full
  | fast
deriving DecidableEq, Repr

/-- `collect_tier_key_active`, for a key of a type's schema. -/
def keyActive (tierEnabled : Bool) (phase : CollectPhase) (tier : CollectTier) : Bool :=
  !tierEnabled || decide (phase = .full) || decide (tier = .fast)

def rowTierDecide (schemaPayload tierEnabled : Bool) (phase : CollectPhase) : StatsRowTier :=
  if !tierEnabled then .legacy
  else if schemaPayload ∨ phase = .full then .full
  else .fast

theorem keyActive_full (tierEnabled : Bool) (tier : CollectTier) :
    keyActive tierEnabled .full tier = true := by
  cases tierEnabled <;> rfl

theorem rowTierDecide_full (schemaPayload : Bool) :
    rowTierDecide schemaPayload true .full = .full := by
  simp [rowTierDecide]

end PerfStats.Monitor
