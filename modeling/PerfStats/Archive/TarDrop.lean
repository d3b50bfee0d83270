import PerfStats.Archive.Seal
import PerfStats.Lib.Runs

namespace PerfStats.Archive

open Text

section Day

/-- `remove_verified_uncompressed_daily_tars`, the drop after a seal, that of an equivalent tar, and
`_drop_empty_open_tar`. -/
inductive DropSite where
  | verified
  | afterSeal
  | equivalent
  | empty
deriving DecidableEq

/-- What a place has read of the tar; `legacy` where the archive to compare with is the day's
`.tar.gz`. -/
structure DropCheck where
  site : DropSite
  ident : Nat
  members : MemberMap
  legacy : Bool

/-- A day's archives, the places that have listed the tar or are about to drop it, and what was
unlinked, with the `.tar.zst` at that moment. -/
structure DayState where
  tar : Option TarFile
  zst : Option SealedFile
  gz : Option SealedFile
  clock : Nat
  listed : List DropCheck
  checked : List DropCheck
  unlinked : List (MemberMap × Option MemberMap)

inductive DayEvent where
  | append (members : List (Str × Nat))
  | list (site : DropSite)
  | compare (index : Nat)
  | sealTar
  | checkEmpty
  | drop (index : Nat)

def addMember (members : MemberMap) (member : Str × Nat) : MemberMap :=
  members.set member.1 (max member.2 ((members.get? member.1).getD 0))

def appendTar (s : DayState) (members : List (Str × Nat)) : DayState :=
  let before := (s.tar.map (·.members)).getD Lib.Dict.empty
  { s with tar := some ⟨s.clock, members.foldl addMember before, true⟩, clock := s.clock + 1 }

def listTar (s : DayState) (site : DropSite) : DayState :=
  match s.tar with
  | none => s
  | some file =>
    if !file.readable || decide (file.members.size = 0) then s
    else
      match site with
      | .verified =>
        let legacy := s.zst.isNone && s.gz.isSome
        { s with listed := s.listed ++ [⟨.verified, file.ident, file.members, legacy⟩] }
      | .equivalent =>
        { s with listed := s.listed ++ [⟨.equivalent, file.ident, file.members, false⟩] }
      | _ => s

def compareSealed (s : DayState) (index : Nat) : DayState :=
  match s.listed[index]? with
  | none => s
  | some check =>
    let rest := { s with listed := s.listed.eraseIdx index }
    match readableMembers (if check.legacy then s.gz else s.zst) with
    | none => rest
    | some members =>
      if memberMapsEquivalent check.members members then
        { rest with checked := s.checked ++ [check] }
      else rest

def sealTar (s : DayState) : DayState :=
  match s.tar with
  | none => s
  | some file =>
    let out := atomicSealTarToZst (smoothSeal (some file)) s.zst
    if out.replaced then
      { s with
        zst := out.sealedFile
        checked := s.checked ++ [⟨.afterSeal, file.ident, file.members, false⟩] }
    else s

def checkEmptyTar (s : DayState) : DayState :=
  match s.tar with
  | none => s
  | some file =>
    if file.members.size = 0 then
      { s with checked := s.checked ++ [⟨.empty, file.ident, file.members, false⟩] }
    else s

def dropTar (s : DayState) (index : Nat) : DayState :=
  match s.checked[index]? with
  | none => s
  | some check =>
    let rest := { s with checked := s.checked.eraseIdx index }
    match s.tar with
    | none => rest
    | some file =>
      if check.site = .afterSeal ∧ file.ident ≠ check.ident then rest
      else
        { rest with
          tar := none
          unlinked := s.unlinked ++ [(file.members, readableMembers s.zst)] }

def dayStep (s : DayState) : DayEvent → DayState
  | .append members => appendTar s members
  | .list site => listTar s site
  | .compare index => compareSealed s index
  | .sealTar => sealTar s
  | .checkEmpty => checkEmptyTar s
  | .drop index => dropTar s index

def restingDay (tar : Option TarFile) (zst gz : Option SealedFile) : DayState :=
  ⟨tar, zst, gz, (tar.map (·.ident + 1)).getD 0, [], [], []⟩

def HeldBy (zst : Option MemberMap) (members : MemberMap) : Prop :=
  ∀ name size, members.get? name = some size →
    ∃ held, zst = some held ∧ held.get? name = some size

def DropSafe (unlink : MemberMap × Option MemberMap) : Prop :=
  unlink.1.size = 0 ∨ HeldBy unlink.2 unlink.1

def TarKept (s : DayState) (event : DayEvent) : Prop :=
  match event with
  | .drop index => ∀ check ∈ s.checked[index]?, check.site ≠ .afterSeal →
      check.legacy = false ∧ ∀ file ∈ s.tar, file.ident = check.ident
  | _ => True

end Day

section Invariant

structure DayHeld (s : DayState) : Prop where
  clock : ∀ file, s.tar = some file → file.ident < s.clock
  listed_clock : ∀ check ∈ s.listed, check.ident < s.clock
  checked_clock : ∀ check ∈ s.checked, check.ident < s.clock
  listed_same : ∀ check ∈ s.listed, ∀ file, s.tar = some file → file.ident = check.ident →
    file.members = check.members
  checked_same : ∀ check ∈ s.checked, ∀ file, s.tar = some file → file.ident = check.ident →
    file.members = check.members
  held : ∀ check ∈ s.checked, check.legacy = false → check.members.size = 0 ∨
    ∀ file, s.tar = some file → file.ident = check.ident →
      HeldBy (readableMembers s.zst) check.members
  listed_site : ∀ check ∈ s.listed, check.site ≠ .afterSeal
  seal_zst : ∀ check ∈ s.checked, check.site = .afterSeal → check.legacy = false
  safe : ∀ unlink ∈ s.unlinked, DropSafe unlink

variable {s : DayState}

theorem resting_held (tar : Option TarFile) (zst gz : Option SealedFile) :
    DayHeld (restingDay tar zst gz) := by
  refine ⟨fun file here => ?_, ?_, ?_, ?_, ?_, ?_, ?_, ?_, ?_⟩
  · have same : tar = some file := here
    simp [restingDay, same]
  all_goals simp [restingDay]

theorem append_held (held : DayHeld s) (members : List (Str × Nat)) :
    DayHeld (appendTar s members) := by
  have fresh : ∀ check : DropCheck, check.ident < s.clock → ∀ file,
      (appendTar s members).tar = some file → file.ident ≠ check.ident := by
    intro check earlier file here
    cases here
    dsimp only
    omega
  refine ⟨?_, ?_, ?_, ?_, ?_, ?_, held.listed_site, held.seal_zst, held.safe⟩
  · intro file here
    cases here
    exact Nat.lt_succ_self s.clock
  · intro check member
    exact (held.listed_clock check member).trans (Nat.lt_succ_self s.clock)
  · intro check member
    exact (held.checked_clock check member).trans (Nat.lt_succ_self s.clock)
  · intro check member file here same
    exact absurd same (fresh check (held.listed_clock check member) file here)
  · intro check member file here same
    exact absurd same (fresh check (held.checked_clock check member) file here)
  · intro check member _
    refine .inr fun file here same => ?_
    exact absurd same (fresh check (held.checked_clock check member) file here)

theorem listed_held (held : DayHeld s) {file : TarFile} (here : s.tar = some file)
    (check : DropCheck)
    (ident : check.ident = file.ident) (members : check.members = file.members)
    (site : check.site ≠ .afterSeal) :
    DayHeld { s with listed := s.listed ++ [check] } := by
  refine ⟨held.clock, ?_, held.checked_clock, ?_, held.checked_same, held.held, ?_, held.seal_zst,
    held.safe⟩
  · intro other member
    obtain before | last := List.mem_append.mp member
    · exact held.listed_clock other before
    · cases List.mem_singleton.mp last
      rw [ident]
      exact held.clock file here
  · intro other member found same_tar same
    obtain before | last := List.mem_append.mp member
    · exact held.listed_same other before found same_tar same
    · cases List.mem_singleton.mp last
      cases here.symm.trans same_tar
      exact members.symm
  · intro other member
    obtain before | last := List.mem_append.mp member
    · exact held.listed_site other before
    · cases List.mem_singleton.mp last
      exact site

theorem list_held (held : DayHeld s) (site : DropSite) : DayHeld (listTar s site) := by
  unfold listTar
  split
  · exact held
  · next file here =>
      split
      · exact held
      · cases site with
        | verified => exact listed_held held here _ rfl rfl (by simp)
        | equivalent => exact listed_held held here _ rfl rfl (by simp)
        | afterSeal => exact held
        | empty => exact held

theorem erase_listed_held (held : DayHeld s) (index : Nat) :
    DayHeld { s with listed := s.listed.eraseIdx index } :=
  ⟨held.clock, fun check member => held.listed_clock check (List.mem_of_mem_eraseIdx member),
    held.checked_clock,
    fun check member => held.listed_same check (List.mem_of_mem_eraseIdx member),
    held.checked_same, held.held,
    fun check member => held.listed_site check (List.mem_of_mem_eraseIdx member), held.seal_zst,
    held.safe⟩

theorem erase_checked_held (held : DayHeld s) (index : Nat) :
    DayHeld { s with checked := s.checked.eraseIdx index } :=
  ⟨held.clock, held.listed_clock,
    fun check member => held.checked_clock check (List.mem_of_mem_eraseIdx member),
    held.listed_same,
    fun check member => held.checked_same check (List.mem_of_mem_eraseIdx member),
    fun check member => held.held check (List.mem_of_mem_eraseIdx member), held.listed_site,
    fun check member => held.seal_zst check (List.mem_of_mem_eraseIdx member), held.safe⟩

theorem checked_held (held : DayHeld s) {check : DropCheck} (earlier : check.ident < s.clock)
    (same : ∀ file, s.tar = some file → file.ident = check.ident → file.members = check.members)
    (kept : check.legacy = false → check.members.size = 0 ∨
      HeldBy (readableMembers s.zst) check.members)
    (seal_zst : check.site = .afterSeal → check.legacy = false) :
    DayHeld { s with checked := s.checked ++ [check] } := by
  refine ⟨held.clock, held.listed_clock, ?_, held.listed_same, ?_, ?_, held.listed_site, ?_, held.safe⟩
  · intro other member
    obtain before | last := List.mem_append.mp member
    · exact held.checked_clock other before
    · cases List.mem_singleton.mp last
      exact earlier
  · intro other member
    obtain before | last := List.mem_append.mp member
    · exact held.checked_same other before
    · cases List.mem_singleton.mp last
      exact same
  · intro other member
    obtain before | last := List.mem_append.mp member
    · exact held.held other before
    · cases List.mem_singleton.mp last
      intro current
      obtain none_in | inside := kept current
      · exact .inl none_in
      · exact .inr fun _ _ _ => inside
  · intro other member
    obtain before | last := List.mem_append.mp member
    · exact held.seal_zst other before
    · cases List.mem_singleton.mp last
      exact seal_zst

theorem compare_held (held : DayHeld s) (index : Nat) : DayHeld (compareSealed s index) := by
  unfold compareSealed
  split
  · exact held
  · next check found =>
      have member := List.mem_of_getElem? found
      have rest := erase_listed_held held index
      split
      · exact rest
      · next members read =>
          split
          · next same =>
              refine checked_held rest (held.listed_clock check member)
                (held.listed_same check member) (fun current => .inr ?_)
                (fun sealing => absurd sealing (held.listed_site check member))
              intro name size inside
              rw [current] at read
              exact ⟨members, read, equivalent_get? same inside⟩
          · exact rest

theorem smooth_sealed {file : TarFile} {zst : Option SealedFile}
    (replaced : (atomicSealTarToZst (smoothSeal (some file)) zst).replaced = true) :
    (atomicSealTarToZst (smoothSeal (some file)) zst).sealedFile = some ⟨file.members, true⟩ := by
  obtain stopped | ⟨source, corrupt, here, _, result, _⟩ := seal_outcome (smoothSeal (some file)) zst
  · rw [stopped.replaced] at replaced
    cases replaced
  · cases here
    rw [result]
    rfl

theorem held_self (members : MemberMap) : HeldBy (some members) members :=
  fun _ _ inside => ⟨members, rfl, inside⟩

theorem seal_held (held : DayHeld s) : DayHeld (sealTar s) := by
  unfold sealTar
  split
  · exact held
  · next file here =>
      dsimp only
      split
      · next replaced =>
          rw [smooth_sealed replaced]
          have sealed_same : DayHeld { s with zst := some ⟨file.members, true⟩ } := by
            refine ⟨held.clock, held.listed_clock, held.checked_clock, held.listed_same,
              held.checked_same, fun check member _ => .inr fun found same_tar same => ?_,
              held.listed_site, held.seal_zst, held.safe⟩
            have members := held.checked_same check member found same_tar same
            cases here.symm.trans same_tar
            rw [← members]
            exact held_self file.members
          refine checked_held sealed_same (held.clock file here) ?_ (fun _ => .inr (held_self _))
            (fun _ => rfl)
          intro found same_tar _
          cases here.symm.trans same_tar
          rfl
      · exact held

theorem check_empty_held (held : DayHeld s) : DayHeld (checkEmptyTar s) := by
  unfold checkEmptyTar
  split
  · exact held
  · next file here =>
      split
      · next none_in =>
          refine checked_held held (held.clock file here) ?_ (fun _ => .inl none_in) (by simp)
          intro found same_tar _
          cases here.symm.trans same_tar
          rfl
      · exact held

theorem drop_held (held : DayHeld s) {index : Nat} (kept : TarKept s (.drop index)) :
    DayHeld (dropTar s index) := by
  unfold dropTar
  split
  · exact held
  · next check found =>
      have member := List.mem_of_getElem? found
      have rest := erase_checked_held held index
      split
      · exact rest
      · next file here =>
          split
          · exact rest
          · next same_seal =>
              have settled : check.legacy = false ∧ file.ident = check.ident := by
                by_cases site : check.site = .afterSeal
                · refine ⟨held.seal_zst check member site, ?_⟩
                  by_contra other
                  exact same_seal ⟨site, other⟩
                · obtain ⟨current, same⟩ := kept check found site
                  exact ⟨current, same file here⟩
              have safe : DropSafe (file.members, readableMembers s.zst) := by
                have members := held.checked_same check member file here settled.2
                obtain none_in | inside := held.held check member settled.1
                · exact .inl (by rw [members]; exact none_in)
                · exact .inr (by rw [members]; exact inside file here settled.2)
              refine ⟨by simp, rest.listed_clock, rest.checked_clock, by simp, by simp, ?_,
                rest.listed_site, rest.seal_zst, ?_⟩
              · intro other listed _
                exact .inr (by simp)
              · intro unlink listed
                obtain before | last := List.mem_append.mp listed
                · exact held.safe unlink before
                · cases List.mem_singleton.mp last
                  exact safe

theorem day_step_held (held : DayHeld s) {event : DayEvent} (kept : TarKept s event) :
    DayHeld (dayStep s event) := by
  cases event with
  | append members => exact append_held held members
  | list site => exact list_held held site
  | compare index => exact compare_held held index
  | sealTar => exact seal_held held
  | checkEmpty => exact check_empty_held held
  | drop index => exact drop_held held kept

end Invariant

section Result

theorem day_run_held {s : DayState} {events : List DayEvent} (held : DayHeld s)
    (kept : Lib.Throughout dayStep TarKept s events) : DayHeld (events.foldl dayStep s) := by
  induction events generalizing s with
  | nil => exact held
  | cons event events ih => exact ih (day_step_held held kept.1) kept.2

/-- Where each drop comes while the tar is the file that was checked, no tar is unlinked that has a
member the `.tar.zst` has not. -/
theorem drops_safe (tar : Option TarFile) (zst gz : Option SealedFile) (events : List DayEvent)
    (kept : Lib.Throughout dayStep TarKept (restingDay tar zst gz) events) :
    ∀ unlink ∈ (events.foldl dayStep (restingDay tar zst gz)).unlinked, DropSafe unlink :=
  (day_run_held (resting_held tar zst gz) kept).safe

def dayTar : TarFile := ⟨1, ⟨[(lit "a", 30)], lone_distinct _ _⟩, true⟩

def daySealed : SealedFile := ⟨⟨[(lit "a", 30)], lone_distinct _ _⟩, true⟩

theorem drops_safe_quiet :
    Lib.Throughout dayStep TarKept (restingDay (some dayTar) (some daySealed) none)
        [.list .verified, .compare 0, .drop 0] ∧
      ∀ unlink ∈ ([DayEvent.list .verified, .compare 0, .drop 0].foldl dayStep
        (restingDay (some dayTar) (some daySealed) none)).unlinked, DropSafe unlink := by
  have kept : Lib.Throughout dayStep TarKept (restingDay (some dayTar) (some daySealed) none)
      [.list .verified, .compare 0, .drop 0] := by
    refine ⟨trivial, trivial, ?_, trivial⟩
    intro check found _
    cases found
    refine ⟨rfl, fun file here => ?_⟩
    cases here
    rfl
  exact ⟨kept, drops_safe _ _ _ _ kept⟩

theorem append_before_drop_lost :
    ¬ ∀ (tar : Option TarFile) (zst gz : Option SealedFile) (events : List DayEvent),
      ∀ unlink ∈ (events.foldl dayStep (restingDay tar zst gz)).unlinked, DropSafe unlink := by
  intro safe
  have lost := safe (some dayTar) (some daySealed) none
    [.list .verified, .compare 0, .append [(lit "b", 20)], .drop 0] _ (.head _)
  obtain none_in | held := lost
  · exact absurd none_in (by decide)
  · obtain ⟨members, read, found⟩ := held (lit "b") 20 (by decide)
    have sealed_members : readableMembers (some daySealed) = some daySealed.members := rfl
    cases sealed_members.symm.trans read
    exact absurd found (by decide)

end Result

end PerfStats.Archive
