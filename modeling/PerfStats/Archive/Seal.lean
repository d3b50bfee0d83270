import PerfStats.Lib.Dict
import PerfStats.Text

namespace PerfStats.Archive

open Text

section Maps

abbrev MemberMap := Lib.Dict Str Nat

def sumMemberBytes (members : MemberMap) : Nat := (members.entries.map (·.2)).sum

/-- Two dicts with the same entries. -/
def memberMapsEquivalent (a b : MemberMap) : Bool :=
  decide (a.size = b.size) && a.entries.all fun entry => decide (b.get? entry.1 = some entry.2)

def CoveredBy (sealed tar : MemberMap) : Prop :=
  ∀ name size, sealed.get? name = some size → ∃ larger, tar.get? name = some larger ∧ size ≤ larger

theorem equivalent_get? {a b : MemberMap} (same : memberMapsEquivalent a b = true) {name : Str}
    {size : Nat} (found : a.get? name = some size) : b.get? name = some size := by
  rw [memberMapsEquivalent, Bool.and_eq_true, List.all_eq_true] at same
  simpa using same.2 (name, size) (Lib.Dict.get?_eq_some.mp found)

theorem equivalent_covered {a b : MemberMap} (same : memberMapsEquivalent a b = true) :
    CoveredBy a b := by
  intro name size found
  exact ⟨size, equivalent_get? same found, le_rfl⟩

end Maps

section Seal

structure TarFile where
  ident : Nat
  members : MemberMap
  readable : Bool

structure SealedFile where
  members : MemberMap
  readable : Bool

structure SealEnv (tar : Option TarFile) where
  zstdFound : Bool
  scanned : Bool
  listed : Bool
  admitted : Bool
  tarRead : Bool
  scannedAgain : Bool
  verified : Bool
  compressed : Bool
  tested : Bool
  moved : Bool
  placed : Bool
  keepUncompressedTar : Bool
  forceRemoveUncompressedTar : Bool
  rawOnDisk : Bool
  removed : Bool
  ident : Nat
  atDrop : Option TarFile
  honest : ∀ before after, tar = some before → atDrop = some after → after.ident = ident →
    after.members = before.members

/-- What is on disk at the end, whether the sealed archive was replaced, which tar was dropped, and
what is returned or raised. -/
structure SealOutcome where
  sealedFile : Option SealedFile
  corrupt : List SealedFile
  tar : Option TarFile
  replaced : Bool
  dropped : Option TarFile
  result : Except Unit (Option MemberMap)

variable {tar : Option TarFile}

def sealSkipExistingZstEquivalent (env : SealEnv tar) (source : TarFile) (zst : Option SealedFile) :
    Bool × Option MemberMap :=
  match zst with
  | none => (false, none)
  | some file =>
    if !file.readable then (false, none)
    else if !env.scanned then (false, none)
    else
      let tarMembers := if env.listed && source.readable then source.members else Lib.Dict.empty
      if memberMapsEquivalent file.members tarMembers then (true, some file.members)
      else (false, some file.members)

def sealRefused (existing tarMembers : MemberMap) : Bool :=
  decide (tarMembers.size < existing.size) ||
    decide (sumMemberBytes tarMembers < sumMemberBytes existing)

def sealDrop (env : SealEnv tar) (source : TarFile) (corrupt : List SealedFile) : SealOutcome :=
  let kept : SealOutcome :=
    ⟨some ⟨source.members, true⟩, corrupt, env.atDrop, true, none, .ok (some source.members)⟩
  if env.keepUncompressedTar then kept
  else if !env.forceRemoveUncompressedTar && env.rawOnDisk then kept
  else
    match env.atDrop with
    | none => kept
    | some file =>
      if file.ident ≠ env.ident then kept
      else if env.removed then { kept with tar := none, dropped := some file }
      else kept

def sealStop (tar : Option TarFile) (zst : Option SealedFile) (result : Except Unit (Option MemberMap)) :
    SealOutcome :=
  ⟨zst, [], tar, false, none, result⟩

def sealExisting (env : SealEnv tar) (known : Option MemberMap) (zst : Option SealedFile) :
    Option MemberMap :=
  match zst with
  | none => some Lib.Dict.empty
  | some file =>
    match known with
    | some members => some members
    | none => if env.scannedAgain && file.readable then some file.members else none

def sealReplace (env : SealEnv tar) (source : TarFile) (zst : Option SealedFile)
    (existing : Option MemberMap) : SealOutcome :=
  if !env.compressed then sealStop tar zst (.error ())
  else if !env.tested then sealStop tar zst (.error ())
  else
    match zst, existing with
    | some file, none =>
      -- never overwrite a sealed archive that could not be read
      if file.readable then sealStop tar zst (.error ())
      else if !env.moved then sealStop tar zst (.error ())
      else if !env.placed then ⟨none, [file], tar, false, none, .error ()⟩
      else sealDrop env source [file]
    | _, _ => if !env.placed then sealStop tar zst (.error ()) else sealDrop env source []

def atomicSealTarToZst (env : SealEnv tar) (zst : Option SealedFile) : SealOutcome :=
  match tar with
  | none => sealStop none zst (.ok none)
  | some source =>
    let skip := sealSkipExistingZstEquivalent env source zst
    let existing := sealExisting env skip.2 zst
    if !env.zstdFound then sealStop (some source) zst (.error ())
    else if skip.1 then sealStop (some source) zst (.ok skip.2)
    else if !env.admitted then sealStop (some source) zst (.ok none)
    else if !(env.tarRead && source.readable) then sealStop (some source) zst (.error ())
    else if zst.isSome && (existing.map fun members => sealRefused members source.members).getD false
    then sealStop (some source) zst (.ok none)
    else if !env.verified then sealStop (some source) zst (.ok none)
    else sealReplace env source zst existing

def readableMembers (zst : Option SealedFile) : Option MemberMap :=
  (zst.filter (·.readable)).map (·.members)

structure SealSafe (env : SealEnv tar) (zst : Option SealedFile) : Prop where
  covered : (atomicSealTarToZst env zst).replaced = true →
    ∀ file, zst = some file → file.readable = true →
      ∃ source, tar = some source ∧ CoveredBy file.members source.members
  kept : (atomicSealTarToZst env zst).replaced = true →
    ∀ file, zst = some file → file.readable = false → file ∈ (atomicSealTarToZst env zst).corrupt
  unchanged : (atomicSealTarToZst env zst).replaced = false →
    (atomicSealTarToZst env zst).tar = tar ∧
      readableMembers (atomicSealTarToZst env zst).sealedFile = readableMembers zst
  dropped : ∀ file, (atomicSealTarToZst env zst).dropped = some file →
    (atomicSealTarToZst env zst).replaced = true ∧
      ∃ source, tar = some source ∧ file.members = source.members

/-- No sealed member is lost: what can be read of the sealed archive is covered by a readable tar,
or it has more members or more bytes. -/
def SealFits (tar : Option TarFile) (zst : Option SealedFile) : Prop :=
  ∀ source, tar = some source → source.readable = true → ∀ members, readableMembers zst = some members →
    CoveredBy members source.members ∨ sealRefused members source.members = true

end Seal

section Outcomes

variable {tar : Option TarFile} {zst : Option SealedFile}

theorem skip_known {env : SealEnv tar} {source : TarFile} {members : MemberMap}
    (known : (sealSkipExistingZstEquivalent env source zst).2 = some members) :
    ∃ file, zst = some file ∧ file.readable = true ∧ members = file.members := by
  unfold sealSkipExistingZstEquivalent at known
  split at known
  · cases known
  · next file =>
      by_cases readable : file.readable = true
      · refine ⟨file, rfl, readable, ?_⟩
        split at known
        · cases known
        · split at known
          · cases known
          · simp only [apply_ite Prod.snd, ite_self] at known
            exact (Option.some.inj known).symm
      · simp [readable] at known

structure Stopped (tar : Option TarFile) (zst : Option SealedFile) (out : SealOutcome) : Prop where
  replaced : out.replaced = false
  dropped : out.dropped = none
  tar : out.tar = tar
  sealedFile : readableMembers out.sealedFile = readableMembers zst

theorem stopped_sealStop (tar : Option TarFile) (zst : Option SealedFile)
    (result : Except Unit (Option MemberMap)) : Stopped tar zst (sealStop tar zst result) :=
  ⟨rfl, rfl, rfl, rfl⟩

theorem existing_some {env : SealEnv tar} {known : Option MemberMap} {file : SealedFile}
    {members : MemberMap}
    (told : ∀ members, known = some members → file.readable = true ∧ members = file.members)
    (found : sealExisting env known (some file) = some members) :
    file.readable = true ∧ members = file.members := by
  unfold sealExisting at found
  dsimp only at found
  split at found
  · next told_members =>
      obtain rfl := Option.some.inj found
      exact told told_members rfl
  · split at found
    · next both =>
        rw [Bool.and_eq_true] at both
        exact ⟨both.2, (Option.some.inj found).symm⟩
    · cases found

variable (env : SealEnv tar)

theorem sealReplace_outcome (source : TarFile) (zst : Option SealedFile)
    (existing : Option MemberMap) :
    Stopped tar zst (sealReplace env source zst existing) ∨
      ∃ corrupt, sealReplace env source zst existing = sealDrop env source corrupt ∧
        ∀ file, zst = some file → existing = none → file.readable = false ∧ corrupt = [file] := by
  unfold sealReplace
  split
  · exact .inl (stopped_sealStop tar zst _)
  · split
    · exact .inl (stopped_sealStop tar zst _)
    · split
      · next file =>
          split
          · exact .inl (stopped_sealStop tar _ _)
          · next unreadable =>
              rw [Bool.not_eq_true] at unreadable
              split
              · exact .inl (stopped_sealStop tar _ _)
              · split
                · exact .inl ⟨rfl, rfl, rfl, by simp [readableMembers, unreadable]⟩
                · refine .inr ⟨[file], rfl, fun other same _ => ?_⟩
                  cases same
                  exact ⟨unreadable, rfl⟩
      · next others =>
          split
          · exact .inl (stopped_sealStop tar zst _)
          · exact .inr ⟨[], rfl, fun file same unread => absurd unread (others file same)⟩

theorem seal_outcome (zst : Option SealedFile) : Stopped tar zst (atomicSealTarToZst env zst) ∨
      ∃ source corrupt, tar = some source ∧ source.readable = true ∧
        atomicSealTarToZst env zst = sealDrop env source corrupt ∧
        ∀ file, zst = some file →
          (file.readable = true → sealRefused file.members source.members = false) ∧
          (file.readable = false → corrupt = [file]) := by
  cases tar with
  | none => exact .inl (stopped_sealStop none zst _)
  | some source =>
    have known := @skip_known (some source) zst env source
    unfold atomicSealTarToZst
    dsimp only
    generalize sealSkipExistingZstEquivalent env source zst = skip at known
    split
    · exact .inl (stopped_sealStop _ zst _)
    · split
      · exact .inl (stopped_sealStop _ zst _)
      · split
        · exact .inl (stopped_sealStop _ zst _)
        · split
          · exact .inl (stopped_sealStop _ zst _)
          · next listed =>
              have readable : source.readable = true := by
                simp only [Bool.not_eq_true', Bool.not_eq_false, Bool.and_eq_true] at listed
                exact listed.2
              split
              · exact .inl (stopped_sealStop _ zst _)
              · next passed =>
                  split
                  · exact .inl (stopped_sealStop _ zst _)
                  · obtain stopped | ⟨corrupt, result, kept⟩ :=
                      sealReplace_outcome env source zst (sealExisting env skip.2 zst)
                    · exact .inl stopped
                    · refine .inr ⟨source, corrupt, rfl, readable, result, fun file same => ?_⟩
                      subst same
                      have told : ∀ members, skip.2 = some members →
                          file.readable = true ∧ members = file.members := by
                        intro members found
                        obtain ⟨other, same, read, equal⟩ := known found
                        cases same
                        exact ⟨read, equal⟩
                      cases existing : sealExisting env skip.2 (some file) with
                      | none =>
                        obtain ⟨unreadable, copy⟩ := kept file rfl existing
                        exact ⟨fun read => absurd read (by simp [unreadable]), fun _ => copy⟩
                      | some members =>
                        obtain ⟨read, rfl⟩ := existing_some told existing
                        refine ⟨fun _ => ?_, fun unread => absurd read (by simp [unread])⟩
                        simpa [existing] using passed

theorem sealDrop_facts (source : TarFile) (corrupt : List SealedFile) :
    (sealDrop env source corrupt).replaced = true ∧ (sealDrop env source corrupt).corrupt = corrupt ∧
      ∀ file, (sealDrop env source corrupt).dropped = some file →
        env.atDrop = some file ∧ file.ident = env.ident := by
  unfold sealDrop
  split
  · simp
  · split
    · simp
    · split
      · simp
      · next file here =>
          split
          · simp
          · next same =>
              rw [not_not] at same
              split
              · refine ⟨rfl, rfl, fun other dropped => ?_⟩
                cases dropped
                exact ⟨here, same⟩
              · simp

theorem seal_safe_of_covered {env : SealEnv tar} (covered :
      (atomicSealTarToZst env zst).replaced = true → ∀ file, zst = some file → file.readable = true →
        ∃ source, tar = some source ∧ CoveredBy file.members source.members) :
    SealSafe env zst := by
  obtain stopped | ⟨source, corrupt, here, _, result, guarded⟩ := seal_outcome env zst
  · refine ⟨covered, fun replaced => ?_, fun _ => ⟨stopped.tar, stopped.sealedFile⟩, fun file dropped => ?_⟩
    · rw [stopped.replaced] at replaced
      cases replaced
    · rw [stopped.dropped] at dropped
      cases dropped
  · obtain ⟨replaced, copies, checked⟩ := sealDrop_facts env source corrupt
    refine ⟨covered, fun _ file same unreadable => ?_, fun kept => ?_, fun file dropped => ?_⟩
    · rw [result, copies, (guarded file same).2 unreadable]
      exact .head _
    · rw [result, replaced] at kept
      cases kept
    · rw [result] at dropped ⊢
      obtain ⟨at_drop, same⟩ := checked file dropped
      exact ⟨replaced, source, here, env.honest source file here at_drop same⟩

def smoothSeal (tar : Option TarFile) : SealEnv tar where
  zstdFound := true
  scanned := true
  listed := true
  admitted := true
  tarRead := true
  scannedAgain := true
  verified := true
  compressed := true
  tested := true
  moved := true
  placed := true
  keepUncompressedTar := true
  forceRemoveUncompressedTar := false
  rawOnDisk := false
  removed := true
  ident := 0
  atDrop := none
  honest := fun _ _ _ here => nomatch here

theorem smooth_replaces {source : TarFile} {file : SealedFile} (readable : source.readable = true)
    (read : file.readable = true) (passed : sealRefused file.members source.members = false)
    (apart : memberMapsEquivalent file.members source.members = false) :
    (atomicSealTarToZst (smoothSeal (some source)) (some file)).replaced = true := by
  have skip : sealSkipExistingZstEquivalent (smoothSeal (some source)) source (some file) =
      (false, some file.members) := by
    simp [sealSkipExistingZstEquivalent, smoothSeal, readable, read, apart]
  have existing : sealExisting (smoothSeal (some source)) (some file.members) (some file) =
      some file.members := rfl
  simp only [atomicSealTarToZst, skip, existing]
  simp [passed, readable, sealReplace, sealDrop, smoothSeal]

/-- A seal loses no sealed member, whatever happens while it runs, just where a readable archive
is covered by the tar or refused. -/
theorem seal_safe_iff (tar : Option TarFile) (zst : Option SealedFile) :
    (∀ env : SealEnv tar, SealSafe env zst) ↔ SealFits tar zst := by
  constructor
  · intro safe source here readable members found
    subst here
    obtain ⟨file, listed, rfl⟩ := Option.map_eq_some_iff.mp found
    obtain ⟨rfl, read⟩ := Option.filter_eq_some_iff.mp listed
    by_contra lost
    rw [not_or, Bool.not_eq_true] at lost
    have apart : memberMapsEquivalent file.members source.members = false := by
      rw [Bool.eq_false_iff]
      intro same
      exact lost.1 (equivalent_covered same)
    have replaced := smooth_replaces readable read lost.2 apart
    obtain ⟨other, same, covered⟩ := (safe (smoothSeal (some source))).covered replaced file rfl read
    cases same
    exact lost.1 covered
  · intro fits env
    refine seal_safe_of_covered fun replaced file same read => ?_
    obtain stopped | ⟨source, corrupt, here, readable, _, guarded⟩ := seal_outcome env zst
    · rw [stopped.replaced] at replaced
      cases replaced
    · refine ⟨source, here, ?_⟩
      have passed := (guarded file same).1 read
      have members : readableMembers zst = some file.members := by
        simp [same, readableMembers, read]
      refine (fits source here readable file.members members).resolve_right ?_
      rw [passed]
      exact Bool.false_ne_true

end Outcomes

section Example

theorem lone_distinct (name : Str) (size : Nat) :
    (([(name, size)] : List (Str × Nat)).map Prod.fst).Nodup :=
  List.nodup_singleton name

def otherTar : TarFile := ⟨1, ⟨[(lit "b", 20)], lone_distinct _ _⟩, true⟩

def smallerSealed : SealedFile := ⟨⟨[(lit "a", 10)], lone_distinct _ _⟩, true⟩

theorem seal_loses_member :
    ¬ ∀ (tar : Option TarFile) (zst : Option SealedFile) (env : SealEnv tar), SealSafe env zst := by
  intro safe
  have replaced : (atomicSealTarToZst (smoothSeal (some otherTar)) (some smallerSealed)).replaced =
      true := by decide
  obtain ⟨source, same, covered⟩ := (safe (some otherTar) (some smallerSealed) (smoothSeal _)).covered
    replaced smallerSealed rfl rfl
  cases same
  obtain ⟨larger, found, _⟩ := covered (lit "a") 10 (by decide)
  have absent : otherTar.members.get? (lit "a") = none := by decide
  cases found

end Example

end PerfStats.Archive
