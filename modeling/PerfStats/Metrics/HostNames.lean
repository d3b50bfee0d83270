import PerfStats.Words

namespace PerfStats.Metrics

open Text

def normScalar (cell : Str) : List Str :=
  let name := strip cell
  if name.isEmpty then []
  else if name.contains ',' then ((splitOn ',' name).map strip).filter fun part => !part.isEmpty
  else [name]

def dedupeHosts : List Str → List Str → List Str
  | _, [] => []
  | seen, host :: rest =>
    let name := strip host
    if name.isEmpty || seen.contains name then dedupeHosts seen rest
    else name :: dedupeHosts (name :: seen) rest

def listifyAcctHosts (hosts : List Str) : List Str := dedupeHosts [] (hosts.flatMap normScalar)

section Clean

theorem strip_strip (s : Str) : strip (strip s) = strip s := by
  have right : ∀ l : Str, rstrip l = List.rdropWhile isSpace l := fun _ => rfl
  have first : lstrip (strip s) = strip s := by
    rw [strip, right, lstrip, lstrip, List.dropWhile_eq_self_iff]
    intro some_left space
    have part := List.rdropWhile_prefix isSpace (s.dropWhile isSpace)
    have longer := part.length_le
    rw [part.getElem some_left] at space
    exact List.dropWhile_get_zero_not isSpace s (by omega) space
  calc
    strip (strip s) = rstrip (strip s) := by rw [strip, first]
    _ = strip s := by
      exact List.rdropWhile_idempotent isSpace (lstrip s)

structure CleanName (name : Str) : Prop where
  named : name ≠ []
  stripped : strip name = name
  single : ',' ∉ name

variable {hosts : List Str} {name : Str}

theorem normScalar_clean {cell : Str} (member : name ∈ normScalar cell) : CleanName name := by
  simp only [normScalar] at member
  split at member
  next => cases member
  next named =>
    split at member
    next =>
      obtain ⟨inside, kept⟩ := List.mem_filter.mp member
      obtain ⟨piece, present, rfl⟩ := List.mem_map.mp inside
      exact ⟨by simpa using kept, strip_strip piece,
        fun comma => splitOn_pieces present (mem_strip comma)⟩
    next single =>
      rw [List.mem_singleton.mp member]
      exact ⟨by simpa using named, strip_strip cell, by simpa using single⟩

theorem normScalar_of_clean (clean : CleanName name) : normScalar name = [name] := by
  simp [normScalar, clean.stripped, clean.named, clean.single]

theorem mem_dedupeHosts {seen : List Str}
    (member : name ∈ dedupeHosts seen hosts) : name ∉ seen ∧ ∃ host ∈ hosts, name = strip host := by
  induction hosts generalizing seen with
  | nil => cases member
  | cons host rest ih =>
    simp only [dedupeHosts] at member
    split at member
    next =>
      obtain ⟨fresh, other, inside, same⟩ := ih member
      exact ⟨fresh, other, List.mem_cons_of_mem _ inside, same⟩
    next taken =>
      cases List.mem_cons.mp member with
      | inl first =>
        rw [first]
        exact ⟨by simp_all, host, List.mem_cons_self, rfl⟩
      | inr later =>
        obtain ⟨fresh, other, inside, same⟩ := ih later
        exact ⟨fun old => fresh (List.mem_cons_of_mem _ old), other,
          List.mem_cons_of_mem _ inside, same⟩

theorem dedupeHosts_nodup (seen hosts : List Str) : (dedupeHosts seen hosts).Nodup := by
  induction hosts generalizing seen with
  | nil => exact List.nodup_nil
  | cons host rest ih =>
    simp only [dedupeHosts]
    split
    next => exact ih seen
    next =>
      refine List.nodup_cons.mpr ⟨fun again => ?_, ih _⟩
      exact (mem_dedupeHosts again).1 List.mem_cons_self

theorem dedupeHosts_of_clean {seen : List Str} (clean : ∀ host ∈ hosts, CleanName host)
    (distinct : hosts.Nodup) (fresh : ∀ host ∈ hosts, host ∉ seen) :
    dedupeHosts seen hosts = hosts := by
  induction hosts generalizing seen with
  | nil => rfl
  | cons host rest ih =>
    obtain ⟨apart, others⟩ := List.nodup_cons.mp distinct
    have own := clean host List.mem_cons_self
    have new := fresh host List.mem_cons_self
    have later : ∀ other ∈ rest, other ∉ host :: seen := by
      intro other inside
      have := fresh other (List.mem_cons_of_mem _ inside)
      simp only [List.mem_cons, not_or]
      exact ⟨fun same => apart (same ▸ inside), this⟩
    have tail := ih (fun other inside => clean other (List.mem_cons_of_mem _ inside)) others later
    simp [dedupeHosts, own.stripped, own.named, new, tail]

theorem listify_clean (member : name ∈ listifyAcctHosts hosts) : CleanName name := by
  obtain ⟨-, host, inside, rfl⟩ := mem_dedupeHosts member
  obtain ⟨cell, -, named⟩ := List.mem_flatMap.mp inside
  have clean := normScalar_clean named
  rw [clean.stripped]
  exact clean

theorem listify_nodup (hosts : List Str) : (listifyAcctHosts hosts).Nodup := dedupeHosts_nodup _ _

theorem listify_of_clean (clean : ∀ host ∈ hosts, CleanName host)
    (distinct : hosts.Nodup) : listifyAcctHosts hosts = hosts := by
  have flat : hosts.flatMap normScalar = hosts := by
    calc
      hosts.flatMap normScalar = hosts.flatMap fun host => [host] :=
        List.flatMap_congr fun host member => normScalar_of_clean (clean host member)
      _ = hosts := List.flatMap_singleton' hosts
  rw [listifyAcctHosts, flat]
  exact dedupeHosts_of_clean clean distinct fun _ _ => List.not_mem_nil

theorem listify_listify (hosts : List Str) :
    listifyAcctHosts (listifyAcctHosts hosts) = listifyAcctHosts hosts :=
  listify_of_clean (fun _ => listify_clean) (listify_nodup hosts)

end Clean

end PerfStats.Metrics
