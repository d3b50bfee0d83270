import PerfStats.Lib.Failing
import PerfStats.Monitor.TextFormat
import PerfStats.Feed.Parser

namespace PerfStats.Monitor

open Lib Feed Text

section Tokens

variable (se : SchemaEntry)

def SchemaEntry.token : Str := optionToken se.key se.options

theorem appendOption_foldl (options : List Str) {tmp : Option Str} {suffix : Str}
    (written : options.foldl appendOption tmp = some suffix) :
    ∃ text, tmp = some text ∧ suffix = text ++ options.flatMap (fun o => ',' :: o) := by
  induction options generalizing tmp with
  | nil => exact ⟨suffix, written, by simp⟩
  | cons opt options ih =>
    obtain ⟨text, here, rfl⟩ := ih written
    cases tmp with
    | none => cases here
    | some before =>
      rw [appendOption, Option.bind_some] at here
      split at here
      · cases here
        exact ⟨before, rfl, by simp⟩
      · cases here

theorem emitOneSchemaEntry_eq {text : Str} (written : emitOneSchemaEntry se = some text) :
    text = ' ' :: se.token := by
  obtain ⟨suffix, built, rfl⟩ := Option.map_eq_some_iff.mp written
  obtain ⟨start, same, rfl⟩ := appendOption_foldl se.options built
  cases same
  rfl

theorem length_le_byteLength (s : Str) : s.length ≤ byteLength s := by
  have sizes := List.length_le_sum_of_one_le (s.map Char.utf8Size) fun n member => by
    obtain ⟨c, _, rfl⟩ := List.mem_map.mp member
    exact Char.utf8Size_pos c
  rwa [List.length_map] at sizes

theorem appendOption_short {options : List Str} {tmp : Option Str} {suffix : Str}
    (written : options.foldl appendOption tmp = some suffix) : ∀ o ∈ options, o.length < 96 := by
  induction options generalizing tmp with
  | nil => exact nofun
  | cons opt options ih =>
    intro o member
    obtain here | later := List.mem_cons.mp member
    · subst here
      obtain ⟨text, here, _⟩ := appendOption_foldl options written
      obtain ⟨before, _, fits⟩ := Option.bind_eq_some_iff.mp here
      split at fits
      · next room =>
          have bytes := length_le_byteLength (',' :: o)
          rw [List.length_cons] at bytes
          omega
      · cases fits
    · exact ih written o later

def Uncut (o : Str) : Prop := ',' ∉ o ∧ ∀ c ∈ o, isSpace c = false

theorem Uncut.append {o more : Str} (front : Uncut o) (behind : Uncut more) :
    Uncut (o ++ more) := by
  constructor
  · intro comma
    obtain inside | inside := List.mem_append.mp comma
    · exact front.1 inside
    · exact behind.1 inside
  · intro c member
    obtain inside | inside := List.mem_append.mp member
    · exact front.2 c inside
    · exact behind.2 c inside

theorem uncut_marks : Uncut (lit "E") ∧ Uncut (lit "C") ∧ Uncut (lit "R=S") ∧ Uncut (lit "U=") ∧
    Uncut (lit "W=") := by
  refine ⟨⟨?_, ?_⟩, ⟨?_, ?_⟩, ⟨?_, ?_⟩, ⟨?_, ?_⟩, ?_, ?_⟩ <;> simp [lit, isSpace]

theorem uncut_decimalText (n : Nat) : Uncut (decimalText n) := by
  refine ⟨fun comma => ?_, (decimalText_word n).2⟩
  exact absurd (decimalText_digits n ',' comma) (by decide)

theorem options_uncut : ∀ o ∈ se.options, Uncut o := by
  obtain ⟨event, control, slow, unit_mark, width_mark⟩ := uncut_marks
  intro o member
  simp only [SchemaEntry.options, List.mem_append] at member
  obtain ((flag | unit) | width) | tier := member
  · cases kind : se.type <;> rw [kind] at flag
    · cases flag
    · exact List.mem_singleton.mp flag ▸ event
    · exact List.mem_singleton.mp flag ▸ control
  · cases given : se.unit with
    | none =>
      rw [given] at unit
      cases unit
    | some u =>
      rw [given] at unit
      exact List.mem_singleton.mp unit ▸ unit_mark.append (se.unit_solid u given)
  · split at width
    · cases width
    · exact List.mem_singleton.mp width ▸ width_mark.append (uncut_decimalText se.width)
  · split at tier
    · exact List.mem_singleton.mp tier ▸ slow
    · cases tier

theorem splitOn_token : splitOn ',' se.token = se.key :: se.options :=
  splitOn_optionToken se.no_comma fun o member => (options_uncut se o member).1

theorem unreadWidth_short {o : Str} (short : o.length < 96) : unreadWidth o = false := by
  have sized : (lstripChars (lit "W=") o).length ≤ o.length :=
    (List.dropWhile_sublist _).length_le
  cases all : allDigits (lstripChars (lit "W=") o) with
  | false => rw [unreadWidth, all, Bool.and_false, Bool.false_and]
  | true =>
    rw [allDigits, Bool.and_eq_true, Bool.not_eq_true', List.isEmpty_eq_false_iff, List.all_eq_true]
      at all
    rw [unreadWidth, parseInt_digits all.1 all.2 (by omega), Option.isNone_some, Bool.and_false]

theorem token_read {text : Str} (written : emitOneSchemaEntry se = some text) :
    schemaTokenUnread se.token = false := by
  obtain ⟨suffix, built, _⟩ := Option.map_eq_some_iff.mp written
  rw [schemaTokenUnread, splitOn_token, List.tail_cons, List.any_eq_false]
  intro o member unread
  rw [unreadWidth_short (appendOption_short built o member)] at unread
  cases unread

theorem token_word : Word se.token := by
  constructor
  · intro empty
    exact se.word.1 (List.append_eq_nil_iff.mp empty).1
  · intro c member
    obtain inside | inside := List.mem_append.mp member
    · exact se.word.2 c inside
    · obtain ⟨o, chosen, inside⟩ := List.mem_flatMap.mp inside
      obtain rfl | inside := List.mem_cons.mp inside
      · rfl
      · exact (options_uncut se o chosen).2 c inside

theorem slow_iff : schemaTokenIsSlowTier se.token = decide (se.tier = .slow) := by
  have other : ∀ c o, c ≠ 'R' → lit "R=S" ≠ c :: o := by
    intro c o differs same
    exact differs (List.cons.inj same).1.symm
  rw [schemaTokenIsSlowTier, splitOn_token, List.tail_cons, decide_eq_decide]
  constructor
  · intro member
    simp only [SchemaEntry.options, List.mem_append] at member
    obtain ((flag | unit) | width) | tier := member
    · cases kind : se.type <;> rw [kind] at flag
      · cases flag
      · exact absurd (List.mem_singleton.mp flag) (other 'E' [] (by decide))
      · exact absurd (List.mem_singleton.mp flag) (other 'C' [] (by decide))
    · cases given : se.unit with
      | none =>
        rw [given] at unit
        cases unit
      | some u =>
        rw [given] at unit
        exact absurd (List.mem_singleton.mp unit) (other 'U' ('=' :: u) (by decide))
    · split at width
      · cases width
      · exact absurd (List.mem_singleton.mp width)
          (other 'W' ('=' :: decimalText se.width) (by decide))
    · by_contra fast
      rw [if_neg fast] at tier
      cases tier
  · intro slow
    simp [SchemaEntry.options, slow]

end Tokens

section Keys

variable (se : SchemaEntry)

def SchemaEntry.decoded : SchemaKey :=
  let unit := se.unit.map (lstripChars (lit "U="))
  { event := se.key
    wid := if se.width = 0 then 64 else se.width
    mult := unit.elim 1 fun u => (decimal (u.filter isDigit)).elim 1 fun n => (n : ℚ)
    unit := unit.elim (lit "#") fun u => u.filter isAlpha }

theorem option_flag (k : SchemaKey) {o : Str} (flag : o = lit "E" ∨ o = lit "C" ∨ o = lit "R=S") :
    k.option o = k := by
  obtain rfl | rfl | rfl := flag <;> rfl

theorem contains_head {c : Char} {part s : Str} (found : contains (c :: part) s = true) :
    c ∈ s := by
  induction s with
  | nil => cases found
  | cons d s ih =>
    rw [contains, Bool.or_eq_true] at found
    obtain front | behind := found
    · rw [List.isPrefixOf, Bool.and_eq_true, beq_iff_eq] at front
      exact front.1 ▸ (.head _)
    · exact .tail d (ih behind)

theorem contains_append (part s : Str) : contains part (part ++ s) = true := by
  cases part with
  | nil => cases s <;> rfl
  | cons c part =>
    have front : (c :: part).isPrefixOf (c :: (part ++ s)) = true :=
      List.isPrefixOf_iff_prefix.mpr (List.prefix_append (c :: part) s)
    rw [List.cons_append, contains, front, Bool.true_or]

theorem lstripChars_append {chars front : Str} (inside : ∀ c ∈ front, c ∈ chars) (s : Str) :
    lstripChars chars (front ++ s) = lstripChars chars s :=
  List.dropWhile_append_of_pos fun c member => by simpa using inside c member

theorem option_width (k : SchemaKey) (n : Nat) :
    k.option (lit "W=" ++ decimalText n) = { k with wid := n } := by
  obtain ⟨c, rest, shape⟩ := List.exists_cons_of_ne_nil (decimalText_word n).1
  have digit : isDigit c = true := decimalText_digits n c (by rw [shape]; exact .head _)
  have outside : c ∉ lit "W=" := by
    intro member
    have mark : c = 'W' ∨ c = '=' := by simpa [lit] using member
    obtain rfl | rfl := mark <;> exact absurd digit (by decide)
  have digits : lstripChars (lit "W=") (lit "W=" ++ decimalText n) = decimalText n := by
    rw [lstripChars_append (fun c member => member), shape, lstripChars,
      List.dropWhile_cons_of_neg (by simpa using outside)]
  have all : allDigits (decimalText n) = true := by
    rw [allDigits, Bool.and_eq_true, List.all_eq_true]
    exact ⟨by simp [(decimalText_word n).1], decimalText_digits n⟩
  have no_unit : contains (lit "U=") (lit "W=" ++ decimalText n) = false := by
    rw [Bool.eq_false_iff]
    intro found
    obtain mark | inside := List.mem_append.mp (contains_head found)
    · exact absurd mark (by decide +kernel)
    · exact absurd (decimalText_digits n 'U' inside) (by decide)
  rw [SchemaKey.option]
  simp only [contains_append, digits, all, Bool.and_self, if_true, no_unit, Bool.false_eq_true,
    if_false, decimal, digitPart_decimalText, Option.getD_some]

theorem option_unit (k : SchemaKey) (u : Str) :
    k.option (lit "U=" ++ u) =
      { k with
        mult := (decimal ((lstripChars (lit "U=") u).filter isDigit)).elim k.mult fun n => (n : ℚ)
        unit := (lstripChars (lit "U=") u).filter isAlpha } := by
  have kept : lstripChars (lit "W=") (lit "U=" ++ u) = lit "U=" ++ u := rfl
  have no_digits : allDigits (lit "U=" ++ u) = false := rfl
  rw [SchemaKey.option, kept, no_digits, Bool.and_false, contains_append,
    lstripChars_append fun c member => member]
  rfl

theorem compileSchemaToken_token : compileSchemaToken se.token = se.decoded := by
  have skip : ∀ (k : SchemaKey) (options : List Str),
      (∀ o ∈ options, o = lit "E" ∨ o = lit "C" ∨ o = lit "R=S") →
        options.foldl SchemaKey.option k = k := by
    intro k options flags
    induction options with
    | nil => rfl
    | cons o options ih =>
      rw [List.foldl_cons, option_flag k (flags o (.head _))]
      exact ih fun p member => flags p (.tail o member)
  rw [compileSchemaToken, splitOn_token, List.tail_cons, List.headD_cons, SchemaEntry.options,
    List.foldl_append, List.foldl_append, List.foldl_append]
  rw [skip ⟨se.key, 64, 1, lit "#"⟩ _ (by cases se.type <;> simp)]
  rw [skip _ (if se.tier = .slow then [lit "R=S"] else []) (by split <;> simp)]
  by_cases counted : se.width = 0
  · rw [if_pos counted]
    cases given : se.unit with
    | none => simp [SchemaEntry.decoded, given, counted]
    | some u => simp [SchemaEntry.decoded, given, counted, option_unit]
  · rw [if_neg counted]
    cases given : se.unit with
    | none => simp [SchemaEntry.decoded, given, counted, option_width]
    | some u => simp [SchemaEntry.decoded, given, counted, option_unit, option_width]

end Keys

section Samples

structure Stamp where
  text : Str
  jid : Str
  host : Str
  time : ℚ
  text_word : Word text
  jid_word : Word jid
  host_word : Word host
  digit : ∀ c ∈ text.head?, isDigit c = true
  reads : Context.sampleTime text = some time

def Stamp.tags (stamp : Stamp) : Tags := ⟨stamp.time, stamp.host, stamp.jid⟩

/-- What `stats_buffer_collect` adds for one sample. -/
structure Sample where
  stamp : Stamp
  tier : StatsRowTier
  rows : List Stats

def Sample.lines (rowLineCap : Nat) (s : Sample) : List Str :=
  ['\n'] :: wordLine s.stamp.text [s.stamp.jid, s.stamp.host] ::
    s.rows.map (rowLine rowLineCap · s.tier)

def payloadLines (rowLineCap : Nat) (b : Banner) (types : List StatsType) (samples : List Sample) :
    Option (List Str) :=
  (statsWrHdr b types).map fun header => header ++ samples.flatMap (Sample.lines rowLineCap)

def decodedRow (stamp : Stamp) (tier : StatsRowTier) (stats : Stats) : List StatsRow :=
  (stats.emitted tier).map fun e =>
    ⟨stamp.time, stamp.host, stamp.jid, stats.type.name,
      sharedRowDev stats.dev stats.type.name stamp.jid false, e.1.key, .fin e.2.toNat,
      e.1.decoded.wid, e.1.decoded.mult, e.1.decoded.unit⟩

def parsedRow (exclude : List Str) (stamp : Stamp) (tier : StatsRowTier) (stats : Stats) :
    List StatsRow :=
  if stats.type.name ∈ exclude ∨ stats.type.name = lit "proc" ∨ stats.type.name = lit "host_proc"
  then [] else decodedRow stamp tier stats

end Samples

section Rows

variable {stats : Stats} {tier : StatsRowTier}

def tierWords : StatsRowTier → List Str
  | .fast => [lit "@fast"]
  | .full => [lit "@full"]
  | .legacy => []

def Stats.words (stats : Stats) (tier : StatsRowTier) : List Str :=
  tierWords tier ++ (stats.emitted tier).map fun e => decimalText e.2.toNat

theorem rowText_words (stats : Stats) (tier : StatsRowTier) :
    rowText stats tier ++ ['\n'] = wordLine stats.type.name (stats.dev :: stats.words tier) := by
  have token : rowTierToken tier = (tierWords tier).flatMap fun w => ' ' :: w := by
    cases tier <;> rfl
  rw [rowText, token, wordLine, Stats.words]
  simp [List.flatMap_map, List.flatMap_append]

theorem words_word (stats : Stats) (tier : StatsRowTier) : ∀ w ∈ stats.words tier, Word w := by
  have tokens : ∀ w ∈ tierWords tier, Word w := by
    cases tier <;> simp [tierWords, Word, lit, isSpace]
  intro w member
  obtain token | value := List.mem_append.mp member
  · exact tokens w token
  · obtain ⟨e, _, rfl⟩ := List.mem_map.mp value
    exact decimalText_word _

theorem split_row (device : Word stats.dev) :
    split (rowText stats tier ++ ['\n']) = stats.type.name :: stats.dev :: stats.words tier := by
  rw [rowText_words]
  refine split_wordLine stats.type.word fun w member => ?_
  obtain rfl | member := List.mem_cons.mp member
  · exact device
  · exact words_word stats tier w member

def StatsRowTier.parsed : StatsRowTier → Feed.Tier
  | .legacy => .legacy
  | .full => .full
  | .fast => .fast

theorem tierMarker_words (stats : Stats) (tier : StatsRowTier) :
    tierMarker (stats.words tier) =
      (tier.parsed, (stats.emitted tier).map fun e => decimalText e.2.toNat) := by
  cases tier with
  | fast => rfl
  | full => rfl
  | legacy =>
    rw [Stats.words, tierWords, List.nil_append]
    cases stats.emitted .legacy with
    | nil => rfl
    | cons e more =>
      have differs : ∀ mark : Str, '@' ∈ mark → decimalText e.2.toNat ≠ mark := by
        intro mark at_sign same
        exact absurd (decimalText_digits _ '@' (same ▸ at_sign)) (by decide)
      rw [List.map_cons, tierMarker, if_neg (differs _ (by simp [lit])),
        if_neg (differs _ (by simp [lit]))]
      rfl

theorem emitted_entries (stats : Stats) (tier : StatsRowTier) :
    (stats.emitted tier).map Prod.fst = stats.type.entries.filter (rowKeyEmitted tier) := by
  have whole : (stats.type.entries.zip stats.val).map Prod.fst = stats.type.entries :=
    List.map_fst_zip stats.sized.ge
  have filtered := List.filter_map (p := rowKeyEmitted tier) (f := Prod.fst)
    (l := stats.type.entries.zip stats.val)
  rw [whole] at filtered
  exact filtered.symm

theorem emitted_tokens (stats : Stats) (tier : StatsRowTier) :
    compileSchemaTokens (if tier.parsed = .fast
      then fastSchemaKeys (stats.type.entries.map SchemaEntry.token)
      else stats.type.entries.map SchemaEntry.token) =
      (stats.emitted tier).map fun e => e.1.decoded := by
  have decoded : ∀ entries : List SchemaEntry,
      compileSchemaTokens (entries.map SchemaEntry.token) = entries.map SchemaEntry.decoded := by
    intro entries
    rw [compileSchemaTokens, List.map_map]
    exact List.map_congr_left fun se _ => compileSchemaToken_token se
  have keys : (stats.emitted tier).map (fun e => e.1.decoded) =
      (stats.type.entries.filter (rowKeyEmitted tier)).map SchemaEntry.decoded := by
    rw [← emitted_entries, List.map_map]
    rfl
  have whole : ∀ other, other ≠ .fast →
      stats.type.entries.filter (rowKeyEmitted other) = stats.type.entries := by
    intro other sparse
    exact List.filter_eq_self.mpr fun se _ => by simp [rowKeyEmitted, sparse]
  rw [keys]
  cases tier with
  | legacy =>
    rw [StatsRowTier.parsed, if_neg (by decide), whole _ (by decide)]
    exact decoded stats.type.entries
  | full =>
    rw [StatsRowTier.parsed, if_neg (by decide), whole _ (by decide)]
    exact decoded stats.type.entries
  | fast =>
    have fast : (fun se : SchemaEntry => !schemaTokenIsSlowTier se.token) =
        rowKeyEmitted .fast := by
      funext se
      rw [slow_iff, rowKeyEmitted]
      cases se.tier <;> rfl
    rw [StatsRowTier.parsed, if_pos rfl, fastSchemaKeys, List.filter_map]
    rw [← fast]
    exact decoded _

theorem compiledStatsRows_emitted (tags : Tags) (type dev : Str)
    (es : List (SchemaEntry × UInt64)) :
    compiledStatsRows tags type dev (es.map fun e => e.1.decoded)
        (es.map fun e => decimalText e.2.toNat) =
      es.map fun e => ⟨tags.time, tags.host, tags.jid, type, dev, e.1.key, .fin e.2.toNat,
        e.1.decoded.wid, e.1.decoded.mult, e.1.decoded.unit⟩ := by
  have read : (es.map fun e => decimalText e.2.toNat).mapM Num.parse =
      some (es.map fun e => Num.fin e.2.toNat) := by
    induction es with
    | nil => rfl
    | cons e es ih =>
      rw [List.map_cons, List.mapM_cons, parse_decimalText e.2.toNat_lt, ih]
      rfl
  rw [compiledStatsRows, if_neg (by simp), read]
  simp only [List.zip_map', List.map_map]
  rfl

end Rows

section Feeding

variable {exclude : List Str} {types : List StatsType} {c d : Context} {p : Parser} {stamp : Stamp}
  {stats : Stats} {tier : StatsRowTier}

structure Follows (exclude : List Str) (types : List StatsType) (c : Context) : Prop where
  startIdx : c.startIdx = 0
  exclude : c.exclude = exclude
  schema : ∀ t ∈ types, c.schema.get? t.name = some (t.entries.map SchemaEntry.token)
  arm : c.armShared = false
  sample : c.sampleShared = false

structure Opened (stamp : Stamp) (c : Context) : Prop where
  insert : c.insert = true
  tags : c.tags = some stamp.tags

theorem Follows.tick (follows : Follows exclude types c) : Follows exclude types c.tick :=
  ⟨follows.startIdx, follows.exclude, follows.schema, follows.arm, follows.sample⟩

theorem Opened.tick (opened : Opened stamp c) : Opened stamp c.tick := ⟨opened.insert, opened.tags⟩

theorem procBareKeysFor_keeps (follows : Follows exclude types c) (opened : Opened stamp c)
    (type : Str) (fast : Bool) :
    Follows exclude types (c.procBareKeysFor type fast).2 ∧
      Opened stamp (c.procBareKeysFor type fast).2 := by
  rw [Context.procBareKeysFor]
  split
  · exact ⟨follows, opened⟩
  · cases fast
    · exact ⟨⟨follows.startIdx, follows.exclude, follows.schema, follows.arm, follows.sample⟩,
        ⟨opened.insert, opened.tags⟩⟩
    · exact ⟨⟨follows.startIdx, follows.exclude, follows.schema, follows.arm, follows.sample⟩,
        ⟨opened.insert, opened.tags⟩⟩

theorem procValue_decimalText (n : UInt64) :
    procValue (decimalText n.toNat) = .ok (some (n.toNat : Int)) := by
  have short : (decimalText n.toNat).length ≤ 4300 :=
    (decimalText_length n.toNat_lt).trans (by decide)
  rw [procValue, parseInt_decimalText n.toNat short]

theorem procFields_ok (bare : List Str) (es : List (SchemaEntry × UInt64)) :
    ∃ fields, procFields bare (es.map fun e => decimalText e.2.toNat) = .ok fields := by
  have fold : ∀ (pairs : List (Str × Str)) (fields : Lib.Dict Str (Option Int)),
      (∀ e ∈ pairs, ∃ n : UInt64, e.2 = decimalText n.toNat) →
        ∃ more, pairs.foldlM (fun fields (pair : Str × Str) =>
          if pair.1 ∈ hostProcKeys then do
            let value ← procValue pair.2
            return fields.set pair.1 value
          else .ok fields) fields = .ok more := by
    intro pairs
    induction pairs with
    | nil => exact fun fields _ => ⟨fields, rfl⟩
    | cons e pairs ih =>
      intro fields decimals
      obtain ⟨n, text⟩ := decimals e (.head _)
      have later := fun fields => ih fields fun e member => decimals e (.tail _ member)
      rw [List.foldlM_cons, text, procValue_decimalText]
      by_cases known : e.1 ∈ hostProcKeys
      · rw [if_pos known]
        exact later _
      · rw [if_neg known]
        exact later _
  refine fold _ _ fun e member => ?_
  obtain ⟨entry, _, text⟩ := List.mem_map.mp (List.of_mem_zip member).2
  exact ⟨entry.2, text.symm⟩

theorem feedProc_spec (follows : Follows exclude types c) (opened : Opened stamp c) (type dev : Str)
    (stats : Stats) (tier : StatsRowTier) :
    ∃ d row, c.feedProc stamp.tags type dev (stats.words tier) = .ok (d, .proc row) ∧
      Follows exclude types d ∧ Opened stamp d := by
  have kept := procBareKeysFor_keeps follows opened type (decide (tier.parsed = .fast))
  obtain ⟨fields, read⟩ := procFields_ok
    (c.procBareKeysFor type (decide (tier.parsed = .fast))).1 (stats.emitted tier)
  rw [Context.feedProc, tierMarker_words]
  simp only [read, bind, Except.bind, pure, Except.pure]
  exact ⟨_, _, rfl, kept⟩

theorem hardwareRows_spec (stamp : Stamp) (tier : StatsRowTier)
    (follows : Follows exclude types c) (known : stats.type ∈ types)
    (current : schemaNeedsLegacyHardwareDecode stats.type.name
      (stats.type.entries.map SchemaEntry.token) = false) :
    c.hardwareRows stamp.tags stats.type.name stats.dev (stats.words tier) =
      .ok (decodedRow stamp tier stats) := by
  have rows := compiledStatsRows_emitted stamp.tags stats.type.name
    (sharedRowDev stats.dev stats.type.name stamp.tags.jid c.sampleShared) (stats.emitted tier)
  rw [← emitted_tokens] at rows
  rw [Context.hardwareRows, follows.schema stats.type known]
  simp only [tierMarker_words, current, Bool.false_eq_true, if_false]
  rw [decodedRow, ← follows.sample]
  split
  · next fast =>
      rw [if_pos fast] at rows
      rw [rows]
      rfl
  · next whole =>
      rw [if_neg whole] at rows
      rw [rows]
      rfl

theorem words_ne_nil (tier : StatsRowTier) (keyed : stats.type.entries ≠ []) :
    stats.words tier ≠ [] := by
  intro empty
  obtain ⟨tokens, values⟩ := List.append_eq_nil_iff.mp empty
  have none_emitted := congrArg (List.map Prod.fst) (List.map_eq_nil_iff.mp values)
  rw [emitted_entries, List.map_nil, List.filter_eq_nil_iff] at none_emitted
  obtain ⟨se, more, shape⟩ := List.exists_cons_of_ne_nil keyed
  have skipped := none_emitted se (by rw [shape]; exact .head _)
  cases tier with
  | fast => cases tokens
  | full => exact skipped rfl
  | legacy => exact skipped rfl

theorem feedRow_spec (tier : StatsRowTier) (follows : Follows exclude types p.context)
    (opened : Opened stamp p.context)
    (known : stats.type ∈ types) (device : Word stats.dev) (keyed : stats.type.entries ≠ [])
    (current : schemaNeedsLegacyHardwareDecode stats.type.name
      (stats.type.entries.map SchemaEntry.token) = false) (rowLineCap : Nat) :
    ∃ q, p.feedLine (rowLine rowLineCap stats tier) = .ok q ∧ Follows exclude types q.context ∧
      Opened stamp q.context ∧ q.cols = p.cols ++ parsedRow exclude stamp tier stats := by
  obtain ⟨first, rest, shape⟩ := List.exists_cons_of_ne_nil stats.type.word.1
  have letter : isAlpha first = true := stats.type.letter first (by rw [shape]; rfl)
  have line : ∃ more, lstrip (rowText stats tier ++ ['\n']) = first :: more ∧
      first :: more = rowText stats tier ++ ['\n'] := by
    have kept : lstrip (rowText stats tier ++ ['\n']) = rowText stats tier ++ ['\n'] := by
      simp only [rowText, List.append_assoc]
      exact lstrip_of_word stats.type.word _
    refine ⟨rest ++ ' ' :: stats.dev ++ rowTierToken tier ++
      ((stats.emitted tier).flatMap fun e => ' ' :: decimalText e.2.toNat) ++ ['\n'], ?_, ?_⟩
    · rw [kept, rowText, shape]
      rfl
    · rw [rowText, shape]
      rfl
  obtain ⟨more, stripped, whole⟩ := line
  obtain ⟨v, vals, words⟩ := List.exists_cons_of_ne_nil (words_ne_nil tier keyed)
  have fed : p.context.feedLine (rowText stats tier ++ ['\n']) =
      p.context.tick.feedRow stamp.tags (rowText stats tier ++ ['\n']) := by
    rw [Context.feedLine, stripped]
    simp only [letter, opened.insert, opened.tags, Bool.and_self, if_true, whole]
  rw [rowLine_eq, Parser.feedLine, fed, Context.feedRow, split_row device, words]
  simp only [parsedRow, follows.tick.exclude]
  by_cases excluded : stats.type.name ∈ exclude
  · rw [if_pos excluded, if_pos (.inl excluded)]
    exact ⟨_, rfl, follows.tick, opened.tick, by simp [Parser.store]⟩
  · rw [if_neg excluded]
    by_cases process : stats.type.name = lit "proc" ∨ stats.type.name = lit "host_proc"
    · obtain ⟨d, row, result, follows', opened'⟩ :=
        feedProc_spec follows.tick opened.tick stats.type.name stats.dev stats tier
      rw [words] at result
      rw [if_pos process, if_pos (.inr process), result]
      exact ⟨_, rfl, follows', opened', by simp [Parser.store]⟩
    · have rows := hardwareRows_spec stamp tier follows.tick known current
      rw [words] at rows
      rw [if_neg process, if_neg (by simp only [excluded, process, or_self, not_false_eq_true]),
        rows]
      exact ⟨_, rfl, follows.tick, opened.tick, rfl⟩

theorem feedLines_append {p q r : Parser} {lines more : List Str}
    (front : p.feedLines lines = .ok q) (behind : q.feedLines more = .ok r) :
    p.feedLines (lines ++ more) = .ok r := by
  rw [Parser.feedLines] at front behind ⊢
  rw [List.foldlM_append, front]
  exact behind

theorem feedLines_cons {p q r : Parser} {line : Str} {lines : List Str}
    (first : p.feedLine line = .ok q) (rest : q.feedLines lines = .ok r) :
    p.feedLines (line :: lines) = .ok r := by
  rw [Parser.feedLines] at rest ⊢
  rw [List.foldlM_cons, first]
  exact rest

/-- What is asked of the rows: they are of known types that have keys and are no historical
ones, on devices whose name is a word. -/
structure Rows (types : List StatsType) (rows : List Stats) : Prop where
  known : ∀ r ∈ rows, r.type ∈ types
  device : ∀ r ∈ rows, Word r.dev

structure Current (types : List StatsType) : Prop where
  keyed : ∀ t ∈ types, t.entries ≠ []
  modern : ∀ t ∈ types,
    schemaNeedsLegacyHardwareDecode t.name (t.entries.map SchemaEntry.token) = false

theorem feedRows_spec (tier : StatsRowTier) {rows : List Stats} (current : Current types)
    (asked : Rows types rows)
    (follows : Follows exclude types p.context) (opened : Opened stamp p.context)
    (rowLineCap : Nat) :
    ∃ q, p.feedLines (rows.map (rowLine rowLineCap · tier)) = .ok q ∧
      Follows exclude types q.context ∧
      q.cols = p.cols ++ rows.flatMap (parsedRow exclude stamp tier) := by
  induction rows generalizing p with
  | nil => exact ⟨p, rfl, follows, by simp⟩
  | cons stats rows ih =>
    have known := asked.known stats (.head _)
    obtain ⟨q, fed, follows', opened', cols⟩ := feedRow_spec tier follows opened known
      (asked.device stats (.head _)) (current.keyed _ known) (current.modern _ known)
      rowLineCap
    have rest : Rows types rows :=
      ⟨fun r member => asked.known r (.tail stats member),
        fun r member => asked.device r (.tail stats member)⟩
    obtain ⟨r, later, follows'', cols'⟩ := ih rest follows' opened'
    refine ⟨r, feedLines_cons fed later, follows'', ?_⟩
    rw [cols', cols, List.flatMap_cons, List.append_assoc]

theorem Stamp.words (stamp : Stamp) :
    lstrip (wordLine stamp.text [stamp.jid, stamp.host]) =
        wordLine stamp.text [stamp.jid, stamp.host] ∧
      split (wordLine stamp.text [stamp.jid, stamp.host]) =
        [stamp.text, stamp.jid, stamp.host] := by
  constructor
  · rw [wordLine, List.append_assoc]
    exact lstrip_of_word stamp.text_word _
  · refine split_wordLine stamp.text_word fun w member => ?_
    obtain rfl | rfl : w = stamp.jid ∨ w = stamp.host := by simpa using member
    · exact stamp.jid_word
    · exact stamp.host_word

theorem feedStamp_spec (stamp : Stamp) (follows : Follows exclude types p.context) :
    ∃ q, p.feedLine (wordLine stamp.text [stamp.jid, stamp.host]) = .ok q ∧
      Follows exclude types q.context ∧ Opened stamp q.context ∧ q.cols = p.cols := by
  obtain ⟨first, rest, shape⟩ := List.exists_cons_of_ne_nil stamp.text_word.1
  have digit : isDigit first = true := stamp.digit first (by rw [shape]; rfl)
  have no_letter : isAlpha first = false := by
    rw [Bool.eq_false_iff]
    intro letter
    rw [isDigit_of_isAlpha letter] at digit
    cases digit
  obtain ⟨line, words⟩ := stamp.words
  have head : ∃ more, wordLine stamp.text [stamp.jid, stamp.host] = first :: more := by
    rw [wordLine, shape]
    exact ⟨_, rfl⟩
  obtain ⟨more, whole⟩ := head
  rw [Parser.feedLine, Context.feedLine, line, whole]
  simp only [no_letter, Bool.false_and, Bool.false_eq_true, if_false, follows.startIdx,
    Nat.zero_le, decide_true, Bool.true_and, digit, if_true]
  rw [← whole, Context.feedHeader, words]
  simp only [stamp.reads]
  exact ⟨_, rfl, ⟨follows.startIdx, follows.exclude, follows.schema, rfl,
    by simp [Context.tick, follows.arm]⟩, ⟨rfl, rfl⟩, rfl⟩

theorem feedSample_spec (current : Current types) (s : Sample) (asked : Rows types s.rows)
    (follows : Follows exclude types p.context) (rowLineCap : Nat) :
    ∃ q, p.feedLines (s.lines rowLineCap) = .ok q ∧ Follows exclude types q.context ∧
      q.cols = p.cols ++ s.rows.flatMap (parsedRow exclude s.stamp s.tier) := by
  have blank : p.feedLine ['\n'] = .ok { p with context := p.context.tick } := rfl
  obtain ⟨q, stamped, follows', opened, cols⟩ :=
    feedStamp_spec s.stamp (p := { p with context := p.context.tick }) follows.tick
  obtain ⟨r, fed, follows'', cols'⟩ :=
    feedRows_spec s.tier current asked follows' opened rowLineCap
  refine ⟨r, feedLines_cons blank (feedLines_cons stamped fed), follows'', ?_⟩
  rw [cols', cols]

theorem feedSamples_spec (current : Current types) {samples : List Sample}
    (asked : ∀ s ∈ samples, Rows types s.rows) (follows : Follows exclude types p.context)
    (rowLineCap : Nat) :
    ∃ q, p.feedLines (samples.flatMap (Sample.lines rowLineCap)) = .ok q ∧
      q.cols = p.cols ++ samples.flatMap fun s =>
        s.rows.flatMap (parsedRow exclude s.stamp s.tier) := by
  induction samples generalizing p with
  | nil => exact ⟨p, rfl, by simp⟩
  | cons s samples ih =>
    obtain ⟨q, fed, follows', cols⟩ :=
      feedSample_spec current s (asked s (.head _)) follows rowLineCap
    obtain ⟨r, later, cols'⟩ := ih (fun s member => asked s (.tail _ member)) follows'
    refine ⟨r, feedLines_append fed later, ?_⟩
    rw [cols', cols, List.flatMap_cons, List.append_assoc]

end Feeding

section Header

variable {exclude : List Str} {types : List StatsType} {p : Parser}

def StatsType.schemaLine (t : StatsType) : Str :=
  wordLine ('!' :: t.name) (t.entries.map SchemaEntry.token)

theorem emitSchemaLine_eq (t : StatsType) {line : Str} (written : emitSchemaLine t = some line) :
    line = t.schemaLine := by
  obtain ⟨entries, all, done⟩ := Option.bind_eq_some_iff.mp written
  have each := mapM_some (fun se _ => emitOneSchemaEntry_eq se) all
  rw [← Option.some.inj done, each, StatsType.schemaLine, wordLine, List.flatMap_map,
    List.flatMap_def]

theorem emitSchemaLine_short {t : StatsType} {line : Str} (written : emitSchemaLine t = some line) :
    ∀ se ∈ t.entries, schemaTokenUnread se.token = false := by
  obtain ⟨entries, all, _⟩ := Option.bind_eq_some_iff.mp written
  intro se member
  obtain ⟨text, made⟩ := mapM_each all se member
  exact token_read se made

theorem feedSchema_spec (t : StatsType) (keyed : t.entries ≠ [])
    (short : ∀ se ∈ t.entries, schemaTokenUnread se.token = false)
    (fresh : t.name ∉ types.map StatsType.name) (follows : Follows exclude types p.context) :
    ∃ q, p.feedLine t.schemaLine = .ok q ∧ Follows exclude (types ++ [t]) q.context ∧
      q.cols = p.cols := by
  have label : Word ('!' :: t.name) := by
    refine ⟨List.cons_ne_nil _ _, fun c member => ?_⟩
    obtain rfl | member := List.mem_cons.mp member
    · rfl
    · exact t.word.2 c member
  have words : split t.schemaLine = ('!' :: t.name) :: t.entries.map SchemaEntry.token := by
    refine split_wordLine label fun w member => ?_
    obtain ⟨se, _, rfl⟩ := List.mem_map.mp member
    exact token_word se
  have line : lstrip t.schemaLine = t.schemaLine := by
    rw [StatsType.schemaLine, wordLine, List.append_assoc]
    exact lstrip_of_word label _
  have head : ∃ more, t.schemaLine = '!' :: more := ⟨_, rfl⟩
  obtain ⟨more, whole⟩ := head
  obtain ⟨event, events, tokens⟩ : ∃ event events,
      t.entries.map SchemaEntry.token = event :: events := by
    refine List.exists_cons_of_ne_nil fun empty => ?_
    exact keyed (List.map_eq_nil_iff.mp empty)
  have fed : p.context.feedLine t.schemaLine = p.context.tick.feedSchema t.schemaLine := by
    rw [Context.feedLine, line, whole]
    simp [show isAlpha '!' = false from rfl, show isDigit '!' = false from rfl]
  have fits : (event :: events).any schemaTokenUnread = false := by
    rw [← tokens, List.any_eq_false]
    intro token member overlong
    obtain ⟨se, inside, rfl⟩ := List.mem_map.mp member
    rw [short se inside] at overlong
    cases overlong
  rw [Parser.feedLine, fed, Context.feedSchema, words, tokens]
  simp only [fits, Bool.false_eq_true, if_false]
  refine ⟨_, rfl, ⟨follows.startIdx, follows.exclude, fun s member => ?_, follows.arm,
    follows.sample⟩, by simp [Parser.store]⟩
  change (p.context.schema.set t.name (event :: events)).get? s.name = _
  obtain before | here := List.mem_append.mp member
  · have apart : s.name ≠ t.name := by
      intro same
      exact fresh (same ▸ List.mem_map_of_mem before)
    rw [Lib.Dict.get?_set_of_ne _ apart]
    exact follows.schema s before
  · cases List.mem_singleton.mp here
    rw [Lib.Dict.get?_set_self, tokens]

theorem feedSchemas_spec (types more : List StatsType) {p : Parser}
    (keyed : ∀ t ∈ more, t.entries ≠ [])
    (short : ∀ t ∈ more, ∀ se ∈ t.entries, schemaTokenUnread se.token = false)
    (names : ((types ++ more).map StatsType.name).Nodup)
    (follows : Follows exclude types p.context) :
    ∃ q, p.feedLines (more.map StatsType.schemaLine) = .ok q ∧
      Follows exclude (types ++ more) q.context ∧ q.cols = p.cols := by
  induction more generalizing types p with
  | nil => exact ⟨p, rfl, by simpa using follows, rfl⟩
  | cons t more ih =>
    have fresh : t.name ∉ types.map StatsType.name := by
      rw [List.map_append, List.map_cons] at names
      have apart := (List.nodup_append.mp names).2.2
      intro member
      exact apart _ member _ (.head _) rfl
    obtain ⟨q, fed, follows', cols⟩ :=
      feedSchema_spec t (keyed t (.head _)) (short t (.head _)) fresh follows
    obtain ⟨r, later, follows'', cols'⟩ := ih (types ++ [t]) (p := q)
      (fun s member => keyed s (.tail t member))
      (fun s member => short s (.tail t member)) (by simpa using names) follows'
    exact ⟨r, feedLines_cons fed later, by simpa using follows'', cols'.trans cols⟩

theorem feedBanner_spec {lines : List Str} (banner : ∀ line ∈ lines, line.head? = some '$')
    (follows : Follows exclude types p.context) :
    ∃ q, p.feedLines lines = .ok q ∧ Follows exclude types q.context ∧ q.cols = p.cols := by
  induction lines generalizing p with
  | nil => exact ⟨p, rfl, follows, rfl⟩
  | cons line lines ih =>
    have dollar := banner line (.head _)
    obtain ⟨rest, rfl⟩ : ∃ rest, line = '$' :: rest := by
      cases line with
      | nil => cases dollar
      | cons c rest => exact ⟨rest, by rw [Option.some.inj dollar]⟩
    have fed : p.feedLine ('$' :: rest) = .ok { p with context := p.context.tick } := by
      rw [Parser.feedLine, Context.feedLine, lstrip,
        List.dropWhile_cons_of_neg (by decide)]
      simp [show isAlpha '$' = false from rfl, show isDigit '$' = false from rfl, Parser.store,
        bind, Except.bind, pure, Except.pure]
    obtain ⟨q, later, follows', cols⟩ := ih (p := { p with context := p.context.tick })
      (fun other member => banner other (.tail _ member)) follows.tick
    exact ⟨q, feedLines_cons fed later, follows', cols⟩

theorem emitPropertyBanner_dollar (b : Banner) :
    ∀ line ∈ emitPropertyBanner b, line.head? = some '$' := by
  intro line member
  obtain front | build := List.mem_append.mp member
  · obtain ⟨text, _, rfl⟩ := List.mem_map.mp front
    rfl
  · split at build
    · cases build
    · split at build
      · cases build
      · rw [List.mem_singleton.mp build]
        rfl

theorem feedHeader_spec (b : Banner) (types : List StatsType) (exclude : List Str)
    (keyed : ∀ t ∈ types, t.entries ≠ []) (names : (types.map StatsType.name).Nodup)
    {lines : List Str} (written : statsWrHdr b types = some lines) :
    ∃ q, (Parser.init 0 exclude).feedLines lines = .ok q ∧ Follows exclude types q.context ∧
      q.cols = [] := by
  obtain ⟨schema, all, done⟩ := Option.bind_eq_some_iff.mp written
  have each := mapM_some (fun t _ => emitSchemaLine_eq t) all
  have fresh : Follows exclude [] (Parser.init 0 exclude).context :=
    ⟨rfl, rfl, by simp, rfl, rfl⟩
  obtain ⟨q, fed, follows, cols⟩ := feedBanner_spec (emitPropertyBanner_dollar b) fresh
  have short : ∀ t ∈ types, ∀ se ∈ t.entries, schemaTokenUnread se.token = false := by
    intro t member
    obtain ⟨line, made⟩ := mapM_each all t member
    exact emitSchemaLine_short made
  obtain ⟨r, later, follows', cols'⟩ := feedSchemas_spec [] types keyed short names follows
  refine ⟨r, ?_, follows', cols'.trans cols⟩
  rw [← Option.some.inj done, each]
  exact feedLines_append fed later

end Header

/-- The text of a header and its samples decodes to what was emitted: one record for each key of a
row, in schema order, but for excluded and process types. -/
theorem monitor_text_decodes (rowLineCap : Nat) (b : Banner) (types : List StatsType)
    (samples : List Sample) (exclude : List Str) (names : (types.map StatsType.name).Nodup)
    (current : Current types) (asked : ∀ s ∈ samples, Rows types s.rows) (lines : List Str)
    (written : payloadLines rowLineCap b types samples = some lines) :
    ∃ p, (Parser.init 0 exclude).feedLines lines = .ok p ∧
      p.cols = samples.flatMap fun s => s.rows.flatMap (parsedRow exclude s.stamp s.tier) := by
  obtain ⟨header, made, rfl⟩ := Option.map_eq_some_iff.mp written
  obtain ⟨q, fed, follows, cols⟩ := feedHeader_spec b types exclude current.keyed names made
  obtain ⟨r, later, cols'⟩ := feedSamples_spec current asked follows rowLineCap
  refine ⟨r, feedLines_append fed later, ?_⟩
  rw [cols', cols, List.nil_append]

section Sampled

def readKey : SchemaEntry :=
  ⟨lit "rd", .event, some (lit "512B"), 48, .fast, by simp [Word, lit, isSpace], by simp [lit],
    by simp [lit, isSpace]⟩

def errorKey : SchemaEntry :=
  ⟨lit "errors", .plain, none, 0, .slow, by simp [Word, lit, isSpace], by simp [lit], by simp⟩

def rateKey : SchemaEntry :=
  ⟨lit "rate", .plain, some (lit "B/s"), 0, .fast, by simp [Word, lit, isSpace], by simp [lit],
    by simp [lit, isSpace]⟩

def blockType : StatsType :=
  ⟨lit "host_block", [readKey, errorKey], by simp [Word, lit, isSpace],
    by simp [lit, isAlpha_archived, asciiLetter]⟩

def vfsType : StatsType :=
  ⟨lit "host_vfs", [errorKey], by simp [Word, lit, isSpace],
    by simp [lit, isAlpha_archived, asciiLetter]⟩

def memJobType : StatsType :=
  ⟨lit "host_mem_job", [readKey], by simp [Word, lit, isSpace],
    by simp [lit, isAlpha_archived, asciiLetter]⟩

def netType : StatsType :=
  ⟨lit "host_net", [rateKey], by simp [Word, lit, isSpace],
    by simp [lit, isAlpha_archived, asciiLetter]⟩

def emptyType : StatsType :=
  ⟨lit "host_none", [], by simp [Word, lit, isSpace],
    by simp [lit, isAlpha_archived, asciiLetter]⟩

theorem stamp_words : Word (lit "10.500000") ∧ Word (lit "7") ∧ Word (lit "n1") := by
  simp [Word, lit, isSpace]

theorem stamp_digit : ∀ c ∈ (lit "10.500000").head?, isDigit c = true := by
  simp [lit, isDigit_archived, asciiDigit]

theorem stamp_reads : Context.sampleTime (lit "10.500000") = some (21 / 2) := by decide +kernel

def stampSample : Stamp where
  text := lit "10.500000"
  jid := lit "7"
  host := lit "n1"
  time := 21 / 2
  text_word := stamp_words.1
  jid_word := stamp_words.2.1
  host_word := stamp_words.2.2
  digit := stamp_digit
  reads := stamp_reads

def bannerSample : Banner :=
  ⟨lit "hpcperfstats", lit "1", lit "n1", lit "Linux", lit "x86_64", lit "6", lit "1", 5, none⟩

def fastSample : Sample := ⟨stampSample, .fast, [⟨blockType, lit "sda", [7, 9], rfl⟩]⟩

theorem monitor_text_decodes_fast :
    ∃ p, (Parser.init 0 excludeTypes).feedLines
        ((payloadLines 0 bannerSample [blockType] [fastSample]).getD []) = .ok p ∧
      p.cols = [⟨21 / 2, lit "n1", lit "7", lit "host_block", lit "sda", lit "rd", .fin 7, 48, 512,
        lit "B"⟩] := by
  have written : payloadLines 0 bannerSample [blockType] [fastSample] =
      some ((payloadLines 0 bannerSample [blockType] [fastSample]).getD []) := by decide +kernel
  obtain ⟨p, fed, cols⟩ := monitor_text_decodes 0 bannerSample [blockType] [fastSample] excludeTypes
    (by simp) ⟨by simp [blockType], by decide +kernel⟩
    (by
      intro s member
      cases List.mem_singleton.mp member
      exact ⟨by simp [fastSample], by simp [fastSample, Word, lit, isSpace]⟩)
    _ written
  refine ⟨p, fed, cols.trans ?_⟩
  decide +kernel

def parsedCols (types : List StatsType) (rows : List Stats) : Option (List StatsRow) :=
  (payloadLines 0 bannerSample types [⟨stampSample, .full, rows⟩]).bind fun lines =>
    ((Parser.init 0 excludeTypes).feedLines lines).toOption.map Parser.cols

/-- A row of an excluded type leaves nothing, a job's memory device is renamed, a unit's letters
close up; a schema without keys is refused, a device of two words lost. -/
theorem monitor_text_not_kept :
    parsedCols [vfsType] [⟨vfsType, lit "-", [5], rfl⟩] = some [] ∧
      (parsedCols [memJobType] [⟨memJobType, lit "x", [5], rfl⟩]).map (List.map StatsRow.dev) =
        some [lit "j:7"] ∧
      (parsedCols [netType] [⟨netType, lit "eth0", [5], rfl⟩]).map (List.map StatsRow.unit) =
        some [lit "Bs"] ∧
      parsedCols [emptyType] [] = none ∧
      parsedCols [blockType] [⟨blockType, lit "a b", [5, 6], rfl⟩] = some [] := by
  decide +kernel

end Sampled

end PerfStats.Monitor
