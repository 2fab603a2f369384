import SessionKeeper.Proofs.Record.Eviction
import SessionKeeper.Proofs.Record.Tolerance
import SessionKeeper.Proofs.Record.Whole

/-!
# One test for three filters

Asking an expiring store for a key, listing its entries and putting a value each go through the
entries of the file on their own and leave out the expired ones. They agree on every file that holds
an object, whatever its entries are, since each applies the same test to each entry. The one value
that is treated apart is a null: it is never live, but who asks for its key takes it for no entry
and leaves it where it is.

An expired entry is taken out of the file when it is asked for, and asking again finds it missing.
-/
namespace SessionKeeper.Record

variable {machine after : Machine} {path folder : Path} {place : Location} {name : String}
  {members : Assoc Text Json} {key : Text}

/-- What the file of members is read as without one of them, of which it may be the last. -/
def Content.without (members : Assoc Text Json) (key : Text) : Content :=
  if members.keys = [key] then .absent else .found (members.remove key)

theorem Content.found_ne_absent (members : Assoc Text Json) : Content.found members ≠ .absent := by
  intro same
  cases congrArg Content.status same

variable [Runtime]

/-- How giving the file of a store another content ends: it is read as that, or the name of the file
leaves no room for that of its temporary file. In either case nothing else was changed. -/
inductive Rewrites (folder : Path) (name : String) (content : Content) (before : Machine) :
    Except Failure Unit → Machine → Prop where
  | done {after : Machine} (reads : Reads (folder.child name) after (.ok content))
    (only : ∃ place, Ground before folder place ∧ ChangedOnly place (· = name) before after)
    (keychain : after.keychain = before.keychain) :
    Rewrites folder name content before (.ok ()) after
  | crowded {after : Machine} (filled : content ≠ .absent)
    (long : 241 < name.utf8ByteSize ∨ 10 ^ 8 ≤ before.tree.nodes.length)
    (same : ∀ l, after.tree.node? l = before.tree.node? l)
    (keychain : after.keychain = before.keychain) :
    Rewrites folder name content before (.error (.file .nameTooLong)) after

theorem Reads.of_quiet {outcome : Except Failure Content}
    (h : Reads path machine outcome) (quiet : machine.Quiet after) : Reads path after outcome := by
  have same : after.tree.read after.directory path = machine.tree.read machine.directory path := by
    rw [quiet.tree, quiet.circumstances.directory]
  cases h with
  | absent gone => exact .absent (same.trans gone)
  | found stored spelled => exact .found (same.trans stored) spelled
  | stopped stored stops => exact .stopped (same.trans stored) stops
  | recovered there other => exact .recovered (same ▸ there) fun octets h => other octets (same ▸ h)

theorem Reads.isRegular (h : Reads path machine (.ok (.found members))) :
    (Json.obj members).IsRegular (Runtime.reads + 1) := isRegular_of_reads h

theorem Reads.exists_file (h : Reads (folder.child name) machine (.ok (.found members)))
    (numbered : machine.tree.Numbered) (down : name ≠ "..") :
    ∃ place, Ground machine folder place ∧ Tree.IsFileName name ∧
      ∀ mode, machine.under place name ≠ some (.directory mode) := by
  cases h with
  | found stored spelled =>
    obtain ⟨place, g, hn⟩ := Store.IsThere.exists_ground ⟨_, stored⟩ numbered down
    refine ⟨place, g, hn, fun mode taken => ?_⟩
    have read := Store.reading_of_ground g hn
    rw [taken] at read
    cases stored.symm.trans read

theorem Holds.reads (h : Holds machine place name members) (filled : members ≠ [])
    (g : Ground machine folder place) (hn : Tree.IsFileName name) :
    Reads (folder.child name) machine (.ok (.found members)) := by
  obtain ⟨rfl, -⟩ | ⟨number, mode, octets, stands, told⟩ := h
  · exact absurd rfl filled
  · have read := Store.reading_of_ground g hn
    rw [stands] at read
    exact .found read (entriesOf_eq_found.mp told)

/-- A new file with entries that were printed is found. -/
theorem reads_withFile (g : Ground machine folder place) (hn : Tree.IsFileName name)
    (free : machine.under place name = none) (filled : members ≠ [])
    (regular : (Json.obj members).IsRegular (Runtime.reads + 1)) :
    Reads (folder.child name) (Ground.withFile machine place name privateMode
      (octetsIn (.obj members))) (.ok (.found members)) := by
  have written : Written (Ground.withFile machine place name privateMode
      (octetsIn (.obj members))) place name members := by
    rw [Written, if_neg (by simpa using filled)]
    exact ⟨_, Ground.under_withFile ..⟩
  exact (written.holds_self regular).reads filled (g.kept_withFile _ _ free) hn

/-- A new file with members for which there is no room stops whoever reads it. -/
theorem reads_withFile_of_not_fits (g : Ground machine folder place) (hn : Tree.IsFileName name)
    (free : machine.under place name = none) {wide : Nat}
    (regular : (Json.obj members).IsRegular wide)
    (deep : (Json.obj members).fits (Runtime.reads + 1) = false) :
    ∃ nesting, Reads (folder.child name) (Ground.withFile machine place name privateMode
      (octetsIn (.obj members))) (.error (.beyond (.levels nesting))) := by
  obtain ⟨nesting, stopped⟩ := entriesOf_octetsIn_of_not_fits regular.plain regular.fits deep
  have read :=
    Store.reading_of_ground (g.kept_withFile privateMode (octetsIn (.obj members)) free) hn
  rw [Ground.under_withFile] at read
  exact ⟨nesting, .stopped read (entriesOf_eq_error.mp stopped)⟩

/-- Removing the file is one way to give it another content. -/
theorem clear_rewrites (g : Ground machine folder place) (hn : Tree.IsFileName name)
    (plain : ∀ mode, machine.under place name ≠ some (.directory mode)) :
    ∃ outcome after, (Store.clear ⟨folder.child name⟩).exec machine = (outcome, after) ∧
      Rewrites folder name .absent machine outcome after := by
  obtain ⟨after, cleared, only, gone, keychain⟩ := Store.clear_exec g hn plain
  have read := Store.reading_of_ground (g.exec cleared only) hn
  rw [gone] at read
  exact ⟨_, after, cleared, .done (.absent read) ⟨place, g, only⟩ keychain⟩

/-- Writing members is another: they are found as they are read back. -/
theorem write_rewrites (g : Ground machine folder place) (hn : Tree.IsFileName name)
    (plain : ∀ mode, machine.under place name ≠ some (.directory mode))
    (canonical : (Json.obj members).isCanonical = true)
    (fits : (Json.obj members).fits (Runtime.reads + 1) = true) {back : Assoc Text Json}
    (reread : (Json.obj members).reread = .obj back) :
    ∃ outcome after, (write (folder.child name) (.obj members)).exec machine = (outcome, after) ∧
      Rewrites folder name (.found back) machine outcome after := by
  have printed := octetsOf_eq_ok.mpr ⟨Json.fits_prints fits, rfl⟩
  have told := entriesOf_octetsIn members canonical fits
  rw [show Assoc.ofPairs (Json.rereadMembers members) = back from Json.obj.inj reread] at told
  obtain ⟨outcome, after, ended, keychain, ends⟩ :=
    replaceFile_ends g hn.down (octetsIn (.obj members))
  have written : (write (folder.child name) (.obj members)).exec machine = (outcome, after) := by
    rw [write, printed]
    dsimp only
    rw [Path.parent_child]
    exact (Action.exec_bind_ok g.ensure_exec).trans ended
  refine ⟨outcome, after, written, ?_⟩
  obtain ⟨rfl, -, -, number, nodes⟩ | ⟨-, -, ⟨mode, taken⟩, -⟩ | ⟨rfl, full, same⟩ := ends
  · have only := Ground.changedOnly_of_node plain nodes
    have stands : after.under place name =
        some (.file number privateMode (octetsIn (.obj members))) := by
      rw [Machine.under, nodes, if_pos rfl]
    have read := Store.reading_of_ground (g.exec ended only) hn
    rw [stands] at read
    exact .done (.found read (entriesOf_eq_found.mp told)) ⟨place, g, only⟩ keychain
  · exact absurd taken (plain mode)
  · exact .crowded (Content.found_ne_absent back) (long_of_not_hasRoom full) same keychain

omit [Runtime] in
/-- A member that is taken out was the last one if no other is left. -/
theorem remove_eq_nil_iff (nodup : members.keys.Nodup) (held : key ∈ members.keys) :
    members.remove key = [] ↔ members.keys = [key] := by
  have keys : (members.remove key).keys = [] ↔ members.remove key = [] := List.map_eq_nil_iff
  rw [← keys, Assoc.keys_remove]
  constructor
  · intro none_left
    refine List.perm_singleton.mp ((List.perm_ext_iff_of_nodup nodup (List.nodup_singleton _)).mpr ?_)
    intro other
    rw [List.mem_singleton]
    refine ⟨fun there => ?_, fun same => same ▸ held⟩
    simpa using List.filter_eq_nil_iff.mp none_left other there
  · intro alone
    simp [alone]

/-- What was only read before does not count. -/
theorem Rewrites.of_quiet {between : Machine} {content : Content} {outcome : Except Failure Unit}
    (h : Rewrites folder name content between outcome after) (quiet : machine.Quiet between) :
    Rewrites folder name content machine outcome after := by
  have tree : between.tree = machine.tree := quiet.tree
  cases h with
  | done reads only keychain =>
    obtain ⟨place, g, only⟩ := only
    have before : Ground machine folder place := g.of_quiet quiet.symm
    exact .done reads ⟨place, before, .trans (.of_tree tree) only⟩ (keychain.trans quiet.keychain)
  | crowded filled long same keychain =>
    rw [tree] at long same
    exact .crowded filled long same (keychain.trans quiet.keychain)

/-- Taking out a key that is there. -/
theorem remove_rewrites (h : Reads (folder.child name) machine (.ok (.found members)))
    (numbered : machine.tree.Numbered) (down : name ≠ "..") (held : key ∈ members.keys) :
    ∃ outcome after, (Store.remove ⟨folder.child name⟩ key).exec machine = (outcome, after) ∧
      Rewrites folder name (.without members key) machine outcome after := by
  have last := remove_eq_nil_iff ((Json.isPlain_obj _).mp h.isRegular.plain).1 held
  obtain ⟨between, asked, quiet⟩ := entries_of_reads h
  obtain ⟨place, g, hn, plain⟩ := (h.of_quiet quiet).exists_file (numbered.of_exec_eq asked) down
  obtain ⟨outcome, after, ended, rewrites⟩ : ∃ outcome after,
      (Store.replace ⟨folder.child name⟩ (members.remove key)).exec between = (outcome, after) ∧
        Rewrites folder name (.without members key) between outcome after := by
    rw [Store.replace, Content.without]
    split_ifs with empty alone alone
    · exact clear_rewrites g hn plain
    · exact absurd (last.mp (List.isEmpty_iff.mp empty)) alone
    · exact absurd (List.isEmpty_iff.mpr (last.mpr alone)) empty
    · have rest := h.isRegular.remove key
      exact write_rewrites g hn plain rest.canonical rest.fits rest.reread_eq
  refine ⟨outcome, after, (Action.exec_bind_ok asked).trans ?_, rewrites.of_quiet quiet⟩
  exact (congrArg (Action.exec · between) (if_pos ((Assoc.has_iff _ _).mpr held))).trans ended

namespace Expiring

variable {lifetime : Duration} {now : Moment} {content : Content}

/-- What a store answers for its keys: the live entries as they were given. -/
def answersOf (lifetime : Duration) (now : Moment) (entries : Assoc Text Json) : Assoc Text Json :=
  (liveOf lifetime now entries).map fun pair => (pair.1, strip pair.2)

omit [Runtime] in
theorem isRegular_liveOf (lifetime : Duration) (now : Moment) {entries : Assoc Text Json}
    {room : Nat} (regular : (Json.obj entries).IsRegular (room + 1)) :
    (Json.obj (liveOf lifetime now entries)).IsRegular (room + 1) :=
  ⟨isPlain_liveOf lifetime now regular.plain, fits_liveOf lifetime now regular.fits⟩

omit [Runtime] in
/-- The time of storing is written in characters, whatever the offset of the clock. -/
theorem isRegular_stamp (now : Moment) {value : Assoc Text Json} {room : Nat}
    (regular : (Json.obj value).IsRegular room) : (stamp now value).IsRegular room := by
  obtain ⟨cs, written⟩ := now.isoText_mem_range
  exact regular.putText (Text.isJoined_ofString _) (written ▸ Text.isJoined_ofChars cs)

omit [Runtime] in
theorem isCanonical_stamp (now : Moment) {value : Assoc Text Json}
    (canonical : (Json.obj value).isCanonical = true) : (stamp now value).isCanonical = true :=
  Json.isCanonical_put canonical stampName rfl

/-- That a key has an entry that has expired. A null counts as no entry here. -/
def IsSpent (lifetime : Duration) (now : Moment) (entries : Assoc Text Json) (key : Text) : Prop :=
  ∃ value, entries.value? key = some value ∧ value ≠ .null ∧ isLive lifetime now value = false

omit [Runtime] in
theorem keys_answersOf (lifetime : Duration) (now : Moment) (entries : Assoc Text Json) :
    (answersOf lifetime now entries).keys = (liveOf lifetime now entries).keys :=
  Assoc.keys_map _ strip

omit [Runtime] in
theorem value?_answersOf (nodup : members.keys.Nodup) (key : Text) :
    (answersOf lifetime now members).value? key =
      ((members.value? key).filter (isLive lifetime now)).map strip := by
  rw [answersOf, Assoc.value?_map, liveOf_eq, Assoc.value?_filter nodup]

omit [Runtime] in
/-- There is no answer for an entry that has expired. -/
theorem IsSpent.value?_answersOf (spent : IsSpent lifetime now members key)
    (nodup : members.keys.Nodup) : (answersOf lifetime now members).value? key = none := by
  obtain ⟨value, held, -, expired⟩ := spent
  rw [Expiring.value?_answersOf nodup, held, Option.filter_some, if_neg (by simp [expired])]
  rfl

omit [Runtime] in
theorem judge_of_members
    (comparable : ∀ member ∈ members, isComparable now member.2 = true) :
    judge now (members.map Prod.snd) = pure () := by
  refine judge_of_forall fun value there => ?_
  obtain ⟨member, hm, rfl⟩ := List.mem_map.mp there
  exact comparable member hm

omit [Runtime] in
theorem judge_of_value? (comparable : ∀ member ∈ members, isComparable now member.2 = true)
    {value : Json} (held : members.value? key = some value) : judge now [value] = pure () := by
  refine judge_of_forall fun other there => ?_
  rw [List.mem_singleton.mp there]
  exact comparable _ (Assoc.mem_of_value? held)

/-- All live entries are listed, and nothing changes. -/
theorem entries_answers (h : Reads path machine (.ok content)) (lifetime : Duration)
    (comparable : ∀ member ∈ content.entries, isComparable machine.now member.2 = true) :
    ∃ after, (entries ⟨⟨path⟩, lifetime⟩).exec machine =
      (.ok (answersOf lifetime machine.now content.entries), after) ∧ machine.Quiet after := by
  obtain ⟨after, asked, quiet⟩ := entries_of_reads h
  refine ⟨after, (Action.exec_bind_ok (Action.exec_now machine)).trans
    ((Action.exec_bind_ok asked).trans ?_), quiet⟩
  rw [judge_of_members comparable]
  rfl

theorem get?_missing (h : Reads path machine (.ok content)) (lifetime : Duration)
    (missing : content.entries.value? key = none) :
    ∃ after, (get? ⟨⟨path⟩, lifetime⟩ key).exec machine = (.ok none, after) ∧
      machine.Quiet after := by
  obtain ⟨after, read, quiet⟩ := (worksOver_of_reads h key).get?
  rw [missing] at read
  exact ⟨after, Action.exec_bind_ok read, quiet⟩

/-- What asking for a key with a value comes to once the file was read. -/
theorem get?_step (h : Reads path machine (.ok content)) (lifetime : Duration) {value : Json}
    (held : content.entries.value? key = some value) (given : value ≠ .null) :
    ∃ between, machine.Quiet between ∧ (get? ⟨⟨path⟩, lifetime⟩ key).exec machine = (do
      judge machine.now [value]
      if isLive lifetime machine.now value then return some (strip value)
      else
        Action.log .debug .records "Dropping expired entry"
        Store.remove ⟨path⟩ key
        return none : Action (Option Json)).exec between := by
  obtain ⟨between, read, quiet⟩ := (worksOver_of_reads h key).get?
  rw [held] at read
  refine ⟨between, quiet, (Action.exec_bind_ok read).trans ?_⟩
  rw [← quiet.circumstances.now]
  cases value with
  | null => exact absurd rfl given
  | _ => exact Action.exec_bind_ok (Action.exec_now between)

/-- Who asks for a key by a clock that cannot be compared with its entry is stopped. -/
theorem get?_stops (h : Reads path machine (.ok content)) (lifetime : Duration) {value : Json}
    (held : content.entries.value? key = some value) (given : value ≠ .null)
    (incomparable : isComparable machine.now value = false) :
    ∃ after, (get? ⟨⟨path⟩, lifetime⟩ key).exec machine =
      (.error (.incomparable .subtract), after) ∧ machine.Quiet after := by
  obtain ⟨between, quiet, ran⟩ := get?_step h lifetime held given
  have stopped : (judge machine.now [value]).exec between =
      (.error (.incomparable .subtract), between) := by
    rw [judge, if_neg (by simp [incomparable])]
    rfl
  exact ⟨between, ran.trans (Action.exec_bind_error stopped), quiet⟩

/-- Who asks for a key in a file that stops its reading is stopped. -/
theorem get?_fails {failure : Failure} (h : Reads path machine (.error failure))
    (lifetime : Duration) (key : Text) :
    (get? ⟨⟨path⟩, lifetime⟩ key).exec machine = (.error failure, machine) :=
  Action.exec_bind_error (stopsWith_of_reads h key).get?

/-- Who asks for a key without an expired entry gets what the list of live entries has for it, and
nothing changes. -/
theorem get?_looks (h : Reads path machine (.ok content))
    (comparable : ∀ member ∈ content.entries, isComparable machine.now member.2 = true)
    (unspent : ¬ IsSpent lifetime machine.now content.entries key) :
    ∃ after, (get? ⟨⟨path⟩, lifetime⟩ key).exec machine =
      (.ok ((answersOf lifetime machine.now content.entries).value? key), after) ∧
        machine.Quiet after := by
  have nodup := ((Json.isPlain_obj _).mp (isRegular_of_reads h).plain).1
  rw [value?_answersOf nodup]
  cases held : content.entries.value? key with
  | none => exact get?_missing h lifetime held
  | some value =>
    by_cases given : value = .null
    · obtain ⟨after, read, quiet⟩ := (worksOver_of_reads h key).get?
      rw [held, given] at read
      rw [given]
      exact ⟨after, Action.exec_bind_ok read, quiet⟩
    · obtain ⟨between, quiet, ran⟩ := get?_step h lifetime held given
      have live : isLive lifetime machine.now value = true := by
        by_contra expired
        exact unspent ⟨value, held, given, by simpa using expired⟩
      rw [judge_of_value? comparable held, pure_bind, if_pos live] at ran
      rw [Option.filter_some, if_pos live]
      exact ⟨between, ran, quiet⟩

/-- Who asks for a key with an expired entry gets nothing, and the entry is taken out. -/
theorem get?_drops (h : Reads (folder.child name) machine (.ok (.found members)))
    (numbered : machine.tree.Numbered) (down : name ≠ "..")
    (comparable : ∀ member ∈ members, isComparable machine.now member.2 = true)
    (spent : IsSpent lifetime machine.now members key) :
    ∃ outcome after, (get? ⟨⟨folder.child name⟩, lifetime⟩ key).exec machine =
      (outcome.map fun _ => (answersOf lifetime machine.now members).value? key, after) ∧
        Rewrites folder name (.without members key) machine outcome after := by
  rw [spent.value?_answersOf ((Json.isPlain_obj _).mp h.isRegular.plain).1]
  obtain ⟨value, held, given, expired⟩ := spent
  obtain ⟨between, quiet, ran⟩ := get?_step h lifetime held given
  have told : machine.Quiet (between.tell (.log ⟨.debug, .records, "Dropping expired entry"⟩)) :=
    quiet.trans ⟨Machine.tell_fixed _ (.refl between), rfl⟩
  have there : key ∈ members.keys := (Assoc.value?_isSome _ _).mp (by rw [held]; rfl)
  obtain ⟨outcome, after, removed, rewrites⟩ :=
    remove_rewrites (h.of_quiet told) (told.tree ▸ numbered) down there
  refine ⟨outcome, after, ran.trans ?_, rewrites.of_quiet told⟩
  rw [judge_of_value? comparable held, pure_bind, if_neg (by simp [expired])]
  exact (Action.exec_bind_ok (Action.exec_log ..)).trans (Action.exec_bind_pure removed _)

omit [Runtime] in
/-- What was taken out is not found. -/
theorem value?_without (members : Assoc Text Json) (key : Text) :
    (Content.without members key).entries.value? key = none := by
  rw [Content.without]
  split_ifs
  · rfl
  · exact (Assoc.value?_remove members key key).trans (if_pos rfl)

theorem get?_again (h : Reads (folder.child name) machine (.ok (.found members)))
    (numbered : machine.tree.Numbered) (down : name ≠ "..")
    (comparable : ∀ member ∈ members, isComparable machine.now member.2 = true)
    {answer : Option Json}
    (asked : (get? ⟨⟨folder.child name⟩, lifetime⟩ key).exec machine = (.ok answer, after)) :
    ∃ last, (get? ⟨⟨folder.child name⟩, lifetime⟩ key).exec after = (.ok answer, last) ∧
      after.Quiet last := by
  by_cases spent : IsSpent lifetime machine.now members key
  · obtain ⟨outcome, _, ran, rewrites⟩ := get?_drops h numbered down comparable spent
    rw [asked] at ran
    obtain ⟨same, rfl⟩ := Prod.mk.inj ran
    cases rewrites with
    | done reads only keychain =>
      have none_left : answer = none := by
        rw [spent.value?_answersOf ((Json.isPlain_obj _).mp h.isRegular.plain).1] at same
        exact Except.ok.inj same
      rw [none_left]
      exact get?_missing reads lifetime (value?_without members key)
    | crowded => cases same
  · obtain ⟨_, ran, quiet⟩ := get?_looks h comparable spent
    rw [asked] at ran
    obtain ⟨same, rfl⟩ := Prod.mk.inj ran
    have now : after.now = machine.now := quiet.circumstances.now
    have unspent : ¬ IsSpent lifetime after.now members key := now ▸ spent
    obtain ⟨last, again, still⟩ := get?_looks (h.of_quiet quiet) (now ▸ comparable) unspent
    rw [now] at again
    exact ⟨last, again.trans (by rw [same]), still⟩

theorem put_step (h : Reads path machine (.ok content)) (lifetime : Duration)
    (comparable : ∀ member ∈ content.entries, isComparable machine.now member.2 = true) (key : Text)
    (value : Assoc Text Json) :
    ∃ between, machine.Quiet between ∧ (put ⟨⟨path⟩, lifetime⟩ key (.obj value)).exec machine =
      (write path (.obj ((liveOf lifetime machine.now content.entries).put key
        (stamp machine.now value)))).exec between := by
  obtain ⟨between, asked, quiet⟩ := entries_of_reads h
  have judged : (judge machine.now (content.entries.map Prod.snd)).exec between = (.ok (), between) := by
    rw [judge_of_members comparable]
    rfl
  refine ⟨between, quiet, (Action.exec_bind_ok (Action.exec_now machine)).trans
    ((Action.exec_bind_ok asked).trans ((Action.exec_bind_ok judged).trans ?_))⟩
  rw [Store.replace, if_neg (by simp [Assoc.put_ne_nil])]

/-- Putting a value keeps the live entries as they stand in the file, and no others. -/
theorem put_rewrites (h : Reads (folder.child name) machine (.ok (.found members)))
    (numbered : machine.tree.Numbered) (down : name ≠ "..")
    (comparable : ∀ member ∈ members, isComparable machine.now member.2 = true) (key : Text)
    {value : Assoc Text Json} (canonical : (Json.obj value).isCanonical = true)
    (fits : (stamp machine.now value).fits Runtime.reads = true) :
    ∃ outcome after, (put ⟨⟨folder.child name⟩, lifetime⟩ key (.obj value)).exec machine =
        (outcome, after) ∧
      Rewrites folder name (.found ((liveOf lifetime machine.now members).put key.rejoin
        (stamp machine.now value).reread)) machine outcome after := by
  have live := isRegular_liveOf lifetime machine.now h.isRegular
  obtain ⟨between, quiet, ran⟩ := put_step h lifetime comparable key value
  obtain ⟨place, g, hn, plain⟩ := (h.of_quiet quiet).exists_file (quiet.tree ▸ numbered) down
  obtain ⟨outcome, after, written, rewrites⟩ := write_rewrites g hn plain
    (Json.isCanonical_put live.canonical key (isCanonical_stamp machine.now canonical))
    (by rwa [Json.fits_put live.fits])
    (Json.reread_put live key (stamp machine.now value))
  exact ⟨outcome, after, ran.trans written, rewrites.of_quiet quiet⟩

theorem put_refuses (h : Reads path machine (.ok content)) (lifetime : Duration)
    (comparable : ∀ member ∈ content.entries, isComparable machine.now member.2 = true) (key : Text)
    {value : Assoc Text Json} {limit : Limit}
    (beyond : (stamp machine.now value).limit? Runtime.prints = some limit) :
    ∃ after, (put ⟨⟨path⟩, lifetime⟩ key (.obj value)).exec machine =
      (.error (.beyond limit), after) ∧ machine.Quiet after := by
  have live := isRegular_liveOf lifetime machine.now (isRegular_of_reads h)
  obtain ⟨between, quiet, ran⟩ := put_step h lifetime comparable key value
  have unprinted : octetsOf (.obj ((liveOf lifetime machine.now content.entries).put key
      (stamp machine.now value))) = .error limit := by
    rwa [octetsOf_eq_error, Json.limit?_put (Json.fits_prints live.fits)]
  rw [write, unprinted] at ran
  exact ⟨between, ran, quiet⟩

/-- How listing the live entries, asking for a key and putting a value under it fit together where a
file holds members. -/
structure Coherent (folder : Path) (name : String) (lifetime : Duration) (members : Assoc Text Json)
    (machine : Machine) (key : Text) : Prop where
  lists : ∃ after, (entries ⟨⟨folder.child name⟩, lifetime⟩).exec machine =
    (.ok (answersOf lifetime machine.now members), after) ∧ machine.Quiet after
  looks : ¬ IsSpent lifetime machine.now members key →
    ∃ after, (get? ⟨⟨folder.child name⟩, lifetime⟩ key).exec machine =
      (.ok ((answersOf lifetime machine.now members).value? key), after) ∧ machine.Quiet after
  drops : IsSpent lifetime machine.now members key →
    ∃ outcome after, (get? ⟨⟨folder.child name⟩, lifetime⟩ key).exec machine =
      (outcome.map fun _ => (answersOf lifetime machine.now members).value? key, after) ∧
        Rewrites folder name (.without members key) machine outcome after
  again : ∀ answer after,
    (get? ⟨⟨folder.child name⟩, lifetime⟩ key).exec machine = (.ok answer, after) →
      ∃ last, (get? ⟨⟨folder.child name⟩, lifetime⟩ key).exec after = (.ok answer, last) ∧
        after.Quiet last
  puts : ∀ value : Assoc Text Json, (Json.obj value).isCanonical = true →
    (stamp machine.now value).fits Runtime.reads = true →
      ∃ outcome after, (put ⟨⟨folder.child name⟩, lifetime⟩ key (.obj value)).exec machine =
          (outcome, after) ∧
        Rewrites folder name (.found ((liveOf lifetime machine.now members).put key.rejoin
          (stamp machine.now value).reread)) machine outcome after
  refuses : ∀ value limit, (stamp machine.now value).limit? Runtime.prints = some limit →
    ∃ after, (put ⟨⟨folder.child name⟩, lifetime⟩ key (.obj value)).exec machine =
      (.error (.beyond limit), after) ∧ machine.Quiet after
  faithful : key.IsJoined → key.rejoin = key ∧ ∀ value : Assoc Text Json,
    (Json.obj value).IsRegular Runtime.reads →
      (stamp machine.now value).reread = stamp machine.now value

theorem coherent_of_reads (h : Reads (folder.child name) machine (.ok (.found members)))
    (numbered : machine.tree.Numbered) (down : name ≠ "..") (lifetime : Duration)
    (comparable : ∀ member ∈ members, isComparable machine.now member.2 = true) (key : Text) :
    Coherent folder name lifetime members machine key where
  lists := entries_answers h lifetime comparable
  looks := get?_looks h comparable
  drops := get?_drops h numbered down comparable
  again _ _ := get?_again h numbered down comparable
  puts _ := put_rewrites h numbered down comparable key
  refuses _ _ := put_refuses h lifetime comparable key
  faithful joined := ⟨Text.rejoin_of_isJoined joined,
    fun _ regular => (isRegular_stamp machine.now regular).reread_eq⟩

end Expiring

end SessionKeeper.Record
