import SessionKeeper.Proofs.Record.Dictionary
import SessionKeeper.Proofs.Time.Iso
import SessionKeeper.Record.Expiring

/-!
# Eviction cannot be observed

An expiring store drops expired entries now and then. What it answers is nevertheless what
a memory would that drops nothing: it knows for each key the last value and the time it
was put, and answers with the value while no more than the lifetime has passed. The file
may lack an entry of the memory, but only one that has expired, and with a clock that does
not run backwards it stays expired. All that reads the file stops where there is no room for what
was put before, from somewhere with more of it.
-/
namespace SessionKeeper.Record.Expiring

open Store (Operation Reply vacant_bare roomy_bare)

variable {start machine before after : Machine} {folder : Path} {name : String}
  {entries : Assoc Text Json}

/-- The last value of each key and the time at which it was put. -/
abbrev Memory := Assoc Text (Assoc Text Json × Moment)

/-- Whether no more than the lifetime lies between two times. -/
def isWithin (lifetime : Duration) (now stored : Moment) : Bool :=
  now.universalMicros - stored.universalMicros ≤ lifetime.micros

/-- What is remembered under a key at a time: the value without its time of storing. -/
def remembered (lifetime : Duration) (now : Moment) (memory : Memory) (key : Text) : Option Json :=
  ((memory.value? key).filter fun kept => isWithin lifetime now kept.2).map fun kept =>
    .obj (kept.1.remove stampName)

theorem remembered_of_value? {lifetime : Duration} {now : Moment} {memory : Memory} {key : Text}
    {kept : Assoc Text Json × Moment} (h : memory.value? key = some kept) :
    remembered lifetime now memory key =
      if isWithin lifetime now kept.2 then some (.obj (kept.1.remove stampName)) else none := by
  rw [remembered, h, Option.filter_some]
  split_ifs <;> rfl

/-- That a file has the entries of a memory, apart from some that have expired. -/
structure Shadows (lifetime : Duration) (now : Moment) (entries : Assoc Text Json)
    (memory : Memory) : Prop where
  universal : ∀ key kept, memory.value? key = some kept → kept.2.offset = some 0
  held : ∀ key, entries.value? key = (memory.value? key).map (fun kept => stamp kept.2 kept.1) ∨
    (entries.value? key = none ∧
      ∀ kept, memory.value? key = some kept → isWithin lifetime now kept.2 = false)

/-- The time of storing is read back. -/
theorem stampOf?_stamp {stored : Moment} (h : stored.offset = some 0) (members : Assoc Text Json) :
    stampOf? (stamp stored members) = some stored := by
  rw [stampOf?, stamp, Json.member?, Assoc.value?_put_self]
  show (IsoReader.read? stored.isoText).bind _ = _
  rw [IsoReader.read?_isoText stored h, Option.bind_some, Moment.assumeUniversal, h]
  obtain ⟨date, tick, offset⟩ := stored
  obtain rfl : offset = some 0 := h
  rfl

/-- A stamped value is live for as long as the lifetime says. -/
theorem isLive_stamp (lifetime : Duration) (now stored : Moment) (members : Assoc Text Json)
    (h : stored.offset = some 0) :
    isLive lifetime now (stamp stored members) = isWithin lifetime now stored := by
  rw [isLive, stampOf?_stamp h]
  rfl

/-- Values that can all be told live or expired stop nothing. -/
theorem judge_of_forall {now : Moment} {values : List Json}
    (comparable : ∀ value ∈ values, isComparable now value = true) :
    judge now values = pure () := by
  rw [judge, if_pos (List.all_eq_true.mpr comparable)]

/-- A clock with an offset can be compared with every time of storing. -/
theorem judge_eq {now : Moment} (clock : now.offset.isSome = true) (values : List Json) :
    judge now values = pure () :=
  judge_of_forall fun value _ => by rw [isComparable, clock, Bool.true_or]

theorem strip_stamp (stored : Moment) (members : Assoc Text Json) :
    strip (stamp stored members) = .obj (members.remove stampName) := by
  rw [stamp, strip, Assoc.remove_put_self]

/-- The time of storing is written in characters, so a stamped value is as plain as the value. -/
theorem isPlain_stamp {stored : Moment} (h : stored.offset = some 0) {members : Assoc Text Json}
    (plain : (Json.obj members).isPlain = true) : (stamp stored members).isPlain = true := by
  refine Json.isPlain_put plain (Text.isJoined_ofString _) ?_
  rw [Moment.isoText_of_universal stored h, Json.isPlain, Json.isSettled,
    decide_eq_true (Text.isJoined_ofChars _)]
  rfl

theorem liveOf_eq (lifetime : Duration) (now : Moment) (entries : Assoc Text Json) :
    liveOf lifetime now entries = entries.filter fun pair => isLive lifetime now pair.2 := rfl

theorem isPlain_liveOf (lifetime : Duration) (now : Moment)
    (h : (Json.obj entries).isPlain = true) :
    (Json.obj (liveOf lifetime now entries)).isPlain = true := by
  rw [Json.isPlain_obj] at h ⊢
  exact ⟨Assoc.nodup_filter h.1 _, fun m hm => h.2 m (List.mem_of_mem_filter hm)⟩

theorem fits_liveOf (lifetime : Duration) (now : Moment) {room : Nat}
    (h : (Json.obj entries).fits (room + 1) = true) :
    (Json.obj (liveOf lifetime now entries)).fits (room + 1) = true := by
  rw [Json.fits_obj] at h ⊢
  exact fun m hm => h m (List.mem_of_mem_filter hm)

namespace Shadows

variable {lifetime : Duration} {now next : Moment} {memory : Memory}

theorem nil (lifetime : Duration) (now : Moment) : Shadows lifetime now [] [] :=
  ⟨fun _ _ h => (nomatch h), fun _ => Or.inl rfl⟩

theorem remembered_eq (h : Shadows lifetime now entries memory) (key : Text) :
    remembered lifetime now memory key =
      ((entries.value? key).filter (isLive lifetime now)).map strip := by
  rw [remembered]
  rcases h.held key with held | ⟨gone, expired⟩
  · rw [held]
    cases hm : memory.value? key with
    | none => rfl
    | some kept =>
      have live := isLive_stamp lifetime now kept.2 kept.1 (h.universal key kept hm)
      rw [Option.map_some, Option.filter_some, Option.filter_some, live]
      split_ifs
      · rw [Option.map_some, Option.map_some, strip_stamp]
      · rfl
  · rw [gone]
    cases hm : memory.value? key with
    | none => rfl
    | some kept =>
      rw [Option.filter_some, if_neg (by simp [expired kept hm])]
      rfl

theorem wait (h : Shadows lifetime now entries memory)
    (ordered : now.universalMicros ≤ next.universalMicros) :
    Shadows lifetime next entries memory := by
  refine ⟨h.universal, fun key => ?_⟩
  rcases h.held key with held | ⟨gone, expired⟩
  · exact Or.inl held
  · refine Or.inr ⟨gone, fun kept hk => ?_⟩
    have hw := expired kept hk
    rw [isWithin, decide_eq_false_iff_not] at hw ⊢
    omega

/-- Putting a value drops what has expired and puts the value with its time. -/
theorem put (h : Shadows lifetime now entries memory) (nodup : entries.keys.Nodup)
    (clock : now.offset = some 0) (key : Text) (members : Assoc Text Json) :
    Shadows lifetime now ((liveOf lifetime now entries).put key (stamp now members))
      (memory.put key (members, now)) := by
  refine ⟨fun other kept hk => ?_, fun other => ?_⟩
  · rw [Assoc.value?_put] at hk
    split_ifs at hk
    · rw [← Option.some.inj hk]
      exact clock
    · exact h.universal other kept hk
  · rw [Assoc.value?_put, Assoc.value?_put]
    split_ifs
    · exact Or.inl rfl
    · rw [liveOf_eq, Assoc.value?_filter nodup]
      rcases h.held other with held | ⟨gone, expired⟩
      · rw [held]
        cases hm : memory.value? other with
        | none => exact Or.inl rfl
        | some kept =>
          have live := isLive_stamp lifetime now kept.2 kept.1 (h.universal other kept hm)
          rw [Option.map_some, Option.filter_some, live]
          split_ifs with hw
          · exact Or.inl rfl
          · refine Or.inr ⟨rfl, fun kept' hk => ?_⟩
            rw [← Option.some.inj hk]
            simpa using hw
      · rw [gone]
        exact Or.inr ⟨rfl, expired⟩

/-- Taking a key out takes it out of the memory as well. -/
theorem remove (h : Shadows lifetime now entries memory) (key : Text) :
    Shadows lifetime now (entries.remove key) (memory.remove key) := by
  refine ⟨fun other kept hk => ?_, fun other => ?_⟩
  · rw [Assoc.value?_remove] at hk
    split_ifs at hk
    exact h.universal other kept hk
  · rw [Assoc.value?_remove, Assoc.value?_remove]
    split_ifs
    · exact Or.inl rfl
    · exact h.held other

/-- An entry that has expired may be dropped from the file. -/
theorem evict (h : Shadows lifetime now entries memory) {key : Text}
    (expired : remembered lifetime now memory key = none) :
    Shadows lifetime now (entries.remove key) memory := by
  refine ⟨h.universal, fun other => ?_⟩
  rw [Assoc.value?_remove]
  split_ifs with hk
  · subst hk
    refine Or.inr ⟨rfl, fun kept hm => ?_⟩
    rw [remembered, hm, Option.map_eq_none_iff, Option.filter_some] at expired
    simpa using expired
  · exact h.held other

/-- What stands in the file is remembered. -/
theorem exists_kept (h : Shadows lifetime now entries memory) {key : Text} {value : Json}
    (found : entries.value? key = some value) :
    ∃ kept, memory.value? key = some kept ∧ value = stamp kept.2 kept.1 := by
  rcases h.held key with held | ⟨gone, -⟩
  · rw [found] at held
    obtain ⟨kept, known, stamped⟩ := Option.map_eq_some_iff.mp held.symm
    exact ⟨kept, known, stamped.symm⟩
  · rw [found] at gone
    nomatch gone

/-- What is live stands in the file. -/
theorem value?_of_isWithin (h : Shadows lifetime now entries memory) {key : Text}
    {kept : Assoc Text Json × Moment} (known : memory.value? key = some kept)
    (live : isWithin lifetime now kept.2 = true) :
    entries.value? key = some (stamp kept.2 kept.1) := by
  rcases h.held key with held | ⟨-, expired⟩
  · rw [held, known]
    rfl
  · rw [expired kept known] at live
    nomatch live

end Shadows

section

variable [Runtime]

/-- Does with an expiring store what was asked. A key without a live value has the default. -/
def perform (store : Expiring) : Operation → Action Reply
  | .put key value => do
    store.put key value
    return .nothing
  | .get key default => do return .value ((← store.get? key).getD default)
  | .remove key => do
    store.remove key
    return .nothing
  | .clear => do
    store.store.clear
    return .nothing
  | .entries => do return .entries (← store.entries)

/-- What the memory holds after an operation, if that was successful. -/
def noted (now : Moment) (memory : Memory) (operation : Operation) :
    Except Failure Reply → Memory
  | .error _ => memory
  | .ok _ => match operation with
    | .put key (.obj members) => memory.put key (members, now)
    | .remove key => memory.remove key
    | .clear => []
    | _ => memory

/-- That an outcome is what the memory gives. Entries are compared as a mapping, and what is no
object is refused with nothing changed. -/
def Agrees (lifetime : Duration) (memory : Memory) (operation : Operation) (before : Machine)
    (outcome : Except Failure Reply) (after : Machine) : Prop :=
  match operation with
  | .put _ (.obj members) =>
    outcome = match (stamp before.now members).limit? Runtime.prints with
      | some limit => .error (.beyond limit)
      | none => .ok .nothing
  | .put _ _ => outcome = .error .notAnObject ∧ after = before
  | .get key default =>
    outcome = .ok (.value ((remembered lifetime before.now memory key).getD default))
  | .entries => ∃ entries, outcome = .ok (.entries entries) ∧ entries.keys.Nodup ∧
      ∀ key, entries.value? key = remembered lifetime before.now memory key
  | _ => outcome = .ok .nothing

def isReading : Operation → Bool
  | .put _ (.obj _) => true
  | .put _ _ => false
  | .clear => false
  | _ => true

/-- That there is no room to read a value that was put, which may have expired since. -/
def IsDeep (memory : Memory) : Prop :=
  ∃ key kept, memory.value? key = some kept ∧ (stamp kept.2 kept.1).fits Runtime.reads = false

/-- Whether an operation needs the file system even where there is no file. -/
def isDemanding (now : Moment) : Operation → Bool
  | .put _ (.obj members) => (stamp now members).fits Runtime.prints
  | .clear => true
  | _ => false

/-- A machine whose store has the entries of a memory, apart from some that have expired. -/
structure Mirrors (lifetime : Duration) (folder : Path) (name : String) (machine : Machine)
    (memory : Memory) : Prop where
  clock : machine.now.offset = some 0
  held : ∃ entries, InOrder machine folder name entries ∧
    Shadows lifetime machine.now entries memory

/-- The outcome of an operation on an expiring store: what the memory gives, or a fault of the
file system where the file cannot be made. -/
structure Answered (lifetime : Duration) (folder : Path) (name : String) (memory : Memory)
    (operation : Operation) (before : Machine) (outcome : Except Failure Reply)
    (after : Machine) : Prop where
  mirrors : Mirrors lifetime folder name after (noted before.now memory operation outcome)
  roomy : Roomy before folder name → Roomy after folder name
  outcome : Agrees lifetime memory operation before outcome after ∨
    (isDemanding before.now operation = true ∧ ¬ Roomy before folder name ∧
      ∃ fault, outcome = .error (.file fault))

variable {lifetime : Duration} {memory : Memory}

theorem entries_exec (h : InOrder machine folder name entries) (down : name ≠ "..")
    (fits : (Json.obj entries).fits (Runtime.reads + 1) = true) :
    ∃ after, (Store.entries ⟨folder.child name⟩).exec machine = (.ok entries, after) ∧
      InOrder after folder name entries ∧ after.belongings = machine.belongings ∧
      machine.SameCircumstances after := by
  obtain ⟨after, he, same⟩ := h.entries_exec down fits
  have fixed := Machine.SameCircumstances.of_exec_eq he
  exact ⟨after, he, h.of_tree fixed.directory (congrArg Prod.fst same), same, fixed⟩

theorem put_answered (clock : machine.now.offset = some 0)
    (order : InOrder machine folder name entries)
    (shadows : Shadows lifetime machine.now entries memory) (down : name ≠ "..")
    (fits : (Json.obj entries).fits (Runtime.reads + 1) = true) {key : Text} (hk : key.IsJoined)
    {members : Assoc Text Json} (plain : (Json.obj members).isPlain = true) :
    ∃ outcome after,
      (put ⟨⟨folder.child name⟩, lifetime⟩ key (.obj members)).exec machine = (outcome, after) ∧
      Answered lifetime folder name memory (.put key (.obj members)) machine
        (outcome.map fun _ => .nothing) after := by
  obtain ⟨between, he, order', same, fixed⟩ := entries_exec order down fits
  have live := isPlain_liveOf lifetime machine.now order.plain
  have room := fits_liveOf lifetime machine.now (Json.fits_prints fits)
  obtain ⟨outcome, after, hr, changed⟩ := Store.replace_changed order' down
    (Json.isPlain_put live hk (isPlain_stamp clock plain))
  have changed := changed.of_quiet fixed.directory same
  have judged (values : List Json) : (judge machine.now values).exec between = (.ok (), between) := by
    rw [judge_eq (by rw [clock]; rfl)]
    rfl
  have hp : (put ⟨⟨folder.child name⟩, lifetime⟩ key (.obj members)).exec machine =
      (outcome, after) :=
    (Action.exec_bind_ok (Action.exec_now machine)).trans
      ((Action.exec_bind_ok he).trans ((Action.exec_bind_ok (judged _)).trans hr))
  have now := (Machine.SameCircumstances.of_exec_eq hp).now
  have clock' : after.now.offset = some 0 := by
    rw [now]
    exact clock
  have kept (order : InOrder after folder name entries) :
      Mirrors lifetime folder name after memory := ⟨clock', entries, order, now ▸ shadows⟩
  refine ⟨outcome, after, hp, ?_⟩
  rcases changed.result with ⟨rfl, ok, order⟩ | ⟨limit, rfl, met, order⟩ |
    ⟨⟨fault, rfl⟩, ok, -, stopped, order⟩
  · refine ⟨⟨clock', _, order, ?_⟩, changed.roomy, Or.inl ?_⟩
    · rw [now]
      exact shadows.put order'.nodup clock key members
    · rw [Json.fits_put room, ← Json.limit?_eq_none] at ok
      rw [Agrees, ok]
      rfl
  · refine ⟨kept order, changed.roomy, Or.inl ?_⟩
    rw [Json.limit?_put room] at met
    rw [Agrees, met]
    rfl
  · rw [Json.fits_put room] at ok
    exact ⟨kept order, changed.roomy, Or.inr ⟨ok, stopped, fault, rfl⟩⟩

/-- Dropping an entry takes it out of the file and gives no value. -/
theorem drop_exec (order : InOrder machine folder name entries) (down : name ≠ "..")
    (fits : (Json.obj entries).fits (Runtime.reads + 1) = true) (key : Text) :
    ∃ after, (do
        Action.log .debug .records "Dropping expired entry"
        Store.remove ⟨folder.child name⟩ key
        return none : Action (Option Json)).exec machine = (.ok none, after) ∧
      InOrder after folder name (entries.remove key) ∧ after.now = machine.now ∧
      (Roomy machine folder name → Roomy after folder name) := by
  have told : InOrder (machine.tell (.log ⟨.debug, .records, "Dropping expired entry"⟩))
      folder name entries := order.of_tree rfl rfl
  obtain ⟨after, he, changed⟩ := Store.remove_changed told down fits key
  have fixed := Machine.SameCircumstances.of_exec_eq he
  refine ⟨after, ?_, changed.order_of_ok, fixed.now, fun roomy => changed.roomy ?_⟩
  · exact (Action.exec_bind_ok (Action.exec_log ..)).trans ((Action.exec_bind_ok he).trans rfl)
  · exact roomy.of_tree rfl rfl

/-- Reading the live value of a key drops it from the file when it has expired. -/
theorem get_answered (clock : machine.now.offset = some 0)
    (order : InOrder machine folder name entries)
    (shadows : Shadows lifetime machine.now entries memory) (down : name ≠ "..")
    (fits : (Json.obj entries).fits (Runtime.reads + 1) = true) (key : Text) :
    ∃ after, (get? ⟨⟨folder.child name⟩, lifetime⟩ key).exec machine =
        (.ok (remembered lifetime machine.now memory key), after) ∧
      Mirrors lifetime folder name after memory ∧
      (Roomy machine folder name → Roomy after folder name) := by
  obtain ⟨between, he, order', same, fixed⟩ := entries_exec order down fits
  have quiet (roomy : Roomy machine folder name) : Roomy between folder name :=
    roomy.of_tree fixed.directory (congrArg Prod.fst same)
  have hread : (Store.get? ⟨folder.child name⟩ key).exec machine =
      (.ok (entries.value? key), between) := Action.exec_bind_pure he _
  have mirrors : Mirrors lifetime folder name between memory :=
    ⟨fixed.now ▸ clock, entries, order', fixed.now ▸ shadows⟩
  have recalled := shadows.remembered_eq key
  cases hv : entries.value? key with
  | none =>
    rw [hv] at hread recalled
    refine ⟨between, (Action.exec_bind_ok hread).trans ?_, mirrors, quiet⟩
    rw [recalled]
    rfl
  | some value =>
    obtain ⟨⟨members, stored⟩, -, rfl⟩ := shadows.exists_kept hv
    rw [hv] at hread recalled
    rw [Option.filter_some] at recalled
    have first : (get? ⟨⟨folder.child name⟩, lifetime⟩ key).exec machine =
        (if isLive lifetime machine.now (stamp stored members) then
            return some (strip (stamp stored members))
          else do
            Action.log .debug .records "Dropping expired entry"
            Store.remove ⟨folder.child name⟩ key
            return none : Action (Option Json)).exec between := by
      refine (Action.exec_bind_ok hread).trans ((Action.exec_bind_ok (Action.exec_now between)).trans ?_)
      rw [fixed.now, judge_eq (by rw [clock]; rfl), pure_bind]
    rw [first]
    split_ifs at recalled ⊢ with live
    · rw [recalled]
      exact ⟨between, rfl, mirrors, quiet⟩
    · obtain ⟨after, hr, order, now, roomy⟩ := drop_exec order' down fits key
      rw [recalled]
      have now : after.now = machine.now := now.trans fixed.now
      exact ⟨after, hr, ⟨now ▸ clock, _, order, now ▸ shadows.evict recalled⟩,
        fun room => roomy (quiet room)⟩

theorem remove_answered (clock : machine.now.offset = some 0)
    (order : InOrder machine folder name entries)
    (shadows : Shadows lifetime machine.now entries memory) (down : name ≠ "..")
    (fits : (Json.obj entries).fits (Runtime.reads + 1) = true) (key : Text) :
    ∃ after, (Store.remove ⟨folder.child name⟩ key).exec machine = (.ok (), after) ∧
      Answered lifetime folder name memory (.remove key) machine (.ok .nothing) after := by
  obtain ⟨after, he, changed⟩ := Store.remove_changed order down fits key
  have now := (Machine.SameCircumstances.of_exec_eq he).now
  exact ⟨after, he, ⟨now ▸ clock, _, changed.order_of_ok, now ▸ shadows.remove key⟩,
    changed.roomy, Or.inl rfl⟩

theorem clear_answered (h : Mirrors lifetime folder name machine memory) (down : name ≠ "..") :
    ∃ outcome after, (Store.clear ⟨folder.child name⟩).exec machine = (outcome, after) ∧
      Answered lifetime folder name memory .clear machine (outcome.map fun _ => .nothing)
        after := by
  obtain ⟨entries, order, shadows⟩ := h.held
  obtain ⟨outcome, after, he, changed⟩ := Store.clear_changed order down
  have now := (Machine.SameCircumstances.of_exec_eq he).now
  have clock : after.now.offset = some 0 := now ▸ h.clock
  refine ⟨outcome, after, he, ?_⟩
  rcases changed.result with ⟨rfl, -, order⟩ | ⟨limit, -, met, -⟩ |
    ⟨⟨fault, rfl⟩, -, -, stopped, order⟩
  · exact ⟨⟨clock, [], order, .nil _ _⟩, changed.roomy, Or.inl rfl⟩
  · nomatch met
  · exact ⟨⟨clock, entries, order, now ▸ shadows⟩, changed.roomy,
      Or.inr ⟨rfl, stopped, fault, rfl⟩⟩

/-- Listing the live entries leaves the file as it is. -/
theorem entries_answered (clock : machine.now.offset = some 0)
    (order : InOrder machine folder name entries)
    (shadows : Shadows lifetime machine.now entries memory) (down : name ≠ "..")
    (fits : (Json.obj entries).fits (Runtime.reads + 1) = true) :
    ∃ listed after, (Expiring.entries ⟨⟨folder.child name⟩, lifetime⟩).exec machine =
        (.ok listed, after) ∧
      Answered lifetime folder name memory .entries machine (.ok (.entries listed)) after := by
  obtain ⟨after, he, order', same, fixed⟩ := entries_exec order down fits
  have listed : (Expiring.entries ⟨⟨folder.child name⟩, lifetime⟩).exec machine =
      (.ok ((liveOf lifetime machine.now entries).map fun pair => (pair.1, strip pair.2)),
        after) := by
    refine (Action.exec_bind_ok (Action.exec_now machine)).trans ((Action.exec_bind_ok he).trans ?_)
    rw [judge_eq (by rw [clock]; rfl)]
    rfl
  refine ⟨_, after, listed, ⟨fixed.now ▸ clock, entries, order', fixed.now ▸ shadows⟩,
    fun roomy => roomy.of_tree fixed.directory (congrArg Prod.fst same),
    Or.inl ⟨_, rfl, ?_, fun key => ?_⟩⟩
  · rw [Assoc.keys_map]
    exact Assoc.nodup_filter order.nodup _
  · rw [Assoc.value?_map, liveOf_eq, Assoc.value?_filter order.nodup, shadows.remembered_eq]

/-- What one operation does with an expiring store, if it has the room to read what it reads. -/
theorem perform_of_fits (clock : machine.now.offset = some 0)
    (order : InOrder machine folder name entries)
    (shadows : Shadows lifetime machine.now entries memory) (down : name ≠ "..")
    (operation : Operation) (plain : operation.IsPlain)
    (fits : isReading operation = true → (Json.obj entries).fits (Runtime.reads + 1) = true) :
    ∃ outcome after,
      (perform ⟨⟨folder.child name⟩, lifetime⟩ operation).exec machine = (outcome, after) ∧
      Answered lifetime folder name memory operation machine outcome after := by
  have mirrors : Mirrors lifetime folder name machine memory := ⟨clock, entries, order, shadows⟩
  cases operation with
  | put key value =>
    cases value with
    | obj members =>
      obtain ⟨outcome, after, he, answered⟩ :=
        put_answered clock order shadows down (fits rfl) plain.1 plain.2
      exact ⟨_, after, Action.exec_bind_pure he _, answered⟩
    | _ => exact ⟨_, machine, rfl, mirrors, id, Or.inl ⟨rfl, rfl⟩⟩
  | get key default =>
    obtain ⟨after, he, mirrors, roomy⟩ := get_answered clock order shadows down (fits rfl) key
    exact ⟨_, after, Action.exec_bind_pure he _, mirrors, roomy, Or.inl rfl⟩
  | remove key =>
    obtain ⟨after, he, answered⟩ := remove_answered clock order shadows down (fits rfl) key
    exact ⟨_, after, Action.exec_bind_pure he _, answered⟩
  | clear =>
    obtain ⟨outcome, after, he, answered⟩ := clear_answered mirrors down
    exact ⟨_, after, Action.exec_bind_pure he _, answered⟩
  | entries =>
    obtain ⟨listed, after, he, answered⟩ := entries_answered clock order shadows down (fits rfl)
    exact ⟨_, after, Action.exec_bind_pure he _, answered⟩

theorem perform_stopped (order : InOrder machine folder name entries) (down : name ≠ "..")
    {operation : Operation} (reading : isReading operation = true)
    (deep : (Json.obj entries).fits (Runtime.reads + 1) = false) :
    ∃ nesting, (perform ⟨⟨folder.child name⟩, lifetime⟩ operation).exec machine =
      (.error (.beyond (.levels nesting)), machine) := by
  obtain ⟨nesting, stopped⟩ := order.entries_stopped down deep
  refine ⟨nesting, ?_⟩
  cases operation with
  | clear => nomatch reading
  | put key value =>
    cases value with
    | obj members =>
      refine Action.exec_bind_error ((Action.exec_bind_ok (Action.exec_now machine)).trans ?_)
      exact Action.exec_bind_error stopped
    | _ => nomatch reading
  | get key default =>
    exact Action.exec_bind_error (Action.exec_bind_error (Action.exec_bind_error stopped))
  | remove key => exact Action.exec_bind_error (Action.exec_bind_error stopped)
  | entries =>
    refine Action.exec_bind_error ((Action.exec_bind_ok (Action.exec_now machine)).trans ?_)
    exact Action.exec_bind_error stopped

/-- What one operation does with an expiring store, whatever there is room for. -/
theorem perform_mirrors (h : Mirrors lifetime folder name machine memory) (down : name ≠ "..")
    (operation : Operation) (plain : operation.IsPlain) :
    ∃ outcome after,
      (perform ⟨⟨folder.child name⟩, lifetime⟩ operation).exec machine = (outcome, after) ∧
      Mirrors lifetime folder name after (noted machine.now memory operation outcome) ∧
      (Roomy machine folder name → Roomy after folder name) := by
  obtain ⟨entries, order, shadows⟩ := h.held
  by_cases stops : isReading operation = true ∧ (Json.obj entries).fits (Runtime.reads + 1) = false
  · obtain ⟨nesting, stopped⟩ := perform_stopped order down stops.1 stops.2
    exact ⟨_, machine, stopped, h, id⟩
  · obtain ⟨outcome, after, he, answered⟩ :=
      perform_of_fits h.clock order shadows down operation plain fun reading => by
        simpa using fun deep => stops ⟨reading, deep⟩
    exact ⟨outcome, after, he, answered.mirrors, answered.roomy⟩

/-- A live value for which there is no room stands in the file, which cannot be read then. -/
theorem Shadows.not_fits (shadows : Shadows lifetime machine.now entries memory)
    (known : memory.value? key = some kept) (live : isWithin lifetime machine.now kept.2 = true)
    (deep : (stamp kept.2 kept.1).fits Runtime.reads = false) :
    (Json.obj entries).fits (Runtime.reads + 1) = false := by
  have there := Assoc.mem_of_value? (shadows.value?_of_isWithin known live)
  rw [Bool.eq_false_iff, ne_eq, Json.fits_obj]
  intro fits
  rw [fits _ there] at deep
  cases deep

/-- Where the file cannot be read it has a value for which there is no room. -/
theorem Shadows.isDeep (shadows : Shadows lifetime machine.now entries memory)
    (nodup : entries.keys.Nodup) (deep : (Json.obj entries).fits (Runtime.reads + 1) = false) :
    IsDeep memory := by
  rw [Bool.eq_false_iff, ne_eq, Json.fits_obj] at deep
  push Not at deep
  obtain ⟨⟨key, value⟩, there, deep⟩ := deep
  obtain ⟨kept, known, rfl⟩ := shadows.exists_kept (Assoc.value?_of_mem nodup there)
  exact ⟨key, kept, known, by simpa using deep⟩

end

/-- The machine and the memory that a run reaches. Between operations time may pass, by a clock
in universal time that does not run backwards. Each operation has a room of its own. -/
inductive Run (store : Expiring) (start : Machine) : Machine → Memory → Prop where
  | start : Run store start start []
  | perform [Runtime] {machine after : Machine} {memory : Memory} {outcome : Except Failure Reply}
      (run : Run store start machine memory) (operation : Operation) (plain : operation.IsPlain)
      (executed : (store.perform operation).exec machine = (outcome, after)) :
      Run store start after (noted machine.now memory operation outcome)
  | wait {machine : Machine} {memory : Memory} (run : Run store start machine memory)
      (next : Moment) (universal : next.offset = some 0)
      (ordered : machine.now.universalMicros ≤ next.universalMicros) :
      Run store start { machine with now := next } memory

theorem mirrors_of_run {lifetime : Duration} {memory : Memory}
    (numbered : start.tree.Numbered) (vacant : Vacant start folder name) (down : name ≠ "..")
    (clock : start.now.offset = some 0)
    (run : Run ⟨⟨folder.child name⟩, lifetime⟩ start machine memory) :
    Mirrors lifetime folder name machine memory ∧
      (Roomy start folder name → Roomy machine folder name) := by
  induction run with
  | start => exact ⟨⟨clock, [], .of_vacant numbered vacant, .nil _ _⟩, id⟩
  | perform run operation plain executed ih =>
    obtain ⟨outcome, after, he, mirrors, roomy⟩ := perform_mirrors ih.1 down operation plain
    rw [executed] at he
    obtain ⟨rfl, rfl⟩ := Prod.mk.inj he
    exact ⟨mirrors, fun room => roomy (ih.2 room)⟩
  | wait run next universal ordered ih =>
    obtain ⟨⟨-, entries, order, shadows⟩, roomy⟩ := ih
    exact ⟨⟨universal, entries, order.of_tree rfl rfl, shadows.wait ordered⟩,
      fun r => (roomy r).of_tree rfl rfl⟩

theorem fits_stamp {room : Nat} {members : Assoc Text Json}
    (h : (Json.obj members).fits (room + 1) = true) (now : Moment) :
    (stamp now members).fits (room + 1) = true :=
  (Json.fits_put h stampName _).trans (Json.fits_str _)

/-- In an expiring store on the empty folder an entry is put, by an operation that has so much
room. -/
theorem exists_run_put (runtime : Runtime) {members : Assoc Text Json}
    (plain : (Json.obj members).isPlain = true)
    (fits : (stamp Machine.bare.now members).fits Runtime.prints = true) :
    ∃ machine, Run ⟨⟨(⟨"/", ["home"]⟩ : Path).child "r"⟩, ⟨1⟩⟩ .bare machine
        [("k", (members, Machine.bare.now))] ∧ machine.now = Machine.bare.now := by
  have hn : Tree.IsFileName "r" := ⟨by decide, by decide⟩
  have roomy : Roomy .bare ⟨"/", ["home"]⟩ "r" := roomy_bare ⟨by decide, by decide⟩
  have joined : Text.IsJoined "k" := Text.isJoined_ofString "k"
  have order := InOrder.of_vacant Machine.ground_bare.numbered (vacant_bare hn)
  obtain ⟨outcome, machine, he, answered⟩ := perform_of_fits rfl order
    (.nil ⟨1⟩ _) hn.down (.put "k" (.obj members)) ⟨joined, plain⟩ fun _ => rfl
  rcases answered.outcome with agrees | ⟨-, stopped, -⟩
  · rw [Agrees, Json.limit?_eq_none.mpr fits] at agrees
    subst agrees
    exact ⟨machine, Run.start.perform (.put "k" (.obj members)) ⟨joined, plain⟩ he,
      (Machine.SameCircumstances.of_exec_eq he).now⟩
  · exact absurd roomy stopped

end SessionKeeper.Record.Expiring
