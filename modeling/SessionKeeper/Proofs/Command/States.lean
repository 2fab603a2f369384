import SessionKeeper.Proofs.Command.Report
import SessionKeeper.Proofs.Record.Filters

/-!
# Counting authorizations under way

The command that counts the states of authorizations reports how many entries their file has and how
many of them are live. The live ones are those whose keys are answered, and all others count as
expired, a null among them.
-/
namespace SessionKeeper.Command

open Record (Reads Spells)
open Record.Expiring (liveOf answersOf isComparable IsSpent Coherent)

variable {machine : Machine} {path folder : Path} {name : String} {members : Assoc Text Json}
  {lifetime : Duration} {key : Text} {expired : Nat}

/-- The report on so many entries, of which so many are live and so many expired. -/
def stateDocument (stored live expired : Nat) (lifetime : Duration) : Json :=
  .obj [("status", .ofString Record.Status.found.name), ("stored", .int stored), ("live", .int live),
    ("expired", .int expired), ("ttl_seconds", .float lifetime.seconds)]

theorem fits_stateDocument {stored live expired room : Nat} (adds : stored = live + expired)
    (few : stored < Json.digitLimit) (lifetime : Duration) :
    (stateDocument stored live expired lifetime).fits (room + 1) = true := by
  have short {n : Nat} (fewer : n ≤ stored) : (Json.int n).fits room = true := by
    rw [Json.fits_int, Int.natAbs_natCast]
    exact fewer.trans_lt few
  have live_few : live ≤ stored := by omega
  have expired_few : expired ≤ stored := by omega
  rw [stateDocument, Json.fits_obj]
  simp only [List.mem_cons, List.not_mem_nil, or_false, forall_eq_or_imp, forall_eq]
  exact ⟨Json.fits_str _, short le_rfl, short live_few, short expired_few, Json.fits_float _⟩

section

variable [Runtime]

/-- What the counting of the entries of a store comes to. -/
structure Counted (store : Record.Expiring) (members : Assoc Text Json) (machine : Machine)
    (answered : List Text) (expired : Nat) : Prop where
  distinct : answered.Nodup
  answers : ∀ key, key ∈ answered ↔
    ∃ value after, (store.get? key).exec machine = (.ok (some value), after)
  adds : members.length = answered.length + expired
  reports : ∃ after, (Diagnosis.stateReport store).exec machine =
    (.ok (stateDocument members.length answered.length expired store.lifetime), after) ∧
      machine.Quiet after
  prints : ∀ keeper ready, compose.exec machine = (.ok keeper, ready) →
    keeper.stores.states = store → members.length < Json.digitLimit →
      ∃ after, Reports ["states"]
        (stateDocument members.length answered.length expired store.lifetime) machine after ∧
          machine.Quiet after

theorem stateReport_exec (h : Reads path machine (.ok (.found members)))
    (comparable : ∀ member ∈ members, isComparable machine.now member.2 = true)
    (adds : members.length = (liveOf lifetime machine.now members).length + expired) :
    ∃ after, (Diagnosis.stateReport ⟨⟨path⟩, lifetime⟩).exec machine = (.ok (stateDocument
      members.length (liveOf lifetime machine.now members).length expired lifetime), after) ∧
        machine.Quiet after := by
  have told : (Record.read path).exec machine = (.ok (.found members), _) :=
    Prod.ext ((Record.read_reads path machine _).mpr h) rfl
  have first : machine.Quiet ((Record.read path).exec machine).2 :=
    .of_passive (Record.read_passive path) machine
  have now := first.circumstances.now
  obtain ⟨after, listed, second⟩ :=
    Record.Expiring.entries_answers (h.of_quiet first) lifetime (now ▸ comparable)
  rw [now] at listed
  refine ⟨after, (Action.exec_bind_ok told).trans ((Action.exec_bind_ok listed).trans ?_),
    first.trans second⟩
  have live : (answersOf lifetime machine.now members).length =
      (liveOf lifetime machine.now members).length := List.length_map _
  have rest : ((members.length : Int) - (liveOf lifetime machine.now members).length) =
      expired := by omega
  rw [stateDocument, ← rest, ← live]
  rfl

/-- The keys that are answered are those of the live entries. -/
theorem mem_keys_liveOf (coherent : Coherent folder name lifetime members machine key)
    (nodup : members.keys.Nodup) :
    key ∈ (liveOf lifetime machine.now members).keys ↔ ∃ value after,
      (Record.Expiring.get? ⟨⟨folder.child name⟩, lifetime⟩ key).exec machine =
        (.ok (some value), after) := by
  rw [← Record.Expiring.keys_answersOf, ← Assoc.value?_isSome, Option.isSome_iff_exists]
  by_cases spent : IsSpent lifetime machine.now members key
  · obtain ⟨outcome, after, ran, -⟩ := coherent.drops spent
    rw [spent.value?_answersOf nodup] at ran ⊢
    refine iff_of_false nofun ?_
    rintro ⟨value, last, answered⟩
    rw [ran] at answered
    cases outcome <;> cases (Prod.mk.inj answered).1
  · obtain ⟨after, ran, -⟩ := coherent.looks spent
    rw [ran]
    constructor
    · rintro ⟨value, answer⟩
      exact ⟨value, after, by rw [answer]⟩
    · rintro ⟨value, last, answered⟩
      exact ⟨value, Except.ok.inj (Prod.mk.inj answered).1⟩

theorem prints_states (h : Reads path machine (.ok (.found members)))
    (comparable : ∀ member ∈ members, isComparable machine.now member.2 = true)
    (adds : members.length = (liveOf lifetime machine.now members).length + expired)
    {keeper : Keeper} {ready : Machine} (composed : compose.exec machine = (.ok keeper, ready))
    (same : keeper.stores.states = ⟨⟨path⟩, lifetime⟩) (few : members.length < Json.digitLimit) :
    ∃ after, Reports ["states"] (stateDocument members.length
      (liveOf lifetime machine.now members).length expired lifetime) machine after ∧
        machine.Quiet after := by
  have told : diagnosisProgram.read ["states"] = .ok (some ("states", .none)) := rfl
  have quiet := quiet_of_compose composed
  have now := quiet.circumstances.now
  obtain ⟨left, counted, still⟩ := stateReport_exec (h.of_quiet quiet) (now ▸ comparable) (now ▸ adds)
  rw [now, ← same] at counted
  obtain ⟨after, reports, last⟩ := reports_of_examine told composed counted
    (fits_stateDocument adds few _)
  exact ⟨after, reports, quiet.trans (still.trans last)⟩

end

open scoped SessionKeeper.Runtime

/-- A live entry, an expired one and a null. -/
def pendingMembers : Assoc Text Json :=
  [("new", Record.Expiring.stamp Machine.bare.now [("v", .bool true)]), ("old", .bool false),
    ("none", .null)]

def filled (name : String) (members : Assoc Text Json) : Machine :=
  Ground.withFile furnished ["home"] name Record.privateMode (Record.octetsIn (.obj members))

/-- A machine that has those three in it. -/
abbrev pending (name : String) : Machine := filled name pendingMembers

theorem ground_pending (name : String) : Ground (pending name) ⟨"/", ["home"]⟩ ["home"] :=
  ground_furnished.kept_withFile _ _ (Machine.under_bare name)

theorem pending_reads {name : String} (hn : Tree.IsFileName name) :
    Reads ((⟨"/", ["home"]⟩ : Path).child name) (pending name) (.ok (.found pendingMembers)) := by
  have regular : (Json.obj pendingMembers).IsRegular 8 := ⟨by decide +kernel, by decide +kernel⟩
  exact Record.reads_withFile ground_furnished hn (Machine.under_bare name) (List.cons_ne_nil _ _)
    (regular.of_le (Runtime.roomy.trans (Nat.le_succ _)))

theorem spent_old : IsSpent .hour Machine.bare.now pendingMembers "old" :=
  ⟨.bool false, rfl, nofun, rfl⟩

/-- A machine that has those three and a clock without an offset. -/
def adrift : Machine :=
  { pending Keeper.statesName with now := { Machine.bare.now with offset := none } }

/-- An entry with more levels than are read. -/
def deepMembers : Assoc Text Json := [("old", .nested 1000)]

theorem deepMembers_stop_reading : ∃ nesting,
    Reads ((⟨"/", ["home"]⟩ : Path).child Keeper.statesName) (filled Keeper.statesName deepMembers)
      (.error (.beyond (.levels nesting))) := by
  have regular : (Json.obj deepMembers).IsRegular 1001 := by
    refine (Json.isRegular_obj deepMembers).mpr ⟨List.nodup_singleton _, ?_⟩
    rw [deepMembers, List.forall_mem_singleton]
    exact ⟨Text.isJoined_ofString _, Json.isPlain_nested 1000, Json.fits_nested.mpr le_rfl⟩
  have deep : (Json.obj deepMembers).fits (Runtime.reads + 1) = false := by
    rw [Bool.eq_false_iff, ne_eq, Json.fits_obj, deepMembers, List.forall_mem_singleton,
      Json.fits_nested]
    decide
  exact Record.reads_withFile_of_not_fits ground_furnished ⟨by decide, by decide⟩
    (Machine.under_bare _) regular deep

end SessionKeeper.Command
