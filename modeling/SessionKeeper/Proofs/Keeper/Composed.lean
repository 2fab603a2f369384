import SessionKeeper.Proofs.Command.Unchanged
import SessionKeeper.Proofs.Lock.Outcome
import SessionKeeper.Proofs.OAuth.Given
import SessionKeeper.Proofs.Settings.Durations

/-!
# Keepers from settings

Settings that were loaded and metadata that can be loaded make a keeper unless one of the two
numbers of seconds is no duration; the number for the lock is looked at first. The durations of the
keeper are what comes of the numbers, and one of no length at all makes a lock stale as soon as it
is acquired. So a keeper that can be used is made exactly when both numbers lie between half a
microsecond and 10^9 days.
-/
namespace SessionKeeper

open SessionKeeper.Action OAuth
open Request (glances_reading)

/-- That a number of seconds is a positive duration. -/
def Double.IsUsable (x : Double) : Prop :=
  ∃ seconds : ℚ, x.IsWorth seconds ∧ 1 / 2000000 < seconds ∧ seconds < 86400000000000

theorem Double.IsWorth.unique {x : Double} {v w : ℚ} (h : x.IsWorth v) (k : x.IsWorth w) :
    v = w := by
  cases h
  cases k
  rfl

/-- A number is usable exactly when a positive duration comes of it. -/
theorem Duration.Comes.isUsable_iff {x : Double} {outcome : Except DurationFault Duration}
    (h : Comes x outcome) :
    x.IsUsable ↔ ∃ length, outcome = .ok length ∧ 0 < length.micros := by
  cases h with
  | notANumber => exact iff_of_false (fun ⟨_, worth, _⟩ => nomatch worth) nofun
  | infinite => exact iff_of_false (fun ⟨_, worth, _⟩ => nomatch worth) nofun
  | beyond worth large =>
    refine iff_of_false (fun ⟨v, again, _, small⟩ => ?_) nofun
    rw [worth.unique again] at large
    exact absurd small (not_lt.mpr large)
  | @within x v length worth positive small least lasts =>
    constructor
    · rintro ⟨w, again, above, -⟩
      exact ⟨length, rfl, lasts.mpr (worth.unique again ▸ above)⟩
    · rintro ⟨other, same, filled⟩
      obtain rfl := Except.ok.inj same
      exact ⟨v, worth, lasts.mp filled, small⟩

section

variable [Runtime]

/-- A lock that was just acquired is stale exactly when no time is needed for that. -/
theorem Lock.isStale_of_acquire {lock : Lock} {key : Text} {marker : Marker}
    {machine after : Machine} (least : 0 ≤ lock.staleAfter.micros)
    (taken : (lock.acquire key).exec machine = (.ok marker, after)) :
    (lock.isStale marker).exec after = (.ok (decide (lock.staleAfter.micros = 0)), after) := by
  cases named : fileName? key with
  | none =>
    rw [acquire, markerPath, named] at taken
    cases taken
  | some name =>
    have now : after.now = machine.now := (Machine.SameCircumstances.of_exec_eq taken).now
    have young : marker.age? after.now = some ⟨0⟩ := by
      rw [marker_of_acquire rfl named taken, now, Marker.age?, Moment.since?, Moment.comparable,
        beq_self_eq_true, if_pos rfl, sub_self]
    rw [isStale_exec young]
    rcases least.eq_or_lt with none | some
    · have zero : lock.staleAfter = ⟨0⟩ := congrArg Duration.mk none.symm
      have stale : lock.isFreshAge ⟨0⟩ = false := by
        rw [isFreshAge, zero]
        decide +kernel
      rw [stale, decide_eq_true none.symm]
      rfl
    · rw [isFreshAge_zero some, decide_eq_false some.ne']
      rfl

theorem Secret.Backend.resolve_exec (folder : Path) (explicit : Option Backend) (usePlatform : Bool)
    (machine : Machine) : ∃ secrets after,
      (resolve folder explicit usePlatform).exec machine = (.ok secrets, after) ∧
        machine.Quiet after := by
  have passive : (resolve folder explicit usePlatform).IsPassive :=
    (ChangesNothing.of_asks (resolve_asks glances_reading.asides folder explicit _)).isPassive
  have returns : ∃ secrets, ((resolve folder explicit usePlatform).exec machine).1 = .ok secrets := by
    cases explicit with
    | some secrets => exact ⟨secrets, rfl⟩
    | none =>
      cases usePlatform with
      | false => exact ⟨_, rfl⟩
      | true =>
        obtain ⟨tree, directory, now, process, environment, homes, offer⟩ := machine
        cases offer <;> exact ⟨_, rfl⟩
  obtain ⟨secrets, told⟩ := returns
  exact ⟨secrets, _, Prod.ext told rfl, .of_passive passive machine⟩

namespace Keeper

/-- That a keeper has positive durations and no lock that it acquires is stale at once. -/
structure IsUsable (keeper : Keeper) : Prop where
  lock : 0 < keeper.lock.staleAfter.micros
  states : 0 < keeper.stores.states.lifetime.micros
  fresh : ∀ key marker before after, (keeper.lock.acquire key).exec before = (.ok marker, after) →
    (keeper.lock.isStale marker).exec after = (.ok false, after)

/-- How the making of a keeper ends for two accepted numbers of seconds. -/
inductive Composes (staleAfter lifetime : Double) : Except Failure Keeper → Prop where
  | lockRefused {fault : DurationFault} (comes : Duration.Comes staleAfter (.error fault)) :
      Composes staleAfter lifetime (.error (.duration fault))
  | statesRefused {passing : Duration} {fault : DurationFault}
      (passed : Duration.Comes staleAfter (.ok passing))
      (comes : Duration.Comes lifetime (.error fault)) :
      Composes staleAfter lifetime (.error (.duration fault))
  | made {keeper : Keeper} (lock : Duration.Comes staleAfter (.ok keeper.lock.staleAfter))
      (states : Duration.Comes lifetime (.ok keeper.stores.states.lifetime)) :
      Composes staleAfter lifetime (.ok keeper)

variable {settings : Settings} {machine : Machine} {folder : Path} {metadata : OAuth.ClientMetadata}

/-- Once there is a backend for secrets, only the numbers of seconds decide. -/
theorem make_composes (options : Options) {secrets : Secret.Backend}
    (given : options.secrets = some secrets) (lock : options.lockStaleAfter.IsAccepted)
    (states : options.stateLifetime.IsAccepted) (machine : Machine) :
    ∃ outcome, (make folder options).exec machine = (outcome, machine) ∧
      Composes options.lockStaleAfter options.stateLifetime outcome := by
  have lockComes := Duration.comes_of_isAccepted lock
  have statesComes := Duration.comes_of_isAccepted states
  rw [make, given]
  rcases told : Duration.ofSeconds options.lockStaleAfter with fault | staleAfter <;>
    rw [told] at lockComes
  · exact ⟨_, rfl, .lockRefused lockComes⟩
  rcases also : Duration.ofSeconds options.stateLifetime with fault | lifetime <;>
    rw [also] at statesComes
  · exact ⟨_, rfl, .statesRefused lockComes statesComes⟩
  · exact ⟨_, rfl, .made lockComes statesComes⟩

theorem isUsable_iff {keeper : Keeper} : keeper.IsUsable ↔
    0 < keeper.lock.staleAfter.micros ∧ 0 < keeper.stores.states.lifetime.micros := by
  refine ⟨fun usable => ⟨usable.lock, usable.states⟩, fun ⟨lock, states⟩ => ⟨lock, states, ?_⟩⟩
  intro key marker before after taken
  rw [Lock.isStale_of_acquire lock.le taken, decide_eq_false lock.ne']

/-- The numbers of seconds are usable exactly when a usable keeper is made. -/
theorem Composes.isUsable_iff {staleAfter lifetime : Double} {outcome : Except Failure Keeper}
    (h : Composes staleAfter lifetime outcome) :
    staleAfter.IsUsable ∧ lifetime.IsUsable ↔
      ∃ keeper, outcome = .ok keeper ∧ keeper.IsUsable := by
  cases h with
  | lockRefused comes =>
    refine iff_of_false (fun ⟨usable, _⟩ => ?_) nofun
    obtain ⟨length, same, -⟩ := comes.isUsable_iff.mp usable
    cases same
  | statesRefused passed comes =>
    refine iff_of_false (fun ⟨_, usable⟩ => ?_) nofun
    obtain ⟨length, same, -⟩ := comes.isUsable_iff.mp usable
    cases same
  | @made keeper lock states =>
    rw [lock.isUsable_iff, states.isUsable_iff]
    constructor
    · rintro ⟨⟨_, same, first⟩, ⟨_, also, second⟩⟩
      cases same
      cases also
      exact ⟨keeper, rfl, Keeper.isUsable_iff.mpr ⟨first, second⟩⟩
    · rintro ⟨_, same, usable⟩
      cases same
      exact ⟨⟨_, rfl, usable.lock⟩, ⟨_, rfl, usable.states⟩⟩

/-- Whatever settings were loaded from, with metadata that can be loaded the making of a keeper
for any folder ends as the two numbers of seconds say, and it only looks. A usable keeper is made
exactly when both numbers are finite, above half a microsecond and below 10^9 days. -/
theorem ofSettings_composes {start : Machine} (loaded : (Settings.load.exec start).1 = .ok settings)
    (described : ((ClientMetadata.load folder).exec machine).1 = .ok metadata)
    (factory : OAuth.Factory) (explicit : Option Secret.Backend) :
    ∃ outcome after,
      (ofSettings { settings with folder } factory explicit).exec machine = (outcome, after) ∧
      machine.Quiet after ∧ Composes settings.lockStaleAfter settings.stateLifetime outcome ∧
      (settings.lockStaleAfter.IsUsable ∧ settings.stateLifetime.IsUsable ↔
        ∃ keeper, outcome = .ok keeper ∧ keeper.IsUsable) := by
  obtain ⟨states, lock⟩ := Settings.isAccepted_of_load loaded
  obtain ⟨secrets, between, resolved, quiet⟩ :=
    Secret.Backend.resolve_exec folder explicit settings.usePlatformKeychain machine
  have described := ClientMetadata.load_of_quiet quiet described
  obtain ⟨outcome, made, composes⟩ : ∃ outcome,
      (ofSettings { settings with folder } factory explicit).exec machine = (outcome, between) ∧
        Composes settings.lockStaleAfter settings.stateLifetime outcome := by
    rw [ofSettings, exec_bind_ok resolved, exec_bind_ok described]
    exact make_composes _ rfl lock states between
  exact ⟨outcome, between, made, quiet, composes, composes.isUsable_iff⟩

end Keeper

end

namespace Keeper

open scoped SessionKeeper.Runtime

/-- A machine whose environment says after how many seconds a lock is stale. -/
def waiting (seconds : Text) : Machine :=
  { Machine.bare with environment := [("ROOMY_LOCK_STALE_SECONDS", seconds)] }

/-- Settings with a quarter of a second for the lock and an hour for the states make a usable
keeper. -/
theorem quarter_second_composes : ∃ settings keeper after,
    (Settings.load.exec (waiting "0.25")).1 = .ok settings ∧
      ((ClientMetadata.load ⟨"/", ["home"]⟩).exec .bare).1 = .ok .standard ∧
      (ofSettings { settings with folder := ⟨"/", ["home"]⟩ } unavailable none).exec .bare =
        (.ok keeper, after) ∧ keeper.IsUsable := by
  have numbers : (Settings.load.exec (waiting "0.25")).1.toOption.map (fun settings =>
      (settings.lockStaleAfter, settings.stateLifetime)) =
        some (.finite false (2 ^ 52) (-54), .finite false 7916483719987200 (-41)) := by
    decide +kernel
  have described : ((ClientMetadata.load ⟨"/", ["home"]⟩).exec .bare).1 = .ok .standard := rfl
  rcases loaded : (Settings.load.exec (waiting "0.25")).1 with failure | settings <;>
    rw [loaded] at numbers
  · cases numbers
  obtain ⟨lock, states⟩ := Prod.mk.inj (Option.some.inj numbers)
  obtain ⟨outcome, after, made, -, -, usable⟩ := ofSettings_composes loaded described
    unavailable none
  have brief : settings.lockStaleAfter.IsUsable := by
    rw [lock]
    exact ⟨_, .finite _ _, by norm_num [Double.value], by norm_num [Double.value]⟩
  have long : settings.stateLifetime.IsUsable := by
    rw [states]
    exact ⟨_, .finite _ _, by norm_num [Double.value], by norm_num [Double.value]⟩
  obtain ⟨keeper, rfl, fits⟩ := usable.mp ⟨brief, long⟩
  exact ⟨settings, keeper, after, rfl, described, made, fits⟩

/-- Settings accept not-a-number, which is no duration, and a tenth of a microsecond, which is one
of no length. -/
theorem accepted_seconds_are_not_usable :
    (∃ settings between after, Settings.load.exec (waiting "nan") = (.ok settings, between) ∧
      (ofSettings settings unavailable none).exec between =
        (.error (.duration .notANumber), after)) ∧
    ∃ settings between keeper after, Settings.load.exec (waiting "1e-7") = (.ok settings, between) ∧
      (ofSettings settings unavailable none).exec between = (.ok keeper, after) ∧
        keeper.lock.staleAfter.micros = 0 := by
  have ends (seconds : Text) {P : Except Failure Keeper → Prop}
      (loads : (Settings.load.exec (waiting seconds)).1.toOption.isSome = true)
      (makes : P ((Settings.load >>= fun settings => ofSettings settings unavailable none).exec
        (waiting seconds)).1) :
      ∃ settings between outcome after,
        Settings.load.exec (waiting seconds) = (.ok settings, between) ∧
        (ofSettings settings unavailable none).exec between = (outcome, after) ∧ P outcome := by
    rcases loaded : Settings.load.exec (waiting seconds) with ⟨failure | settings, between⟩ <;>
      rw [loaded] at loads
    · cases loads
    · rw [exec_bind_ok loaded] at makes
      exact ⟨settings, between, _, _, rfl, rfl, makes⟩
  constructor
  · obtain ⟨settings, between, outcome, after, loaded, made, rfl⟩ := ends "nan"
      (P := (· = .error (.duration .notANumber))) (by decide +kernel) rfl
    exact ⟨settings, between, after, loaded, made⟩
  · obtain ⟨settings, between, outcome, after, loaded, made, told⟩ := ends "1e-7"
      (P := fun outcome => outcome.toOption.map (·.lock.staleAfter.micros) = some 0)
      (by decide +kernel) (by decide +kernel)
    cases outcome with
    | error failure => cases told
    | ok keeper => exact ⟨settings, between, keeper, after, loaded, made, Option.some.inj told⟩

end Keeper

end SessionKeeper
