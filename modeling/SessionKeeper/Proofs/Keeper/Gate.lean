import SessionKeeper.Proofs.Keeper.Parts

/-!
# The gate of the session lock

Preparing a change touches nothing that a keeper has, and the rest of it needs the session lock.
A fresh marker of that lock therefore stops every change before anything is touched. Once the
lock was taken it is given back, however the change ends, so no marker is left behind.
-/
namespace SessionKeeper.Keeper

variable {keeper : Keeper} {folder : Path} {place : Location} {machine before after : Machine}
  {scene : Scene} {mark : Option Node}

/-- That nothing was touched that only keepers touch. -/
structure Untouched (folder : Path) (place : Location) (before after : Machine) : Prop where
  ground : Ground after folder place
  only : ChangedOnly place (¬ IsGuarded ·) before after
  keychain : after.keychain = before.keychain
  now : after.now = before.now

namespace Untouched

theorem refl (g : Ground machine folder place) : Untouched folder place machine machine :=
  ⟨g, .refl machine, rfl, rfl⟩

theorem respects {α : Type} (h : Untouched folder place before after) {action : Action α}
    (respects : action.Respects folder place) :
    Untouched folder place before (action.exec after).2 where
  ground := h.ground.exec rfl (respects.confined after h.ground)
  only := h.only.trans (respects.confined after h.ground)
  keychain := (respects.keychain after h.ground).trans h.keychain
  now := (Machine.SameCircumstances.of_exec action after).now.trans h.now

theorem quiet {last : Machine} (h : Untouched folder place before after)
    (quiet : after.Quiet last) : Untouched folder place before last where
  ground := h.ground.of_quiet quiet
  only := h.only.trans (.of_tree quiet.tree)
  keychain := quiet.keychain.trans h.keychain
  now := quiet.circumstances.now.trans h.now

theorem under (h : Untouched folder place before after) {name : String} (guarded : IsGuarded name) :
    after.under place name = before.under place name := h.only.under (not_not.mpr guarded)

end Untouched

/-- A scene in which nothing of the keeper's was touched yet. -/
abbrev Waiting (folder : Path) (place : Location) (before : Machine) : Scene → Prop :=
  Attended (Untouched folder place before) (·.KeepsAway folder)

theorem LiesIn.bears_untouched (lies : keeper.LiesIn folder) :
    keeper.Bears (Untouched folder place before) (·.KeepsAway folder) where
  quiet _ _ h quiet := h.quiet quiet
  makes machine h := ⟨h.respects (lies.clients.makes place), lies.made machine⟩
  authorizes _ away handle _ h := h.respects (away.authorize place handle)

theorem LiesIn.bears_all (lies : keeper.LiesIn folder) :
    keeper.Bears (fun _ => True) (·.KeepsAway folder) where
  quiet _ _ _ _ := trivial
  makes machine _ := ⟨trivial, lies.made machine⟩
  authorizes _ _ _ _ _ := trivial

/-- That an operation leaves the marker of the session lock alone. -/
abbrev SparesMark {α : Type} (folder : Path) (place : Location) (action : Action α) : Prop :=
  action.Confined folder place (· ≠ markName)

theorem ne_markName {own name : String} (other : own ≠ markName)
    (h : name = own ∨ ∃ k, name = Machine.temporaryName own k) : name ≠ markName := by
  rintro rfl
  exact not_beside (by decide) other.symm h

section

variable [Runtime]

theorem put_sparesMark {own : String} (hn : Tree.IsFileName own) (other : own ≠ markName)
    (key : Text) (value : Json) :
    SparesMark folder place (Record.Store.put ⟨folder.child own⟩ key value) :=
  (Record.Store.put_confined hn key value).mono fun _ => ne_markName other

theorem remove_sparesMark {own : String} (hn : Tree.IsFileName own) (other : own ≠ markName)
    (key : Text) : SparesMark folder place (Record.Store.remove ⟨folder.child own⟩ key) :=
  (Record.Store.remove_confined hn key).mono fun _ => ne_markName other

omit [Runtime] in
theorem secrets_sparesMark {α : Type} {action : Action α}
    (h : action.Confined folder place Secret.Vault.IsOwnName) : SparesMark folder place action :=
  h.mono fun _ => ne_markName (by decide)

/-- That the folder stands, with this node for a marker of the session lock. -/
structure Marked (folder : Path) (place : Location) (mark : Option Node) (machine : Machine) :
    Prop where
  ground : Ground machine folder place
  mark : machine.under place markName = mark

omit [Runtime] in
theorem Marked.spared {α : Type} (h : Marked folder place mark machine) {action : Action α}
    (spares : SparesMark folder place action) :
    Marked folder place mark (action.exec machine).2 where
  ground := h.ground.exec rfl (spares machine h.ground)
  mark := ((spares machine h.ground).under (not_not.mpr rfl)).trans h.mark

omit [Runtime] in
theorem Marked.quiet (h : Marked folder place mark machine) (quiet : machine.Quiet after) :
    Marked folder place mark after where
  ground := h.ground.of_quiet quiet
  mark := by
    rw [Machine.under, quiet.tree]
    exact h.mark

/-- A scene with such a marker and a client that stays away from it. -/
abbrev Locked (folder : Path) (place : Location) (mark : Option Node) : Scene → Prop :=
  Attended (Marked folder place mark) (·.KeepsAway folder)

omit [Runtime] in
theorem respects_sparesMark {α : Type} {action : Action α} (h : action.Respects folder place) :
    SparesMark folder place action :=
  h.confined.mono fun _ hn same => hn (.inr same)

theorem LiesIn.sustains_marked (lies : keeper.LiesIn folder) :
    keeper.Sustains (Marked folder place mark) (·.KeepsAway folder) where
  quiet _ _ h quiet := h.quiet quiet
  makes machine h := ⟨h.spared (respects_sparesMark (lies.clients.makes place)), lies.made machine⟩
  authorizes _ away handle _ h := h.spared (respects_sparesMark (away.authorize place handle))
  revokes _ away subject _ h := h.spared (respects_sparesMark (away.revoke place subject))
  enters session _ h := by
    rw [lies.index]
    exact h.spared (put_sparesMark ⟨by decide, by decide⟩ (by decide) _ _)
  strikes subject _ h := by
    rw [lies.index]
    exact h.spared (remove_sparesMark ⟨by decide, by decide⟩ (by decide) _)
  registers worker _ h := by
    rw [lies.workers]
    exact h.spared (put_sparesMark ⟨by decide, by decide⟩ (by decide) _ _)
  dismisses id _ h := by
    rw [lies.workers]
    exact h.spared (remove_sparesMark ⟨by decide, by decide⟩ (by decide) _)
  discards subject _ h := by
    rw [lies.tokens]
    exact h.spared (remove_sparesMark ⟨by decide, by decide⟩ (by decide) _)
  looks _ _ _ h := h.spared (secrets_sparesMark (lies.secrets.get? place _ _))
  stores _ _ _ _ _ h := h.spared (secrets_sparesMark (lies.secrets.put place _ _ _))
  forgets _ _ _ h := h.spared (secrets_sparesMark (lies.secrets.remove place _ _))

/-- What a keeper has on a machine: its index, the workers, the secrets of either backend, and
the marker of the session lock. -/
def possessions (machine : Machine) (place : Location) : List (Option Node) × Keychain :=
  ([indexName, workersName, Secret.Vault.fileName, markName].map (machine.under place),
    machine.keychain)

omit [Runtime] in
theorem Untouched.possessions (h : Untouched folder place before after) :
    possessions after place = possessions before place := by
  have own (name : String) (hn : name ∈ ownNames) :
      after.under place name = before.under place name :=
    h.under (.inl (isReserved_of_mem hn))
  have index := own indexName (by decide)
  have workers := own workersName (by decide)
  have vault := own Secret.Vault.fileName (by decide)
  have mark := h.under (.inr rfl)
  simp only [Keeper.possessions, List.map_cons, List.map_nil, index, workers, vault, mark,
    h.keychain]

variable {client : Option OAuth.Client}

/-- Where the marker is told to be fresh, every change fails without touching anything, and one
that was prepared is refused the lock. -/
theorem changeInParts_refused (lies : keeper.LiesIn folder)
    (waiting : Waiting folder place machine ⟨client, machine⟩) {marker : Lock.Marker}
    (told : Lock.Tells machine place markName marker) {age : Duration}
    (aged : marker.age? machine.now = some age) (fresh : keeper.lock.isFreshAge age = true)
    (c : Change) : ∃ failure later after,
      (keeper.changeInParts c).exec client machine = (.error failure, later, after) ∧
      Untouched folder place machine after ∧ ∀ task later between,
        (keeper.prepare c).exec client machine = (.ok task, later, between) →
          failure = .lockHeld lockKey (some marker.holder) (some age) := by
  have prepared := lies.bears_untouched.prepare waiting c
  unfold SessionAction.Ends at prepared
  unfold changeInParts
  rcases he : (keeper.prepare c).exec client machine with ⟨failure | task, later, between⟩ <;>
    rw [he] at prepared
  · exact ⟨failure, later, between, SessionAction.exec_bind_error he, prepared.machine,
      fun _ _ _ h => by cases h⟩
  · have untouched : Untouched folder place machine between := prepared.machine
    have refused : (keeper.lock.acquire lockKey).exec between =
        (.error (.lockHeld lockKey (some marker.holder) (some age)), between) :=
      Lock.acquire_told lies.lock untouched.ground fileName?_lockKey not_isReserved_marker.1
        (told.of_under (untouched.under (.inr rfl))) (untouched.now ▸ aged) fresh
    have held : (keeper.lock.holding lockKey (keeper.carryOut task)).exec later between =
        (.error (.lockHeld lockKey (some marker.holder) (some age)), later, between) := by
      rw [SessionAction.exec_holding, refused]
    refine ⟨_, later, between, ?_, untouched, fun _ _ _ _ => rfl⟩
    rw [SessionAction.exec_bind_ok he, SessionAction.exec_bind_error held]

/-- The marker that taking the session lock writes can be read back. -/
theorem isSound_of_acquire (lies : keeper.LiesIn folder) (utc : machine.now.offset = some 0)
    {marker : Lock.Marker} {taken : Machine}
    (acquired : (keeper.lock.acquire lockKey).exec machine = (.ok marker, taken))
    (stands : Lock.Stands taken place markName marker) :
    marker = ⟨lockKey, machine.now, keeper.lock.holder⟩ ∧ marker.IsSound := by
  have own := Lock.marker_of_acquire lies.lock fileName?_lockKey acquired
  have name : Lock.fileName? marker.key = some markName := by
    rw [own]
    exact fileName?_lockKey
  exact ⟨own, Lock.rejoin_of_fileName? name, by rw [own]; exact utc, stands.short⟩

/-- Once the lock was taken, no marker is left behind, however the section ends. -/
theorem holding_unmarked (lies : keeper.LiesIn folder)
    (present : ∀ c, client = some c → c.KeepsAway folder) (numbered : machine.tree.Numbered)
    (utc : machine.now.offset = some 0) {marker : Lock.Marker} {taken : Machine}
    (acquired : (keeper.lock.acquire lockKey).exec machine = (.ok marker, taken)) (task : Task) :
    ∃ place, (keeper.lock.holding lockKey (keeper.carryOut task)).Ends ⟨client, machine⟩
      fun _ after => Marked folder place none after.machine := by
  obtain ⟨place, ground, stands⟩ := Lock.acquire_stands lies.lock numbered fileName?_lockKey
    not_isReserved_marker.1 marker taken acquired
  obtain ⟨own, sound⟩ := isSound_of_acquire lies utc acquired stands
  have name : Lock.fileName? marker.key = some markName := by
    rw [own]
    exact fileName?_lockKey
  refine ⟨place, .holding (T := fun held between => held = marker ∧ between = taken) ?_ ?_⟩
  · unfold Action.Ends
    rw [acquired]
    exact ⟨rfl, rfl⟩
  · rintro held between ⟨rfl, rfl⟩
    have locked : Locked folder place (between.under place markName) ⟨client, between⟩ :=
      ⟨⟨ground, rfl⟩, present⟩
    refine (lies.sustains_marked.carryOut locked task).mono fun outcome after ha => ?_
    obtain ⟨last, he, only, gone⟩ := Lock.release_own lies.lock ha.machine.ground name
      not_isReserved_marker.1 (stands.of_under ha.machine.mark) sound
    exact .of_exec he ⟨ha.machine.ground.exec he only, gone⟩

/-- Sessions are changed only by who gets the session lock, and it is always given back. A fresh
marker makes every change fail with nothing touched, and lets nobody have the lock who has been
prepared for it. Once the lock was taken, no marker is there when the change has ended. -/
theorem change_is_gated (lies : keeper.LiesIn folder)
    (present : ∀ c, client = some c → c.KeepsAway folder) (numbered : machine.tree.Numbered)
    (utc : machine.now.offset = some 0) (c : Change) :
    (∀ marker age, (keeper.lock.readMarker lockKey).exec machine = (.ok (some marker), machine) →
      marker.age? machine.now = some age → keeper.lock.isFreshAge age = true →
        ∃ failure later after place,
          (keeper.change c).exec client machine = (.error failure, later, after) ∧
          machine.tree.locate machine.directory folder = .ok place ∧
          possessions after place = possessions machine place ∧
          ∀ task later between,
            (keeper.prepare c).exec client machine = (.ok task, later, between) →
              failure = .lockHeld lockKey (some marker.holder) (some age)) ∧
    ∀ task later between marker taken,
      (keeper.prepare c).exec client machine = (.ok task, later, between) →
      (keeper.lock.acquire lockKey).exec between = (.ok marker, taken) →
        let after := ((keeper.change c).exec client machine).2.2
        after.tree.find after.directory (folder.child markName) = .error .absent := by
  constructor
  · intro marker age read aged fresh
    rw [Lock.readMarker, Lock.markerPath_eq lies.lock fileName?_lockKey, pure_bind] at read
    obtain ⟨place, ground, -, told⟩ := Lock.exists_tells numbered (by decide) read
    obtain ⟨failure, later, after, he, untouched, refused⟩ :=
      changeInParts_refused lies ⟨.refl ground, present⟩ told aged fresh c
    exact ⟨failure, later, after, place, by rw [change_exec, he], ground.leads,
      untouched.possessions, refused⟩
  · intro task later between marker taken prepared acquired
    have any : Attended (fun _ => True) (·.KeepsAway folder) ⟨client, machine⟩ := ⟨trivial, present⟩
    have kept := lies.bears_all.prepare any c
    unfold SessionAction.Ends at kept
    rw [prepared] at kept
    have left : ((keeper.prepare c).exec client machine).2.2 = between := by rw [prepared]
    have fixed : machine.SameCircumstances between := by
      rw [← left]
      exact .of_run ((keeper.prepare c).run.run client) machine
    have numbered : between.tree.Numbered := by
      rw [← left]
      exact .of_run ((keeper.prepare c).run.run client) numbered
    obtain ⟨place, held⟩ :=
      holding_unmarked lies kept.client numbered (fixed.now ▸ utc) acquired task
    have ended : (keeper.changeInParts c).Ends ⟨client, machine⟩ fun _ after =>
        Marked folder place none after.machine := by
      refine .bind (P := fun outcome after => outcome = .ok task ∧ after = ⟨later, between⟩)
        ?_ ?_ ?_
      · unfold SessionAction.Ends
        rw [prepared]
        exact ⟨rfl, rfl⟩
      · rintro found after ⟨same, rfl⟩
        obtain rfl : found = task := Except.ok.inj same
        refine .bind held (fun result after h => ?_) fun _ _ h => h
        have spares : SparesMark folder place (conclude c) := .of_passive (conclude_passive c)
        split_ifs
        · exact .lift (h.spared spares)
        · exact .pure h
      · rintro failure after ⟨same, -⟩
        cases same
    unfold SessionAction.Ends at ended
    have named : Tree.IsFileName markName := not_isReserved_marker.1
    have gone (after : Machine) (h : Marked folder place none after) :
        after.tree.find after.directory (folder.child markName) = .error .absent := by
      rw [h.ground.find named, h.mark]
    rw [change_exec]
    exact gone _ ended

theorem LiesIn.of_make {options : Options} {origin start : Machine}
    (made : (make folder options).exec origin = (.ok keeper, start))
    (secrets : (options.secrets.getD (.ofVault (.inFolder folder))).KeepsAway folder)
    (clients : ∀ stores : OAuth.Stores, stores.sessions = ⟨folder.child tokensName⟩ →
      options.factory.KeepsAway stores folder) : keeper.LiesIn folder := by
  obtain ⟨own, -⟩ := madeIn_of_make made
  exact ⟨own.index, own.workers, own.tokens, own.lock, own.secrets ▸ secrets,
    own.factory ▸ clients _ own.tokens⟩

theorem accountFactory_keepsAway (account : Text) {stores : OAuth.Stores}
    (tokens : stores.sessions = ⟨folder.child tokensName⟩) :
    (accountFactory account).KeepsAway stores folder := by
  refine ⟨fun _ => .pure _, fun machine client after h => ?_⟩
  obtain ⟨⟩ := h
  refine ⟨fun place handle => ?_, fun place subject => ?_⟩
  · rw [tokens]
    exact (tokens_put_respects _ _).bind fun _ => .pure _
  · rw [tokens]
    exact tokens_remove_respects subject

theorem steadyFactory_keepsAway {stores : OAuth.Stores}
    (tokens : stores.sessions = ⟨folder.child tokensName⟩) :
    steadyFactory.KeepsAway stores folder := accountFactory_keepsAway "did:plc:a" tokens

end

open scoped SessionKeeper.Runtime

/-- How taking the session lock goes on the empty folder. -/
def steadyTaken : Except Failure Lock.Marker × Machine :=
  (steadyKeeper.lock.acquire lockKey).exec steadyMade.2

/-- On the empty folder a login is refused while the lock is held, and without that it leaves no
marker. -/
theorem login_is_gated :
    (∃ failure later after, (steadyKeeper.change (.login "a" true)).exec none steadyTaken.2 =
      (.error failure, later, after) ∧
        possessions after ["home"] = possessions steadyTaken.2 ["home"]) ∧
    let after := ((steadyKeeper.change (.login "a" true)).exec none steadyMade.2).2.2
    after.tree.find after.directory (.child ⟨"/", ["home"]⟩ markName) = .error .absent := by
  have made : (make ⟨"/", ["home"]⟩ { factory := steadyFactory }).exec Machine.bare =
      (.ok steadyKeeper, steadyMade.2) := (eq_ok_get _ : steadyMade = _)
  have lies : steadyKeeper.LiesIn ⟨"/", ["home"]⟩ :=
    .of_make made (Secret.Vault.keepsAway _) fun _ => steadyFactory_keepsAway
  have held : steadyTaken.1.isOk = true := by decide +kernel
  have prepared : ((steadyKeeper.prepare (.login "a" true)).exec none steadyMade.2).1.isOk = true ∧
      ((steadyKeeper.lock.acquire lockKey).exec
        ((steadyKeeper.prepare (.login "a" true)).exec none steadyMade.2).2.2).1.isOk = true := by
    decide +kernel
  have fresh : steadyKeeper.lock.isFreshAge ⟨0⟩ = true := by decide +kernel
  unfold steadyTaken at held ⊢
  generalize steadyMade.2 = start at made held prepared ⊢
  generalize steadyKeeper = keeper at made lies held prepared fresh ⊢
  have numbered : start.tree.Numbered := Machine.ground_bare.numbered.of_exec_eq made
  have nobody : ∀ c, (none : Option OAuth.Client) = some c → c.KeepsAway ⟨"/", ["home"]⟩ :=
    fun _ h => by cases h
  have utc : start.now.offset = some 0 := by
    rw [(Machine.SameCircumstances.of_exec_eq made).now]
    rfl
  constructor
  · rcases he : (keeper.lock.acquire lockKey).exec start with ⟨failure | marker, taken⟩ <;>
      rw [he] at held
    · cases held
    · obtain ⟨place, ground, stands⟩ := Lock.acquire_stands lies.lock numbered fileName?_lockKey
        not_isReserved_marker.1 marker taken he
      obtain ⟨rfl, sound⟩ := isSound_of_acquire lies utc he stands
      have now : taken.now = start.now := (Machine.SameCircumstances.of_exec_eq he).now
      have read : (keeper.lock.readMarker lockKey).exec taken =
          (.ok (some ⟨lockKey, start.now, keeper.lock.holder⟩), taken) := by
        rw [Lock.readMarker, Lock.markerPath_eq lies.lock fileName?_lockKey, pure_bind]
        exact Lock.readMarkerAt_stands ground not_isReserved_marker.1 stands sound
      have aged : Lock.Marker.age? ⟨lockKey, start.now, keeper.lock.holder⟩ taken.now =
          some ⟨0⟩ := by
        simp [Lock.Marker.age?, Moment.since?, Moment.comparable, now]
      obtain ⟨failure, later, after, place', refused, leads, same, -⟩ :=
        (change_is_gated lies nobody (numbered.of_exec_eq he) (now ▸ utc)
          (.login "a" true)).1 _ _ read aged fresh
      have home : Ground start ⟨"/", ["home"]⟩ ["home"] :=
        Machine.ground_bare.exec made (changedOnly_of_make made)
      have only := Lock.acquire_confined lies.lock fileName?_lockKey not_isReserved_marker.1
        start home
      rw [he] at only
      obtain rfl : place' = ["home"] := Except.ok.inj (leads.symm.trans (home.exec he only).leads)
      exact ⟨failure, later, after, refused, same⟩
  · obtain ⟨isPrepared, isTaken⟩ := prepared
    rcases he : (keeper.prepare (.login "a" true)).exec none start with
      ⟨_ | task, later, between⟩ <;> rw [he] at isPrepared isTaken
    · cases isPrepared
    · rcases ha : (keeper.lock.acquire lockKey).exec between with ⟨_ | marker, taken⟩ <;>
        rw [ha] at isTaken
      · cases isTaken
      · exact (change_is_gated lies nobody numbered utc (.login "a" true)).2 _ _ _ _ _ he ha

end SessionKeeper.Keeper
